import CoherentDB.Util.Misc

/-!
# Text

What the reader of `ini_config` and `convert_pretty_function` share: the characters of a
`std::string` or a C string and their classes.
-/

namespace CoherentDB
namespace Util

/-- The characters of a `std::string`, or of a C string without the NUL at its end. -/
abbrev Text := List Byte

/-- The characters of a literal. -/
def chars (s : String) : Text := s.toList.map Char.toUInt8

/-- `[a-zA-Z]`. -/
def isLetter (c : Byte) : Bool :=
  ('a'.toUInt8 ≤ c && c ≤ 'z'.toUInt8) || ('A'.toUInt8 ≤ c && c ≤ 'Z'.toUInt8)

/-- `[a-zA-Z0-9_]`. -/
def isWordChar (c : Byte) : Bool :=
  isLetter c || ('0'.toUInt8 ≤ c && c ≤ '9'.toUInt8) || c == '_'.toUInt8

end Util
end CoherentDB
