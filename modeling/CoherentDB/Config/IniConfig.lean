import CoherentDB.Lib.CharPattern
import CoherentDB.Lib.OrderedTable
import CoherentDB.Util.Text

/-!
# `ini_config`

The constructor of `ini_config` reads a file line by line.  A line is cut at its first
`;` and is then blank, an attribute or a section, or the file is rejected.  The values go
into a map from the section and the attribute to the text behind the `=`.

A stream that a line without a newline has taken to its end gives one more, empty line;
it is of no consequence, so the lines are those between the newlines.

Two classes of the pattern for attributes differ in what they exclude: the first
character of a value may be a `]` and the others may not.
-/

namespace CoherentDB
namespace Config

open Debug Util Patterns Containers

/-- How the constructor can end without a value: a `config_exception` with its line and its text,
or a failed `d_assert`. -/
inductive ConfigFailure
  | exception (lineNo : ℤ) (descr : String)
  | assertion
  deriving DecidableEq, Repr

/-- `config_exception::NO_LINE`. -/
def noLine : ℤ := -1

section Characters

def isBlank (c : Byte) : Bool := c == ' '.toUInt8 || c == '\t'.toUInt8

/-- `isspace`: blanks, newline, vertical tab, form feed and carriage return. -/
def isSpace (c : Byte) : Bool := c == ' '.toUInt8 || (9 ≤ c && c ≤ 13)

/-- `[^ \t=\[\[]`. -/
def isFirstValueChar (c : Byte) : Bool := !isBlank c && c != '='.toUInt8 && c != '['.toUInt8

/-- `[^=\[\]]`. -/
def isValueChar (c : Byte) : Bool :=
  c != '='.toUInt8 && c != '['.toUInt8 && c != ']'.toUInt8

end Characters

section Patterns

def blanks : List (Item Byte) := [.star isBlank]

def identifier : List (Item Byte) := [.one isLetter, .star isWordChar]

/-- A given character. -/
def just (c : Char) : List (Item Byte) := [.one (· == c.toUInt8)]

/-- The value of an attribute, from its first character that is not blank. -/
def valueChars : List (Item Byte) := [.one isFirstValueChar, .star isValueChar]

/-- `reg_attr`. -/
def regAttr : List (Item Byte) :=
  blanks ++ identifier ++ blanks ++ just '=' ++ blanks ++ valueChars

/-- `reg_sect`. -/
def regSect : List (Item Byte) :=
  blanks ++ just '[' ++ blanks ++ identifier ++ blanks ++ just ']' ++ blanks

end Patterns

section Lines

/-- `line_is_white`. -/
def lineIsWhite (s : Text) : Bool := s.all isBlank

/-- `std::string::find`. -/
def find (s : Text) (c : Char) : Option ℕ := s.findIdx? (· == c.toUInt8)

/-- `strip_comments`. -/
def stripComments (s : Text) : Text :=
  let res :=
    match find s ';' with
    | none => s
    | some hash => s.take hash
  if lineIsWhite res then [] else res

/-- What `ss >> res` reads from a `stringstream` with the text. -/
def firstWord (s : Text) : Text := (s.dropWhile isSpace).takeWhile fun c => !isSpace c

/-- `get_attr`. -/
def getAttr (attrLine : Text) : Except ConfigFailure Text :=
  match find attrLine '=' with
  | none => .error .assertion
  | some pos => .ok (firstWord (attrLine.take pos))

/-- `get_val`. -/
def getVal (attrLine : Text) : Except ConfigFailure Text :=
  match find attrLine '=' with
  | none => .error .assertion
  | some pos => do
      dAssertElse .assertion (pos + 1 < attrLine.length)
      let res := attrLine.drop (pos + 1)
      dAssertElse .assertion (lineIsWhite res = false)
      return res

/-- `get_sect_name`. -/
def getSectName (s : Text) : Except ConfigFailure Text :=
  match find s '[', find s ']' with
  | some first, some last => do
      dAssertElse .assertion (first < last)
      let resWithWhite := (s.drop (first + 1)).take (last - first - 1)
      dAssertElse .assertion (lineIsWhite resWithWhite = false)
      let res := firstWord resWithWhite
      dAssertElse .assertion (res ≠ [])
      return res
  | _, _ => .error .assertion

end Lines

/-- An entry of the map from section and attribute to value. -/
structure Entry where
  sect : Text
  attr : Text
  val : Text
  deriving DecidableEq, Repr

/-- The order of `std::string`, which compares the characters unsigned. -/
def order (s : Text) : List ℕ := s.map UInt8.toNat

/-- The order of `std::pair<section, std::string>`. -/
def idOrder (sect attr : Text) : List ℕ ×ₗ List ℕ := toLex (order sect, order attr)

def Entry.key (entry : Entry) : List ℕ ×ₗ List ℕ := idOrder entry.sect entry.attr

/-- `value_map`. -/
abbrev ValueMap := OrderedTable Entry Entry.key

/-- The variables of the constructor's loop. -/
structure Parser where
  curSect : Text
  lineNo : ℕ
  values : ValueMap

/-- One round of the loop. -/
def parseLine (p : Parser) (line : Text) : Except ConfigFailure Parser :=
  let lineNo := p.lineNo + 1
  let line := stripComments line
  if line = [] then .ok { p with lineNo := lineNo }
  else if accepts regAttr line then
    if p.curSect = [] then .error (.exception lineNo "each attribute has to be in a section")
    else do
      let val ← getVal line
      let attr ← getAttr line
      if (p.values.find? (idOrder p.curSect attr)).isSome then
        .error (.exception lineNo "duplicate entry")
      else
        .ok { p with lineNo := lineNo, values := p.values.insert ⟨p.curSect, attr, val⟩ }
  else if accepts regSect line then do
    let curSect ← getSectName line
    if (p.values.lowerBound (idOrder curSect [])).any (·.sect = curSect) then
      .error (.exception lineNo "section redefinition")
    else .ok { p with curSect := curSect, lineNo := lineNo }
  else .error (.exception lineNo "invalid line format")

/-- `ini_config::ini_config` for a file with the given content, or none where it cannot be
opened. -/
def iniConfig (file : String) : Option Text → Except ConfigFailure ValueMap
  | none => .error (.exception noLine ("failed to open file \"" ++ file ++ "\""))
  | some text => do
      let p ← (text.splitOn '\n'.toUInt8).foldlM parseLine ⟨[], 0, OrderedTable.empty⟩
      return p.values

end Config
end CoherentDB
