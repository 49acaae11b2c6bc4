import CoherentDB.Debug.Asserts
import CoherentDB.Lib.ListRange
import CoherentDB.Util.Misc

/-!
# Encoders and decoders

A codec uses its encoder through `write_char` and `memcpy` only, and what it asks
for does not depend on what the encoder does with it.  So encoding yields a list
of operations, and an encoder is what it does with each of them.  A decoder gives
one `char`, or fills a piece of memory.

`buffer_encoder` appends to a vector of chars; `buffer_decoder` reads from one.  A
`memcpy` of no bytes takes the address of an element that is not there and touches
nothing.
-/

namespace CoherentDB
namespace Serialization

open Debug ListRange Util

/-- What a codec asks of an encoder. -/
inductive Operation
  | writeChar (c : Byte)
  | memcpy (src : List Byte)
  deriving DecidableEq, Repr

/-- The bytes of an operation. -/
def Operation.bytes : Operation → List Byte
  | .writeChar c => [c]
  | .memcpy src => src

/-- The bytes of a list of operations. -/
def bytesOf (operations : List Operation) : List Byte := operations.flatMap Operation.bytes

@[simp] theorem bytesOf_nil : bytesOf [] = [] := rfl

@[simp] theorem bytesOf_append (a b : List Operation) : bytesOf (a ++ b) = bytesOf a ++ bytesOf b :=
  List.flatMap_append

theorem bytesOf_flatMap {α : Type} (f : α → List Operation) (l : List α) :
    bytesOf (l.flatMap f) = l.flatMap fun x => bytesOf (f x) := by
  rw [bytesOf, List.flatMap_assoc]
  rfl

/-- `write_char` and `memcpy` of `buffer_encoder`. -/
def bufferEncoder (buffer : List Byte) : Operation → List Byte
  | .writeChar c => buffer ++ [c]
  | .memcpy src => overwrite (buffer ++ List.replicate src.length 0) buffer.length src

/-- `buffer_encoder` appends the bytes it is asked to write. -/
theorem foldl_bufferEncoder (operations : List Operation) (buffer : List Byte) :
    operations.foldl bufferEncoder buffer = buffer ++ bytesOf operations := by
  induction operations generalizing buffer with
  | nil => rw [List.foldl_nil, bytesOf_nil, List.append_nil]
  | cons operation rest ih =>
      have hone : bufferEncoder buffer operation = buffer ++ operation.bytes := by
        cases operation with
        | writeChar c => rfl
        | memcpy src => simp [bufferEncoder, overwrite, Operation.bytes]
      rw [List.foldl_cons, ih, hone, List.append_assoc]
      rfl

/-- The exceptions of a decoder. -/
inductive DecodeError
  | outOfRange (what : String)
  | runtimeError (what : String)
  deriving DecidableEq, Repr

/-- A decoder over a state `σ`. -/
structure Decoder (σ : Type) where
  getChar : σ → Except DecodeError (Byte × σ)
  memcpy : ℕ → σ → Except DecodeError (List Byte × σ)

/-- `buffer_decoder`; the state is what lies between its two iterators. -/
def bufferDecoder : Decoder (List Byte) where
  getChar
    | [] => .error (.outOfRange "buffer_decoder::get_char")
    | c :: rest => .ok (c, rest)
  memcpy n input :=
    if input.length < n then .error (.outOfRange "buffer_decoder::memcpy")
    else .ok (input.take n, input.drop n)

end Serialization
end CoherentDB
