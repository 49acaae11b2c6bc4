import CoherentDB.Lib.ByteOrder
import CoherentDB.Lib.SortedSet
import CoherentDB.Serialization.Encoders

/-!
# The codecs

`Serializable α` says how the C++ type that `α` stands for is built: it is the
universe of types that the codecs are specialised for.  A struct is the list of the
fields that its `for_each` visits; it is encoded and decoded field by field, like a
pair.

`encode` and `decode` follow the specialisations of `little_endian_codec` and
`big_endian_codec`, and those that `make_codec_with_default_optimizer` puts in their
place: 64-bit integers, strings and vectors of integers are copied as they lie in
the host's memory.  All nested values go through the codec of the encoder again.

Decoding works on a target that has a value already.  `fresh` gives the content of
the objects that decoding creates itself: the new elements of a resized sequence and
the value that is read before it is inserted into a set.
-/

namespace CoherentDB
namespace Serialization

open Debug ByteOrder Util

/-- The integer types of more than one `char`, and `int8_t`. -/
inductive IntType
  | int8
  | uint16
  | int16
  | uint32
  | int32
  | uint64
  | int64
  deriving DecidableEq, Repr

namespace IntType

/-- `sizeof`. -/
def size : IntType → ℕ
  | .int8 => 1
  | .uint16 | .int16 => 2
  | .uint32 | .int32 => 4
  | .uint64 | .int64 => 8

def signed : IntType → Bool
  | .int8 | .int16 | .int32 | .int64 => true
  | .uint16 | .uint32 | .uint64 => false

/-- The values, as two's complement words. -/
abbrev Value (k : IntType) : Type := BitVec (8 * k.size)

/-- `x >> i`. -/
def shiftRight (k : IntType) (x : k.Value) (i : ℕ) : k.Value :=
  if k.signed then x.sshiftRight i else x >>> i

end IntType

/-- The types that can be serialized. -/
inductive Serializable : Type → Type 1
  | char : Serializable Byte
  | uint8 : Serializable Byte
  | int (k : IntType) : Serializable k.Value
  | string : Serializable (List Byte)
  | vector {α : Type} (t : Serializable α) : Serializable (List α)
  | list {α : Type} (t : Serializable α) : Serializable (List α)
  | set {α : Type} (t : Serializable α) (cmp : Comparator α) : Serializable (SortedSet cmp)
  | pair {α β : Type} (first : Serializable α) (second : Serializable β) : Serializable (α × β)
  | noFields : Serializable Unit
  | fields {α β : Type} (first : Serializable α) (rest : Serializable β) : Serializable (α × β)

/-- A codec: one of the two byte orders, or the default optimizer over it on a host of some
byte order. -/
inductive Codec
  | plain (order : Endian)
  | withDefaultOptimizer (order host : Endian)
  deriving DecidableEq, Repr

namespace Codec

def order : Codec → Endian
  | .plain order | .withDefaultOptimizer order _ => order

/-- The byte order of the host, where the codec copies memory. -/
def host? : Codec → Option Endian
  | .plain _ => none
  | .withDefaultOptimizer _ host => some host

/-- The byte order of the host, where the codec copies an integer: `sizeof(T) >= 8`. -/
def copies? (c : Codec) (k : IntType) : Option Endian := if 8 ≤ k.size then c.host? else none

end Codec

/-- A type for which `is_integral` holds, and how its values lie in memory. -/
structure Integral (α : Type) where
  size : ℕ
  image : Endian → α → List Byte
  value : Endian → List Byte → α

/-- `char` and `uint8_t`. -/
def Integral.byte : Integral Byte := ⟨1, fun _ c => [c], fun _ bytes => bytes.headD 0⟩

def Integral.int (k : IntType) : Integral k.Value :=
  ⟨k.size, fun host x => ByteOrder.image host x k.size, fun host => ByteOrder.value host _⟩

/-- `boost::is_integral`. -/
def Serializable.integral? : {α : Type} → Serializable α → Option (Integral α)
  | _, .char | _, .uint8 => some Integral.byte
  | _, .int k => some (Integral.int k)
  | _, .string | _, .vector _ | _, .list _ | _, .set _ _ | _, .pair _ _ | _, .noFields
  | _, .fields _ _ => none

section Encode

/-- `little_endian_int_codec::encode`. -/
def littleEndianEncode (k : IntType) (x : k.Value) : List Operation :=
  (List.range k.size).map fun i => .writeChar (lowByte (k.shiftRight x (8 * i) &&& 0xff))

/-- `big_endian_int_codec::encode`. -/
def bigEndianEncode (k : IntType) (x : k.Value) : List Operation :=
  (List.range k.size).reverse.map fun i => .writeChar (lowByte (k.shiftRight x (8 * i)))

/-- The `encode` of `little_endian_codec` and `big_endian_codec` for an integer type. -/
def intCodecEncode (k : IntType) (x : k.Value) : Endian → List Operation
  | .little => littleEndianEncode k x
  | .big => bigEndianEncode k x

/-- `general_optimizer::encode` for integers of 8 bytes, else the codec's own. -/
def encodeInt (c : Codec) (k : IntType) (x : k.Value) : List Operation :=
  match c.copies? k with
  | some host => [.memcpy (image host x k.size)]
  | none => intCodecEncode k x c.order

/-- `enc(static_cast<uint32_t>(s.size()))`. -/
def encodeSize (c : Codec) (n : ℕ) : List Operation := encodeInt c .uint32 (BitVec.ofNat _ n)

/-- The `encode` of `standard_sequence_codec` and of `unique_container_codec`. -/
def standardSequenceEncode {α : Type} (c : Codec) (enc : α → List Operation) (s : List α) :
    List Operation :=
  encodeSize c s.length ++ s.flatMap enc

/-- `sequence_optimizer::encode`. -/
def sequenceOptimizerEncode {α : Type} (c : Codec) (integral : Integral α) (host : Endian)
    (s : List α) : List Operation :=
  encodeSize c s.length ++ [.memcpy (s.flatMap (integral.image host))]

/-- `Codec<T>::encode`. -/
def encode (c : Codec) : {α : Type} → Serializable α → α → List Operation
  | _, .char, x | _, .uint8, x => [.writeChar x]
  | _, .int k, x => encodeInt c k x
  | _, .string, s =>
      match c.host? with
      | some host => sequenceOptimizerEncode c Integral.byte host s
      | none => standardSequenceEncode c (fun x => [.writeChar x]) s
  | _, .vector t, s =>
      match c.host?, t.integral? with
      | some host, some integral => sequenceOptimizerEncode c integral host s
      | _, _ => standardSequenceEncode c (encode c t) s
  | _, .list t, s => standardSequenceEncode c (encode c t) s
  | _, .set t _, s => standardSequenceEncode c (encode c t) s.elems
  | _, .pair first second, p => encode c first p.1 ++ encode c second p.2
  | _, .noFields, _ => []
  | _, .fields first rest, p => encode c first p.1 ++ encode c rest p.2

end Encode

section Decode

variable {σ : Type} (d : Decoder σ)

/-- The loop of `little_endian_int_codec::decode` with `n` rounds to go. -/
def littleEndianLoop (w : ℕ) : ℕ → ℕ → BitVec w → σ → Except DecodeError (BitVec w × σ)
  | 0, _, x, s => .ok (x, s)
  | n + 1, i, x, s => do
      let (c, s) ← d.getChar s
      littleEndianLoop w n (i + 1) (x ||| (ofByte w c <<< (8 * i))) s

/-- The loop of `big_endian_int_codec::decode` with `n` rounds to go. -/
def bigEndianLoop (w : ℕ) : ℕ → BitVec w → σ → Except DecodeError (BitVec w × σ)
  | 0, x, s => .ok (x, s)
  | n + 1, x, s => do
      let (c, s) ← d.getChar s
      bigEndianLoop w n ((x <<< 8) ||| ofByte w c) s

/-- The `decode` of `little_endian_codec` and `big_endian_codec` for an integer type. -/
def intCodecDecode (k : IntType) (s : σ) : Endian → Except DecodeError (k.Value × σ)
  | .little => littleEndianLoop d _ k.size 0 0 s
  | .big => bigEndianLoop d _ k.size 0 s

/-- `general_optimizer::decode` for integers of 8 bytes, else the codec's own. -/
def decodeInt (c : Codec) (k : IntType) (s : σ) : Except DecodeError (k.Value × σ) :=
  match c.copies? k with
  | some host => do
      let (bytes, s) ← d.memcpy k.size s
      return (value host _ bytes, s)
  | none => intCodecDecode d k s c.order

/-- `resize` with the content of new elements. -/
def resize {α : Type} (s : List α) (n : ℕ) (new : α) : List α :=
  s.take n ++ List.replicate (n - s.length) new

/-- Decode into each element in turn. -/
def decodeEach {α : Type} (dec : α → σ → Except DecodeError (α × σ)) :
    List α → σ → Except DecodeError (List α × σ)
  | [], s => .ok ([], s)
  | x :: rest, s => do
      let (x', s) ← dec x s
      let (rest', s) ← decodeEach dec rest s
      return (x' :: rest', s)

/-- `standard_sequence_codec::decode`. -/
def standardSequenceDecode {α : Type} (c : Codec) (new : α)
    (dec : α → σ → Except DecodeError (α × σ)) (target : List α) (s : σ) :
    Except DecodeError (List α × σ) := do
  let (x, s) ← decodeInt d c .uint32 s
  decodeEach dec (resize target x.toNat new) s

/-- The elements that a piece of memory holds. -/
def elementsOf {α : Type} (integral : Integral α) (host : Endian) : ℕ → List Byte → List α
  | 0, _ => []
  | n + 1, bytes =>
      integral.value host (bytes.take integral.size) ::
        elementsOf integral host n (bytes.drop integral.size)

/-- `sequence_optimizer::decode`: the memory of all elements is overwritten. -/
def sequenceOptimizerDecode {α : Type} (c : Codec) (integral : Integral α) (host : Endian)
    (new : α) (target : List α) (s : σ) : Except DecodeError (List α × σ) := do
  let (x, s) ← decodeInt d c .uint32 s
  let seq := resize target x.toNat new
  let (bytes, s) ← d.memcpy (integral.size * seq.length) s
  return (elementsOf integral host seq.length bytes, s)

/-- The loop of `unique_container_codec::decode` with `n` rounds to go. -/
def insertEach {α : Type} {cmp : Comparator α} (new : α)
    (dec : α → σ → Except DecodeError (α × σ)) :
    ℕ → SortedSet cmp → σ → Except DecodeError (SortedSet cmp × σ)
  | 0, cont, s => .ok (cont, s)
  | n + 1, cont, s => do
      let (val, s) ← dec new s
      insertEach new dec n (cont.insert val) s

/-- `unique_container_codec::decode`. -/
def uniqueContainerDecode {α : Type} (c : Codec) (cmp : Comparator α) (new : α)
    (dec : α → σ → Except DecodeError (α × σ)) (s : σ) :
    Except DecodeError (SortedSet cmp × σ) := do
  let (x, s) ← decodeInt d c .uint32 s
  insertEach new dec x.toNat SortedSet.empty s

/-- `Codec<T>::decode`. -/
def decode (fresh : {α : Type} → Serializable α → α) (c : Codec) :
    {α : Type} → Serializable α → α → σ → Except DecodeError (α × σ)
  | _, .char, _, s | _, .uint8, _, s => d.getChar s
  | _, .int k, _, s => decodeInt d c k s
  | _, .string, target, s =>
      match c.host? with
      | some host => sequenceOptimizerDecode d c Integral.byte host (fresh .char) target s
      | none => standardSequenceDecode d c (fresh .char) (fun _ => d.getChar) target s
  | _, .vector t, target, s =>
      match c.host?, t.integral? with
      | some host, some integral => sequenceOptimizerDecode d c integral host (fresh t) target s
      | _, _ => standardSequenceDecode d c (fresh t) (decode fresh c t) target s
  | _, .list t, target, s => standardSequenceDecode d c (fresh t) (decode fresh c t) target s
  | _, .set t cmp, _, s => uniqueContainerDecode d c cmp (fresh t) (decode fresh c t) s
  | _, .pair first second, target, s => do
      let (x, s) ← decode fresh c first target.1 s
      let (y, s) ← decode fresh c second target.2 s
      return ((x, y), s)
  | _, .noFields, target, s => .ok (target, s)
  | _, .fields first rest, target, s => do
      let (x, s) ← decode fresh c first target.1 s
      let (y, s) ← decode fresh c rest target.2 s
      return ((x, y), s)

end Decode

end Serialization
end CoherentDB
