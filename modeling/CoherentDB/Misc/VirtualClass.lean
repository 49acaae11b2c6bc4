import CoherentDB.Misc.TypeTree
import CoherentDB.Serialization.RoundTrip

/-!
# `Virtual`: serialization of polymorphic pointers

A pointer to a base class is encoded as the tag of the object's type followed by the
object's own encoding, or as the tag 0 where it is null.  The type is found by `fold`
over a list or a tree of types, with `tagged_encoder` and `tagged_decoder`.

Both ways lead to the same type for every tag (`fold_tagged`), so that the bytes do not
depend on the shape of the list or the tree, and decoding over either gives the object
back (`virtual_roundTrip`).
-/

namespace CoherentDB
namespace Misc

open Debug Util Serialization

/-- A base class with its types: their tags, how their objects are built and serialized, and
what `new Type()` makes. -/
structure BaseType (ι : Type) where
  tagType : TagType
  TAG : ι → tagType.Value
  Object : ι → Type
  serializable : (type : ι) → Serializable (Object type)
  create : (type : ι) → Object type

/-- The `TypeList` parameter of `Virtual`. -/
inductive TypeList (ι : Type)
  | list (types : List ι)
  | tree (types : BinaryTree ι)

/-- `fold`. -/
def fold {ι σ : Type} (f : FoldFunctor ι σ) : TypeList ι → σ → Except DecodeError σ
  | .list types => foldList f types
  | .tree types => foldTree f types

namespace BaseType

variable {ι : Type} (B : BaseType ι)

/-- A pointer: null, or to an object of one of the types. -/
abbrev Pointer : Type := Option (Σ type, B.Object type)

section Virtual

variable [DecidableEq ι]

/-- `static_cast<const Type&>`, which only the object's own type may be used for. -/
def staticCast (object : Σ type, B.Object type) (type : ι) :
    Except DecodeError (B.Object type) :=
  if h : object.1 = type then .ok (h ▸ object.2)
  else .error (.runtimeError "static_cast to another type")

/-- `tagged_encoder`; the state is what has been written. -/
def taggedEncoder (c : Codec) (object : Σ type, B.Object type) : FoldFunctor ι (List Operation) :=
  tagged B.TAG (B.TAG object.1) fun type written => do
    let x ← B.staticCast object type
    return written ++ Serialization.encode c B.tagType.serializable (B.TAG type) ++
      Serialization.encode c (B.serializable type) x

/-- `tagged_decoder`; the state is the pointer and the state of the decoder. -/
def taggedDecoder {σ : Type} (d : Decoder σ) (fresh : {α : Type} → Serializable α → α) (c : Codec)
    (tag : B.tagType.Value) : FoldFunctor ι (B.Pointer × σ) :=
  tagged B.TAG tag fun type state => do
    let (x, s) ← Serialization.decode d fresh c (B.serializable type) (B.create type) state.2
    return (some ⟨type, x⟩, s)

/-- `Virtual::encode`. -/
def encode (c : Codec) (types : TypeList ι) : B.Pointer → Except DecodeError (List Operation)
  | none => .ok (Serialization.encode c B.tagType.serializable B.tagType.zero)
  | some object => fold (B.taggedEncoder c object) types []

/-- `Virtual::decode` into a pointer. -/
def decode {σ : Type} (d : Decoder σ) (fresh : {α : Type} → Serializable α → α) (c : Codec)
    (types : TypeList ι) (pointer : B.Pointer) (s : σ) : Except DecodeError (B.Pointer × σ) := do
  let (tag, s) ← Serialization.decode d fresh c B.tagType.serializable
    (fresh B.tagType.serializable) s
  if tag = B.tagType.zero then return (none, s)
  else fold (B.taggedDecoder d fresh c tag) types (pointer, s)

end Virtual

/-- What should be written for a pointer: the tag 0, or the tag and the object. -/
def image (c : Codec) : B.Pointer → List Operation
  | none => Serialization.encode c B.tagType.serializable B.tagType.zero
  | some ⟨type, x⟩ =>
      Serialization.encode c B.tagType.serializable (B.TAG type) ++
        Serialization.encode c (B.serializable type) x

/-- All containers of the object have fewer than `2 ^ 32` elements. -/
def Small : B.Pointer → Prop
  | none => True
  | some ⟨type, x⟩ => (B.serializable type).Small x

/-- The tags are pairwise distinct, not 0, and the same numbers as `int`. -/
structure Tagged : Prop where
  distinct : Function.Injective B.TAG
  nonzero : ∀ type, B.TAG type ≠ B.tagType.zero
  fits : ∀ type, B.tagType.asInt (B.TAG type) = B.tagType.toInt (B.TAG type)

/-- A list of all types in any order, or a tree of all types that `tree_checker` accepts. -/
def Lists : TypeList ι → Prop
  | .list types => ∀ type, type ∈ types
  | .tree types => (∀ type, type ∈ types) ∧
      (treeChecker (fun type => B.tagType.asInt (B.TAG type)) types).ok = true

end BaseType

section Fold

variable {ι σ : Type} {B : BaseType ι} {types : TypeList ι}
  {act : ι → σ → Except DecodeError σ}

/-- **A list and a tree of all types lead a functor to the type with its tag.** -/
theorem fold_tagged (htags : B.Tagged) (htypes : B.Lists types) (type : ι) (s : σ) :
    fold (tagged B.TAG (B.TAG type) act) types s = act type s := by
  cases types with
  | list types =>
      have hfind : types.find? (fun other => B.TAG other = B.TAG type) = some type := by
        cases hfound : types.find? (fun other => B.TAG other = B.TAG type) with
        | none =>
            have hnone := List.find?_eq_none.mp hfound type (htypes type)
            simp at hnone
        | some other =>
            have htag := List.find?_some hfound
            rw [htags.distinct (of_decide_eq_true htag)]
      rw [fold, foldList_tagged, hfind, Option.elim_some]
  | tree types =>
      obtain ⟨hall, hok⟩ := htypes
      -- With tags that fit into an `int` the checker has seen the order of the search.
      have hordered := treeChecker_ok_iff.mp hok
      simp only [htags.fits] at hordered
      rw [fold, foldTree_tagged, hordered.search (hall type), Option.elim_some]

/-- **A functor with a tag of no type ends in an exception.** -/
theorem fold_unknown {tag : B.tagType.Value} (hunknown : ∀ type, B.TAG type ≠ tag) (s : σ) :
    ∃ what, fold (tagged B.TAG tag act) types s = .error (.runtimeError what) := by
  cases types with
  | list types =>
      have hfind : types.find? (fun type => B.TAG type = tag) = none := by
        rw [List.find?_eq_none]
        intro type _
        simpa using hunknown type
      rw [fold, foldList_tagged, hfind]
      exact ⟨_, rfl⟩
  | tree types =>
      rw [fold, foldTree_tagged]
      cases hsearch : types.search (fun type => B.tagType.toInt (B.TAG type))
          (B.tagType.toInt tag) with
      | none => exact ⟨_, rfl⟩
      | some type =>
          have hvalue := (BinaryTree.of_search hsearch).2
          exact absurd (B.tagType.toInt_injective hvalue) (hunknown type)

end Fold

section RoundTrip

variable {ι : Type} (B : BaseType ι)

theorem TagType.small (t : TagType) (x : t.Value) : t.serializable.Small x := by
  cases t <;> exact trivial

theorem BaseType.encode_eq [DecidableEq ι] (htags : B.Tagged) (c : Codec) {types : TypeList ι}
    (htypes : B.Lists types) (pointer : B.Pointer) :
    B.encode c types pointer = .ok (B.image c pointer) := by
  cases pointer with
  | none => rfl
  | some object =>
      rw [BaseType.encode, BaseType.taggedEncoder, fold_tagged htags htypes]
      simp only [BaseType.staticCast, dite_true]
      rfl

variable (fresh : {α : Type} → Serializable α → α) (c : Codec) (types : TypeList ι)
  (before : B.Pointer) (rest : List Byte)

/-- Decoding starts with the tag. -/
theorem BaseType.decode_tag (tag : B.tagType.Value) :
    B.decode bufferDecoder fresh c types before
        (bytesOf (Serialization.encode c B.tagType.serializable tag) ++ rest) =
      if tag = B.tagType.zero then .ok (none, rest)
      else fold (B.taggedDecoder bufferDecoder fresh c tag) types (before, rest) := by
  have htag := decode_undoes_encode fresh c B.tagType.serializable tag (B.tagType.small tag)
    (fresh B.tagType.serializable) rest
  rw [bufferEncode_eq] at htag
  rw [BaseType.decode, htag]
  rfl

theorem BaseType.decode_image (htags : B.Tagged) (htypes : B.Lists types) (pointer : B.Pointer)
    (hsmall : B.Small pointer) :
    B.decode bufferDecoder fresh c types before (bytesOf (B.image c pointer) ++ rest) =
      .ok (pointer, rest) := by
  cases pointer with
  | none =>
      rw [BaseType.image, BaseType.decode_tag, if_pos rfl]
  | some object =>
      obtain ⟨type, x⟩ := object
      have hobject := decode_undoes_encode fresh c (B.serializable type) x hsmall (B.create type)
        rest
      rw [bufferEncode_eq] at hobject
      rw [BaseType.image, bytesOf_append, List.append_assoc, BaseType.decode_tag,
        if_neg (htags.nonzero type), BaseType.taggedDecoder, fold_tagged htags htypes]
      simp only [hobject]
      rfl

end RoundTrip

/-- **Polymorphic pointers round-trip, by list or by tree.**  Over every list and every accepted
tree of all types the same operations are written: the tag 0 for null, else the tag and the
object.  Decoding their bytes over any list or tree gives the pointer back and leaves the rest,
if the containers of the object have fewer than `2 ^ 32` elements; and a tag of no type ends in an
exception. -/
theorem virtual_roundTrip {ι : Type} [DecidableEq ι] (B : BaseType ι) (htags : B.Tagged)
    (types : TypeList ι) (htypes : B.Lists types) (fresh : {α : Type} → Serializable α → α)
    (c : Codec) :
    (∀ pointer, B.encode c types pointer = .ok (B.image c pointer)) ∧
      (∀ pointer, B.Small pointer → ∀ before rest,
        B.decode bufferDecoder fresh c types before (bytesOf (B.image c pointer) ++ rest) =
          .ok (pointer, rest)) ∧
      ∀ tag, tag ≠ B.tagType.zero → (∀ type, B.TAG type ≠ tag) → ∀ before rest,
        ∃ what, B.decode bufferDecoder fresh c types before
            (bytesOf (Serialization.encode c B.tagType.serializable tag) ++ rest) =
          .error (.runtimeError what) := by
  refine ⟨B.encode_eq htags c htypes, ?_, ?_⟩
  · intro pointer hsmall before rest
    exact B.decode_image fresh c types before rest htags htypes pointer hsmall
  · intro tag hnonzero hunknown before rest
    rw [B.decode_tag, if_neg hnonzero]
    exact fold_unknown hunknown _

/-- The types of `vc_example`. -/
inductive AType
  | A1
  | A2
  deriving DecidableEq, Repr

/-- The base class `A` of `vc_example`: an `A1` has a string, an `A2` a `uint64_t`. -/
def A : BaseType AType where
  tagType := .int .int32
  TAG
    | .A1 => (1 : BitVec 32)
    | .A2 => (2 : BitVec 32)
  Object
    | .A1 => List Byte × Unit
    | .A2 => BitVec 64 × Unit
  serializable
    | .A1 => .fields .string .noFields
    | .A2 => .fields (.int .uint64) .noFields
  create
    | .A1 => ([], ())
    | .A2 => (0, ())

/-- `ACont::VTree`. -/
def vTree : TypeList AType := .tree (.node .A2 (.node .A1 .nil .nil) .nil)

theorem A_tagged : A.Tagged where
  distinct := by
    intro type other h
    cases type <;> cases other <;> first | rfl | exact absurd h (by decide)
  nonzero := by
    intro type
    cases type <;> decide
  fits := by
    intro type
    cases type <;> decide

theorem A_lists_vTree : A.Lists vTree := by
  constructor
  · intro type
    cases type with
    | A1 => exact Or.inl (Or.inr (Or.inl rfl))
    | A2 => exact Or.inr (Or.inl rfl)
  · decide

/-- The string of an `A1` comes back over the tree, with the `char` that follows it. -/
theorem virtual_roundTrip_A1 :
    A.decode bufferDecoder Serializable.zero (.plain .little) vTree none
        (bytesOf (A.image (.plain .little) (some ⟨.A1, ([65, 49], ())⟩)) ++ [120]) =
      .ok (some ⟨.A1, ([65, 49], ())⟩, [120]) := by
  have hround := virtual_roundTrip A A_tagged vTree A_lists_vTree Serializable.zero (.plain .little)
  have hsmall : [65, 49].length < 2 ^ 32 := by decide
  exact hround.2.1 (some ⟨.A1, ([65, 49], ())⟩) ⟨hsmall, trivial⟩ none [120]

/-- The number of elements is written modulo `2 ^ 32`. -/
theorem image_long_string {v : List Byte} (hlength : v.length = 2 ^ 32) :
    A.image (.plain .little) (some ⟨.A1, (v, ())⟩) =
      A.image (.plain .little) (some ⟨.A1, ([], ())⟩) ++ v.flatMap fun x => [.writeChar x] := by
  have hsize : (BitVec.ofNat (8 * IntType.uint32.size) (2 ^ 32)) = BitVec.ofNat _ 0 := by decide
  simp only [BaseType.image, A, Serialization.encode, Codec.host?, standardSequenceEncode,
    encodeSize, hlength, hsize, List.length_nil, List.flatMap_nil, List.append_nil,
    List.append_assoc]

theorem decode_long_string {v : List Byte} (hlength : v.length = 2 ^ 32) :
    A.decode bufferDecoder Serializable.zero (.plain .little) vTree none
        (bytesOf (A.image (.plain .little) (some ⟨.A1, (v, ())⟩))) =
      .ok (some ⟨.A1, ([], ())⟩, v) := by
  have hempty : A.Small (some ⟨.A1, ([], ())⟩) := ⟨Nat.two_pow_pos 32, trivial⟩
  have hchars : bytesOf (v.flatMap fun x => [Operation.writeChar x]) = v := by
    rw [bytesOf_flatMap]
    exact List.flatMap_singleton' v
  rw [image_long_string hlength, bytesOf_append, hchars]
  exact A.decode_image _ _ _ _ _ A_tagged A_lists_vTree _ hempty

/-- The size of a string of `2 ^ 32` chars is written as 0, so that it comes back empty. -/
theorem virtual_long_string_lost :
    A.Tagged ∧ A.Lists vTree ∧
      A.decode bufferDecoder Serializable.zero (.plain .little) vTree none
          (bytesOf (A.image (.plain .little) (some ⟨.A1, (List.replicate (2 ^ 32) 0, ())⟩))) ≠
        .ok (some ⟨.A1, (List.replicate (2 ^ 32) 0, ())⟩, []) := by
  refine ⟨A_tagged, A_lists_vTree, ?_⟩
  have hlength : (List.replicate (2 ^ 32) (0 : Byte)).length = 2 ^ 32 := List.length_replicate
  generalize List.replicate (2 ^ 32) (0 : Byte) = long at hlength
  intro hround
  rw [decode_long_string hlength] at hround
  have hrest : long = [] := (Prod.mk.inj (Except.ok.inj hround)).2
  rw [hrest] at hlength
  exact absurd hlength (by decide)

end Misc
end CoherentDB
