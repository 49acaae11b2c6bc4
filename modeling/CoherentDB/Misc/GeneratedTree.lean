import Mathlib.Data.Nat.Size
import CoherentDB.Misc.VirtualClass

/-!
# `vc_gen_test`

`vc_gen_test` writes a header with the classes `Foo_1` to `Foo_n`, each with one field of its own
and derived from `Base` or from a class before it, and with the typedefs of a tree of them, the
subtrees first.  `rand` chooses the bases and the fields.

A declaration refers to others by their names.  `elaborate` is what a compiler makes of the
declarations: a name is looked up among those before it, and must not be declared twice.  So
`generated_header_correct` says what the header means: its `BaseTree` is a search tree of all
classes that is as low as it can be, and polymorphic values round-trip over it.
-/

namespace CoherentDB
namespace Misc

open Util Serialization

/-! ### The language of the header -/

/-- The type of a field. -/
inductive FieldType
  | uint32
  | int8
  | uint16
  | charVector
  | string
  | pair
  deriving DecidableEq

namespace FieldType

def Value : FieldType → Type
  | .uint32 => IntType.uint32.Value
  | .int8 => IntType.int8.Value
  | .uint16 => IntType.uint16.Value
  | .charVector | .string => List Byte
  | .pair => IntType.uint32.Value × IntType.uint32.Value

def serializable : (t : FieldType) → Serializable t.Value
  | .uint32 => .int .uint32
  | .int8 => .int .int8
  | .uint16 => .int .uint16
  | .charVector => .vector .char
  | .string => .string
  | .pair => .pair (.int .uint32) (.int .uint32)

/-- The values of an object with these fields. -/
def Values : List FieldType → Type
  | [] => Unit
  | t :: rest => t.Value × Values rest

/-- What `for_each` visits, the inherited fields first. -/
def forEach : (fields : List FieldType) → Serializable (Values fields)
  | [] => .noFields
  | t :: rest => .fields t.serializable (forEach rest)

end FieldType

/-- What a name stands for; `ι` are the classes besides `Base`. -/
inductive Entity (ι : Type)
  /-- A class with its fields, the inherited ones first. -/
  | cls (type : Option ι) (fields : List FieldType)
  | tree (types : BinaryTree ι)

/-- The names that have been declared. -/
abbrev Declared (ι : Type) : Type := String → Option (Entity ι)

/-- A declaration of the header. -/
inductive Declaration (ι : Type)
  /-- `struct name : public base`, with a field. -/
  | cls (type : ι) (name base : String) (field : FieldType)
  /-- `typedef tree_node<current, left, right> name`, behind a comment with the depth. -/
  | treeNode (depth : ℕ) (current left right name : String)
  /-- `typedef source name`. -/
  | alias (source name : String)

section Elaboration

variable {ι : Type}

namespace Declared

/-- `Base` with its field, and `tree_leaf` of the library. -/
def start : Declared ι := fun name =>
  if name = "Base" then some (.cls none [.uint32])
  else if name = "tree_leaf" then some (.tree .nil)
  else none

variable (declared : Declared ι)

def add (name : String) (entity : Entity ι) : Option (Declared ι) :=
  if declared name = none then some (Function.update declared name (some entity)) else none

def fields? (name : String) : Option (List FieldType) :=
  match declared name with
  | some (.cls _ fields) => some fields
  | some (.tree _) | none => none

def class? (name : String) : Option ι :=
  match declared name with
  | some (.cls type _) => type
  | some (.tree _) | none => none

def tree? (name : String) : Option (BinaryTree ι) :=
  match declared name with
  | some (.tree types) => some types
  | some (.cls _ _) | none => none

/-- One declaration; none where it is ill-formed. -/
def declare : Declaration ι → Option (Declared ι)
  | .cls type name base field => do
      let inherited ← declared.fields? base
      declared.add name (.cls (some type) (inherited ++ [field]))
  | .treeNode _ current left right name => do
      let type ← declared.class? current
      let leftTree ← declared.tree? left
      let rightTree ← declared.tree? right
      declared.add name (.tree (.node type leftTree rightTree))
  | .alias source name => do
      let entity ← declared source
      declared.add name entity

end Declared

def elaborate : Declared ι → List (Declaration ι) → Option (Declared ι)
  | declared, [] => some declared
  | declared, declaration :: rest => do
      let declared ← declared.declare declaration
      elaborate declared rest

end Elaboration

/-! ### The generator -/

def fooName (cid : ℕ) : String := "Foo_" ++ toString cid

def treeName (left right : ℕ) : String := "tree_node_" ++ toString left ++ "_" ++ toString right

/-- The name of a base class. -/
def baseName (base : ℕ) : String := if base ≠ 0 then fooName base else "Base"

/-- `types`, of which `field` chooses one. -/
def fieldType (field : ℕ) : FieldType :=
  [FieldType.int8, .uint16, .charVector, .string].getD (field % 5) .pair

/-- `makeTreeFor`; `left` is 1 at least, since from 0 on `curr - 1` would wrap. -/
def makeTreeFor {ι : Type} (left right level : ℕ) : List (Declaration ι) :=
  if _ : 0 < left ∧ left ≤ right then
    let curr := left + (1 + right - left) / 2
    makeTreeFor left (curr - 1) (level + 2) ++ (makeTreeFor (curr + 1) right (level + 2) ++
      [.treeNode (level / 2 - 1) (fooName curr)
        (if left < curr then treeName left (curr - 1) else "tree_leaf")
        (if curr < right then treeName (curr + 1) right else "tree_leaf")
        (treeName left right)])
  else []
termination_by 1 + right - left
decreasing_by all_goals omega

/-- The class of a type; its base comes before it. -/
def classFor (rand : ℕ → ℕ) {n : ℕ} (type : Fin n) : Declaration (Fin n) :=
  let cid := type.val + 1
  .cls type (fooName cid) (baseName (rand (2 * type) % cid)) (fieldType (rand (2 * type + 1)))

/-- The header for `n` classes, where `rand` are the results of the calls of `rand()`. -/
def header (rand : ℕ → ℕ) (n : ℕ) : List (Declaration (Fin n)) :=
  (List.finRange n).map (classFor rand) ++
    (makeTreeFor 1 n 2 ++ [.alias (treeName 1 n) "BaseTree"])

/-! ### Names -/

section Names

variable {cid cid' left right left' right' : ℕ}

theorem toDigits_injective : Function.Injective (Nat.toDigits 10) := by
  intro m n h
  rw [← Nat.ofDigitChars_toDigits (b := 10) (n := m) (by decide) (by decide), h,
    Nat.ofDigitChars_toDigits (by decide) (by decide)]

theorem underscore_notMem_toDigits (n : ℕ) : '_' ∉ Nat.toDigits 10 n := by
  intro hmem
  have hdigit := Nat.isDigit_of_mem_toDigits (by decide) (by decide) hmem
  exact absurd hdigit (by decide)

/-- Where a separator stands in neither front, the fronts are the same. -/
theorem append_cons_inj {α : Type} {sep : α} {xs xs' ys ys' : List α} (hxs : sep ∉ xs)
    (hxs' : sep ∉ xs') (h : xs ++ sep :: ys = xs' ++ sep :: ys') : xs = xs' ∧ ys = ys' := by
  induction xs generalizing xs' with
  | nil =>
      cases xs' with
      | nil => exact ⟨rfl, (List.cons.inj h).2⟩
      | cons x' rest' =>
          obtain rfl := (List.cons.inj h).1
          exact absurd List.mem_cons_self hxs'
  | cons x rest ih =>
      cases xs' with
      | nil =>
          obtain rfl := (List.cons.inj h).1
          exact absurd List.mem_cons_self hxs
      | cons x' rest' =>
          obtain ⟨rfl, htail⟩ := List.cons.inj h
          obtain ⟨rfl, hys⟩ := ih (fun hmem => hxs (List.mem_cons_of_mem x hmem))
            (fun hmem => hxs' (List.mem_cons_of_mem x hmem)) htail
          exact ⟨rfl, hys⟩

theorem toList_fooName (cid : ℕ) :
    (fooName cid).toList = ['F', 'o', 'o', '_'] ++ Nat.toDigits 10 cid := by
  rw [fooName, String.toList_append, ← Nat.toList_repr]
  rfl

theorem toList_treeName (left right : ℕ) :
    (treeName left right).toList = ['t', 'r', 'e', 'e', '_', 'n', 'o', 'd', 'e', '_'] ++
      (Nat.toDigits 10 left ++ '_' :: Nat.toDigits 10 right) := by
  rw [treeName, String.toList_append, String.toList_append, String.toList_append,
    List.append_assoc, List.append_assoc, ← Nat.toList_repr, ← Nat.toList_repr]
  rfl

theorem fooName_inj : fooName cid = fooName cid' ↔ cid = cid' := by
  refine ⟨fun h => ?_, congrArg fooName⟩
  have hlist := congrArg String.toList h
  rw [toList_fooName, toList_fooName] at hlist
  exact toDigits_injective (List.append_cancel_left hlist)

theorem treeName_inj :
    treeName left right = treeName left' right' ↔ left = left' ∧ right = right' := by
  constructor
  · intro h
    have hlist := congrArg String.toList h
    rw [toList_treeName, toList_treeName] at hlist
    obtain ⟨hleft, hright⟩ := append_cons_inj (underscore_notMem_toDigits left)
      (underscore_notMem_toDigits left') (List.append_cancel_left hlist)
    exact ⟨toDigits_injective hleft, toDigits_injective hright⟩
  · rintro ⟨rfl, rfl⟩
    rfl

theorem fooName_ne_treeName : fooName cid ≠ treeName left right := by
  intro h
  have hlist := congrArg String.toList h
  rw [toList_fooName, toList_treeName] at hlist
  exact absurd (List.cons.inj hlist).1 (by decide)

theorem treeName_ne {name : String}
    (hname : name = "Base" ∨ name = "tree_leaf" ∨ name = "BaseTree") :
    name ≠ treeName left right := by
  intro h
  have hlist := congrArg String.toList h
  rw [toList_treeName] at hlist
  rcases hname with rfl | rfl | rfl <;> simp at hlist

theorem fooName_ne {name : String}
    (hname : name = "Base" ∨ name = "tree_leaf" ∨ name = "BaseTree") :
    name ≠ fooName cid := by
  intro h
  have hlist := congrArg String.toList h
  rw [toList_fooName] at hlist
  rcases hname with rfl | rfl | rfl <;> simp at hlist

end Names

/-! ### Elaboration -/

section Elaborated

variable {ι : Type} {declared declared' : Declared ι} {name : String} {entity : Entity ι}
  {first rest : List (Declaration ι)}

theorem elaborate_append (h : elaborate declared first = some declared') :
    elaborate declared (first ++ rest) = elaborate declared' rest := by
  induction first generalizing declared with
  | nil =>
      obtain rfl := Option.some.inj h
      rfl
  | cons declaration first ih =>
      obtain ⟨next, hnext, h⟩ := Option.bind_eq_some_iff.mp h
      rw [List.cons_append, elaborate, hnext]
      exact ih h

theorem elaborate_singleton {declaration : Declaration ι}
    (h : declared.declare declaration = some declared') :
    elaborate declared [declaration] = some declared' := by
  rw [elaborate, h]
  rfl

theorem Declared.add_of_fresh (h : declared name = none) :
    declared.add name entity = some (Function.update declared name (some entity)) :=
  if_pos h

theorem Declared.class?_of_cls {type : ι} {fields : List FieldType}
    (h : declared name = some (.cls (some type) fields)) : declared.class? name = some type := by
  rw [Declared.class?, h]

theorem Declared.tree?_of_tree {types : BinaryTree ι} (h : declared name = some (.tree types)) :
    declared.tree? name = some types := by
  rw [Declared.tree?, h]

end Elaborated

/-! ### The classes -/

/-- The fields of `Foo_cid`, and of `Base` for 0. -/
def inherited (rand : ℕ → ℕ) : ℕ → List FieldType
  | 0 => [.uint32]
  | i + 1 => inherited rand (rand (2 * i) % (i + 1)) ++ [fieldType (rand (2 * i + 1))]
decreasing_by exact Nat.mod_lt _ i.succ_pos

/-- The first `k` classes have been declared. -/
structure ClassesDeclared (rand : ℕ → ℕ) {n : ℕ} (k : ℕ) (declared : Declared (Fin n)) : Prop where
  cls : ∀ type : Fin n, type.val < k →
    declared (fooName (type + 1)) = some (.cls (some type) (inherited rand (type + 1)))
  later : ∀ cid, k < cid → declared (fooName cid) = none
  others : ∀ name, (∀ cid, name ≠ fooName cid) → declared name = Declared.start name

section Classes

variable {rand : ℕ → ℕ} {n k : ℕ} {declared : Declared (Fin n)}

theorem ClassesDeclared.start (rand : ℕ → ℕ) (n : ℕ) :
    ClassesDeclared rand 0 (Declared.start : Declared (Fin n)) := by
  refine ⟨fun type hlt => absurd hlt (Nat.not_lt_zero _), fun cid _ => ?_, fun name _ => rfl⟩
  rw [Declared.start, if_neg (fooName_ne (.inl rfl)).symm,
    if_neg (fooName_ne (.inr (.inl rfl))).symm]

/-- A base class is there with its fields. -/
theorem ClassesDeclared.fields?_baseName (h : ClassesDeclared rand k declared) (hk : k ≤ n)
    {base : ℕ} (hbase : base ≤ k) :
    declared.fields? (baseName base) = some (inherited rand base) := by
  cases base with
  | zero =>
      have hstart := h.others "Base" fun cid => fooName_ne (.inl rfl)
      rw [baseName, if_neg (not_not.mpr rfl), Declared.fields?, hstart, inherited]
      rfl
  | succ i =>
      have hcls := h.cls ⟨i, by omega⟩ (by show i < k; omega)
      rw [baseName, if_pos i.succ_ne_zero, Declared.fields?, hcls]

/-- The next class adds its field to those of its base. -/
theorem ClassesDeclared.declare (h : ClassesDeclared rand k declared) (hk : k < n) :
    ∃ declared', declared.declare (classFor rand ⟨k, hk⟩) = some declared' ∧
      ClassesDeclared rand (k + 1) declared' := by
  have hbase := h.fields?_baseName hk.le (Nat.lt_succ_iff.mp (Nat.mod_lt (rand (2 * k)) k.succ_pos))
  refine ⟨Function.update declared (fooName (k + 1))
    (some (.cls (some ⟨k, hk⟩) (inherited rand (k + 1)))), ?_, ?_, ?_, ?_⟩
  · rw [classFor, Declared.declare, inherited]
    show (declared.fields? (baseName (rand (2 * k) % (k + 1)))).bind _ = _
    rw [hbase]
    exact Declared.add_of_fresh (h.later (k + 1) k.lt_succ_self)
  · intro type hlt
    by_cases hnew : type.val = k
    · obtain rfl : type = ⟨k, hk⟩ := Fin.ext hnew
      exact Function.update_self ..
    · have hne : fooName (type + 1) ≠ fooName (k + 1) := fun heq =>
        hnew (Nat.succ.inj (fooName_inj.mp heq))
      rw [Function.update_of_ne hne]
      exact h.cls type (by omega)
  · intro cid hlater
    have hne : fooName cid ≠ fooName (k + 1) := fun heq => hlater.ne' (fooName_inj.mp heq)
    rw [Function.update_of_ne hne]
    exact h.later cid (by omega)
  · intro name hname
    rw [Function.update_of_ne (hname (k + 1))]
    exact h.others name hname

/-- The classes of the header are well-formed. -/
theorem elaborate_classes (rand : ℕ → ℕ) (n : ℕ) :
    ∃ declared, elaborate Declared.start ((List.finRange n).map (classFor rand)) = some declared ∧
      ClassesDeclared rand n declared := by
  have htake : ∀ k ≤ n, ∃ declared : Declared (Fin n),
      elaborate Declared.start (((List.finRange n).map (classFor rand)).take k) = some declared ∧
        ClassesDeclared rand k declared := by
    intro k
    induction k with
    | zero => exact fun _ => ⟨Declared.start, rfl, .start rand n⟩
    | succ k ih =>
        intro hk
        obtain ⟨declared, helaborate, h⟩ := ih (by omega)
        obtain ⟨declared', hdeclare, h'⟩ := h.declare hk
        have hlt : k < (List.finRange n).length := by
          rw [List.length_finRange]
          exact hk
        have hget : ((List.finRange n).map (classFor rand))[k]? = some (classFor rand ⟨k, hk⟩) := by
          rw [List.getElem?_map, List.getElem?_eq_getElem hlt, List.getElem_finRange]
          rfl
        refine ⟨declared', ?_, h'⟩
        rw [List.take_add_one, hget, elaborate_append helaborate]
        exact elaborate_singleton hdeclare
  obtain ⟨declared, helaborate, h⟩ := htake n le_rfl
  rw [List.take_of_length_le (by simp)] at helaborate
  exact ⟨declared, helaborate, h⟩

end Classes

/-! ### The tree -/

/-- The name of the tree for this range, which is empty where `right < left`. -/
def rangeName (left right : ℕ) : String :=
  if left ≤ right then treeName left right else "tree_leaf"

/-- The typedefs for a range have been declared, and they make this tree. -/
structure TreeDeclared {n : ℕ} (left right : ℕ) (declared declared' : Declared (Fin n))
    (tree : BinaryTree (Fin n)) : Prop where
  named : declared' (rangeName left right) = some (.tree tree)
  /-- Only names of ranges inside have been added. -/
  frame : ∀ name, (∀ l r, left ≤ l → l ≤ r → r ≤ right → name ≠ treeName l r) →
    declared' name = declared name
  inorder : tree.inorder.map (fun type => type.val + 1) = List.range' left (1 + right - left)
  height : tree.height = (1 + right - left).size

section Tree

theorem size_eq_size_half {s : ℕ} (hs : 0 < s) : s.size = (s / 2).size + 1 := by
  apply le_antisymm
  · have hlt := (s / 2).lt_size_self
    rw [Nat.size_le, pow_succ]
    omega
  · rw [Nat.succ_le_iff, Nat.lt_size]
    by_cases hhalf : s / 2 = 0
    · rw [hhalf, Nat.size_zero]
      exact hs
    · obtain ⟨m, hm⟩ := Nat.exists_eq_succ_of_ne_zero (Nat.size_eq_zero.not.mpr hhalf)
      have hle : 2 ^ m ≤ s / 2 := Nat.lt_size.mp (by omega)
      rw [hm, pow_succ]
      omega

variable {n left right : ℕ} {declared : Declared (Fin n)}

theorem TreeDeclared.empty (hleaf : declared "tree_leaf" = some (.tree .nil)) (h : right < left) :
    TreeDeclared left right declared declared .nil := by
  have hsize : 1 + right - left = 0 := by omega
  refine ⟨?_, fun name _ => rfl, ?_, ?_⟩
  · rw [rangeName, if_neg (by omega)]
    exact hleaf
  · rw [hsize]
    rfl
  · rw [hsize]
    rfl

/-- What `makeTreeFor` needs: the classes and the leaf are there, and no name of a range inside. -/
structure ReadyFor (left right : ℕ) (declared : Declared (Fin n)) : Prop where
  classes : ∀ type : Fin n, declared.class? (fooName (type + 1)) = some type
  leaf : declared "tree_leaf" = some (.tree .nil)
  fresh : ∀ l r, left ≤ l → l ≤ r → r ≤ right → declared (treeName l r) = none

/-- The typedefs of a range on the left leave everything ready for the ranges behind it. -/
theorem ReadyFor.after {l₁ r₁ : ℕ} {declared' : Declared (Fin n)} {tree : BinaryTree (Fin n)}
    (h : ReadyFor l₁ r₁ declared) {l₂ r₂ : ℕ} (hl : l₁ ≤ l₂) (hr : r₂ ≤ r₁) {mid : ℕ}
    (hmid : mid < l₂) {l₀ : ℕ} (htree : TreeDeclared l₀ mid declared declared' tree) :
    ReadyFor l₂ r₂ declared' := by
  constructor
  case classes =>
    intro type
    have hsame := htree.frame (fooName (type + 1)) fun l r _ _ _ => fooName_ne_treeName
    rw [Declared.class?, hsame]
    exact h.classes type
  case leaf =>
    rw [htree.frame "tree_leaf" fun l r _ _ _ => treeName_ne (.inr (.inl rfl))]
    exact h.leaf
  case fresh =>
    intro l r hll hlr hrr
    rw [htree.frame (treeName l r) ?_]
    · exact h.fresh l r (by omega) hlr (by omega)
    · intro l' r' _ hlr' hr' heq
      obtain ⟨rfl, -⟩ := treeName_inj.mp heq
      omega

theorem TreeDeclared.class?_eq {declared' : Declared (Fin n)} {tree : BinaryTree (Fin n)}
    (h : TreeDeclared left right declared declared' tree) (cid : ℕ) :
    declared'.class? (fooName cid) = declared.class? (fooName cid) := by
  rw [Declared.class?, Declared.class?, h.frame (fooName cid) fun l r _ _ _ => fooName_ne_treeName]

theorem rangeName_ne {l r : ℕ} (h : left ≠ l) : rangeName left right ≠ treeName l r := by
  rw [rangeName]
  split_ifs
  · exact fun heq => h (treeName_inj.mp heq).1
  · exact treeName_ne (.inr (.inl rfl))

/-- The entries of a node between its two sides. -/
theorem range'_around {curr : ℕ} (hlow : left ≤ curr) (hhigh : curr ≤ right) :
    List.range' left (curr - left) ++ curr :: List.range' (curr + 1) (right - curr) =
      List.range' left (1 + right - left) := by
  have hright : curr :: List.range' (curr + 1) (right - curr) =
      List.range' (left + (curr - left)) (right - curr + 1) := by
    rw [Nat.add_sub_cancel' hlow, List.range'_succ]
  rw [hright, List.range'_append_1]
  congr 1
  omega

/-- A node over the trees of both sides. -/
theorem TreeDeclared.node {declared₁ declared₂ : Declared (Fin n)}
    {leftTree rightTree : BinaryTree (Fin n)} {curr : ℕ} {type : Fin n}
    (hcurr : curr = left + (1 + right - left) / 2) (hrange : 0 < left ∧ left ≤ right)
    (htype : type.val + 1 = curr)
    (htree₁ : TreeDeclared left (curr - 1) declared declared₁ leftTree)
    (htree₂ : TreeDeclared (curr + 1) right declared₁ declared₂ rightTree) :
    TreeDeclared left right declared
      (Function.update declared₂ (treeName left right)
        (some (.tree (.node type leftTree rightTree))))
      (.node type leftTree rightTree) := by
  have hlow : 1 + (curr - 1) - left = curr - left := by omega
  have hhigh : 1 + right - (curr + 1) = right - curr := by omega
  constructor
  case named =>
    rw [rangeName, if_pos hrange.2]
    exact Function.update_self ..
  case frame =>
    intro name hname
    rw [Function.update_of_ne (hname left right le_rfl hrange.2 le_rfl),
      htree₂.frame name fun l r hl hlr hr => hname l r (by omega) hlr hr,
      htree₁.frame name fun l r hl hlr hr => hname l r hl hlr (by omega)]
  case inorder =>
    rw [BinaryTree.inorder, List.map_append, List.map_cons, htree₁.inorder, htree₂.inorder, htype,
      hlow, hhigh]
    exact range'_around (by omega) (by omega)
  case height =>
    have hhalf : curr - left = (1 + right - left) / 2 := by omega
    have hle : (right - curr).size ≤ (curr - left).size := Nat.size_le_size (by omega)
    rw [BinaryTree.height, htree₁.height, htree₂.height, hlow, hhigh, max_eq_left hle, hhalf]
    exact (size_eq_size_half (by omega)).symm

/-- **`makeTreeFor` declares a tree of its range**, as low as it can be. -/
theorem makeTreeFor_declares (level : ℕ) (hleft : 0 < left) (hright : right ≤ n)
    (hready : ReadyFor left right declared) :
    ∃ declared' tree, elaborate declared (makeTreeFor left right level) = some declared' ∧
      TreeDeclared left right declared declared' tree := by
  induction left, right, level using makeTreeFor.induct generalizing declared with
  | case2 left right level hempty =>
      rw [makeTreeFor, dif_neg hempty]
      exact ⟨declared, .nil, rfl, .empty hready.leaf (by omega)⟩
  | case1 left right level hrange curr ihleft =>
      rename_i ihright
      have hcurr : curr = left + (1 + right - left) / 2 := rfl
      clear_value curr
      have hhigh : curr ≤ right := by omega
      obtain ⟨declared₁, leftTree, helaborate₁, htree₁⟩ := ihleft hleft (by omega)
        ⟨hready.classes, hready.leaf, fun l r hl hlr hr => hready.fresh l r hl hlr (by omega)⟩
      have hready₁ : ReadyFor (curr + 1) right declared₁ :=
        hready.after (by omega) le_rfl (by omega) htree₁
      obtain ⟨declared₂, rightTree, helaborate₂, htree₂⟩ := ihright (by omega) hright hready₁
      -- The node finds its class and both sides, and its own name is still free.
      obtain ⟨type, htype⟩ : ∃ type : Fin n, type.val + 1 = curr :=
        ⟨⟨curr - 1, by omega⟩, Nat.sub_add_cancel (by omega)⟩
      have hclass : declared₂.class? (fooName curr) = some type := by
        rw [htree₂.class?_eq, htree₁.class?_eq, ← htype]
        exact hready.classes type
      have hleftTree : declared₂ (rangeName left (curr - 1)) = some (.tree leftTree) := by
        rw [htree₂.frame _ fun l r hl _ _ => rangeName_ne (by omega)]
        exact htree₁.named
      have hfresh : declared₂ (treeName left right) = none := by
        rw [htree₂.frame, htree₁.frame]
        · exact hready.fresh left right le_rfl hrange.2 le_rfl
        · intro l r _ _ hr heq
          have hsame := (treeName_inj.mp heq).2
          omega
        · intro l r hl _ _ heq
          have hsame := (treeName_inj.mp heq).1
          omega
      have hleftName : (if left < curr then treeName left (curr - 1) else "tree_leaf") =
          rangeName left (curr - 1) := if_congr (by omega) rfl rfl
      have hrightName : (if curr < right then treeName (curr + 1) right else "tree_leaf") =
          rangeName (curr + 1) right := if_congr (by omega) rfl rfl
      refine ⟨_, _, ?_, .node hcurr hrange htype htree₁ htree₂⟩
      rw [makeTreeFor, dif_pos hrange, ← hcurr]
      dsimp only
      rw [elaborate_append helaborate₁, elaborate_append helaborate₂, hleftName, hrightName]
      apply elaborate_singleton
      rw [Declared.declare, hclass, Declared.tree?_of_tree hleftTree,
        Declared.tree?_of_tree htree₂.named]
      exact Declared.add_of_fresh hfresh

end Tree

/-! ### The generated header -/

/-- `Base` with the classes of the header, whose `TAG`s are their numbers. -/
def generatedBase (rand : ℕ → ℕ) (n : ℕ) : BaseType (Fin n) where
  tagType := .int .uint16
  TAG type := BitVec.ofNat (8 * IntType.uint16.size) (type.val + 1)
  Object type := FieldType.Values (inherited rand (type.val + 1))
  serializable type := FieldType.forEach (inherited rand (type.val + 1))
  create type := (FieldType.forEach (inherited rand (type.val + 1))).zero

section Generated

variable {rand : ℕ → ℕ} {n : ℕ} {tree : BinaryTree (Fin n)}

theorem toInt_tag (rand : ℕ → ℕ) (type : Fin n) :
    (generatedBase rand n).tagType.toInt ((generatedBase rand n).TAG type) =
      (((type.val + 1) % 2 ^ 16 : ℕ) : ℤ) :=
  congrArg Nat.cast (BitVec.toNat_ofNat (type.val + 1) 16)

theorem asInt_tag (rand : ℕ → ℕ) (type : Fin n) :
    (generatedBase rand n).tagType.asInt ((generatedBase rand n).TAG type) =
      (generatedBase rand n).tagType.toInt ((generatedBase rand n).TAG type) := by
  apply TagType.asInt_eq
  rw [toInt_tag]
  omega

theorem map_finRange_succ (n : ℕ) :
    (List.finRange n).map (fun type => type.val + 1) = List.range' 1 n := by
  have hrange : (List.finRange n).map (fun type => type.val) = List.range n :=
    List.map_coe_finRange_eq_range
  rw [List.range'_eq_map_range, ← hrange, List.map_map]
  exact List.map_congr_left fun type _ => Nat.add_comm _ 1

/-- The numbers of the classes in the order of the tree give the classes. -/
theorem inorder_eq_finRange
    (h : tree.inorder.map (fun type => type.val + 1) = List.range' 1 n) :
    tree.inorder = List.finRange n := by
  have hinjective : Function.Injective fun type : Fin n => type.val + 1 := fun type other heq =>
    Fin.ext (Nat.succ.inj heq)
  exact hinjective.list_map (h.trans (map_finRange_succ n).symm)

/-- **The checker accepts the tree** exactly if the tags have not wrapped. -/
theorem treeChecker_finRange (h : tree.inorder = List.finRange n) :
    (treeChecker (fun type => (generatedBase rand n).tagType.asInt
      ((generatedBase rand n).TAG type)) tree).ok = true ↔ n < 2 ^ 16 := by
  have htags : tree.inorder.map (fun type => (generatedBase rand n).tagType.asInt
      ((generatedBase rand n).TAG type)) =
      (List.range' 1 n).map fun cid => ((cid % 2 ^ 16 : ℕ) : ℤ) := by
    rw [h, ← map_finRange_succ, List.map_map]
    refine List.map_congr_left fun type _ => ?_
    rw [asInt_tag, toInt_tag]
    rfl
  rw [treeChecker_ok_iff, BinaryTree.ordered_iff_pairwise, htags, List.pairwise_map]
  constructor
  · intro hpairwise
    by_contra hlarge
    -- The tag of `Foo_65536` is 0.
    have hlength : (List.range' 1 n).length = n := List.length_range'
    have hwraps := List.pairwise_iff_getElem.mp hpairwise (2 ^ 16 - 2) (2 ^ 16 - 1) (by omega)
      (by omega) (by omega)
    rw [List.getElem_range', List.getElem_range'] at hwraps
    omega
  · intro hsmall
    refine List.Pairwise.imp_of_mem (fun {a b} ha hb hlt => ?_) List.pairwise_lt_range'
    rw [List.mem_range'_1] at ha hb
    omega

theorem generatedBase_tagged (rand : ℕ → ℕ) (hsmall : n < 2 ^ 16) :
    (generatedBase rand n).Tagged := by
  constructor
  case distinct =>
    intro type other heq
    have hnum := congrArg (generatedBase rand n).tagType.toInt heq
    rw [toInt_tag, toInt_tag] at hnum
    apply Fin.ext
    omega
  case nonzero =>
    intro type hzero
    have hnum := congrArg (generatedBase rand n).tagType.toInt hzero
    rw [toInt_tag] at hnum
    have hnone : (generatedBase rand n).tagType.toInt (generatedBase rand n).tagType.zero = 0 := rfl
    rw [hnone] at hnum
    omega
  case fits => exact asInt_tag rand

/-- What `fun` writes over the tree and over a list is the same, and it can be read again. -/
theorem generated_roundTrip (hsmall : n < 2 ^ 16) (h : tree.inorder = List.finRange n)
    (fresh : {α : Type} → Serializable α → α) (c : Codec)
    (pointer : (generatedBase rand n).Pointer) :
    ∃ written, (generatedBase rand n).encode c (.tree tree) pointer = .ok written ∧
      (generatedBase rand n).encode c (.list (List.finRange n)) pointer = .ok written ∧
      ((generatedBase rand n).Small pointer → ∀ before rest,
        (generatedBase rand n).decode bufferDecoder fresh c (.tree tree) before
          (bytesOf written ++ rest) = .ok (pointer, rest)) := by
  have htags := generatedBase_tagged rand hsmall
  have hlist : (generatedBase rand n).Lists (.list (List.finRange n)) := List.mem_finRange
  have htree : (generatedBase rand n).Lists (.tree tree) := by
    refine ⟨fun type => ?_, (treeChecker_finRange h).mpr hsmall⟩
    rw [← BinaryTree.mem_inorder, h]
    exact List.mem_finRange type
  refine ⟨_, BaseType.encode_eq _ htags c htree pointer, BaseType.encode_eq _ htags c hlist pointer,
    fun hobject before rest => ?_⟩
  exact BaseType.decode_image _ fresh c _ before rest htags htree pointer hobject

end Generated

/-- **The header that `vc_gen_test` writes is right**, for every number of classes and all choices
of `rand`.  Every name is declared once and before it is used; each class has the fields of its
base and its own; `BaseTree` has the classes in the order of their numbers and is as low as a tree
of them can be.  `check_tree` accepts it exactly if there are fewer than `2 ^ 16` classes, and then
a polymorphic value is written over it as over a list, and comes back. -/
theorem generated_header_correct (rand : ℕ → ℕ) {n : ℕ} (hn : 0 < n) :
    ∃ (declared : Declared (Fin n)) (tree : BinaryTree (Fin n)),
      elaborate Declared.start (header rand n) = some declared ∧
      (∀ type : Fin n, declared (fooName (type + 1)) =
        some (.cls (some type) (inherited rand (type + 1)))) ∧
      declared "BaseTree" = some (.tree tree) ∧
      tree.inorder = List.finRange n ∧ tree.height = n.size ∧
      ((treeChecker (fun type => (generatedBase rand n).tagType.asInt
        ((generatedBase rand n).TAG type)) tree).ok = true ↔ n < 2 ^ 16) ∧
      (n < 2 ^ 16 → ∀ (fresh : {α : Type} → Serializable α → α) (c : Codec)
        (pointer : (generatedBase rand n).Pointer),
        ∃ written, (generatedBase rand n).encode c (.tree tree) pointer = .ok written ∧
          (generatedBase rand n).encode c (.list (List.finRange n)) pointer = .ok written ∧
          ((generatedBase rand n).Small pointer → ∀ before rest,
            (generatedBase rand n).decode bufferDecoder fresh c (.tree tree) before
              (bytesOf written ++ rest) = .ok (pointer, rest))) := by
  obtain ⟨declared₁, helaborate₁, h⟩ := elaborate_classes rand n
  have hready : ReadyFor 1 n declared₁ := by
    refine ⟨fun type => Declared.class?_of_cls (h.cls type type.isLt), ?_, fun l r _ _ _ => ?_⟩
    · rw [h.others "tree_leaf" fun cid => fooName_ne (.inr (.inl rfl))]
      rfl
    · rw [h.others _ fun cid => fooName_ne_treeName.symm, Declared.start,
        if_neg (treeName_ne (.inl rfl)).symm, if_neg (treeName_ne (.inr (.inl rfl))).symm]
  obtain ⟨declared₂, tree, helaborate₂, htree⟩ :=
    makeTreeFor_declares 2 Nat.one_pos le_rfl hready
  have hnamed := htree.named
  rw [rangeName, if_pos (show 1 ≤ n from hn)] at hnamed
  have hinorder : tree.inorder = List.finRange n := by
    apply inorder_eq_finRange
    rw [htree.inorder, Nat.add_sub_cancel_left]
  have hfree : declared₂ "BaseTree" = none := by
    rw [htree.frame "BaseTree" fun l r _ _ _ => treeName_ne (.inr (.inr rfl)),
      h.others "BaseTree" fun cid => fooName_ne (.inr (.inr rfl))]
    rfl
  refine ⟨Function.update declared₂ "BaseTree" (some (.tree tree)), tree, ?_, fun type => ?_,
    Function.update_self .., hinorder, ?_, treeChecker_finRange hinorder,
    fun hsmall fresh c pointer => generated_roundTrip hsmall hinorder fresh c pointer⟩
  · rw [header, elaborate_append helaborate₁, elaborate_append helaborate₂]
    apply elaborate_singleton
    rw [Declared.declare, hnamed]
    exact Declared.add_of_fresh hfree
  · rw [Function.update_of_ne (fooName_ne (.inr (.inr rfl))).symm,
      htree.frame _ fun l r _ _ _ => fooName_ne_treeName]
    exact h.cls type type.isLt
  · rw [htree.height, Nat.add_sub_cancel_left]

/-- Three classes: the tree has two levels, and the checker accepts it. -/
theorem generated_header_correct_three :
    ∃ (declared : Declared (Fin 3)) (tree : BinaryTree (Fin 3)),
      elaborate Declared.start (header (fun i => i) 3) = some declared ∧
      declared "BaseTree" = some (.tree tree) ∧ tree.inorder = [0, 1, 2] ∧ tree.height = 2 ∧
      (treeChecker (fun type => (generatedBase (fun i => i) 3).tagType.asInt
        ((generatedBase (fun i => i) 3).TAG type)) tree).ok = true := by
  obtain ⟨declared, tree, helaborate, -, hnamed, hinorder, hheight, hok, -⟩ :=
    generated_header_correct (fun i => i) (by decide : 0 < 3)
  exact ⟨declared, tree, helaborate, hnamed, hinorder, hheight, hok.mpr (by decide)⟩

end Misc
end CoherentDB
