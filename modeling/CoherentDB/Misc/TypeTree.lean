import CoherentDB.Lib.SearchTree
import CoherentDB.Serialization.Codecs

/-!
# Type lists, type trees and `fold`

A polymorphic value is encoded and decoded by a functor that `fold` leads to the type
with the right `TAG`, along a list of types or down a tree of types.  `tree_checker`
looks at the tags of a tree at compile time: it converts each of them to `int` and asks
for a search tree.  The functors compare the tags as values of `tag_type`.

The two orders differ for tags that do not fit into an `int`.  A tree that the checker
accepts is searched correctly exactly if they agree on each type and the types above it
(`checked_tree_searched_iff`).
-/

namespace CoherentDB
namespace Misc

open Debug Util Serialization

/-- The integral types that `tag_type` may be; the sign of `char` is up to the host. -/
inductive TagType
  | char (signed : Bool)
  | uint8
  | int (k : IntType)
  deriving DecidableEq, Repr

namespace TagType

def Value : TagType → Type
  | .char _ | .uint8 => Byte
  | .int k => k.Value

instance : (t : TagType) → DecidableEq t.Value
  | .char _ | .uint8 => inferInstanceAs (DecidableEq Byte)
  | .int k => inferInstanceAs (DecidableEq k.Value)

/-- How a tag is serialized. -/
def serializable : (t : TagType) → Serializable t.Value
  | .char _ => .char
  | .uint8 => .uint8
  | .int k => .int k

/-- `tag_type()`. -/
def zero : (t : TagType) → t.Value
  | .char _ | .uint8 => (0 : Byte)
  | .int k => (0 : k.Value)

/-- The number that a value stands for. -/
def toInt : (t : TagType) → t.Value → ℤ
  | .char signed, x => if signed then (UInt8.toBitVec x).toInt else (UInt8.toNat x : ℤ)
  | .uint8, x => (UInt8.toNat x : ℤ)
  | .int k, x => if k.signed then BitVec.toInt x else (BitVec.toNat x : ℤ)

/-- The value converted to `int`, which keeps the low 32 bits. -/
def asInt (t : TagType) (x : t.Value) : ℤ := (BitVec.ofInt 32 (t.toInt x)).toInt

theorem toInt_injective (t : TagType) : Function.Injective t.toInt := by
  intro x y h
  cases t with
  | char signed =>
      cases signed with
      | true => exact UInt8.toBitVec_inj.mp (BitVec.toInt_inj.mp h)
      | false => exact UInt8.toNat_inj.mp (Int.ofNat.inj h)
  | uint8 => exact UInt8.toNat_inj.mp (Int.ofNat.inj h)
  | int k =>
      simp only [toInt] at h
      split_ifs at h
      · exact BitVec.toInt_inj.mp h
      · exact BitVec.eq_of_toNat_eq (Int.ofNat.inj h)

end TagType

section Fold

variable {ι σ : Type}

/-- A functor for `fold`: what it does at a type of a list and at a node of a tree, where it
may change its state `σ`. -/
structure FoldFunctor (ι σ : Type) where
  process : ι → σ → Except DecodeError (Bool × σ)
  processNode : ι → σ → Except DecodeError (ℤ × σ)

/-- `fold` over `list_elem` and `list_head`. -/
def foldList (f : FoldFunctor ι σ) : List ι → σ → Except DecodeError σ
  | [], _ => .error (.runtimeError "End of List!")
  | current :: next, s => do
      let (done, s) ← f.process current s
      if done then return s else foldList f next s

/-- `fold` over `tree_node` and `tree_leaf`. -/
def foldTree (f : FoldFunctor ι σ) : BinaryTree ι → σ → Except DecodeError σ
  | .nil, _ => .error (.runtimeError "Tree Leaf!")
  | .node current left right, s => do
      let (ret, s) ← f.processNode current s
      if ret = 0 then return s
      else if ret < 0 then foldTree f left s
      else foldTree f right s

/-- What `tagged_encoder` and `tagged_decoder` have in common: they `act` on the type whose `TAG`
is `tag`, and compare otherwise. -/
def tagged {tagType : TagType} (TAG : ι → tagType.Value) (tag : tagType.Value)
    (act : ι → σ → Except DecodeError σ) : FoldFunctor ι σ where
  process type s :=
    if TAG type = tag then do
      let s ← act type s
      return (true, s)
    else return (false, s)
  processNode type s :=
    if TAG type = tag then do
      let s ← act type s
      return (0, s)
    else if tagType.toInt tag < tagType.toInt (TAG type) then return (-1, s)
    else return (1, s)

variable {tagType : TagType} {TAG : ι → tagType.Value} {tag : tagType.Value}
  {act : ι → σ → Except DecodeError σ}

/-- Along a list a functor acts on the first type with its tag. -/
theorem foldList_tagged (types : List ι) (s : σ) :
    foldList (tagged TAG tag act) types s =
      (types.find? fun type => TAG type = tag).elim (.error (.runtimeError "End of List!"))
        fun type => act type s := by
  induction types with
  | nil => rfl
  | cons current next ih =>
      by_cases htag : TAG current = tag
      · simp only [foldList, tagged, htag, if_true, List.find?_cons, decide_true, Option.elim_some]
        cases act current s <;> rfl
      · simp only [List.find?_cons, htag, decide_false]
        rw [← ih]
        simp only [foldList, tagged, htag, if_false]
        rfl

/-- Down a tree a functor acts on the type that a search by the value of the tag finds. -/
theorem foldTree_tagged (tree : BinaryTree ι) (s : σ) :
    foldTree (tagged TAG tag act) tree s =
      (tree.search (fun type => tagType.toInt (TAG type)) (tagType.toInt tag)).elim
        (.error (.runtimeError "Tree Leaf!")) fun type => act type s := by
  induction tree with
  | nil => rfl
  | node current left right ihleft ihright =>
      by_cases htag : TAG current = tag
      · simp only [foldTree, tagged, htag, if_true, BinaryTree.search, Option.elim_some]
        cases act current s <;> rfl
      · have hvalue : tagType.toInt (TAG current) ≠ tagType.toInt tag :=
          fun heq => htag (tagType.toInt_injective heq)
        by_cases hlt : tagType.toInt tag < tagType.toInt (TAG current)
        · simp only [BinaryTree.search, hvalue, hlt, if_false, if_true]
          rw [← ihleft]
          simp only [foldTree, tagged, htag, hlt, if_false, if_true]
          rfl
        · simp only [BinaryTree.search, hvalue, hlt, if_false]
          rw [← ihright]
          simp only [foldTree, tagged, htag, hlt, if_false]
          rfl

end Fold

section Checker

variable {ι : Type}

/-- The constants of a `tree_checker`. -/
structure TreeChecker where
  min : ℤ
  max : ℤ
  ok : Bool

/-- `checker_detail::tree_checker`, with the `TAG`s as `int`. -/
def treeChecker (tag : ι → ℤ) : BinaryTree ι → TreeChecker
  -- The checker of a leaf has no `min_` and `max_`, and nothing asks for them.
  | .nil => ⟨0, 0, true⟩
  | .node current .nil .nil => ⟨tag current, tag current, true⟩
  | .node current (.node lt ll lr) .nil =>
      let lchecker := treeChecker tag (.node lt ll lr)
      let curr := tag current
      { min := if curr < lchecker.min then curr else lchecker.min
        max := if curr > lchecker.max then curr else lchecker.max
        ok := lchecker.ok && decide (lchecker.max < curr) }
  | .node current .nil (.node rt rl rr) =>
      let rchecker := treeChecker tag (.node rt rl rr)
      let curr := tag current
      { min := if curr < rchecker.min then curr else rchecker.min
        max := if curr > rchecker.max then curr else rchecker.max
        ok := rchecker.ok && decide (rchecker.min > curr) }
  | .node current (.node lt ll lr) (.node rt rl rr) =>
      let lchecker := treeChecker tag (.node lt ll lr)
      let rchecker := treeChecker tag (.node rt rl rr)
      let curr := tag current
      let childMin := if lchecker.min < rchecker.min then lchecker.min else rchecker.min
      let childMax := if lchecker.max > rchecker.max then lchecker.max else rchecker.max
      { min := if curr < childMin then curr else childMin
        max := if curr > childMax then curr else childMax
        ok := lchecker.ok && rchecker.ok && decide (curr > lchecker.max) &&
          decide (curr < rchecker.min) }

/-- `min_` and `max_` are the least and the greatest tag of the tree. -/
structure TreeChecker.Bounds (c : TreeChecker) (tag : ι → ℤ) (tree : BinaryTree ι) : Prop where
  lt_min_iff : ∀ a, a < c.min ↔ ∀ type ∈ tree, a < tag type
  max_lt_iff : ∀ a, c.max < a ↔ ∀ type ∈ tree, tag type < a

theorem lt_smaller_iff (a x y : ℤ) : (a < if x < y then x else y) ↔ a < x ∧ a < y := by
  split_ifs <;> omega

theorem larger_lt_iff (a x y : ℤ) : (if x > y then x else y) < a ↔ x < a ∧ y < a := by
  split_ifs <;> omega

variable {tag : ι → ℤ} {tree : BinaryTree ι}

theorem treeChecker_bounds (hne : tree ≠ .nil) : (treeChecker tag tree).Bounds tag tree := by
  fun_induction treeChecker tag tree with
  | case1 => exact absurd rfl hne
  | case2 current =>
      constructor
      · intro a
        simp
      · intro a
        simp
  | case3 current lt ll lr lchecker curr ih =>
      obtain ⟨hmin, hmax⟩ := ih (by simp)
      constructor
      · intro a
        rw [BinaryTree.forall_mem_node, ← hmin, lt_smaller_iff]
        simp only [BinaryTree.forall_mem_nil, and_true]
        exact and_comm
      · intro a
        rw [BinaryTree.forall_mem_node, ← hmax, larger_lt_iff]
        simp only [BinaryTree.forall_mem_nil, and_true]
        exact and_comm
  | case4 current rt rl rr rchecker curr ih =>
      obtain ⟨hmin, hmax⟩ := ih (by simp)
      constructor
      · intro a
        rw [BinaryTree.forall_mem_node, ← hmin, lt_smaller_iff]
        simp only [BinaryTree.forall_mem_nil, true_and]
        rfl
      · intro a
        rw [BinaryTree.forall_mem_node, ← hmax, larger_lt_iff]
        simp only [BinaryTree.forall_mem_nil, true_and]
        rfl
  | case5 current lt ll lr rt rl rr lchecker rchecker curr childMin childMax ihl ihr =>
      obtain ⟨hlmin, hlmax⟩ := ihl (by simp)
      obtain ⟨hrmin, hrmax⟩ := ihr (by simp)
      constructor
      · intro a
        rw [BinaryTree.forall_mem_node, ← hlmin, ← hrmin, lt_smaller_iff, lt_smaller_iff]
        exact and_left_comm
      · intro a
        rw [BinaryTree.forall_mem_node, ← hlmax, ← hrmax, larger_lt_iff, larger_lt_iff]
        exact and_left_comm

/-- **The checker accepts the search trees**, by the order of the tags as `int`. -/
theorem treeChecker_ok_iff : (treeChecker tag tree).ok = true ↔ tree.Ordered tag := by
  fun_induction treeChecker tag tree with
  | case1 => simp [BinaryTree.Ordered]
  | case2 current => simp [BinaryTree.Ordered]
  | case3 current lt ll lr lchecker curr ih =>
      have hl : (treeChecker tag (.node lt ll lr)).Bounds tag _ := treeChecker_bounds (by simp)
      rw [BinaryTree.Ordered, ← ih, ← hl.max_lt_iff, Bool.and_eq_true, decide_eq_true_iff]
      simp [BinaryTree.Ordered, lchecker, curr]
  | case4 current rt rl rr rchecker curr ih =>
      have hr : (treeChecker tag (.node rt rl rr)).Bounds tag _ := treeChecker_bounds (by simp)
      rw [BinaryTree.Ordered, ← ih, ← hr.lt_min_iff, Bool.and_eq_true, decide_eq_true_iff]
      simp [BinaryTree.Ordered, rchecker, curr]
  | case5 current lt ll lr rt rl rr lchecker rchecker curr childMin childMax ihl ihr =>
      have hl : (treeChecker tag (.node lt ll lr)).Bounds tag _ := treeChecker_bounds (by simp)
      have hr : (treeChecker tag (.node rt rl rr)).Bounds tag _ := treeChecker_bounds (by simp)
      rw [BinaryTree.Ordered, ← ihl, ← ihr, ← hl.max_lt_iff, ← hr.lt_min_iff]
      simp [lchecker, rchecker, curr, and_assoc]

/-- `min_` and `max_` are tags of the tree. -/
theorem TreeChecker.Bounds.isLeast_isGreatest {c : TreeChecker} (h : c.Bounds tag tree) :
    IsLeast {x | x ∈ tree.inorder.map tag} c.min ∧
      IsGreatest {x | x ∈ tree.inorder.map tag} c.max := by
  -- The least tag is not above `min_`, since `min_` is not below all tags.
  have hleast : ∃ type ∈ tree, tag type ≤ c.min := by
    by_contra hnone
    push Not at hnone
    exact lt_irrefl _ ((h.lt_min_iff c.min).mpr hnone)
  have hgreatest : ∃ type ∈ tree, c.max ≤ tag type := by
    by_contra hnone
    push Not at hnone
    exact lt_irrefl _ ((h.max_lt_iff c.max).mpr hnone)
  have hlower : ∀ type ∈ tree, c.min ≤ tag type := by
    intro type htype
    have hlt := (h.lt_min_iff (c.min - 1)).mp (by omega) type htype
    omega
  have hupper : ∀ type ∈ tree, tag type ≤ c.max := by
    intro type htype
    have hlt := (h.max_lt_iff (c.max + 1)).mp (by omega) type htype
    omega
  simp only [IsLeast, IsGreatest, mem_lowerBounds, mem_upperBounds, Set.mem_ofPred_eq, List.mem_map,
    BinaryTree.mem_inorder, forall_exists_index, and_imp, forall_apply_eq_imp_iff₂]
  refine ⟨⟨?_, hlower⟩, ?_, hupper⟩
  · obtain ⟨type, htype, hle⟩ := hleast
    exact ⟨type, htype, le_antisymm hle (hlower type htype)⟩
  · obtain ⟨type, htype, hle⟩ := hgreatest
    exact ⟨type, htype, le_antisymm (hupper type htype) hle⟩

end Checker

/-- The conversion to `int` keeps a tag that fits. -/
theorem TagType.asInt_eq {tagType : TagType} {x : tagType.Value}
    (h : -2 ^ 31 ≤ tagType.toInt x ∧ tagType.toInt x < 2 ^ 31) :
    tagType.asInt x = tagType.toInt x := by
  rw [TagType.asInt, BitVec.toInt_ofInt]
  exact Int.bmod_eq_of_le (by omega) (by omega)

/-- **`tree_checker` decides the property of a search tree.**  For every tree of types whose `TAG`s
fit into an `int`, `ok` is true exactly if the tags increase strictly from left to right; and in
every tree that is not a leaf, `min_` and `max_` are the least and the greatest tag, whether or not
`ok` is true. -/
theorem tree_checker_decides {ι : Type} {tagType : TagType} (TAG : ι → tagType.Value)
    (tree : BinaryTree ι)
    (hfit : ∀ type ∈ tree, -2 ^ 31 ≤ tagType.toInt (TAG type) ∧ tagType.toInt (TAG type) < 2 ^ 31) :
    ((treeChecker (fun type => tagType.asInt (TAG type)) tree).ok = true ↔
        (tree.inorder.map fun type => tagType.toInt (TAG type)).Pairwise (· < ·)) ∧
      (tree ≠ .nil →
        IsLeast {x | x ∈ tree.inorder.map fun type => tagType.toInt (TAG type)}
            (treeChecker (fun type => tagType.asInt (TAG type)) tree).min ∧
          IsGreatest {x | x ∈ tree.inorder.map fun type => tagType.toInt (TAG type)}
            (treeChecker (fun type => tagType.asInt (TAG type)) tree).max) := by
  have htags : tree.inorder.map (fun type => tagType.asInt (TAG type)) =
      tree.inorder.map fun type => tagType.toInt (TAG type) := by
    refine List.map_congr_left fun type htype => ?_
    exact TagType.asInt_eq (hfit type (BinaryTree.mem_inorder.mp htype))
  rw [← htags]
  refine ⟨treeChecker_ok_iff.trans BinaryTree.ordered_iff_pairwise, fun hne => ?_⟩
  exact (treeChecker_bounds hne).isLeast_isGreatest

section Searched

variable {ι : Type} {tagType : TagType}

/-- A functor with the tag of any type of the tree reaches that type and acts on it, whatever it
does there: `tagged_encoder` and `tagged_decoder` are such functors. -/
def SearchedCorrectly (TAG : ι → tagType.Value) (tree : BinaryTree ι) : Prop :=
  ∀ type ∈ tree, ∀ (σ : Type) (act : ι → σ → Except DecodeError σ) (s : σ),
    foldTree (tagged TAG (TAG type) act) tree s = act type s

/-- The search by the value of the tag finds each type. -/
theorem searchedCorrectly_iff (TAG : ι → tagType.Value) (tree : BinaryTree ι) :
    SearchedCorrectly TAG tree ↔ ∀ type ∈ tree,
      tree.search (fun type => tagType.toInt (TAG type)) (tagType.toInt (TAG type)) = some type := by
  constructor
  · intro h type htype
    -- A functor that notes the type it acts on tells what the search has found.
    have hnoted := h type htype (Option ι) (fun type _ => .ok (some type)) none
    rw [foldTree_tagged] at hnoted
    cases hsearch : tree.search (fun type => tagType.toInt (TAG type))
        (tagType.toInt (TAG type)) with
    | none =>
        rw [hsearch] at hnoted
        cases hnoted
    | some found =>
        rw [hsearch] at hnoted
        exact Except.ok.inj hnoted
  · intro h type htype σ act s
    rw [foldTree_tagged, h type htype, Option.elim_some]

/-- **When an accepted tree is searched correctly.**  A tree that `tree_checker` accepts is
searched correctly for each of its types exactly if comparing the tag of a type with the tags
above it gives the same as `tag_type` and as `int`. -/
theorem checked_tree_searched_iff (TAG : ι → tagType.Value) (tree : BinaryTree ι)
    (hok : (treeChecker (fun type => tagType.asInt (TAG type)) tree).ok = true) :
    SearchedCorrectly TAG tree ↔
      tree.Agrees (fun type => tagType.toInt (TAG type)) (fun type => tagType.asInt (TAG type)) := by
  have hordered := treeChecker_ok_iff.mp hok
  rw [searchedCorrectly_iff, BinaryTree.search_iff_ordered hordered,
    BinaryTree.ordered_iff_agrees hordered]

/-- Two types with tags on both sides of `2 ^ 31`, the larger one to the left of the smaller. -/
def wrappedTags : Bool → (TagType.int .uint32).Value
  | true => (0x80000001 : BitVec 32)
  | false => (1 : BitVec 32)

def wrappedTree : BinaryTree Bool := .node false (.node true .nil .nil) .nil

/-- As an `int` the larger tag is negative, so the checker accepts the tree; the search for it
compares unsigned, turns right and ends in the leaf. -/
theorem checked_tree_not_searched :
    (treeChecker (fun type => (TagType.int .uint32).asInt (wrappedTags type)) wrappedTree).ok =
        true ∧
      true ∈ wrappedTree ∧
      (∀ (σ : Type) (act : Bool → σ → Except DecodeError σ) (s : σ),
        foldTree (tagged wrappedTags (wrappedTags true) act) wrappedTree s =
          .error (.runtimeError "Tree Leaf!")) ∧
      ¬ SearchedCorrectly wrappedTags wrappedTree := by
  have hleaf : ∀ (σ : Type) (act : Bool → σ → Except DecodeError σ) (s : σ),
      foldTree (tagged wrappedTags (wrappedTags true) act) wrappedTree s =
        .error (.runtimeError "Tree Leaf!") := fun _ _ _ => rfl
  have hmem : true ∈ wrappedTree := Or.inl (Or.inr (Or.inl rfl))
  refine ⟨by decide, hmem, hleaf, fun hsearched => ?_⟩
  have hreached := hsearched true hmem Unit (fun _ s => .ok s) ()
  rw [hleaf] at hreached
  cases hreached

/-- The same tree is searched correctly with the tags 1 and 2. -/
theorem checked_tree_searched_iff_fitting :
    @SearchedCorrectly Bool (.int .uint32)
      (fun type : Bool => if type then (1 : BitVec 32) else (2 : BitVec 32)) wrappedTree := by
  refine (checked_tree_searched_iff _ _ (by decide)).mpr ⟨⟨trivial, trivial, ?_⟩, trivial, ?_⟩
  · rintro type (htype | htype)
    · exact htype.elim
    · exact htype.elim
  · rintro type ((htype | rfl | htype) | htype)
    · exact htype.elim
    · decide
    · exact htype.elim
    · exact htype.elim

/-- The tree with the tags 1 and 2, once in order and once not. -/
theorem tree_checker_decides_two :
    (treeChecker (fun type : Bool => (TagType.int .uint32).asInt
        (if type then (1 : BitVec 32) else (2 : BitVec 32))) wrappedTree).ok = true ∧
      (treeChecker (fun type : Bool => (TagType.int .uint32).asInt
        (if type then (2 : BitVec 32) else (1 : BitVec 32))) wrappedTree).ok = false ∧
      IsLeast {x | x ∈ [(2 : ℤ), 1]} (treeChecker (fun type : Bool => (TagType.int .uint32).asInt
        (if type then (2 : BitVec 32) else (1 : BitVec 32))) wrappedTree).min := by
  have hfit : ∀ tags : Bool → BitVec 32, (∀ type, (tags type).toNat < 2 ^ 31) → ∀ type ∈ wrappedTree,
      -2 ^ 31 ≤ (TagType.int .uint32).toInt (tags type) ∧
        (TagType.int .uint32).toInt (tags type) < 2 ^ 31 := by
    intro tags hsmall type _
    have hlt := hsmall type
    show -2 ^ 31 ≤ ((tags type).toNat : ℤ) ∧ ((tags type).toNat : ℤ) < 2 ^ 31
    omega
  have hsorted := @tree_checker_decides Bool (.int .uint32)
    (fun type : Bool => if type then (1 : BitVec 32) else (2 : BitVec 32)) wrappedTree
    (hfit _ (by decide))
  have hreversed := @tree_checker_decides Bool (.int .uint32)
    (fun type : Bool => if type then (2 : BitVec 32) else (1 : BitVec 32)) wrappedTree
    (hfit _ (by decide))
  refine ⟨hsorted.1.mpr (by decide), ?_, (hreversed.2 (by simp [wrappedTree])).1⟩
  rw [Bool.eq_false_iff]
  exact fun hok => absurd (hreversed.1.mp hok) (by decide)

end Searched

end Misc
end CoherentDB
