import Mathlib.Data.Tree.Basic
import Mathlib.Order.Basic
import Mathlib.Tactic

/-!
# Binary trees searched by a key

The trees are those of Mathlib, with an entry in each inner node.  `Ordered` is the property
of a search tree for one key, `search` the descent by three-way comparison.  A tree may be ordered by one key and searched by another:
`search_iff_ordered` says that this finds every entry exactly if the tree is ordered
by the second key as well, and `ordered_iff_agrees` that this is a matter of comparing
each entry with those above it.
-/

namespace BinaryTree

variable {α κ κ' : Type*}

/-- The entry stands in some node of the tree. -/
def Mem (x : α) : BinaryTree α → Prop
  | .nil => False
  | .node entry left right => Mem x left ∨ x = entry ∨ Mem x right

instance membershipNodes : Membership α (BinaryTree α) := ⟨fun t x => Mem x t⟩

@[simp] theorem notMem_nil (x : α) : x ∉ (nil : BinaryTree α) := id

@[simp] theorem mem_node {x entry : α} {left right : BinaryTree α} :
    x ∈ node entry left right ↔ x ∈ left ∨ x = entry ∨ x ∈ right := Iff.rfl

theorem forall_mem_nil {P : α → Prop} : (∀ x ∈ (nil : BinaryTree α), P x) ↔ True := by
  simp

theorem forall_mem_node {P : α → Prop} {entry : α} {left right : BinaryTree α} :
    (∀ x ∈ node entry left right, P x) ↔
      (∀ x ∈ left, P x) ∧ P entry ∧ ∀ x ∈ right, P x := by
  constructor
  · intro h
    exact ⟨fun x hx => h x (Or.inl hx), h entry (Or.inr (Or.inl rfl)),
      fun x hx => h x (Or.inr (Or.inr hx))⟩
  · rintro ⟨hleft, hentry, hright⟩ x (hx | rfl | hx)
    · exact hleft x hx
    · exact hentry
    · exact hright x hx

/-- The entries from the leftmost to the rightmost one. -/
def inorder : BinaryTree α → List α
  | .nil => []
  | .node entry left right => inorder left ++ entry :: inorder right

@[simp] theorem mem_inorder {x : α} {t : BinaryTree α} : x ∈ t.inorder ↔ x ∈ t := by
  induction t with
  | nil => simp [inorder]
  | node entry left right ihleft ihright => simp [inorder, ihleft, ihright]

section Keys

variable [LinearOrder κ] [LinearOrder κ'] (key : α → κ) (key' : α → κ')

/-- At every node the keys to the left are smaller and the keys to the right are larger. -/
def Ordered : BinaryTree α → Prop
  | .nil => True
  | .node entry left right =>
      Ordered left ∧ Ordered right ∧ (∀ x ∈ left, key x < key entry) ∧
        ∀ x ∈ right, key entry < key x

/-- The descent for the entry with key `k`. -/
def search (k : κ) : BinaryTree α → Option α
  | .nil => none
  | .node entry left right =>
      if key entry = k then some entry
      else if k < key entry then search k left
      else search k right

/-- Two keys compare every entry alike with the entries above it. -/
def Agrees : BinaryTree α → Prop
  | .nil => True
  | .node entry left right =>
      Agrees left ∧ Agrees right ∧ ∀ x, x ∈ left ∨ x ∈ right →
        (key x < key entry ↔ key' x < key' entry) ∧ (key entry < key x ↔ key' entry < key' x)

variable {key key'} {t : BinaryTree α} {x : α} {k : κ}

/-- **A tree is ordered exactly if the keys of its entries increase from left to right.** -/
theorem ordered_iff_pairwise : t.Ordered key ↔ (t.inorder.map key).Pairwise (· < ·) := by
  induction t with
  | nil => simp [Ordered, inorder]
  | node entry left right ihleft ihright =>
      rw [Ordered, inorder, List.map_append, List.map_cons, List.pairwise_append,
        List.pairwise_cons, ihleft, ihright]
      simp only [List.forall_mem_map, List.forall_mem_cons, mem_inorder]
      constructor
      · rintro ⟨hleft, hright, hsmaller, hlarger⟩
        refine ⟨hleft, ⟨hlarger, hright⟩, fun x hx => ⟨hsmaller x hx, fun y hy => ?_⟩⟩
        exact (hsmaller x hx).trans (hlarger y hy)
      · rintro ⟨hleft, ⟨hlarger, hright⟩, hcross⟩
        exact ⟨hleft, hright, fun x hx => (hcross x hx).1, hlarger⟩

/-- What a search finds is an entry with the key. -/
theorem of_search (h : search key k t = some x) : x ∈ t ∧ key x = k := by
  induction t with
  | nil => cases h
  | node entry left right ihleft ihright =>
      unfold search at h
      split_ifs at h with heq hlt
      · obtain rfl := Option.some.inj h
        exact ⟨Or.inr (Or.inl rfl), heq⟩
      · obtain ⟨hmem, hkey⟩ := ihleft h
        exact ⟨Or.inl hmem, hkey⟩
      · obtain ⟨hmem, hkey⟩ := ihright h
        exact ⟨Or.inr (Or.inr hmem), hkey⟩

/-- A search tree is searched correctly. -/
theorem Ordered.search (h : t.Ordered key) (hx : x ∈ t) : t.search key (key x) = some x := by
  induction t with
  | nil => exact hx.elim
  | node entry left right ihleft ihright =>
      obtain ⟨hleft, hright, hsmaller, hlarger⟩ := h
      unfold BinaryTree.search
      rcases hx with hx | rfl | hx
      · have hlt := hsmaller x hx
        rw [if_neg hlt.ne', if_pos hlt]
        exact ihleft hleft hx
      · rw [if_pos rfl]
      · have hlt := hlarger x hx
        rw [if_neg hlt.ne, if_neg hlt.not_gt]
        exact ihright hright hx

/-- **A tree that is ordered by one key is searched correctly by another** exactly if it is
ordered by that one too. -/
theorem search_iff_ordered (h : t.Ordered key') :
    (∀ x ∈ t, t.search key (key x) = some x) ↔ t.Ordered key := by
  refine ⟨fun hsearch => ?_, fun hordered x hx => hordered.search hx⟩
  induction t with
  | nil => trivial
  | node entry left right ihleft ihright =>
      obtain ⟨hleft, hright, hsmaller, hlarger⟩ := h
      -- An entry is found on the side where it stands: it stands on no other.
      have hless : ∀ x ∈ left, key x < key entry ∧ left.search key (key x) = some x := by
        intro x hx
        have hfound := hsearch x (Or.inl hx)
        have hbelow := hsmaller x hx
        unfold search at hfound
        split_ifs at hfound with heq hlt
        · obtain rfl := Option.some.inj hfound
          exact absurd hbelow (lt_irrefl _)
        · exact ⟨hlt, hfound⟩
        · exact absurd (hlarger x (of_search hfound).1) hbelow.not_gt
      have hmore : ∀ x ∈ right, key entry < key x ∧ right.search key (key x) = some x := by
        intro x hx
        have hfound := hsearch x (Or.inr (Or.inr hx))
        have habove := hlarger x hx
        unfold search at hfound
        split_ifs at hfound with heq hlt
        · obtain rfl := Option.some.inj hfound
          exact absurd habove (lt_irrefl _)
        · exact absurd (hsmaller x (of_search hfound).1) habove.not_gt
        · exact ⟨lt_of_le_of_ne (not_lt.mp hlt) heq, hfound⟩
      refine ⟨ihleft hleft fun x hx => (hless x hx).2, ihright hright fun x hx => (hmore x hx).2,
        fun x hx => (hless x hx).1, fun x hx => (hmore x hx).1⟩

/-- Of a tree that is ordered by one key, it is enough to compare entries with those above. -/
theorem ordered_iff_agrees (h : t.Ordered key') : t.Ordered key ↔ t.Agrees key key' := by
  induction t with
  | nil => exact Iff.rfl
  | node entry left right ihleft ihright =>
      obtain ⟨hleft, hright, hsmaller, hlarger⟩ := h
      constructor
      · rintro ⟨hl, hr, hsmall, hlarge⟩
        refine ⟨(ihleft hleft).mp hl, (ihright hright).mp hr, ?_⟩
        rintro x (hx | hx)
        · exact ⟨iff_of_true (hsmall x hx) (hsmaller x hx),
            iff_of_false (hsmall x hx).not_gt (hsmaller x hx).not_gt⟩
        · exact ⟨iff_of_false (hlarge x hx).not_gt (hlarger x hx).not_gt,
            iff_of_true (hlarge x hx) (hlarger x hx)⟩
      · rintro ⟨hl, hr, hagree⟩
        refine ⟨(ihleft hleft).mpr hl, (ihright hright).mpr hr, ?_, ?_⟩
        · intro x hx
          exact (hagree x (Or.inl hx)).1.mpr (hsmaller x hx)
        · intro x hx
          exact (hagree x (Or.inr hx)).2.mpr (hlarger x hx)

end Keys

end BinaryTree
