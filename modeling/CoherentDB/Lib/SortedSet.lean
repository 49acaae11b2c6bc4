import Mathlib.Tactic

/-!
# Sets ordered by a comparator

The elements of a set are kept in a list that is sorted by a strict comparator.
An element that is equivalent to one in the set is not inserted.  Inserting the
elements of a set into the empty one, in their order, gives the set back.
-/

/-- A strict comparison of elements. -/
structure Comparator (α : Type) where
  less : α → α → Bool
  irrefl : ∀ a, less a a = false
  trans : ∀ a b c, less a b = true → less b c = true → less a c = true

/-- A set of elements, in ascending order. -/
structure SortedSet {α : Type} (cmp : Comparator α) where
  elems : List α
  sorted : elems.Pairwise fun a b => cmp.less a b = true

namespace Comparator

variable {α : Type} (cmp : Comparator α)

/-- Insert into a sorted list. -/
def insertElem (x : α) : List α → List α
  | [] => [x]
  | y :: rest =>
      if cmp.less x y then x :: y :: rest
      else if cmp.less y x then y :: insertElem x rest
      else y :: rest

theorem mem_insertElem {x z : α} {l : List α} (hz : z ∈ cmp.insertElem x l) : z = x ∨ z ∈ l := by
  induction l with
  | nil => exact Or.inl (List.mem_singleton.mp hz)
  | cons y rest ih =>
      rw [insertElem] at hz
      split_ifs at hz with hbefore hafter
      · exact List.mem_cons.mp hz
      · rcases List.mem_cons.mp hz with rfl | hz
        · exact Or.inr List.mem_cons_self
        · exact (ih hz).imp_right (List.mem_cons_of_mem y)
      · exact Or.inr hz

theorem pairwise_insertElem {x : α} {l : List α}
    (hl : l.Pairwise fun a b => cmp.less a b = true) :
    (cmp.insertElem x l).Pairwise fun a b => cmp.less a b = true := by
  induction l with
  | nil => exact List.pairwise_singleton _ x
  | cons y rest ih =>
      obtain ⟨hy, hrest⟩ := List.pairwise_cons.mp hl
      rw [insertElem]
      split_ifs with hbefore hafter
      · refine List.pairwise_cons.mpr ⟨fun z hz => ?_, hl⟩
        rcases List.mem_cons.mp hz with rfl | hz
        · exact hbefore
        · exact cmp.trans x y z hbefore (hy z hz)
      · refine List.pairwise_cons.mpr ⟨fun z hz => ?_, ih hrest⟩
        rcases cmp.mem_insertElem hz with rfl | hz
        · exact hafter
        · exact hy z hz
      · exact hl

/-- An element above all others goes to the end. -/
theorem insertElem_last {x : α} {l : List α} (hl : ∀ y ∈ l, cmp.less y x = true) :
    cmp.insertElem x l = l ++ [x] := by
  induction l with
  | nil => rfl
  | cons y rest ih =>
      have hy := hl y List.mem_cons_self
      have hnot : ¬ cmp.less x y = true := by
        intro hxy
        have hself := cmp.trans y x y hy hxy
        rw [cmp.irrefl] at hself
        cases hself
      rw [insertElem, if_neg hnot, if_pos hy, ih fun z hz => hl z (List.mem_cons_of_mem y hz)]
      rfl

end Comparator

namespace SortedSet

variable {α : Type} {cmp : Comparator α}

/-- The empty set. -/
def empty : SortedSet cmp := ⟨[], List.Pairwise.nil⟩

/-- Insert an element. -/
def insert (s : SortedSet cmp) (x : α) : SortedSet cmp :=
  ⟨cmp.insertElem x s.elems, cmp.pairwise_insertElem s.sorted⟩

@[ext] theorem ext {s t : SortedSet cmp} (h : s.elems = t.elems) : s = t := by
  cases s
  cases t
  cases h
  rfl

theorem elems_insert_last {s : SortedSet cmp} {x : α} (h : ∀ y ∈ s.elems, cmp.less y x = true) :
    (s.insert x).elems = s.elems ++ [x] :=
  cmp.insertElem_last h

/-- The next element of a larger set goes to the end. -/
theorem elems_insert_next {s whole : SortedSet cmp} {x : α} {rest : List α}
    (hwhole : whole.elems = s.elems ++ x :: rest) :
    whole.elems = (s.insert x).elems ++ rest := by
  have hbelow : ∀ y ∈ s.elems, cmp.less y x = true := by
    intro y hy
    have hsorted := whole.sorted
    rw [hwhole] at hsorted
    exact (List.pairwise_append.mp hsorted).2.2 y hy x List.mem_cons_self
  rw [elems_insert_last hbelow, hwhole, List.append_assoc]
  rfl

end SortedSet
