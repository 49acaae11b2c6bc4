import Mathlib.Data.Prod.Lex
import Mathlib.Data.List.Sort
import Mathlib.Algebra.BigOperators.Group.List.Basic
import Mathlib.Tactic

/-!
# Ordered associative containers

One table covers the two tree containers of a standard library: entries of a
type `α`, each with a key in a linear order, kept strictly increasing in the
key.  With `key = Prod.fst` this is a map, with `key = toLex` a set of pairs in
lexicographic order.  Sortedness is a field, so no operation can lose it and no
later proof states it again.

The searches are the ones an iterator interface offers:

* `find?` — the entry with a given key;
* `upperBound` — the first entry whose key lies strictly above the argument;
* `lowerBound` — the first entry whose key is not below the argument;
* `lastAtMost` — the entry one step before the upper bound.

Every operation has one membership lemma; the proofs of the developments that
use the table never look at the list behind it.
-/

namespace Containers

/-- Entries of type `α`, strictly increasing in `key`. -/
structure OrderedTable (α : Type*) {κ : Type*} [LinearOrder κ] (key : α → κ) where
  entries : List α
  sorted : entries.Pairwise (fun a b => key a < key b)

namespace OrderedTable

variable {α κ : Type*} [LinearOrder κ] {key : α → κ}

/-- The table without entries. -/
def empty : OrderedTable α key := ⟨[], List.Pairwise.nil⟩

instance : Membership α (OrderedTable α key) := ⟨fun t x => x ∈ t.entries⟩

theorem mem_def {t : OrderedTable α key} {x : α} : x ∈ t ↔ x ∈ t.entries := Iff.rfl

instance [DecidableEq α] (t : OrderedTable α key) (x : α) : Decidable (x ∈ t) :=
  inferInstanceAs (Decidable (x ∈ t.entries))

instance (t : OrderedTable α key) (P : α → Prop) [DecidablePred P] :
    Decidable (∃ x ∈ t, P x) :=
  inferInstanceAs (Decidable (∃ x ∈ t.entries, P x))

@[simp] theorem notMem_empty (x : α) : x ∉ (empty : OrderedTable α key) := by
  simp [mem_def, empty]

/-- Place an entry in order; an entry with the same key stays and wins. -/
def insertEntry (key : α → κ) (x : α) : List α → List α
  | [] => [x]
  | y :: rest =>
      if key x < key y then x :: y :: rest
      else if key y < key x then y :: insertEntry key x rest
      else y :: rest

theorem mem_insertEntry {x z : α} {l : List α} :
    z ∈ insertEntry key x l → z = x ∨ z ∈ l := by
  induction l with
  | nil => simp [insertEntry]
  | cons y rest ih =>
      rw [insertEntry]
      split_ifs with hlt hgt
      · simp
      · intro hz
        rcases List.mem_cons.mp hz with rfl | hz
        · exact Or.inr List.mem_cons_self
        · exact (ih hz).imp id (List.mem_cons_of_mem y)
      · exact Or.inr

theorem subset_insertEntry {x z : α} {l : List α} (hz : z ∈ l) :
    z ∈ insertEntry key x l := by
  induction l with
  | nil => simp at hz
  | cons y rest ih =>
      rw [insertEntry]
      split_ifs with hlt hgt
      · exact List.mem_cons_of_mem x hz
      · rcases List.mem_cons.mp hz with rfl | hz
        · exact List.mem_cons_self
        · exact List.mem_cons_of_mem y (ih hz)
      · exact hz

theorem self_mem_insertEntry {x : α} {l : List α} (hfresh : ∀ y ∈ l, key y ≠ key x) :
    x ∈ insertEntry key x l := by
  induction l with
  | nil => simp [insertEntry]
  | cons y rest ih =>
      rw [insertEntry]
      split_ifs with hlt hgt
      · exact List.mem_cons_self
      · exact List.mem_cons_of_mem y (ih fun z hz => hfresh z (List.mem_cons_of_mem y hz))
      · exact absurd (le_antisymm (not_lt.mp hlt) (not_lt.mp hgt))
          (hfresh y List.mem_cons_self)

theorem insertEntry_sorted {x : α} {l : List α}
    (h : l.Pairwise (fun a b => key a < key b)) :
    (insertEntry key x l).Pairwise (fun a b => key a < key b) := by
  induction l with
  | nil => simp [insertEntry]
  | cons y rest ih =>
      obtain ⟨hhead, htail⟩ := List.pairwise_cons.mp h
      rw [insertEntry]
      split_ifs with hlt hgt
      · refine List.pairwise_cons.mpr ⟨fun z hz => ?_, h⟩
        rcases List.mem_cons.mp hz with rfl | hz
        · exact hlt
        · exact hlt.trans (hhead z hz)
      · refine List.pairwise_cons.mpr ⟨fun z hz => ?_, ih htail⟩
        rcases mem_insertEntry hz with rfl | hz
        · exact hgt
        · exact hhead z hz
      · exact h

/-- Insert an entry; nothing changes when its key is already present. -/
def insert (t : OrderedTable α key) (x : α) : OrderedTable α key :=
  ⟨insertEntry key x t.entries, insertEntry_sorted t.sorted⟩

/-- Remove the entry with a given key, if any. -/
def erase (t : OrderedTable α key) (k : κ) : OrderedTable α key :=
  ⟨t.entries.filter (fun x => key x ≠ k), t.sorted.filter _⟩

/-- The entry with a given key. -/
def find? (t : OrderedTable α key) (k : κ) : Option α :=
  t.entries.find? (fun x => key x = k)

/-- The first entry whose key lies strictly above `k`. -/
def upperBound (t : OrderedTable α key) (k : κ) : Option α :=
  t.entries.find? (fun x => k < key x)

/-- The first entry whose key is not below `k`. -/
def lowerBound (t : OrderedTable α key) (k : κ) : Option α :=
  t.entries.find? (fun x => k ≤ key x)

/-- The last entry whose key is at most `k`: the one before `upperBound k`. -/
def lastAtMost (t : OrderedTable α key) (k : κ) : Option α :=
  (t.entries.filter (fun x => key x ≤ k)).getLast?

/-- A key names at most one entry. -/
theorem key_inj {t : OrderedTable α key} {x y : α} (hx : x ∈ t) (hy : y ∈ t)
    (hkey : key x = key y) : x = y := by
  have hnodup : (t.entries.map key).Nodup :=
    List.pairwise_map.mpr (t.sorted.imp fun h => ne_of_lt h)
  exact List.inj_on_of_nodup_map hnodup hx hy hkey

/-- Membership after inserting an entry with a fresh key. -/
theorem mem_insert_of_fresh {t : OrderedTable α key} {x z : α}
    (hfresh : ∀ y ∈ t, key y ≠ key x) : z ∈ t.insert x ↔ z = x ∨ z ∈ t := by
  constructor
  · exact mem_insertEntry
  · rintro (rfl | hz)
    · exact self_mem_insertEntry hfresh
    · exact subset_insertEntry hz

/-- Where the key is all of an entry, inserting one that is present changes nothing. -/
theorem mem_insert (hinj : Function.Injective key) {t : OrderedTable α key} {x z : α} :
    z ∈ t.insert x ↔ z = x ∨ z ∈ t := by
  by_cases hx : x ∈ t
  · constructor
    · exact mem_insertEntry
    · rintro (rfl | hz)
      · exact subset_insertEntry hx
      · exact subset_insertEntry hz
  · refine mem_insert_of_fresh fun y hy hkey => hx ?_
    rw [← hinj hkey]
    exact hy

@[simp] theorem mem_erase {t : OrderedTable α key} {k : κ} {z : α} :
    z ∈ t.erase k ↔ z ∈ t ∧ key z ≠ k := by
  simp [mem_def, erase]

theorem find?_eq_some_iff {t : OrderedTable α key} {k : κ} {x : α} :
    t.find? k = some x ↔ x ∈ t ∧ key x = k := by
  constructor
  · intro h
    exact ⟨List.mem_of_find?_eq_some h, by simpa using List.find?_some h⟩
  · rintro ⟨hx, rfl⟩
    cases hfind : t.find? (key x) with
    | none =>
        have := List.find?_eq_none.mp hfind x hx
        simp at this
    | some y =>
        have hy : y ∈ t := List.mem_of_find?_eq_some hfind
        have hkey : key y = key x := by simpa using List.find?_some hfind
        rw [key_inj hy hx hkey]

theorem find?_eq_none_iff {t : OrderedTable α key} {k : κ} :
    t.find? k = none ↔ ∀ y ∈ t, key y ≠ k := by
  simp [find?, mem_def]

theorem upperBound_eq_none_iff {t : OrderedTable α key} {k : κ} :
    t.upperBound k = none ↔ ∀ y ∈ t, key y ≤ k := by
  simp [upperBound, mem_def]

/-- The first entry that a search meets has the least key among those it looks for. -/
theorem first_entry_spec {t : OrderedTable α key} {p : α → Bool} {x : α}
    (h : t.entries.find? p = some x) :
    x ∈ t ∧ p x = true ∧ ∀ y ∈ t, p y = true → key x ≤ key y := by
  obtain ⟨hp, front, back, hsplit, hfront⟩ := List.find?_eq_some_iff_append.mp h
  refine ⟨List.mem_of_find?_eq_some h, hp, fun y hy hpy => ?_⟩
  have hsorted := t.sorted
  rw [mem_def, hsplit] at hy
  rw [hsplit, List.pairwise_append, List.pairwise_cons] at hsorted
  rcases List.mem_append.mp hy with hy | hy
  · have hnot := hfront y hy
    rw [hpy] at hnot
    cases hnot
  · rcases List.mem_cons.mp hy with rfl | hy
    · exact le_rfl
    · exact (hsorted.2.1.1 y hy).le

theorem upperBound_eq_some_iff {t : OrderedTable α key} {k : κ} {x : α} :
    t.upperBound k = some x ↔ x ∈ t ∧ k < key x ∧ ∀ y ∈ t, k < key y → key x ≤ key y := by
  constructor
  · intro h
    obtain ⟨hx, hk, hleast⟩ := first_entry_spec h
    exact ⟨hx, by simpa using hk, fun y hy hky => hleast y hy (by simpa using hky)⟩
  · rintro ⟨hx, hk, hleast⟩
    cases hfind : t.upperBound k with
    | none => exact absurd hk (not_lt.mpr (upperBound_eq_none_iff.mp hfind x hx))
    | some y =>
        obtain ⟨hy, hky, hfirst⟩ := first_entry_spec hfind
        have hxy : key x ≤ key y := hleast y hy (by simpa using hky)
        have hyx : key y ≤ key x := hfirst x hx (by simpa using hk)
        rw [key_inj hy hx (le_antisymm hyx hxy)]

/-- What `lowerBound` finds is the entry with the least key not below `k`. -/
theorem lowerBound_spec {t : OrderedTable α key} {k : κ} {x : α} (h : t.lowerBound k = some x) :
    x ∈ t ∧ k ≤ key x ∧ ∀ y ∈ t, k ≤ key y → key x ≤ key y := by
  obtain ⟨hx, hk, hleast⟩ := first_entry_spec h
  exact ⟨hx, by simpa using hk, fun y hy hky => hleast y hy (by simpa using hky)⟩

theorem lowerBound_eq_none_iff {t : OrderedTable α key} {k : κ} :
    t.lowerBound k = none ↔ ∀ y ∈ t, key y < k := by
  simp [lowerBound, mem_def]

theorem lastAtMost_eq_none_iff {t : OrderedTable α key} {k : κ} :
    t.lastAtMost k = none ↔ ∀ y ∈ t, k < key y := by
  simp [lastAtMost, mem_def]

/-- What the entry before the upper bound is: the greatest key not above `k`. -/
theorem lastAtMost_spec {t : OrderedTable α key} {k : κ} {x : α}
    (h : t.lastAtMost k = some x) :
    x ∈ t ∧ key x ≤ k ∧ ∀ y ∈ t, key y ≤ k → key y ≤ key x := by
  have hsorted := t.sorted.filter (fun x => key x ≤ k)
  obtain ⟨front, hsplit⟩ := List.getLast?_eq_some_iff.mp h
  have hmem : x ∈ t.entries.filter (fun x => key x ≤ k) := by
    rw [hsplit]
    simp
  obtain ⟨hx, hk⟩ := List.mem_filter.mp hmem
  refine ⟨hx, by simpa using hk, fun y hy hky => ?_⟩
  have hy' : y ∈ t.entries.filter (fun x => key x ≤ k) :=
    List.mem_filter.mpr ⟨hy, by simpa using hky⟩
  rw [hsplit] at hy' hsorted
  rcases List.mem_append.mp hy' with hy' | hy'
  · exact ((List.pairwise_append.mp hsorted).2.2 y hy' x (by simp)).le
  · rw [List.mem_singleton.mp hy']

theorem lastAtMost_eq_some_iff {t : OrderedTable α key} {k : κ} {x : α} :
    t.lastAtMost k = some x ↔ x ∈ t ∧ key x ≤ k ∧ ∀ y ∈ t, key y ≤ k → key y ≤ key x := by
  refine ⟨lastAtMost_spec, ?_⟩
  rintro ⟨hx, hk, hgreatest⟩
  cases hlast : t.lastAtMost k with
  | none => exact absurd hk (not_le.mpr (lastAtMost_eq_none_iff.mp hlast x hx))
  | some y =>
      obtain ⟨hy, hky, hyg⟩ := lastAtMost_spec hlast
      rw [key_inj hy hx (le_antisymm (hgreatest y hy hky) (hyg x hx hk))]

/-- Whether the table has no entry. -/
def isEmpty (t : OrderedTable α key) : Bool := t.entries.isEmpty

theorem isEmpty_iff {t : OrderedTable α key} : t.isEmpty = true ↔ ∀ x, x ∉ t := by
  rw [isEmpty, List.isEmpty_iff, List.eq_nil_iff_forall_not_mem]
  rfl

/-- A table in which nothing is found is the empty one. -/
theorem eq_empty {t : OrderedTable α key} (h : ∀ x, x ∉ t) : t = empty := by
  obtain ⟨entries, sorted⟩ := t
  obtain rfl : entries = [] := List.eq_nil_iff_forall_not_mem.mpr h
  rfl

/-- Total of a weight over the entries. -/
def total (t : OrderedTable α key) (weight : α → ℕ) : ℕ := (t.entries.map weight).sum

@[simp] theorem total_empty (weight : α → ℕ) :
    (empty : OrderedTable α key).total weight = 0 := rfl

theorem sum_insertEntry {x : α} {l : List α} (weight : α → ℕ)
    (hfresh : ∀ y ∈ l, key y ≠ key x) :
    ((insertEntry key x l).map weight).sum = weight x + (l.map weight).sum := by
  induction l with
  | nil => simp [insertEntry]
  | cons y rest ih =>
      have hrest := ih fun z hz => hfresh z (List.mem_cons_of_mem y hz)
      rw [insertEntry]
      split_ifs with hlt hgt
      · simp
      · simp only [List.map_cons, List.sum_cons, hrest]
        omega
      · exact absurd (le_antisymm (not_lt.mp hlt) (not_lt.mp hgt))
          (hfresh y List.mem_cons_self)

theorem total_insert {t : OrderedTable α key} {x : α} (weight : α → ℕ)
    (hfresh : ∀ y ∈ t, key y ≠ key x) :
    (t.insert x).total weight = weight x + t.total weight :=
  sum_insertEntry weight hfresh

/-- Inserting adds at most the weight of the entry: nothing when its key is present. -/
theorem total_insert_le (t : OrderedTable α key) (x : α) (weight : α → ℕ) :
    (t.insert x).total weight ≤ weight x + t.total weight := by
  suffices h : ∀ l : List α,
      ((insertEntry key x l).map weight).sum ≤ weight x + (l.map weight).sum from h t.entries
  intro l
  induction l with
  | nil => simp [insertEntry]
  | cons y rest ih =>
      rw [insertEntry]
      split_ifs
      · simp
      · simp only [List.map_cons, List.sum_cons]
        omega
      · simp

theorem total_erase {t : OrderedTable α key} {x : α} (weight : α → ℕ) (hx : x ∈ t) :
    weight x + (t.erase (key x)).total weight = t.total weight := by
  obtain ⟨front, back, hsplit⟩ := List.append_of_mem hx
  have hsorted := t.sorted
  rw [hsplit, List.pairwise_append, List.pairwise_cons] at hsorted
  obtain ⟨-, ⟨hback, -⟩, hfront⟩ := hsorted
  have hkeepFront : front.filter (fun y => key y ≠ key x) = front := by
    refine List.filter_eq_self.mpr fun y hy => ?_
    simpa using ne_of_lt (hfront y hy x List.mem_cons_self)
  have hkeepBack : back.filter (fun y => key y ≠ key x) = back := by
    refine List.filter_eq_self.mpr fun y hy => ?_
    simpa using (ne_of_lt (hback y hy)).symm
  have herase : (t.erase (key x)).entries = front ++ back := by
    rw [erase]
    simp only [hsplit, List.filter_append, List.filter_cons, ne_eq, not_true_eq_false,
      decide_false, Bool.false_eq_true, if_false]
    exact congrArg₂ (· ++ ·) hkeepFront hkeepBack
  rw [total, total, herase, hsplit]
  simp only [List.map_append, List.map_cons, List.sum_append, List.sum_cons]
  omega

end OrderedTable

end Containers
