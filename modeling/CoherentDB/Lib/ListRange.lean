import Mathlib.Data.List.Basic
import Mathlib.Tactic

/-!
# Reading and overwriting a range of a list

`slice` reads a range and `overwrite` replaces one, as a block copy between two
arrays does.  Both are described position by position first; the lemmas about
concatenations are the ones a loop over consecutive arrays needs:

* the range lies behind the first array, inside it, or crosses its end;
* a range inside a window of a list is the range of the window.

`splice` puts a list in the place of one entry; what a filter keeps of the others is
not changed by it.

`pieces` cuts a length into equal pieces, with what is left over as the last one.
-/

namespace ListRange

variable {α : Type*}

/-- The `n` entries from position `pos` on. -/
def slice (l : List α) (pos n : ℕ) : List α := (l.drop pos).take n

/-- Replace the entries from position `pos` on by `new`. -/
def overwrite (l : List α) (pos : ℕ) (new : List α) : List α :=
  l.take pos ++ new ++ l.drop (pos + new.length)

section Positions

theorem getElem?_slice (l : List α) (pos n i : ℕ) :
    (slice l pos n)[i]? = if i < n then l[pos + i]? else none := by
  rw [slice, List.getElem?_take]
  split_ifs with hi
  · rw [List.getElem?_drop]
  · rfl

theorem getElem?_overwrite {l new : List α} {pos : ℕ} (hfit : pos + new.length ≤ l.length)
    (i : ℕ) :
    (overwrite l pos new)[i]? =
      if pos ≤ i ∧ i < pos + new.length then new[i - pos]? else l[i]? := by
  have htake : (l.take pos).length = pos := by
    rw [List.length_take]
    omega
  rw [overwrite, List.append_assoc]
  by_cases hlow : i < pos
  · rw [List.getElem?_append_left (by omega), List.getElem?_take, if_pos hlow,
      if_neg (by omega)]
  · rw [List.getElem?_append_right (by omega), htake]
    by_cases hin : i - pos < new.length
    · rw [List.getElem?_append_left hin, if_pos (by omega)]
    · rw [List.getElem?_append_right (by omega), List.getElem?_drop, if_neg (by omega)]
      congr 1
      omega

theorem length_slice {l : List α} {pos n : ℕ} (hfit : pos + n ≤ l.length) :
    (slice l pos n).length = n := by
  rw [slice, List.length_take, List.length_drop]
  omega

theorem length_overwrite {l new : List α} {pos : ℕ} (hfit : pos + new.length ≤ l.length) :
    (overwrite l pos new).length = l.length := by
  simp only [overwrite, List.length_append, List.length_take, List.length_drop]
  omega

@[simp] theorem slice_zero (l : List α) (pos : ℕ) : slice l pos 0 = [] := by
  simp [slice]

@[simp] theorem overwrite_nil (l : List α) (pos : ℕ) : overwrite l pos [] = l := by
  simp [overwrite]

theorem slice_all (l : List α) : slice l 0 l.length = l := by
  simp [slice]

theorem overwrite_all {l new : List α} (h : new.length = l.length) : overwrite l 0 new = new := by
  simp [overwrite, h]

end Positions

section Concatenation

variable {a b new : List α} {pos n : ℕ}

/-- A range behind the first list. -/
theorem slice_append_right (h : a.length ≤ pos) :
    slice (a ++ b) pos n = slice b (pos - a.length) n := by
  rw [slice, slice, List.drop_append, List.drop_eq_nil_of_le h, List.nil_append]

/-- A range inside the first list. -/
theorem slice_append_left (h : pos + n ≤ a.length) : slice (a ++ b) pos n = slice a pos n := by
  have hdrop : n ≤ (a.drop pos).length := by
    rw [List.length_drop]
    omega
  rw [slice, slice, List.drop_append_of_le_length (by omega), List.take_append_of_le_length hdrop]

/-- A range that starts in the first list: one part there, the rest in the second. -/
theorem slice_append_cross (h : pos ≤ a.length) :
    slice (a ++ b) pos n =
      slice a pos (min n (a.length - pos)) ++ slice b 0 (n - min n (a.length - pos)) := by
  rw [slice, slice, slice, List.drop_append, Nat.sub_eq_zero_of_le h, List.drop_zero,
    List.take_append, List.length_drop]
  rcases Nat.le_total n (a.length - pos) with hle | hle
  · rw [Nat.min_eq_left hle, Nat.sub_eq_zero_of_le hle, Nat.sub_self]
  · rw [Nat.min_eq_right hle]
    congr 1
    rw [List.take_of_length_le (by rw [List.length_drop]; exact hle),
      List.take_of_length_le (by rw [List.length_drop])]

/-- Overwriting behind the first list. -/
theorem overwrite_append_right (h : a.length ≤ pos) :
    overwrite (a ++ b) pos new = a ++ overwrite b (pos - a.length) new := by
  have hlen : a.length ≤ pos + new.length := by omega
  rw [overwrite, overwrite, List.take_append, List.take_of_length_le h, List.drop_append,
    List.drop_eq_nil_of_le hlen, List.nil_append]
  simp only [List.append_assoc]
  congr 4
  omega

/-- Overwriting a range that starts in the first list. -/
theorem overwrite_append_cross (h : pos ≤ a.length) :
    overwrite (a ++ b) pos new =
      overwrite a pos (new.take (min new.length (a.length - pos))) ++
        overwrite b 0 (new.drop (min new.length (a.length - pos))) := by
  rcases Nat.le_total new.length (a.length - pos) with hle | hle
  · rw [Nat.min_eq_left hle, List.take_length, List.drop_length, overwrite_nil, overwrite,
      overwrite, List.take_append, Nat.sub_eq_zero_of_le h, List.take_zero, List.append_nil,
      List.drop_append, Nat.sub_eq_zero_of_le (by omega), List.drop_zero]
    simp only [List.append_assoc]
  · have hfront : (a ++ b).take pos = a.take pos := by
      rw [List.take_append, Nat.sub_eq_zero_of_le h, List.take_zero, List.append_nil]
    have hback : (a ++ b).drop (pos + new.length) = b.drop (new.length - (a.length - pos)) := by
      rw [List.drop_append, List.drop_eq_nil_of_le (by omega), List.nil_append]
      congr 1
      omega
    have hend : a.drop (pos + (a.length - pos)) = [] := List.drop_eq_nil_of_le (by omega)
    rw [Nat.min_eq_right hle, overwrite, overwrite, overwrite, hfront, hback, List.length_take,
      Nat.min_eq_left hle, hend, List.append_nil, List.take_zero, List.nil_append,
      List.length_drop, Nat.zero_add]
    simp only [List.append_assoc]
    rw [← List.append_assoc (new.take _), List.take_append_drop]

/-- Two adjacent overwrites are one. -/
theorem overwrite_overwrite {l x y : List α} (hfit : pos + x.length + y.length ≤ l.length) :
    overwrite (overwrite l pos x) (pos + x.length) y = overwrite l pos (x ++ y) := by
  have hx : pos + x.length ≤ l.length := by omega
  have hxy : pos + (x ++ y).length ≤ l.length := by
    rw [List.length_append]
    omega
  have hy : pos + x.length + y.length ≤ (overwrite l pos x).length := by
    rw [length_overwrite hx]
    exact hfit
  apply List.ext_getElem?
  intro i
  rw [getElem?_overwrite hy, getElem?_overwrite hx, getElem?_overwrite hxy, List.length_append]
  by_cases hlow : i < pos + x.length
  · rw [if_neg (by omega)]
    by_cases hin : pos ≤ i
    · rw [if_pos ⟨hin, hlow⟩, if_pos (by omega), List.getElem?_append_left (by omega)]
    · rw [if_neg (by omega), if_neg (by omega)]
  · by_cases hin : i < pos + x.length + y.length
    · rw [if_pos (by omega), if_pos (by omega), List.getElem?_append_right (by omega)]
      congr 1
      omega
    · rw [if_neg (by omega), if_neg (by omega), if_neg (by omega)]

/-- The first part of a range. -/
theorem take_slice {l : List α} {m : ℕ} (h : m ≤ n) : (slice l pos n).take m = slice l pos m := by
  rw [slice, slice, List.take_take, Nat.min_eq_left h]

/-- The rest of a range. -/
theorem drop_slice {l : List α} {m : ℕ} : (slice l pos n).drop m = slice l (pos + m) (n - m) := by
  rw [slice, slice, List.drop_take, List.drop_drop]

end Concatenation

section Window

variable {l new : List α} {start size pos : ℕ}

/-- Overwriting inside a window of a list overwrites the window. -/
theorem slice_overwrite (hwindow : start + size ≤ l.length) (hfit : pos + new.length ≤ size) :
    slice (overwrite l (start + pos) new) start size = overwrite (slice l start size) pos new := by
  have hl : start + pos + new.length ≤ l.length := by omega
  have hs : pos + new.length ≤ (slice l start size).length := by
    rw [length_slice hwindow]
    exact hfit
  apply List.ext_getElem?
  intro i
  rw [getElem?_slice, getElem?_overwrite hl, getElem?_overwrite hs, getElem?_slice]
  by_cases hin : i < size
  · rw [if_pos hin, if_pos hin]
    by_cases hrange : pos ≤ i ∧ i < pos + new.length
    · rw [if_pos hrange, if_pos (by omega)]
      congr 1
      omega
    · rw [if_neg hrange, if_neg (by omega)]
  · rw [if_neg hin, if_neg hin, if_neg (by omega)]

/-- A range of a window is a range of the list. -/
theorem slice_slice {n : ℕ} (hfit : pos + n ≤ size) :
    slice (slice l start size) pos n = slice l (start + pos) n := by
  rw [slice, slice, slice, List.drop_take, List.take_take, List.drop_drop,
    Nat.min_eq_left (by omega)]

theorem take_overwrite (h : start ≤ pos) (hfit : pos + new.length ≤ l.length) :
    (overwrite l pos new).take start = l.take start := by
  rw [overwrite, List.append_assoc, List.take_append_of_le_length, List.take_take,
    Nat.min_eq_left h]
  rw [List.length_take]
  omega

theorem drop_overwrite (h : pos + new.length ≤ start) (hfit : pos + new.length ≤ l.length) :
    (overwrite l pos new).drop start = l.drop start := by
  have htake : (l.take pos ++ new).length = pos + new.length := by
    rw [List.length_append, List.length_take]
    omega
  rw [overwrite, List.drop_append, List.drop_eq_nil_of_le (by omega), List.nil_append,
    List.drop_drop, htake]
  congr 1
  omega

end Window

/-- Put `new` in the place of the entry at position `i`. -/
def splice (l : List α) (i : ℕ) (new : List α) : List α := l.take i ++ new ++ l.drop (i + 1)

section Splice

variable {l : List α} {i : ℕ} {a : α} {p : α → Bool}

theorem splice_self (hi : l[i]? = some a) : splice l i [a] = l := by
  obtain ⟨hlt, rfl⟩ := List.getElem?_eq_some_iff.mp hi
  rw [splice, List.append_assoc, List.singleton_append, List.getElem_cons_drop hlt,
    List.take_append_drop]

theorem filter_splice (l : List α) (i : ℕ) (new : List α) :
    (splice l i new).filter p =
      (l.take i).filter p ++ new.filter p ++ (l.drop (i + 1)).filter p := by
  rw [splice, List.filter_append, List.filter_append]

/-- The list around the entry at position `i`. -/
theorem exists_split (hi : l[i]? = some a) :
    ∃ before after, l = before ++ a :: after ∧ before.length = i ∧
      ∀ new, splice l i new = before ++ new ++ after := by
  obtain ⟨hlt, -⟩ := List.getElem?_eq_some_iff.mp hi
  refine ⟨l.take i, l.drop (i + 1), ?_, List.length_take_of_le hlt.le, fun _ => rfl⟩
  conv_lhs => rw [← splice_self hi]
  rw [splice, List.append_assoc, List.singleton_append]

theorem mem_splice {new : List α} {b : α} (h : b ∈ splice l i new) : b ∈ new ∨ b ∈ l := by
  rw [splice, List.mem_append, List.mem_append] at h
  rcases h with (h | h) | h
  · exact Or.inr (List.mem_of_mem_take h)
  · exact Or.inl h
  · exact Or.inr (List.mem_of_mem_drop h)

theorem splice_singleton (hi : l[i]? = some a) (b : α) : splice l i [b] = l.set i b := by
  obtain ⟨hlt, -⟩ := List.getElem?_eq_some_iff.mp hi
  rw [List.set_eq_take_append_cons_drop, if_pos hlt, splice, List.append_assoc,
    List.singleton_append]

/-- Without repetitions the value of an entry is erased where the entry is. -/
theorem erase_map_of_nodup {β : Type*} [DecidableEq β] {f : α → β} {front : List β}
    (hi : l[i]? = some a) (hnodup : (front ++ l.map f).Nodup) :
    (front ++ l.map f).erase (f a) = front ++ (l.eraseIdx i).map f := by
  obtain ⟨before, after, hl, hlength, -⟩ := exists_split hi
  have herase : l.eraseIdx i = before ++ after := by
    rw [hl, ← hlength, List.eraseIdx_append_of_length_le le_rfl, Nat.sub_self]
    rfl
  rw [hl, List.map_append, List.map_cons, ← List.append_assoc] at hnodup ⊢
  have hnot : f a ∉ front ++ before.map f := by
    intro hmem
    exact (List.nodup_append.mp hnodup).2.2 _ hmem _ List.mem_cons_self rfl
  rw [← hl, herase, List.erase_append_right _ hnot, List.erase_cons_head, List.map_append,
    List.append_assoc]

/-- A new entry that looks the same under `f` changes nothing there. -/
theorem map_set_of_eq {β : Type*} {f : α → β} {b : α} (hi : l[i]? = some a) (h : f b = f a) :
    (l.set i b).map f = l.map f := by
  apply List.ext_getElem?
  intro j
  rw [List.getElem?_map, List.getElem?_map, List.getElem?_set]
  split_ifs with hij hlt
  · subst hij
    rw [hi, Option.map_some, Option.map_some, h]
  · subst hij
    rw [List.getElem?_eq_none (not_lt.mp hlt)]
  · rfl

/-- What is gathered from the entries changes by what the replaced entry had. -/
theorem flatMap_splice_perm {β : Type} (f : α → List β) (hi : l[i]? = some a) (b : α) :
    ((splice l i [b]).flatMap f ++ f a).Perm (l.flatMap f ++ f b) := by
  obtain ⟨before, after, hl, -, hsplice⟩ := exists_split hi
  rw [hsplice, hl]
  simp only [List.flatMap_append, List.flatMap_cons, List.flatMap_nil, List.append_nil,
    List.append_assoc]
  refine List.Perm.append_left _ ?_
  -- The two entries change places around what comes after.
  rw [← List.append_assoc, ← List.append_assoc (f a)]
  exact (List.perm_append_comm).trans
    ((List.perm_append_comm.append_left (f a)).trans (by rw [List.append_assoc]))

/-- A sum over the entries changes by the one that is replaced. -/
theorem sum_map_splice (f : α → ℕ) (hi : l[i]? = some a) (new : List α) :
    ((splice l i new).map f).sum + f a = (l.map f).sum + (new.map f).sum := by
  obtain ⟨before, after, hl, -, hsplice⟩ := exists_split hi
  rw [hsplice, hl]
  simp only [List.map_append, List.map_cons, List.sum_append, List.sum_cons]
  omega

theorem sum_map_set (f : α → ℕ) (hi : l[i]? = some a) (b : α) :
    ((l.set i b).map f).sum + f a = (l.map f).sum + f b := by
  rw [← splice_singleton hi, sum_map_splice f hi, List.map_singleton, List.sum_singleton]

/-- The sum of a list changes by the entry that is replaced. -/
theorem sum_set {M : Type*} [AddCommMonoid M] {l : List M} {a : M} (hi : l[i]? = some a) (b : M) :
    (l.set i b).sum + a = l.sum + b := by
  obtain ⟨before, after, hl, -, hsplice⟩ := exists_split hi
  rw [← splice_singleton hi, hsplice, hl]
  simp only [List.sum_append, List.sum_cons, List.sum_nil]
  abel

/-- Entries that the filter drops do not count. -/
theorem filter_splice_of_not (hi : l[i]? = some a) (ha : p a = false) {new : List α}
    (hnew : new.filter p = []) : (splice l i new).filter p = l.filter p := by
  conv_rhs => rw [← splice_self hi]
  rw [filter_splice, filter_splice, hnew, List.filter_singleton, ha]
  rfl

/-- The only entry that the filter keeps is replaced. -/
theorem filter_splice_of_single (hi : l[i]? = some a) (ha : p a = true)
    (hone : (l.filter p).length ≤ 1) (new : List α) :
    l.filter p = [a] ∧ (splice l i new).filter p = new.filter p := by
  have hself : l.filter p = (l.take i).filter p ++ [a] ++ (l.drop (i + 1)).filter p := by
    conv_lhs => rw [← splice_self hi]
    rw [filter_splice, List.filter_singleton, ha]
    rfl
  rw [hself, List.length_append, List.length_append, List.length_singleton] at hone
  have hbefore : (l.take i).filter p = [] := List.length_eq_zero_iff.mp (by omega)
  have hafter : (l.drop (i + 1)).filter p = [] := List.length_eq_zero_iff.mp (by omega)
  constructor
  · rw [hself, hbefore, hafter]
    rfl
  · rw [filter_splice, hbefore, hafter, List.nil_append, List.append_nil]

end Splice

/-- A length cut into pieces of `s`; the last one is shorter if the length is no multiple. -/
def pieces (s n : ℕ) : List ℕ :=
  List.replicate (n / s) s ++ if n % s = 0 then [] else [n % s]

section Pieces

variable {s n p : ℕ}

theorem length_pieces (s n : ℕ) :
    (pieces s n).length = if n % s = 0 then n / s else n / s + 1 := by
  rw [pieces, List.length_append, List.length_replicate]
  split_ifs <;> rfl

theorem sum_pieces (s n : ℕ) : (pieces s n).sum = n := by
  have hsplit := Nat.div_add_mod' n s
  rw [pieces, List.sum_append, List.sum_replicate, smul_eq_mul]
  split_ifs with hrest
  · rw [List.sum_nil]
    omega
  · rw [List.sum_singleton]
    omega

theorem mem_pieces (hs : 0 < s) (hp : p ∈ pieces s n) : 0 < p ∧ p ≤ s := by
  have hlt := Nat.mod_lt n hs
  rw [pieces, List.mem_append] at hp
  rcases hp with hfull | hrest
  · rw [List.eq_of_mem_replicate hfull]
    exact ⟨hs, le_rfl⟩
  · split_ifs at hrest with hzero
    · cases hrest
    · rw [List.mem_singleton] at hrest
      omega

/-- All pieces but the last are whole. -/
theorem eq_of_mem_dropLast_pieces (hp : p ∈ (pieces s n).dropLast) : p = s := by
  rw [pieces] at hp
  split_ifs at hp with hzero
  · rw [List.append_nil] at hp
    exact List.eq_of_mem_replicate (List.mem_of_mem_dropLast hp)
  · rw [List.dropLast_concat] at hp
    exact List.eq_of_mem_replicate hp

theorem pieces_zero (s : ℕ) : pieces s 0 = [] := by
  rw [pieces, Nat.zero_div, Nat.zero_mod]
  rfl

/-- Cutting off the first piece. -/
theorem pieces_step (hs : 0 < s) (hn : 0 < n) : pieces s n = min s n :: pieces s (n - s) := by
  rcases Nat.lt_or_ge n s with hlt | hle
  · rw [pieces, Nat.div_eq_of_lt hlt, Nat.mod_eq_of_lt hlt, if_neg hn.ne', Nat.min_eq_right hlt.le,
      Nat.sub_eq_zero_of_le hlt.le, pieces_zero]
    rfl
  · rw [pieces, pieces, Nat.min_eq_left hle, Nat.div_eq_sub_div hs hle, Nat.mod_eq_sub_mod hle,
      List.replicate_succ, List.cons_append]

end Pieces

end ListRange
