import Mathlib.Data.List.Basic

/-!
# Sequences described by the changes that were made to them

There are sequences of values under names.  A change empties one of them or stores values from an
offset on; where this leaves a gap behind the old end, the gap is filled with a default.
`lookup` says what stands at a position after a list of changes, the newest first: the newest
change that reaches the position decides (`lookup_of_newest`).
-/

namespace CoherentDB
namespace WriteLog

/-- A change of the sequence with this name. -/
inductive Change (κ α : Type)
  | emptied (name : κ)
  | stored (name : κ) (offset : ℕ) (values : List α)

variable {κ α : Type}

/-- The change may have an effect on this position. -/
def Change.Reaches (name : κ) (i : ℕ) : Change κ α → Prop
  | .emptied changed => changed = name
  | .stored changed offset values => changed = name ∧ 0 < values.length ∧ i < offset + values.length

instance [DecidableEq κ] (name : κ) (i : ℕ) : (change : Change κ α) → Decidable (change.Reaches name i)
  | .emptied changed => inferInstanceAs (Decidable (changed = name))
  | .stored changed offset values =>
      inferInstanceAs
        (Decidable (changed = name ∧ 0 < values.length ∧ i < offset + values.length))

/-- What a change leaves at a position that it reaches, with what stood there before. -/
def Change.leaves (zero : α) (i : ℕ) (before : Option α) : Change κ α → Option α
  | .emptied _ => none
  | .stored _ offset values => if i < offset then some (before.getD zero) else values[i - offset]?

/-- What stands at a position after the changes, of which the newest comes first. -/
def lookup [DecidableEq κ] (zero : α) (name : κ) (i : ℕ) : List (Change κ α) → Option α
  | [] => none
  | change :: older =>
      if change.Reaches name i then change.leaves zero i (lookup zero name i older)
      else lookup zero name i older

section Lookup

variable [DecidableEq κ] {zero : α} {name : κ} {i : ℕ} {change : Change κ α}
  {newer older : List (Change κ α)}

theorem lookup_cons_of_reaches (h : change.Reaches name i) :
    lookup zero name i (change :: older) = change.leaves zero i (lookup zero name i older) :=
  if_pos h

theorem lookup_cons_of_not_reaches (h : ¬ change.Reaches name i) :
    lookup zero name i (change :: older) = lookup zero name i older :=
  if_neg h

/-- Changes that do not reach a position do not matter there. -/
theorem lookup_append (h : ∀ change ∈ newer, ¬ change.Reaches name i) :
    lookup zero name i (newer ++ older) = lookup zero name i older := by
  induction newer with
  | nil => rfl
  | cons change rest ih =>
      rw [List.cons_append, lookup_cons_of_not_reaches (h change List.mem_cons_self)]
      exact ih fun other hother => h other (List.mem_cons_of_mem change hother)

/-- **The newest change that reaches a position decides** what stands there: a value that was
stored is found again as long as nothing newer reaches its position. -/
theorem lookup_of_newest {offset : ℕ} {values : List α}
    (h : ∀ change ∈ newer, ¬ change.Reaches name i) (hle : offset ≤ i)
    (hlt : i < offset + values.length) :
    lookup zero name i (newer ++ .stored name offset values :: older) = values[i - offset]? := by
  have hreaches : (Change.stored name offset values).Reaches name i := by
    refine ⟨rfl, ?_, hlt⟩
    omega
  rw [lookup_append h, lookup_cons_of_reaches hreaches]
  exact if_neg (Nat.not_lt.mpr hle)

end Lookup

end WriteLog
end CoherentDB
