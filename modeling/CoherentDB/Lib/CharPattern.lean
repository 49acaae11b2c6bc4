import Mathlib.Tactic

/-!
# Patterns of character classes

A pattern is a sequence of classes, each for exactly one character or, starred, for
any number of them.  These are the regular expressions without alternatives and
groups.  A class is a predicate, so the alphabet may be large, and negated classes need
no enumeration.

`accepts` searches for a match, `Matches` says what a match is.  A match of a pattern in
two parts is a match of each of them (`matches_append`).
-/

namespace Patterns

variable {α : Type*}

/-- A class for one character, or for any number of characters. -/
inductive Item (α : Type*)
  | one (p : α → Bool)
  | star (p : α → Bool)

/-- Characters of a class up to where the rest of the string is accepted by `next`. -/
def starThen (p : α → Bool) (next : List α → Bool) : List α → Bool
  | [] => next []
  | c :: s => next (c :: s) || (p c && starThen p next s)

/-- Does the pattern match the whole string? -/
def accepts : List (Item α) → List α → Bool
  | [], s => s.isEmpty
  | .one _ :: _, [] => false
  | .one p :: rest, c :: s => p c && accepts rest s
  | .star p :: rest, s => starThen p (accepts rest) s

/-- The pattern matches the whole string. -/
def Matches : List (Item α) → List α → Prop
  | [], s => s = []
  | .one p :: rest, s => ∃ c tail, s = c :: tail ∧ p c = true ∧ Matches rest tail
  | .star p :: rest, s => ∃ many tail, s = many ++ tail ∧ (∀ c ∈ many, p c = true) ∧
      Matches rest tail

theorem starThen_iff {p : α → Bool} {next : List α → Bool} {s : List α} :
    starThen p next s = true ↔
      ∃ many tail, s = many ++ tail ∧ (∀ c ∈ many, p c = true) ∧ next tail = true := by
  induction s with
  | nil =>
      constructor
      · intro h
        exact ⟨[], [], rfl, by simp, h⟩
      · rintro ⟨many, tail, hsplit, -, hnext⟩
        obtain ⟨rfl, rfl⟩ := List.append_eq_nil_iff.mp hsplit.symm
        exact hnext
  | cons c s ih =>
      rw [starThen, Bool.or_eq_true, Bool.and_eq_true, ih]
      constructor
      · rintro (hnext | ⟨hc, many, tail, rfl, hmany, hnext⟩)
        · exact ⟨[], c :: s, rfl, by simp, hnext⟩
        · exact ⟨c :: many, tail, rfl, List.forall_mem_cons.mpr ⟨hc, hmany⟩, hnext⟩
      · rintro ⟨many, tail, hsplit, hmany, hnext⟩
        cases many with
        | nil =>
            obtain rfl : c :: s = tail := hsplit
            exact Or.inl hnext
        | cons d many =>
            obtain ⟨rfl, rfl⟩ := List.cons.inj hsplit
            obtain ⟨hc, hmany⟩ := List.forall_mem_cons.mp hmany
            exact Or.inr ⟨hc, many, tail, rfl, hmany, hnext⟩

/-- **The search finds a match exactly if there is one.** -/
theorem accepts_iff {pattern : List (Item α)} {s : List α} :
    accepts pattern s = true ↔ Matches pattern s := by
  induction pattern generalizing s with
  | nil => exact List.isEmpty_iff
  | cons item rest ih =>
      cases item with
      | one p =>
          cases s with
          | nil => simp [accepts, Matches]
          | cons c s => simp [accepts, Matches, ih]
      | star p =>
          rw [accepts, starThen_iff, Matches]
          simp only [ih]

theorem matches_append {first second : List (Item α)} {s : List α} :
    Matches (first ++ second) s ↔ ∃ a b, s = a ++ b ∧ Matches first a ∧ Matches second b := by
  induction first generalizing s with
  | nil => simp [Matches]
  | cons item rest ih =>
      cases item with
      | one p =>
          simp only [List.cons_append, Matches, ih]
          constructor
          · rintro ⟨c, tail, rfl, hc, a, b, rfl, ha, hb⟩
            exact ⟨c :: a, b, rfl, ⟨c, a, rfl, hc, ha⟩, hb⟩
          · rintro ⟨_, b, rfl, ⟨c, a, rfl, hc, ha⟩, hb⟩
            exact ⟨c, a ++ b, rfl, hc, a, b, rfl, ha, hb⟩
      | star p =>
          simp only [List.cons_append, Matches, ih]
          constructor
          · rintro ⟨many, tail, rfl, hmany, a, b, rfl, ha, hb⟩
            exact ⟨many ++ a, b, (List.append_assoc _ _ _).symm, ⟨many, a, rfl, hmany, ha⟩, hb⟩
          · rintro ⟨_, b, rfl, ⟨many, a, rfl, hmany, ha⟩, hb⟩
            exact ⟨many, a ++ b, List.append_assoc _ _ _, hmany, a, b, rfl, ha, hb⟩

/-- Any number of characters of a class. -/
theorem matches_star {p : α → Bool} {s : List α} :
    Matches [.star p] s ↔ ∀ c ∈ s, p c = true := by
  simp only [Matches]
  constructor
  · rintro ⟨many, tail, rfl, hmany, rfl⟩
    rw [List.append_nil]
    exact hmany
  · intro h
    exact ⟨s, [], (List.append_nil s).symm, h, rfl⟩

/-- One character of a class. -/
theorem matches_one {p : α → Bool} {s : List α} :
    Matches [.one p] s ↔ ∃ c, s = [c] ∧ p c = true := by
  simp [Matches]

end Patterns
