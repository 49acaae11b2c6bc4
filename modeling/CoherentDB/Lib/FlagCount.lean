import Mathlib.Data.Finset.Card
import Mathlib.Tactic

/-!
# Counting cleared flags

Every index of a family may have a flag, set or cleared.  A counter goes with the
family: `-1` as long as there is no flag, and then the number of cleared flags.  A new
flag is set while the counter is 0, and cleared otherwise.
-/

namespace FlagCount

variable {ι : Type*}

/-- The counter of the cleared flags. -/
def Counts (flags : ι → Option Bool) (count : ℤ) : Prop :=
  (count = -1 ∧ ∀ i, flags i = none) ∨
  ∃ cleared : Finset ι, (∀ i, i ∈ cleared ↔ flags i = some false) ∧ count = cleared.card

/-- The counter after a flag has been added. -/
def withNew (count : ℤ) : ℤ :=
  if decide (count = 0) then count else if count = -1 then 1 else count + 1

theorem withNew_eq_zero_iff (count : ℤ) : withNew count = 0 ↔ count = 0 := by
  unfold withNew
  by_cases hzero : count = 0
  · simp [hzero]
  · by_cases hminus : count = -1
    · simp [hminus]
    · rw [if_neg (by simpa using hzero), if_neg hminus]
      omega

variable {flags : ι → Option Bool} {count : ℤ} {i : ι}

/-- A cleared flag is counted. -/
theorem Counts.pos (h : Counts flags count) (hi : flags i = some false) : 0 < count := by
  rcases h with ⟨-, hnone⟩ | ⟨cleared, hmem, hcard⟩
  · simp [hnone i] at hi
  · have hsome : 0 < cleared.card := Finset.card_pos.mpr ⟨i, (hmem i).mpr hi⟩
    omega

theorem Counts.congr {flags' : ι → Option Bool} {count' : ℤ} (h : Counts flags count)
    (hflags : flags' = flags) (hcount : count' = count) : Counts flags' count' := by
  rw [hflags, hcount]
  exact h

/-- With the first flag the counter has left -1 for good. -/
theorem withNew_ne_neg_one (h : Counts flags count) : withNew count ≠ -1 := by
  unfold withNew
  rcases h with ⟨hminus, -⟩ | ⟨cleared, -, hcard⟩
  · simp [hminus]
  · split_ifs <;> omega

theorem Counts.new [DecidableEq ι] (h : Counts flags count) (hi : flags i = none) :
    Counts (Function.update flags i (some (decide (count = 0)))) (withNew count) := by
  rcases h with ⟨hminus, hnone⟩ | ⟨cleared, hmem, hcard⟩
  · -- The first flag of all takes the counter from -1 to 1.
    refine Or.inr ⟨{i}, fun j => ?_, by simp [withNew, hminus]⟩
    rcases eq_or_ne j i with rfl | hne
    · simp [hminus]
    · simp [hne, hnone j]
  · have hnew : i ∉ cleared := fun hin => by simp [(hmem i).mp hin] at hi
    by_cases hzero : count = 0
    · -- All flags are set: so is the new one, and it is not counted.
      refine Or.inr ⟨cleared, fun j => ?_, by simp [withNew, hzero, ← hcard]⟩
      rcases eq_or_ne j i with rfl | hne
      · simp [hzero, hnew]
      · simp [hne, hmem j]
    · refine Or.inr ⟨insert i cleared, fun j => ?_, ?_⟩
      · rcases eq_or_ne j i with rfl | hne
        · simp [hzero]
        · simp [hne, hmem j]
      · have hminus : count ≠ -1 := by omega
        rw [Finset.card_insert_of_notMem hnew]
        simp only [withNew, hzero, hminus, decide_false, Bool.false_eq_true, if_false]
        omega

/-- Clearing or setting a flag that is there moves the counter by one. -/
theorem Counts.flip [DecidableEq ι] (h : Counts flags count) {flag : Bool} (hi : flags i = some flag) :
    Counts (Function.update flags i (some (!flag))) (if flag then count + 1 else count - 1) := by
  rcases h with ⟨-, hnone⟩ | ⟨cleared, hmem, hcard⟩
  · simp [hnone i] at hi
  · cases flag with
    | true =>
        have hnew : i ∉ cleared := fun hin => by simp [(hmem i).mp hin] at hi
        refine Or.inr ⟨insert i cleared, fun j => ?_, ?_⟩
        · rcases eq_or_ne j i with rfl | hne
          · simp
          · simp [hne, hmem j]
        · rw [Finset.card_insert_of_notMem hnew]
          simp only [if_true]
          omega
    | false =>
        have hold : i ∈ cleared := (hmem i).mpr hi
        have hsome : 0 < cleared.card := Finset.card_pos.mpr ⟨i, hold⟩
        refine Or.inr ⟨cleared.erase i, fun j => ?_, ?_⟩
        · rcases eq_or_ne j i with rfl | hne
          · simp
          · simp [hne, hmem j]
        · rw [Finset.card_erase_of_mem hold]
          simp only [Bool.false_eq_true, if_false]
          omega

end FlagCount
