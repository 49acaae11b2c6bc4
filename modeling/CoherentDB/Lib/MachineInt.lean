import Mathlib.Tactic

/-!
# Unsigned machine arithmetic on naturals

Values of a `w`-bit unsigned type are naturals below `2 ^ w`.  Addition and
subtraction wrap around; two lemmas say when they do not.  `ceilTo` rounds up to a
multiple without a bound.
-/

namespace MachineInt

/-- Addition in a `w`-bit unsigned type. -/
def addWrap (w a b : ℕ) : ℕ := (a + b) % 2 ^ w

/-- Subtraction in a `w`-bit unsigned type. -/
def subWrap (w a b : ℕ) : ℕ := (a + (2 ^ w - b % 2 ^ w)) % 2 ^ w

theorem addWrap_lt (w a b : ℕ) : addWrap w a b < 2 ^ w :=
  Nat.mod_lt _ (Nat.two_pow_pos w)

theorem subWrap_lt (w a b : ℕ) : subWrap w a b < 2 ^ w :=
  Nat.mod_lt _ (Nat.two_pow_pos w)

theorem addWrap_of_lt {w a b : ℕ} (h : a + b < 2 ^ w) : addWrap w a b = a + b :=
  Nat.mod_eq_of_lt h

theorem subWrap_of_le {w a b : ℕ} (hle : b ≤ a) (ha : a < 2 ^ w) : subWrap w a b = a - b := by
  have hb : b % 2 ^ w = b := Nat.mod_eq_of_lt (hle.trans_lt ha)
  have hsum : a + (2 ^ w - b) = (a - b) + 2 ^ w := by omega
  rw [subWrap, hb, hsum, Nat.add_mod_right]
  exact Nat.mod_eq_of_lt (by omega)

/-- A counter that started at `s` and follows a sum, when the sum grows by `b`. -/
theorem addWrap_follow (w s t b : ℕ) :
    addWrap w ((s + t) % 2 ^ w) b = (s + (b + t)) % 2 ^ w := by
  rw [addWrap, Nat.mod_add_mod]
  congr 1
  omega

/-- A counter that started at `s` and follows a sum, when the sum shrinks by `b`. -/
theorem subWrap_follow (w s t b : ℕ) :
    subWrap w ((s + (b + t)) % 2 ^ w) b = (s + t) % 2 ^ w := by
  have hlt : b % 2 ^ w < 2 ^ w := Nat.mod_lt b (Nat.two_pow_pos w)
  have hsplit := Nat.div_add_mod b (2 ^ w)
  have hsum : s + (b + t) + (2 ^ w - b % 2 ^ w) = s + t + 2 ^ w * (b / 2 ^ w + 1) := by
    rw [Nat.mul_add]
    omega
  rw [subWrap, Nat.mod_add_mod, hsum, Nat.add_mul_mod_self_left]

/-- The least multiple of `a` that is not below `v`. -/
def ceilTo (a v : ℕ) : ℕ := v + (a - v % a) % a

theorem ceilTo_spec {a : ℕ} (ha : 0 < a) (v : ℕ) :
    a ∣ ceilTo a v ∧ v ≤ ceilTo a v ∧ ceilTo a v < v + a := by
  have hlt : v % a < a := Nat.mod_lt v ha
  have hpad : (a - v % a) % a < a := Nat.mod_lt _ ha
  refine ⟨?_, ?_, ?_⟩
  · rcases Nat.eq_zero_or_pos (v % a) with hz | hz
    · rw [ceilTo, hz, Nat.sub_zero, Nat.mod_self, Nat.add_zero]
      exact Nat.dvd_of_mod_eq_zero hz
    · have hsplit : v + (a - v % a) = (v - v % a) + a := by
        have := Nat.mod_le v a
        omega
      rw [ceilTo, Nat.mod_eq_of_lt (by omega : a - v % a < a), hsplit]
      exact Nat.dvd_add (Nat.dvd_sub_mod v) (dvd_refl a)
  · exact Nat.le_add_right _ _
  · exact Nat.add_lt_add_left hpad v

end MachineInt
