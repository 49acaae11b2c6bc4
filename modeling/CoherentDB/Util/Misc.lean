import CoherentDB.Debug.Asserts
import CoherentDB.Lib.MachineInt

/-!
# Bytes, failures and the alignment helpers of `util/misc.h`

`is_pow2` is a template over integer types; its argument is an integer here, so the
definition serves signed and unsigned types of every width.  `align_down` and
`align_up` work on a `w`-bit unsigned type.
-/

namespace CoherentDB
namespace Util

open Debug MachineInt

/-- A `char`. -/
abbrev Byte := UInt8

/-- How a call can end without a result; an `io_exception` carries its message. -/
inductive Failure
  | assertion
  | ioException (message : String)
  | badAlloc
  | undefinedBehaviour
  deriving DecidableEq, Repr

/-- `d_assert`. -/
def dAssert (condition : Prop) [Decidable condition] : Except Failure Unit :=
  dAssertElse .assertion condition

theorem dAssert_of {condition : Prop} [Decidable condition] (h : condition) :
    dAssert condition = .ok () :=
  dAssertElse_of h

theorem dAssert_of_not {condition : Prop} [Decidable condition] (h : ¬ condition) :
    dAssert condition = .error .assertion :=
  dAssertElse_of_not h

/-- Where a call that starts with an assertion fails. -/
theorem dAssert_bind_error {α : Type} {condition : Prop} [Decidable condition]
    {next : Unit → Except Failure α} {failure : Failure}
    (h : (dAssert condition >>= next) = .error failure) :
    failure = .assertion ∨ condition ∧ next () = .error failure := by
  by_cases hc : condition
  · rw [dAssert_of hc, ok_bind] at h
    exact Or.inr ⟨hc, h⟩
  · rw [dAssert_of_not hc, error_bind] at h
    exact Or.inl (Except.error.inj h).symm

/-- An assertion in front of a call that returns. -/
theorem dAssert_bind_ok {α : Type} {condition : Prop} [Decidable condition]
    {next : Unit → Except Failure α} {x : α} (h : (dAssert condition >>= next) = .ok x) :
    condition ∧ next () = .ok x :=
  dAssertElse_bind_ok h

theorem toOption_dAssert_bind {α : Type} {condition : Prop} [Decidable condition]
    {next : Unit → Except Failure α} {x : α}
    (h : (dAssert condition >>= next).toOption = some x) :
    condition ∧ (next ()).toOption = some x := by
  rw [toOption_eq_some] at h ⊢
  exact dAssert_bind_ok h

/-- `is_pow2`: shift to the right until the lowest bit is set. -/
def isPow2 (v : ℤ) : Bool :=
  if v = 0 then false
  else if v % 2 = 1 then v == 1
  else isPow2 (v / 2)
termination_by v.natAbs
decreasing_by omega

/-- `align_down`. -/
def alignDown (w v alignment : ℕ) : Except Failure ℕ := do
  dAssert (isPow2 alignment)
  return subWrap w v (v &&& (alignment - 1))

/-- `align_up`. -/
def alignUp (w v alignment : ℕ) : Except Failure ℕ := do
  let res ← alignDown w v alignment
  return if res < v then addWrap w res alignment else res

section PowersOfTwo

variable {w v k : ℕ}

theorem isPow2_two_pow (k : ℕ) : isPow2 (2 ^ k : ℕ) = true := by
  induction k with
  | zero =>
      rw [isPow2]
      decide
  | succ k ih =>
      have hpos : 0 < 2 ^ k := Nat.two_pow_pos k
      have hhalf : ((2 ^ (k + 1) : ℕ) : ℤ) / 2 = (2 ^ k : ℕ) := by
        rw [Nat.pow_succ]
        omega
      rw [isPow2, if_neg (by omega), if_neg (by rw [Nat.pow_succ]; omega), hhalf]
      exact ih

/-- `is_pow2` answers for positive and negative numbers. -/
theorem isPow2_iff (x : ℤ) : isPow2 x = true ↔ ∃ k : ℕ, x = 2 ^ k := by
  constructor
  · intro h
    induction x using isPow2.induct with
    | case1 =>
        rw [isPow2, if_pos rfl] at h
        cases h
    | case2 x hzero hodd =>
        rw [isPow2, if_neg hzero, if_pos hodd, beq_iff_eq] at h
        exact ⟨0, h⟩
    | case3 x hzero heven ih =>
        rw [isPow2, if_neg hzero, if_neg heven] at h
        obtain ⟨k, hk⟩ := ih h
        refine ⟨k + 1, ?_⟩
        rw [pow_succ, ← hk]
        omega
  · rintro ⟨k, rfl⟩
    exact_mod_cast isPow2_two_pow k

/-- `align_down` to a power of two takes the remainder away. -/
theorem alignDown_two_pow (hv : v < 2 ^ w) : alignDown w v (2 ^ k) = .ok (v - v % 2 ^ k) := by
  have hsub : subWrap w v (v % 2 ^ k) = v - v % 2 ^ k := subWrap_of_le (Nat.mod_le v _) hv
  rw [alignDown, dAssert_of (isPow2_two_pow k), ok_bind, Nat.and_two_pow_sub_one_eq_mod, hsub]
  rfl

/-- `align_up` to a power of two rounds up, and wraps when the result leaves the type. -/
theorem alignUp_two_pow (hv : v < 2 ^ w) :
    alignUp w v (2 ^ k) = .ok (ceilTo (2 ^ k) v % 2 ^ w) := by
  have hpos : 0 < 2 ^ k := Nat.two_pow_pos k
  have hle := Nat.mod_le v (2 ^ k)
  have hlt := Nat.mod_lt v hpos
  rw [alignUp, alignDown_two_pow hv, ok_bind]
  rcases Nat.eq_zero_or_pos (v % 2 ^ k) with hz | hz
  · rw [if_neg (by omega), hz, ceilTo, hz, Nat.sub_zero, Nat.sub_zero, Nat.mod_self,
      Nat.add_zero, Nat.mod_eq_of_lt hv]
    rfl
  · rw [if_pos (by omega), ceilTo, Nat.mod_eq_of_lt (by omega : 2 ^ k - v % 2 ^ k < 2 ^ k),
      addWrap]
    congr 2
    omega

end PowersOfTwo

end Util
end CoherentDB
