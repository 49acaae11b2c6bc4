import CoherentDB.Lib.CInteger
import CoherentDB.Util.Misc

/-!
# The alignment helpers at every integer type

`is_pow2`, `align_down` and `align_up` of `util/misc.h` are templates.  The definitions here
take their arguments with their types and compute as C++ does: operands narrower than `int`
are promoted, operands of two widths are brought to one, and each result is converted back
to the type of the value that is aligned.  A signed overflow is undefined behaviour.

The definitions over plain numbers in `Util.Misc` compute the same (`isPow2_eq`,
`alignDown_eq`, `alignUp_eq`), which is why the rest of the development can use them.
-/

namespace CoherentDB
namespace Util
namespace Typed

open Debug MachineInt CInteger

/-- The result of an operator, where it has one. -/
def defined : Option CInt → Except Failure CInt
  | some x => .ok x
  | none => .error .undefinedBehaviour

section Loop

variable {v : CInt}

theorem eq_zero_iff : v.eq (literal 0) = true ↔ v.num = 0 :=
  CInt.eq_literal (by decide) (by decide)

theorem eq_one_iff : v.eq (literal 1) = true ↔ v.num = 1 :=
  CInt.eq_literal (by decide) (by decide)

theorem odd_iff : (v.and (literal 1)).eq (literal 1) = true ↔ v.num % 2 = 1 := by
  rw [eq_one_iff, CInt.num_and_one]

theorem natAbs_shiftRight_lt (hzero : ¬ v.eq (literal 0) = true)
    (hodd : ¬ (v.and (literal 1)).eq (literal 1) = true) :
    ((v.shiftRight 1).convert v.type).num.natAbs < v.num.natAbs := by
  rw [eq_zero_iff] at hzero
  rw [odd_iff] at hodd
  rw [CInt.num_shiftRight]
  omega

end Loop

/-- `is_pow2`. -/
def isPow2 (v : CInt) : Bool :=
  if v.eq (literal 0) then false
  else if (v.and (literal 1)).eq (literal 1) then v.eq (literal 1)
  else isPow2 ((v.shiftRight 1).convert v.type)
termination_by v.num.natAbs
decreasing_by exact natAbs_shiftRight_lt ‹_› ‹_›

/-- `align_down`. -/
def alignDown (v alignment : CInt) : Except Failure CInt := do
  dAssert (isPow2 alignment)
  let mask ← defined (alignment.sub (literal 1))
  let difference ← defined (v.sub (v.and mask))
  return difference.convert v.type

/-- `align_up`.  Both branches of the conditional are brought to one type. -/
def alignUp (v alignment : CInt) : Except Failure CInt := do
  let res ← alignDown v alignment
  let branches := CType.common (res.common alignment) res.type
  if res.lt v then
    let sum ← defined (res.add alignment)
    return (sum.convert branches).convert v.type
  else
    return (res.convert branches).convert v.type

section PowerOfTwo

/-- The loop sees the number only, whatever the width and the sign of its type. -/
theorem isPow2_eq (v : CInt) : isPow2 v = Util.isPow2 v.num := by
  induction v using isPow2.induct with
  | case1 v hzero =>
      rw [isPow2, if_pos hzero, Util.isPow2, if_pos (eq_zero_iff.mp hzero)]
  | case2 v hzero hodd =>
      rw [isPow2, if_neg hzero, if_pos hodd, Util.isPow2, if_neg (mt eq_zero_iff.mpr hzero),
        if_pos (odd_iff.mp hodd), Bool.eq_iff_iff, eq_one_iff, beq_iff_eq]
  | case3 v hzero hodd ih =>
      rw [CInt.num_shiftRight, pow_one] at ih
      rw [isPow2, if_neg hzero, if_neg hodd, ih, Util.isPow2.eq_def v.num,
        if_neg (mt eq_zero_iff.mpr hzero), if_neg (mt odd_iff.mpr hodd)]

theorem isPow2_iff (v : CInt) : isPow2 v = true ↔ ∃ k : ℕ, v.num = 2 ^ k := by
  rw [isPow2_eq, Util.isPow2_iff]

end PowerOfTwo

section Alignment

variable {v alignment : CInt} {k : ℕ}

theorem remainder_bounds (hv : v.type.signed = false) (k : ℕ) :
    0 ≤ v.num % 2 ^ k ∧ v.num % 2 ^ k ≤ v.num :=
  emod_bounds (by positivity) (CInt.nonneg_of_unsigned hv)

theorem holds_sub_emod (hv : v.type.signed = false) (k : ℕ) :
    v.type.Holds (v.num - v.num % 2 ^ k) := by
  obtain ⟨hlow, hle⟩ := remainder_bounds hv k
  exact v.fits.toward_zero (by omega) (by omega)

/-- `align_down` takes the remainder away, whatever the widths are. -/
theorem alignDown_two_pow (hv : v.type.signed = false) (hk : alignment.num = 2 ^ k) :
    alignDown v alignment = .ok (v.type.of (v.num - v.num % 2 ^ k)) := by
  have hpos : (0 : ℤ) < 2 ^ k := by positivity
  have hnonneg := CInt.nonneg_of_unsigned hv
  have hone : (literal 1).num = 1 := by decide
  obtain ⟨hlow, hle⟩ := remainder_bounds hv k
  obtain ⟨mask, hsub, hmask⟩ := CInt.sub_of_le (x := alignment) (y := literal 1)
    (by omega) (by omega)
  rw [hk, hone] at hmask
  have hand : (v.and mask).num = v.num % 2 ^ k := CInt.num_and_mask hnonneg hmask
  obtain ⟨difference, hdiff, hnum⟩ := CInt.sub_of_le (x := v) (y := v.and mask)
    (by omega) (by omega)
  rw [alignDown, dAssert_of ((isPow2_iff alignment).mpr ⟨k, hk⟩), ok_bind, hsub, defined,
    ok_bind, hdiff, defined, ok_bind, CInt.convert, hnum, hand]
  rfl

/-- The multiple that `align_up` computes: the one below, or the next after it. -/
def nextMultiple (x : ℤ) (k : ℕ) : ℤ :=
  if x - x % 2 ^ k < x then x - x % 2 ^ k + 2 ^ k else x - x % 2 ^ k

theorem nextMultiple_nonneg (hv : v.type.signed = false) (k : ℕ) : 0 ≤ nextMultiple v.num k := by
  have hpos : (0 : ℤ) < 2 ^ k := by positivity
  obtain ⟨hlow, hle⟩ := remainder_bounds hv k
  unfold nextMultiple
  split_ifs <;> omega

/-- `align_up` wraps as the type of the value does, if the sum did not leave `int` before. -/
theorem alignUp_two_pow (hv : v.type.signed = false) (hk : alignment.num = 2 ^ k)
    (hroom : (v.common alignment).signed = true →
      (v.common alignment).Holds (nextMultiple v.num k)) :
    alignUp v alignment = .ok (v.type.of (nextMultiple v.num k)) := by
  have hpos : (0 : ℤ) < 2 ^ k := by positivity
  have hnonneg := CInt.nonneg_of_unsigned hv
  obtain ⟨hlow, hle⟩ := remainder_bounds hv k
  rw [alignUp, alignDown_two_pow hv hk, ok_bind]
  generalize hres : v.type.of (v.num - v.num % 2 ^ k) = res
  have htype : res.type = v.type := by
    rw [← hres]
    rfl
  have hnum : res.num = v.num - v.num % 2 ^ k := by
    rw [← hres]
    exact CInt.num_of (holds_sub_emod hv k)
  have hcommon : res.common alignment = v.common alignment := by
    rw [CInt.common, htype, CInt.common]
  have hcompare : res.lt v = true ↔ v.num - v.num % 2 ^ k < v.num := by
    rw [CInt.lt_iff (CInt.fits_left (Or.inl (by omega))) (CInt.fits_right (Or.inl hnonneg)), hnum]
  -- Neither type on the way has fewer bits than the value.
  have hsum : v.type.width ≤ (res.common alignment).width := by
    rw [hcommon]
    exact CType.le_common _ _
  have hbranches : v.type.width ≤ (CType.common (res.common alignment) res.type).width :=
    hsum.trans (CType.le_common _ _)
  by_cases hrest : v.num - v.num % 2 ^ k < v.num
  · rw [nextMultiple, if_pos hrest, ← hnum, ← hk] at hroom ⊢
    have hadd : res.add alignment = some ((res.common alignment).of (res.num + alignment.num)) :=
      CInt.add_of_nonneg (by omega) (by omega) (by rw [hcommon]; exact hroom)
    simp only [if_pos (hcompare.mpr hrest), hadd, defined, ok_bind]
    rw [CInt.convert_convert hbranches, CInt.convert_of hsum]
    rfl
  · rw [nextMultiple, if_neg hrest, ← hnum]
    simp only [if_neg (mt hcompare.mp hrest)]
    rw [CInt.convert_convert hbranches]
    rfl

/-- Where the type of the value holds the multiple, `align_up` returns it. -/
theorem alignUp_of_holds (hv : v.type.signed = false) (hk : alignment.num = 2 ^ k)
    (hfits : v.type.Holds (nextMultiple v.num k)) :
    alignUp v alignment = .ok (v.type.of (nextMultiple v.num k)) := by
  apply alignUp_two_pow hv hk
  intro _
  exact hfits.common (Or.inl (nextMultiple_nonneg hv k))

end Alignment

section Numbers

variable {v alignment : CInt}

/-- An unsigned value as a natural number. -/
theorem exists_nat (hv : v.type.signed = false) : ∃ n : ℕ, v.num = n ∧ n < 2 ^ v.type.width := by
  obtain ⟨hnonneg, hlt⟩ := (CType.holds_of_unsigned hv).mp v.fits
  obtain ⟨n, hn⟩ := Int.eq_ofNat_of_zero_le hnonneg
  refine ⟨n, hn, ?_⟩
  rw [hn] at hlt
  exact_mod_cast hlt

theorem sub_emod_natCast (n k : ℕ) : (n : ℤ) - n % 2 ^ k = (n - n % 2 ^ k : ℕ) := by
  rw [Nat.cast_sub (Nat.mod_le n _)]
  push_cast
  rfl

theorem nextMultiple_natCast (n k : ℕ) : nextMultiple n k = ceilTo (2 ^ k) n := by
  have hle := Nat.mod_le n (2 ^ k)
  have hlt := Nat.mod_lt n (Nat.two_pow_pos k)
  unfold nextMultiple ceilTo
  rw [sub_emod_natCast]
  rcases Nat.eq_zero_or_pos (n % 2 ^ k) with hz | hz
  · rw [if_neg (by omega), hz, Nat.sub_zero, Nat.sub_zero, Nat.mod_self, Nat.add_zero]
  · have hsum : n + (2 ^ k - n % 2 ^ k) = n - n % 2 ^ k + 2 ^ k := by omega
    rw [if_pos (by omega), Nat.mod_eq_of_lt (by omega : 2 ^ k - n % 2 ^ k < 2 ^ k), hsum,
      Nat.cast_add, Nat.cast_pow]
    rfl

theorem isPow2_toNat (ha : alignment.type.signed = false) :
    Util.isPow2 alignment.num.toNat = isPow2 alignment := by
  rw [isPow2_eq, Int.toNat_of_nonneg (CInt.nonneg_of_unsigned ha)]

theorem exists_two_pow (h : isPow2 alignment = true) :
    ∃ k, alignment.num = 2 ^ k ∧ alignment.num.toNat = 2 ^ k := by
  obtain ⟨k, hk⟩ := (isPow2_iff alignment).mp h
  refine ⟨k, hk, ?_⟩
  rw [hk, Int.toNat_pow_of_nonneg (by decide)]
  rfl

/-- `align_down` on plain numbers is the one on unsigned types. -/
theorem alignDown_eq (hv : v.type.signed = false) (ha : alignment.type.signed = false) :
    (alignDown v alignment).map (fun r => r.num.toNat) =
      Util.alignDown v.type.width v.num.toNat alignment.num.toNat := by
  by_cases hpow : isPow2 alignment = true
  · obtain ⟨k, hk, htoNat⟩ := exists_two_pow hpow
    obtain ⟨n, hn, hlt⟩ := exists_nat hv
    have hfits := holds_sub_emod hv k
    rw [hn, sub_emod_natCast] at hfits
    rw [alignDown_two_pow hv hk, htoNat, hn, Int.toNat_natCast, Util.alignDown_two_pow hlt,
      sub_emod_natCast]
    show Except.ok (v.type.of (n - n % 2 ^ k : ℕ)).num.toNat = _
    rw [CInt.num_of hfits, Int.toNat_natCast]
  · rw [alignDown, dAssert_of_not hpow, error_bind, Util.alignDown,
      dAssert_of_not (by rw [isPow2_toNat ha]; exact hpow), error_bind]
    rfl

/-- From the width of `int` on, so is `align_up`: the sum wraps in both. -/
theorem alignUp_eq (hv : v.type.signed = false) (ha : alignment.type.signed = false)
    (hwidth : CType.int.width ≤ v.type.width) :
    (alignUp v alignment).map (fun r => r.num.toNat) =
      Util.alignUp v.type.width v.num.toNat alignment.num.toNat := by
  by_cases hpow : isPow2 alignment = true
  · obtain ⟨k, hk, htoNat⟩ := exists_two_pow hpow
    obtain ⟨n, hn, hlt⟩ := exists_nat hv
    have hunsigned : (v.common alignment).signed = false := CType.common_unsigned hv ha hwidth
    have hwrap : v.type.wrap (ceilTo (2 ^ k) n : ℕ) = (ceilTo (2 ^ k) n % 2 ^ v.type.width : ℕ) := by
      rw [CType.wrap, hv, if_neg (by decide)]
      push_cast
      rfl
    rw [alignUp_two_pow hv hk (by rw [hunsigned]; intro h; cases h), htoNat, hn, Int.toNat_natCast,
      Util.alignUp_two_pow hlt, nextMultiple_natCast]
    show Except.ok (v.type.wrap (ceilTo (2 ^ k) n : ℕ)).toNat = _
    rw [hwrap, Int.toNat_natCast]
  · rw [alignUp, alignDown, dAssert_of_not hpow, error_bind, Util.alignUp, Util.alignDown,
      dAssert_of_not (by rw [isPow2_toNat ha]; exact hpow), error_bind]
    rfl

end Numbers

/-- **Alignment is exact.**  `is_pow2` recognises the powers of two in every integer type.  In
unsigned types of any two widths, `align_down` to a power of two returns the greatest
multiple not above the value, and `align_up` the least one not below it whenever the type of
the value holds it. -/
theorem alignment_exact :
    (∀ v : CInt, isPow2 v = true ↔ ∃ k : ℕ, v.num = 2 ^ k) ∧
    ∀ v alignment : CInt, v.type.signed = false → (∃ k : ℕ, alignment.num = 2 ^ k) →
      (∃ r, alignDown v alignment = .ok r ∧ r.type = v.type ∧
        IsGreatest {m | alignment.num ∣ m ∧ m ≤ v.num} r.num) ∧
      ∀ m, IsLeast {m | alignment.num ∣ m ∧ v.num ≤ m} m → v.type.Holds m →
        ∃ r, alignUp v alignment = .ok r ∧ r.type = v.type ∧ r.num = m := by
  refine ⟨isPow2_iff, ?_⟩
  rintro v alignment hv ⟨k, hk⟩
  have hpos : (0 : ℤ) < 2 ^ k := by positivity
  constructor
  · refine ⟨_, alignDown_two_pow hv hk, rfl, ?_⟩
    rw [hk, CInt.num_of (holds_sub_emod hv k)]
    exact isGreatest_sub_emod hpos v.num
  · intro m hm hfits
    rw [hk] at hm
    obtain rfl : m = nextMultiple v.num k := hm.unique (isLeast_sub_emod hpos v.num)
    exact ⟨_, alignUp_of_holds hv hk hfits, rfl, CInt.num_of hfits⟩

/-- A byte rounded up with a 64-bit alignment, and at the top of 64 bits down with a byte. -/
theorem alignment_exact_mixed :
    (∃ r, alignUp ((CType.unsigned 8).of 129) ((CType.unsigned 64).of 64) = .ok r ∧
      r.type = CType.unsigned 8 ∧ r.num = 192) ∧
    ∃ r, alignDown ((CType.unsigned 64).of (-1)) ((CType.unsigned 8).of 16) = .ok r ∧
      r.type = CType.unsigned 64 ∧
      IsGreatest {m | (16 : ℤ) ∣ m ∧ m ≤ 18446744073709551615} r.num := by
  constructor
  · refine (alignment_exact.2 ((CType.unsigned 8).of 129) ((CType.unsigned 64).of 64)
      rfl ⟨6, by decide⟩).2 192 ?_ (by decide)
    have hleast := isLeast_sub_emod (a := 64) (by decide) 129
    exact hleast
  · exact (alignment_exact.2 ((CType.unsigned 64).of (-1)) ((CType.unsigned 8).of 16)
      rfl ⟨4, by decide⟩).1

end Typed
end Util
end CoherentDB
