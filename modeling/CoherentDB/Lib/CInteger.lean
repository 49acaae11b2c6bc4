import Mathlib.Tactic

/-!
# Integers as C++ computes with them

An integer type is a width and a sign.  A value is a number together with its type, and the
number fits the type.  An operator first promotes types narrower than `int`, then brings
its two operands to their common type, and computes there.

* Unsigned arithmetic wraps.  Signed arithmetic that leaves its type is undefined: the
  result is `none`.
* A conversion keeps the low bits, also to a signed type.
* A shift to the right of a negative number shifts copies of the sign in.

The lemmas say when an operator computes with the numbers themselves: where the common type
has room for both operands (`CInt.fits_left`, `CInt.fits_right`).
-/

namespace CInteger

/-- An integer type. -/
structure CType where
  width : ℕ
  signed : Bool
  deriving DecidableEq, Repr

namespace CType

/-- The unsigned type of a width. -/
def unsigned (width : ℕ) : CType := ⟨width, false⟩

/-- `int`. -/
def int : CType := ⟨32, true⟩

/-- The numbers of a type. -/
def Holds (t : CType) (z : ℤ) : Prop :=
  if t.signed then -2 ^ t.width ≤ z * 2 ∧ z * 2 < 2 ^ t.width else 0 ≤ z ∧ z < 2 ^ t.width

instance (t : CType) (z : ℤ) : Decidable (t.Holds z) :=
  inferInstanceAs (Decidable (if t.signed then _ else _))

/-- The number of the type with the same low bits. -/
def wrap (t : CType) (z : ℤ) : ℤ :=
  if t.signed then z.bmod (2 ^ t.width) else z % 2 ^ t.width

/-- Integer promotion. -/
def promote (t : CType) : CType := if t.width < int.width then int else t

/-- The common type of two operands: the wider of the promoted types, and of two with the same
width the unsigned one. -/
def common (t u : CType) : CType :=
  if t.promote.width < u.promote.width then u.promote
  else if u.promote.width < t.promote.width then t.promote
  else ⟨t.promote.width, t.promote.signed && u.promote.signed⟩

variable {t u : CType} {z : ℤ}

theorem holds_of_signed (h : t.signed = true) :
    t.Holds z ↔ -2 ^ t.width ≤ z * 2 ∧ z * 2 < 2 ^ t.width := by
  rw [Holds, if_pos h]

theorem holds_of_unsigned (h : t.signed = false) : t.Holds z ↔ 0 ≤ z ∧ z < 2 ^ t.width := by
  rw [Holds, h]
  rfl

theorem holds_wrap (t : CType) (z : ℤ) : t.Holds (t.wrap z) := by
  have hpos : 0 < 2 ^ t.width := Nat.two_pow_pos t.width
  cases hsigned : t.signed with
  | true =>
      rw [holds_of_signed hsigned, wrap, if_pos hsigned]
      have hlo := Int.le_bmod (x := z) hpos
      have hhi := Int.bmod_lt (x := z) hpos
      push_cast at hlo hhi
      omega
  | false =>
      rw [holds_of_unsigned hsigned, wrap, hsigned]
      exact ⟨Int.emod_nonneg _ (by positivity), Int.emod_lt_of_pos _ (by positivity)⟩

/-- A number of the type stays as it is. -/
theorem wrap_of_holds (h : t.Holds z) : t.wrap z = z := by
  cases hsigned : t.signed with
  | true =>
      rw [holds_of_signed hsigned] at h
      rw [wrap, if_pos hsigned]
      refine Int.bmod_eq_of_le_mul_two ?_ ?_
      · push_cast
        exact h.1
      · push_cast
        exact h.2
  | false =>
      rw [holds_of_unsigned hsigned] at h
      rw [wrap, hsigned]
      exact Int.emod_eq_of_lt h.1 h.2

/-- A conversion depends on the low bits only. -/
theorem wrap_congr {z' : ℤ} (h : z % 2 ^ t.width = z' % 2 ^ t.width) : t.wrap z = t.wrap z' := by
  unfold wrap
  split_ifs
  · have hcast : z % ((2 ^ t.width : ℕ) : ℤ) = z' % ((2 ^ t.width : ℕ) : ℤ) := by exact_mod_cast h
    rw [← Int.emod_bmod, hcast, Int.emod_bmod]
  · exact h

/-- A conversion keeps the low bits. -/
theorem wrap_emod (t : CType) (z : ℤ) : t.wrap z % 2 ^ t.width = z % 2 ^ t.width := by
  unfold wrap
  split_ifs
  · have hlow := Int.bmod_emod (x := z) (m := 2 ^ t.width)
    exact_mod_cast hlow
  · exact Int.emod_emod_of_dvd z (dvd_refl _)

/-- On the way to a type, one with more bits can stand between. -/
theorem wrap_wrap (h : t.width ≤ u.width) (z : ℤ) : t.wrap (u.wrap z) = t.wrap z := by
  have hdvd : (2 : ℤ) ^ t.width ∣ 2 ^ u.width := pow_dvd_pow 2 h
  apply wrap_congr
  rw [← Int.emod_emod_of_dvd _ hdvd, wrap_emod, Int.emod_emod_of_dvd _ hdvd]

/-- A type of more bits holds as much, if it is signed only where the other one is, or has a bit
more for the sign. -/
theorem Holds.widen (h : t.Holds z) (hwidth : t.width ≤ u.width)
    (hsign : u.signed = true → t.signed = true ∨ t.width < u.width)
    (hpos : u.signed = false → 0 ≤ z) : u.Holds z := by
  have hpow : (2 : ℤ) ^ t.width ≤ 2 ^ u.width := pow_le_pow_right₀ (by norm_num) hwidth
  have hzero : (0 : ℤ) < 2 ^ t.width := by positivity
  cases hu : u.signed with
  | true =>
      rw [holds_of_signed hu]
      cases ht : t.signed with
      | true =>
          rw [holds_of_signed ht] at h
          omega
      | false =>
          rw [holds_of_unsigned ht] at h
          have hwider : t.width < u.width := (hsign hu).resolve_left (by rw [ht]; decide)
          have hdouble : (2 : ℤ) ^ t.width * 2 ≤ 2 ^ u.width := by
            rw [← pow_succ]
            exact pow_le_pow_right₀ (by norm_num) hwider
          omega
  | false =>
      have hz := hpos hu
      rw [holds_of_unsigned hu]
      cases ht : t.signed with
      | true =>
          rw [holds_of_signed ht] at h
          omega
      | false =>
          rw [holds_of_unsigned ht] at h
          omega

/-- A number between zero and one of the type is of the type. -/
theorem Holds.toward_zero {z' : ℤ} (h : t.Holds z) (hlo : min 0 z ≤ z') (hhi : z' ≤ max 0 z) :
    t.Holds z' := by
  have hzero : (0 : ℤ) < 2 ^ t.width := by positivity
  cases ht : t.signed with
  | true =>
      rw [holds_of_signed ht] at h ⊢
      omega
  | false =>
      rw [holds_of_unsigned ht] at h ⊢
      omega

/-- A shift to the right stays in the type. -/
theorem Holds.shiftRight (h : t.Holds z) (n : ℕ) : t.Holds (z / 2 ^ n) := by
  have hpos : (0 : ℤ) < 2 ^ n := by positivity
  rcases le_or_gt 0 z with hz | hz
  · have hle := Int.ediv_le_self (2 ^ n) hz
    have hnonneg := Int.ediv_nonneg hz hpos.le
    exact h.toward_zero (by omega) (by omega)
  · have hneg := Int.ediv_neg_of_neg_of_pos hz hpos
    have hge : z ≤ z / 2 ^ n := by
      rw [Int.le_ediv_iff_mul_le hpos]
      exact mul_le_of_one_le_right hz.le hpos
    exact h.toward_zero (by omega) (by omega)

/-- Promotion keeps the number. -/
theorem Holds.promote (h : t.Holds z) : t.promote.Holds z := by
  unfold CType.promote
  split_ifs with hnarrow
  · refine h.widen hnarrow.le (fun _ => Or.inr hnarrow) fun hunsigned => ?_
    cases hunsigned
  · exact h

theorem common_comm (t u : CType) : common t u = common u t := by
  unfold common
  split_ifs with hlt hgt
  · omega
  · rfl
  · rfl
  · have hwidth : t.promote.width = u.promote.width := by omega
    rw [hwidth, Bool.and_comm]

theorem width_promote (t : CType) : t.promote.width = max t.width int.width := by
  unfold promote
  split_ifs with hnarrow
  · exact (max_eq_right hnarrow.le).symm
  · exact (max_eq_left (not_lt.mp hnarrow)).symm

theorem width_common (t u : CType) :
    (common t u).width = max t.promote.width u.promote.width := by
  unfold common
  split_ifs with hlt hgt
  · exact (max_eq_right hlt.le).symm
  · exact (max_eq_left hgt.le).symm
  · exact (max_eq_left (not_lt.mp hlt)).symm

/-- No operator computes in less than an `int`. -/
theorem int_le_common (t u : CType) : int.width ≤ (common t u).width := by
  rw [width_common, width_promote]
  exact (le_max_right _ _).trans (le_max_left _ _)

/-- Nor in less than an operand has. -/
theorem le_common (t u : CType) : t.width ≤ (common t u).width := by
  rw [width_common, width_promote]
  exact (le_max_left _ _).trans (le_max_left _ _)

/-- From the width of `int` on, an unsigned operand keeps the arithmetic unsigned. -/
theorem common_unsigned (ht : t.signed = false) (hu : u.signed = false)
    (hwidth : int.width ≤ t.width) : (common t u).signed = false := by
  have hpromote : t.promote = t := if_neg (not_lt.mpr hwidth)
  unfold common
  rw [hpromote]
  split_ifs with hlt hgt
  · rw [width_promote, lt_max_iff] at hlt
    have hwide : int.width ≤ u.width := by omega
    rw [promote, if_neg (not_lt.mpr hwide)]
    exact hu
  · exact ht
  · show (t.signed && u.promote.signed) = false
    rw [ht, Bool.false_and]

/-- The common type holds the numbers of an operand that are not negative, and all of them where the
other operand is signed. -/
theorem Holds.common (h : t.Holds z) (hsign : 0 ≤ z ∨ u.promote.signed = true) :
    (common t u).Holds z := by
  unfold CType.common
  have hpromoted := h.promote
  have hunsigned : t.promote.signed = false → 0 ≤ z := by
    intro ht
    rw [holds_of_unsigned ht] at hpromoted
    exact hpromoted.1
  split_ifs with hlt hgt
  · refine hpromoted.widen hlt.le (fun _ => Or.inr hlt) fun hu => ?_
    rw [hu] at hsign
    exact hsign.resolve_right (by decide)
  · exact hpromoted
  · refine hpromoted.widen le_rfl (fun hboth => ?_) fun hone => ?_
    · exact Or.inl (Bool.and_elim_left hboth)
    · rcases hsign with hz | hu
      · exact hz
      · rw [hu, Bool.and_true] at hone
        exact hunsigned hone

end CType

/-- A value: a number that fits its type. -/
@[ext]
structure CInt where
  type : CType
  num : ℤ
  fits : type.Holds num

/-- The value of a type with the low bits of a number. -/
def CType.of (t : CType) (z : ℤ) : CInt := ⟨t, t.wrap z, t.holds_wrap z⟩

/-- A literal. -/
def literal (n : ℤ) : CInt := CType.int.of n

namespace CInt

variable (x y : CInt)

/-- Conversion, as in an assignment or a `return`. -/
def convert (t : CType) : CInt := t.of x.num

/-- The type that an operator computes in. -/
def common : CType := CType.common x.type y.type

/-- An arithmetic operator. -/
def arith (f : ℤ → ℤ → ℤ) : Option CInt :=
  let z := f ((x.common y).wrap x.num) ((x.common y).wrap y.num)
  if (x.common y).signed = true ∧ ¬ (x.common y).Holds z then none else some ((x.common y).of z)

/-- `x + y`. -/
def add : Option CInt := x.arith y (· + ·)

/-- `x - y`. -/
def sub : Option CInt := x.arith y (· - ·)

/-- `x & y`. -/
def and : CInt :=
  let w := (x.common y).width
  (x.common y).of (BitVec.ofInt w x.num &&& BitVec.ofInt w y.num).toNat

/-- `x >> n`. -/
def shiftRight (n : ℕ) : CInt := x.type.promote.of (x.type.promote.wrap x.num / 2 ^ n)

/-- `x == y`. -/
def eq : Bool := (x.common y).wrap x.num = (x.common y).wrap y.num

/-- `x < y`. -/
def lt : Bool := (x.common y).wrap x.num < (x.common y).wrap y.num

section Operators

variable {x y : CInt}

theorem num_of {t : CType} {z : ℤ} (h : t.Holds z) : (t.of z).num = z := CType.wrap_of_holds h

/-- A conversion through a type with more bits. -/
theorem convert_of {t u : CType} (h : t.width ≤ u.width) (z : ℤ) :
    (u.of z).convert t = t.of z := by
  ext
  · rfl
  · exact CType.wrap_wrap h z

theorem convert_convert {t u : CType} (h : t.width ≤ u.width) (x : CInt) :
    (x.convert u).convert t = x.convert t :=
  convert_of h x.num

theorem nonneg_of_unsigned (h : x.type.signed = false) : 0 ≤ x.num :=
  ((CType.holds_of_unsigned h).mp x.fits).1

theorem fits_left (h : 0 ≤ x.num ∨ y.type.promote.signed = true) : (x.common y).Holds x.num :=
  x.fits.common h

theorem fits_right (h : 0 ≤ y.num ∨ x.type.promote.signed = true) : (x.common y).Holds y.num := by
  rw [CInt.common, CType.common_comm]
  exact y.fits.common h

theorem eq_iff (hx : (x.common y).Holds x.num) (hy : (x.common y).Holds y.num) :
    x.eq y = true ↔ x.num = y.num := by
  rw [CInt.eq, CType.wrap_of_holds hx, CType.wrap_of_holds hy, decide_eq_true_iff]

/-- A comparison with a literal that is not negative. -/
theorem eq_literal {n : ℤ} (hn : 0 ≤ n) (hfits : CType.int.Holds n) :
    x.eq (literal n) = true ↔ x.num = n := by
  have hnum : (literal n).num = n := num_of hfits
  have hright := fits_right (x := x) (y := literal n) (Or.inl (by rw [hnum]; exact hn))
  rw [eq_iff (fits_left (Or.inr rfl)) hright, hnum]

theorem lt_iff (hx : (x.common y).Holds x.num) (hy : (x.common y).Holds y.num) :
    x.lt y = true ↔ x.num < y.num := by
  rw [CInt.lt, CType.wrap_of_holds hx, CType.wrap_of_holds hy, decide_eq_true_iff]

/-- Arithmetic with operands that fit, where the result fits or wraps. -/
theorem arith_eq {f : ℤ → ℤ → ℤ} (hx : (x.common y).Holds x.num) (hy : (x.common y).Holds y.num)
    (h : (x.common y).signed = true → (x.common y).Holds (f x.num y.num)) :
    x.arith y f = some ((x.common y).of (f x.num y.num)) := by
  have hdefined : ¬ ((x.common y).signed = true ∧ ¬ (x.common y).Holds (f x.num y.num)) := by
    rintro ⟨hsigned, hover⟩
    exact hover (h hsigned)
  rw [arith, CType.wrap_of_holds hx, CType.wrap_of_holds hy]
  exact if_neg hdefined

/-- A difference that does not go below zero is exact. -/
theorem sub_of_le (hy : 0 ≤ y.num) (hle : y.num ≤ x.num) :
    ∃ r, x.sub y = some r ∧ r.num = x.num - y.num := by
  have hleft := fits_left (x := x) (y := y) (Or.inl (hy.trans hle))
  have hright := fits_right (x := x) (Or.inl hy)
  have hfits : (x.common y).Holds (x.num - y.num) := hleft.toward_zero (by omega) (by omega)
  exact ⟨_, arith_eq hleft hright fun _ => hfits, num_of hfits⟩

/-- A sum of numbers that are not negative: it wraps, unless the common type is signed. -/
theorem add_of_nonneg (hx : 0 ≤ x.num) (hy : 0 ≤ y.num)
    (h : (x.common y).signed = true → (x.common y).Holds (x.num + y.num)) :
    x.add y = some ((x.common y).of (x.num + y.num)) :=
  arith_eq (fits_left (Or.inl hx)) (fits_right (Or.inl hy)) h

/-- The bits of two numbers that are not negative. -/
theorem num_and (hx : 0 ≤ x.num) (hy : 0 ≤ y.num) :
    (x.and y).num = (x.num.toNat &&& y.num.toNat : ℕ) := by
  have hfits := fits_left (y := y) (Or.inl hx)
  have hfits' := fits_right (x := x) (Or.inl hy)
  have hlow : ∀ z : ℤ, 0 ≤ z → (x.common y).Holds z →
      (BitVec.ofInt (x.common y).width z).toNat = z.toNat := by
    intro z hz hholds
    have hlt : z < 2 ^ (x.common y).width := by
      unfold CType.Holds at hholds
      split_ifs at hholds <;> omega
    rw [BitVec.toNat_ofInt]
    push_cast
    rw [Int.emod_eq_of_lt hz hlt]
  rw [CInt.and]
  simp only [BitVec.toNat_and, hlow _ hx hfits, hlow _ hy hfits']
  refine num_of (hfits.toward_zero (by omega) ?_)
  have hle : x.num.toNat &&& y.num.toNat ≤ x.num.toNat := Nat.and_le_left
  omega

/-- The low bits are the remainder. -/
theorem num_and_mask {k : ℕ} (hx : 0 ≤ x.num) (hy : y.num = 2 ^ k - 1) :
    (x.and y).num = x.num % 2 ^ k := by
  have hpos : (0 : ℤ) < 2 ^ k := by positivity
  obtain ⟨n, hn⟩ := Int.eq_ofNat_of_zero_le hx
  have hmask : (2 ^ k - 1 : ℤ).toNat = 2 ^ k - 1 := by
    rw [Int.toNat_sub'' hpos.le (by decide), Int.toNat_pow_of_nonneg (by decide)]
    rfl
  rw [num_and hx (by omega), hy, hmask, hn, Int.toNat_natCast, Nat.and_two_pow_sub_one_eq_mod]
  push_cast
  rfl

/-- The lowest bit, also of a negative number. -/
theorem num_and_one (x : CInt) : (x.and (literal 1)).num = x.num % 2 := by
  have hone : (literal 1).num = 1 := by decide
  have hwidth : 1 ≤ (x.common (literal 1)).width :=
    le_trans (by decide) (CType.int_le_common x.type (literal 1).type)
  have hdvd : (2 : ℤ) ∣ 2 ^ (x.common (literal 1)).width := dvd_pow_self 2 (by omega)
  have hfits := fits_right (x := x) (y := literal 1) (Or.inl (by rw [hone]; decide))
  rw [hone] at hfits
  have hbit : (BitVec.ofInt (x.common (literal 1)).width 1).toNat = 1 := by
    rw [BitVec.toNat_ofInt]
    push_cast
    rw [Int.emod_eq_of_lt (by norm_num) (one_lt_pow₀ (by norm_num) (by omega))]
    rfl
  have hlow : ((BitVec.ofInt (x.common (literal 1)).width x.num).toNat &&& 1 : ℕ) = x.num % 2 := by
    rw [Nat.and_one_is_mod, BitVec.toNat_ofInt]
    push_cast
    rw [Int.toNat_of_nonneg (Int.emod_nonneg _ (by positivity)), Int.emod_emod_of_dvd _ hdvd]
  rw [CInt.and, hone]
  simp only [BitVec.toNat_and, hbit, hlow]
  exact num_of (hfits.toward_zero (by omega) (by omega))

theorem num_shiftRight (x : CInt) (n : ℕ) : ((x.shiftRight n).convert x.type).num = x.num / 2 ^ n := by
  have hpromoted := x.fits.promote
  rw [convert, shiftRight, CType.wrap_of_holds hpromoted, num_of (hpromoted.shiftRight n)]
  exact num_of (x.fits.shiftRight n)

end Operators

end CInt

section Rounding

variable {a : ℤ}

theorem emod_bounds (ha : 0 < a) {x : ℤ} (hx : 0 ≤ x) : 0 ≤ x % a ∧ x % a ≤ x := by
  have hquotient : 0 ≤ a * (x / a) := mul_nonneg ha.le (Int.ediv_nonneg hx ha.le)
  have hsplit := Int.mul_ediv_add_emod x a
  have hnonneg := Int.emod_nonneg x ha.ne'
  omega

/-- Taking the remainder away gives the greatest multiple that is not above. -/
theorem isGreatest_sub_emod (ha : 0 < a) (x : ℤ) : IsGreatest {m | a ∣ m ∧ m ≤ x} (x - x % a) := by
  have hnonneg := Int.emod_nonneg x ha.ne'
  have hlt := Int.emod_lt_of_pos x ha
  have hdvd : a ∣ x - x % a := Int.dvd_self_sub_emod
  refine ⟨⟨hdvd, by omega⟩, ?_⟩
  rintro m ⟨hm, hle⟩
  by_contra hgt
  -- Two multiples are a whole step apart.
  have hstep := Int.le_of_dvd (by omega) (dvd_sub hm hdvd)
  omega

/-- The least multiple that is not below is the same one or the next. -/
theorem isLeast_sub_emod (ha : 0 < a) (x : ℤ) :
    IsLeast {m | a ∣ m ∧ x ≤ m} (if x - x % a < x then x - x % a + a else x - x % a) := by
  have hlt := Int.emod_lt_of_pos x ha
  have hdvd : a ∣ x - x % a := Int.dvd_self_sub_emod
  split_ifs with hrest
  · refine ⟨⟨dvd_add hdvd (dvd_refl a), by omega⟩, ?_⟩
    rintro m ⟨hm, hle⟩
    have hstep := Int.le_of_dvd (by omega) (dvd_sub hm hdvd)
    omega
  · refine ⟨⟨hdvd, by omega⟩, ?_⟩
    rintro m ⟨hm, hle⟩
    have hnonneg := Int.emod_nonneg x ha.ne'
    omega

end Rounding

end CInteger
