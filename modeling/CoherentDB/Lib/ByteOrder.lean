import Mathlib.Tactic

/-!
# Bytes of a bit vector

`bytesLE` cuts the lowest bytes off a bit vector and `valueLE` puts bytes together
again, the lowest first.  A machine stores an integer in one of two orders; `image`
and `value` are the two directions for either.
-/

namespace ByteOrder

/-- The order of the bytes of an integer. -/
inductive Endian
  | little
  | big
  deriving DecidableEq, Repr

variable {w : ℕ}

/-- The lowest byte. -/
def lowByte (x : BitVec w) : UInt8 := ⟨x.setWidth 8⟩

/-- A byte in a wider type. -/
def ofByte (w : ℕ) (c : UInt8) : BitVec w := c.toBitVec.setWidth w

/-- The lowest `n` bytes, the lowest first. -/
def bytesLE (x : BitVec w) : ℕ → List UInt8
  | 0 => []
  | n + 1 => lowByte x :: bytesLE (x >>> 8) n

/-- The value of bytes that come lowest first. -/
def valueLE (w : ℕ) : List UInt8 → BitVec w
  | [] => 0
  | c :: rest => ofByte w c ||| (valueLE w rest <<< 8)

/-- The `n` bytes of an integer in memory. -/
def image (order : Endian) (x : BitVec w) (n : ℕ) : List UInt8 :=
  match order with
  | .little => bytesLE x n
  | .big => (bytesLE x n).reverse

/-- The integer that bytes in memory stand for. -/
def value (order : Endian) (w : ℕ) (bytes : List UInt8) : BitVec w :=
  match order with
  | .little => valueLE w bytes
  | .big => valueLE w bytes.reverse

section Bytes

@[simp] theorem length_bytesLE (x : BitVec w) (n : ℕ) : (bytesLE x n).length = n := by
  induction n generalizing x with
  | zero => rfl
  | succ n ih => rw [bytesLE, List.length_cons, ih]

@[simp] theorem length_image (order : Endian) (x : BitVec w) (n : ℕ) :
    (image order x n).length = n := by
  cases order with
  | little => exact length_bytesLE x n
  | big => rw [image, List.length_reverse, length_bytesLE]

/-- The highest of the bytes is cut off last. -/
theorem bytesLE_succ (x : BitVec w) (n : ℕ) :
    bytesLE x (n + 1) = bytesLE x n ++ [lowByte (x >>> (8 * n))] := by
  induction n generalizing x with
  | zero => simp [bytesLE]
  | succ n ih =>
      have hshift : x >>> 8 >>> (8 * n) = x >>> (8 * (n + 1)) := by
        rw [← BitVec.shiftRight_add]
        congr 1
        omega
      rw [bytesLE, ih, bytesLE, List.cons_append, hshift]

theorem bytesLE_eq_map (x : BitVec w) (n : ℕ) :
    bytesLE x n = (List.range n).map fun i => lowByte (x >>> (8 * i)) := by
  induction n with
  | zero => rfl
  | succ n ih => rw [bytesLE_succ, ih, List.range_succ, List.map_append, List.map_singleton]

theorem valueLE_append (a b : List UInt8) :
    valueLE w (a ++ b) = valueLE w a ||| (valueLE w b <<< (8 * a.length)) := by
  induction a with
  | nil => simp [valueLE]
  | cons c rest ih =>
      rw [List.cons_append, valueLE, ih, valueLE, BitVec.shiftLeft_or_distrib,
        ← BitVec.shiftLeft_add, BitVec.or_assoc, List.length_cons]
      rfl

theorem getLsbD_valueLE_bytesLE (x : BitVec w) (n j : ℕ) (hj : j < w) :
    (valueLE w (bytesLE x n)).getLsbD j = (decide (j < 8 * n) && x.getLsbD j) := by
  induction n generalizing x j with
  | zero => simp [bytesLE, valueLE]
  | succ n ih =>
      rw [bytesLE, valueLE, BitVec.getLsbD_or, BitVec.getLsbD_shiftLeft]
      by_cases hlow : j < 8
      · simp [ofByte, lowByte, hlow, hj, show j < 8 * (n + 1) by omega]
      · have hrest : j - 8 < 8 * n ↔ j < 8 * (n + 1) := by omega
        rw [ih (x >>> 8) (j - 8) (by omega)]
        simp [ofByte, lowByte, hlow, hj, hrest, show 8 + (j - 8) = j by omega]

/-- Bytes that cover the whole width give the integer back. -/
theorem value_image (order : Endian) (x : BitVec w) {n : ℕ} (hn : w ≤ 8 * n) :
    value order w (image order x n) = x := by
  have hlittle : valueLE w (bytesLE x n) = x := by
    apply BitVec.eq_of_getLsbD_eq
    intro j hj
    rw [getLsbD_valueLE_bytesLE x n j hj, decide_eq_true (by omega), Bool.true_and]
  cases order with
  | little => exact hlittle
  | big => rw [value, image, List.reverse_reverse, hlittle]

end Bytes

end ByteOrder
