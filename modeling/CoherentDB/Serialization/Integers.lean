import CoherentDB.Serialization.Codecs

/-!
# Integers on the wire

The loops of the two integer codecs write the bytes of a two's complement word in
the order of their name and read them back; `memcpy` does the same in the host's
order.  `Codec.orderOf` is the order that a codec ends up with for an integer type.

Specifications of decoding are stated for `buffer_decoder` and forget which
exception was thrown.
-/

namespace CoherentDB
namespace Serialization

open Debug ByteOrder Util

section Outcomes

variable {ε α β : Type}

theorem toOption_bind (x : Except ε α) (f : α → Except ε β) :
    (x >>= f).toOption = x.toOption.bind fun a => (f a).toOption := by
  cases x with
  | error e => rfl
  | ok a => rfl

end Outcomes

/-- The byte order in which a codec writes an integer type. -/
def Codec.orderOf (c : Codec) (k : IntType) : Endian := (c.copies? k).getD c.order

section Encode

variable {w : ℕ}

theorem lowByte_and (x : BitVec w) (hw : 8 ≤ w) : lowByte (x &&& 0xff) = lowByte x := by
  have hmask : ∀ j, j < 8 → (0xff : BitVec w).getLsbD j = true := by
    intro j hj
    show (BitVec.ofNat w 255).getLsbD j = true
    rw [BitVec.getLsbD_ofNat, show 255 = 2 ^ 8 - 1 from rfl, Nat.testBit_two_pow_sub_one,
      decide_eq_true hj, decide_eq_true (by omega)]
    rfl
  rw [lowByte, lowByte]
  congr 1
  apply BitVec.eq_of_getLsbD_eq
  intro j hj
  rw [BitVec.getLsbD_setWidth, BitVec.getLsbD_setWidth, BitVec.getLsbD_and, hmask j hj,
    Bool.and_true]

/-- The sign does not reach the byte that a shift brings down. -/
theorem lowByte_shiftRight (k : IntType) (x : k.Value) {i : ℕ} (hi : i < k.size) :
    lowByte (k.shiftRight x (8 * i)) = lowByte (x >>> (8 * i)) := by
  rw [IntType.shiftRight]
  split_ifs with hsigned
  · rw [lowByte, lowByte]
    congr 1
    apply BitVec.eq_of_getLsbD_eq
    intro j hj
    have hin : 8 * i + j < 8 * k.size := by omega
    have hj' : ¬ 8 * k.size ≤ j := by omega
    rw [BitVec.getLsbD_setWidth, BitVec.getLsbD_setWidth, BitVec.getLsbD_sshiftRight,
      BitVec.getLsbD_ushiftRight, if_pos hin, decide_eq_false hj']
    rfl
  · rfl

theorem eight_le_width (k : IntType) : 8 ≤ 8 * k.size := by
  cases k <;> decide

theorem bytesOf_writeChars (f : ℕ → Byte) (l : List ℕ) :
    bytesOf (l.map fun i => .writeChar (f i)) = l.map f := by
  rw [bytesOf, List.flatMap_map]
  exact List.flatMap_pure_eq_map f l

theorem bytesOf_littleEndianEncode (k : IntType) (x : k.Value) :
    bytesOf (littleEndianEncode k x) = image .little x k.size := by
  rw [littleEndianEncode, bytesOf_writeChars, image, bytesLE_eq_map]
  apply List.map_congr_left
  intro i hi
  rw [lowByte_and _ (eight_le_width k), lowByte_shiftRight k x (List.mem_range.mp hi)]

theorem bytesOf_bigEndianEncode (k : IntType) (x : k.Value) :
    bytesOf (bigEndianEncode k x) = image .big x k.size := by
  rw [bigEndianEncode, bytesOf_writeChars, image, bytesLE_eq_map, ← List.map_reverse]
  apply List.map_congr_left
  intro i hi
  exact lowByte_shiftRight k x (List.mem_range.mp (List.mem_reverse.mp hi))

/-- **An integer is written as its image in the codec's order.** -/
theorem bytesOf_encodeInt (c : Codec) (k : IntType) (x : k.Value) :
    bytesOf (encodeInt c k x) = image (c.orderOf k) x k.size := by
  unfold encodeInt Codec.orderOf
  cases c.copies? k with
  | some host => exact List.append_nil _
  | none =>
      show bytesOf (intCodecEncode k x c.order) = image c.order x k.size
      cases c.order with
      | little => exact bytesOf_littleEndianEncode k x
      | big => exact bytesOf_bigEndianEncode k x

end Encode

section Decode

variable {w : ℕ}

theorem littleEndianLoop_spec (n i : ℕ) (x : BitVec w) (s : List Byte) :
    (littleEndianLoop bufferDecoder w n i x s).toOption =
      if n ≤ s.length then some (x ||| (valueLE w (s.take n) <<< (8 * i)), s.drop n) else none := by
  induction n generalizing i x s with
  | zero => simp [littleEndianLoop, valueLE, Except.toOption]
  | succ n ih =>
      cases s with
      | nil => rfl
      | cons c rest =>
          -- The loop puts each byte above those it has read, so the start is generalised.
          have hshift : (8 + 8 * i : ℕ) = 8 * (i + 1) := by omega
          show (littleEndianLoop bufferDecoder w n (i + 1) (x ||| (ofByte w c <<< (8 * i)))
            rest).toOption = _
          rw [ih, List.take_succ_cons, List.drop_succ_cons, List.length_cons, valueLE,
            BitVec.shiftLeft_or_distrib, ← BitVec.shiftLeft_add, hshift, BitVec.or_assoc]
          simp only [Nat.add_le_add_iff_right]

theorem bigEndianLoop_spec (n : ℕ) (x : BitVec w) (s : List Byte) :
    (bigEndianLoop bufferDecoder w n x s).toOption =
      if n ≤ s.length then some ((x <<< (8 * n)) ||| valueLE w (s.take n).reverse, s.drop n)
      else none := by
  induction n generalizing x s with
  | zero => simp [bigEndianLoop, valueLE, Except.toOption]
  | succ n ih =>
      cases s with
      | nil => rfl
      | cons c rest =>
          -- Here the bytes read so far move up, by as many bytes as are still to come.
          have hshift : (8 + 8 * n : ℕ) = 8 * (n + 1) := by omega
          show (bigEndianLoop bufferDecoder w n ((x <<< 8) ||| ofByte w c) rest).toOption = _
          rw [ih, List.take_succ_cons, List.drop_succ_cons, List.length_cons]
          simp only [Nat.add_le_add_iff_right]
          by_cases hle : n ≤ rest.length
          · have hlen : (rest.take n).reverse.length = n := by
              rw [List.length_reverse, List.length_take]
              omega
            rw [if_pos hle, if_pos hle, List.reverse_cons, valueLE_append, hlen,
              BitVec.shiftLeft_or_distrib, ← BitVec.shiftLeft_add, hshift, BitVec.or_assoc,
              BitVec.or_comm (ofByte w c <<< (8 * n))]
            simp [valueLE]
          · rw [if_neg hle, if_neg hle]

/-- **An integer is read from its image in the codec's order.** -/
theorem decodeInt_spec (c : Codec) (k : IntType) (s : List Byte) :
    (decodeInt bufferDecoder c k s).toOption =
      if k.size ≤ s.length then some (value (c.orderOf k) _ (s.take k.size), s.drop k.size)
      else none := by
  unfold decodeInt Codec.orderOf
  cases c.copies? k with
  | some host =>
      by_cases hle : k.size ≤ s.length
      · simp only [bufferDecoder, if_neg (not_lt.mpr hle), if_pos hle]
        rfl
      · simp only [bufferDecoder, if_pos (not_le.mp hle), if_neg hle]
        rfl
  | none =>
      cases c.order with
      | little =>
          show (littleEndianLoop bufferDecoder _ k.size 0 0 s).toOption = _
          rw [littleEndianLoop_spec]
          simp [value]
      | big =>
          show (bigEndianLoop bufferDecoder _ k.size 0 s).toOption = _
          rw [bigEndianLoop_spec]
          simp [value]

end Decode

end Serialization
end CoherentDB
