import CoherentDB.Serialization.RoundTrip

/-!
# The optimised codec and the plain one

On a host whose byte order is that of the codec, a `memcpy` writes what the loop
writes.  On reading, the bulk copy succeeds exactly when the buffer holds all the
elements, which is when the reads of the elements one by one all succeed.
-/

namespace CoherentDB
namespace Serialization

open Debug ByteOrder Util

theorem orderOf_plain (order : Endian) (k : IntType) : (Codec.plain order).orderOf k = order := by
  rw [Codec.orderOf, Codec.copies?]
  split_ifs <;> rfl

theorem orderOf_optimized (order : Endian) (k : IntType) :
    (Codec.withDefaultOptimizer order order).orderOf k = order := by
  rw [Codec.orderOf, Codec.copies?]
  split_ifs <;> rfl

section Encode

variable {α : Type} (order : Endian)

theorem bytesOf_encodeInt_optimized (k : IntType) (x : k.Value) :
    bytesOf (encodeInt (.withDefaultOptimizer order order) k x) =
      bytesOf (encodeInt (.plain order) k x) := by
  rw [bytesOf_encodeInt, bytesOf_encodeInt, orderOf_plain, orderOf_optimized]

/-- An integral value is written as it lies in memory. -/
theorem bytesOf_encode_integral {t : Serializable α} {integral : Integral α}
    (h : t.integral? = some integral) (x : α) :
    bytesOf (encode (.plain order) t x) = integral.image order x := by
  cases t with
  | char | uint8 =>
      obtain rfl := Option.some.inj h
      rfl
  | int k =>
      obtain rfl := Option.some.inj h
      show bytesOf (encodeInt (.plain order) k x) = image order x k.size
      rw [bytesOf_encodeInt, orderOf_plain]
  | string | vector | list | set | pair | noFields | fields => cases h

/-- The same elements behind the same size. -/
theorem bytesOf_standardSequenceEncode {enc enc' : α → List Operation}
    (h : ∀ x, bytesOf (enc x) = bytesOf (enc' x)) (s : List α) :
    bytesOf (standardSequenceEncode (.withDefaultOptimizer order order) enc s) =
      bytesOf (standardSequenceEncode (.plain order) enc' s) := by
  rw [standardSequenceEncode, standardSequenceEncode, bytesOf_append, bytesOf_append,
    bytesOf_flatMap, bytesOf_flatMap, encodeSize, encodeSize, bytesOf_encodeInt_optimized]
  simp only [h]

/-- The memory of a sequence is what its elements one by one are written as. -/
theorem bytesOf_sequenceOptimizerEncode {integral : Integral α} {enc : α → List Operation}
    (h : ∀ x, bytesOf (enc x) = integral.image order x) (s : List α) :
    bytesOf (sequenceOptimizerEncode (.withDefaultOptimizer order order) integral order s) =
      bytesOf (standardSequenceEncode (.plain order) enc s) := by
  have hbytes : bytesOf [.memcpy (s.flatMap (integral.image order))] =
      s.flatMap (integral.image order) := List.append_nil _
  rw [sequenceOptimizerEncode, standardSequenceEncode, bytesOf_append, bytesOf_append, hbytes,
    bytesOf_flatMap, encodeSize, encodeSize, bytesOf_encodeInt_optimized]
  simp only [h]

theorem encode_vector_integral (host : Endian) {t : Serializable α} {integral : Integral α}
    (h : t.integral? = some integral) (v : List α) :
    encode (.withDefaultOptimizer order host) (.vector t) v =
      sequenceOptimizerEncode (.withDefaultOptimizer order host) integral host v := by
  simp only [encode, Codec.host?, h]

theorem encode_vector_other (host : Endian) {t : Serializable α} (h : t.integral? = none)
    (v : List α) :
    encode (.withDefaultOptimizer order host) (.vector t) v =
      standardSequenceEncode (.withDefaultOptimizer order host)
        (encode (.withDefaultOptimizer order host) t) v := by
  simp only [encode, Codec.host?, h]

theorem bytesOf_encode_optimized (t : Serializable α) (v : α) :
    bytesOf (encode (.withDefaultOptimizer order order) t v) =
      bytesOf (encode (.plain order) t v) := by
  induction t with
  | char | uint8 => rfl
  | int k => exact bytesOf_encodeInt_optimized order k v
  | string => exact bytesOf_sequenceOptimizerEncode order (fun _ => rfl) v
  | vector t ih =>
      cases hintegral : t.integral? with
      | some integral =>
          -- The memory of the vector is the sequence of the images of its entries.
          rw [encode_vector_integral order order hintegral]
          exact bytesOf_sequenceOptimizerEncode order (bytesOf_encode_integral order hintegral) v
      | none =>
          rw [encode_vector_other order order hintegral]
          exact bytesOf_standardSequenceEncode order ih v
  | list t ih => exact bytesOf_standardSequenceEncode order ih v
  | set t cmp ih => exact bytesOf_standardSequenceEncode order ih v.elems
  | pair first second ihfirst ihsecond | fields first second ihfirst ihsecond =>
      simp only [encode]
      rw [bytesOf_append, bytesOf_append, ihfirst, ihsecond]
  | noFields => rfl

end Encode

section Decode

variable {α : Type} (order : Endian) {s : List Byte}

theorem decodeInt_optimized (k : IntType) (s : List Byte) :
    (decodeInt bufferDecoder (.withDefaultOptimizer order order) k s).toOption =
      (decodeInt bufferDecoder (.plain order) k s).toOption := by
  rw [decodeInt_spec, decodeInt_spec, orderOf_plain, orderOf_optimized]

/-- An integral value is read as it lies in memory, if all of it is there. -/
theorem decode_integral (fresh : {α : Type} → Serializable α → α) {t : Serializable α}
    {integral : Integral α} (h : t.integral? = some integral) (target : α) (s : List Byte) :
    (decode bufferDecoder fresh (.plain order) t target s).toOption =
      if integral.size ≤ s.length then
        some (integral.value order (s.take integral.size), s.drop integral.size)
      else none := by
  cases t with
  | char | uint8 =>
      obtain rfl := Option.some.inj h
      cases s with
      | nil => rfl
      | cons c rest => simp [decode, bufferDecoder, Integral.byte, Except.toOption]
  | int k =>
      obtain rfl := Option.some.inj h
      show (decodeInt bufferDecoder (.plain order) k s).toOption = _
      rw [decodeInt_spec, orderOf_plain]
      rfl
  | string | vector | list | set | pair | noFields | fields => cases h

/-- Only the bytes of the elements matter. -/
theorem elementsOf_take (integral : Integral α) (n : ℕ) (s : List Byte) :
    elementsOf integral order n (s.take (integral.size * n)) = elementsOf integral order n s := by
  induction n generalizing s with
  | zero => rfl
  | succ n ih =>
      have hsize : integral.size ≤ integral.size * (n + 1) := Nat.le_mul_of_pos_right _ (Nat.succ_pos n)
      have hrest : integral.size * (n + 1) - integral.size = integral.size * n := by
        rw [Nat.mul_succ, Nat.add_sub_cancel]
      rw [elementsOf, elementsOf, List.take_take, Nat.min_eq_left hsize, List.drop_take, hrest, ih]

/-- Reading the elements one by one succeeds when they are all there. -/
theorem decodeEach_integral {integral : Integral α}
    {dec : α → List Byte → Except DecodeError (α × List Byte)}
    (hdec : ∀ target s, (dec target s).toOption =
      if integral.size ≤ s.length then
        some (integral.value order (s.take integral.size), s.drop integral.size)
      else none) (targets : List α) (s : List Byte) :
    (decodeEach dec targets s).toOption =
      if integral.size * targets.length ≤ s.length then
        some (elementsOf integral order targets.length s, s.drop (integral.size * targets.length))
      else none := by
  induction targets generalizing s with
  | nil => simp [decodeEach, elementsOf, Except.toOption]
  | cons target targets ih =>
      have hmul : integral.size * (targets.length + 1) =
          integral.size * targets.length + integral.size := Nat.mul_succ _ _
      rw [decodeEach, toOption_bind, hdec, List.length_cons, elementsOf, hmul]
      -- The reader stops at the first entry that is not there in full.
      by_cases hfirst : integral.size ≤ s.length
      · rw [if_pos hfirst, Option.bind_some]
        simp only
        rw [toOption_bind, ih, List.length_drop]
        by_cases hall : integral.size * targets.length ≤ s.length - integral.size
        · rw [if_pos hall, if_pos (by omega), List.drop_drop, Nat.add_comm integral.size]
          rfl
        · rw [if_neg hall, if_neg (by omega)]
          rfl
      · rw [if_neg hfirst, if_neg (by omega)]
        rfl

theorem decodeEach_congr {dec dec' : α → List Byte → Except DecodeError (α × List Byte)}
    (h : ∀ x s, (dec x s).toOption = (dec' x s).toOption) (targets : List α) (s : List Byte) :
    (decodeEach dec targets s).toOption = (decodeEach dec' targets s).toOption := by
  induction targets generalizing s with
  | nil => rfl
  | cons target targets ih =>
      rw [decodeEach, decodeEach, toOption_bind, toOption_bind, h]
      congr 1
      funext r
      rw [toOption_bind, toOption_bind, ih]

theorem insertEach_congr {cmp : Comparator α} (new : α)
    {dec dec' : α → List Byte → Except DecodeError (α × List Byte)}
    (h : ∀ x s, (dec x s).toOption = (dec' x s).toOption) (n : ℕ) (cont : SortedSet cmp)
    (s : List Byte) :
    (insertEach new dec n cont s).toOption = (insertEach new dec' n cont s).toOption := by
  induction n generalizing cont s with
  | zero => rfl
  | succ n ih =>
      rw [insertEach, insertEach, toOption_bind, toOption_bind, h]
      congr 1
      funext r
      exact ih (cont.insert r.1) r.2

theorem standardSequenceDecode_optimized
    {dec dec' : α → List Byte → Except DecodeError (α × List Byte)}
    (h : ∀ x s, (dec x s).toOption = (dec' x s).toOption) (new : α) (target : List α)
    (s : List Byte) :
    (standardSequenceDecode bufferDecoder (.withDefaultOptimizer order order) new dec target
        s).toOption =
      (standardSequenceDecode bufferDecoder (.plain order) new dec' target s).toOption := by
  rw [standardSequenceDecode, standardSequenceDecode, toOption_bind, toOption_bind,
    decodeInt_optimized]
  congr 1
  funext r
  exact decodeEach_congr h _ r.2

theorem uniqueContainerDecode_optimized (cmp : Comparator α)
    {dec dec' : α → List Byte → Except DecodeError (α × List Byte)}
    (h : ∀ x s, (dec x s).toOption = (dec' x s).toOption) (new : α) (s : List Byte) :
    (uniqueContainerDecode bufferDecoder (.withDefaultOptimizer order order) cmp new dec
        s).toOption =
      (uniqueContainerDecode bufferDecoder (.plain order) cmp new dec' s).toOption := by
  rw [uniqueContainerDecode, uniqueContainerDecode, toOption_bind, toOption_bind,
    decodeInt_optimized]
  congr 1
  funext r
  exact insertEach_congr new h _ SortedSet.empty r.2

/-- The bulk copy reads what the elements one by one read. -/
theorem sequenceOptimizerDecode_eq {integral : Integral α}
    {dec : α → List Byte → Except DecodeError (α × List Byte)}
    (hdec : ∀ target s, (dec target s).toOption =
      if integral.size ≤ s.length then
        some (integral.value order (s.take integral.size), s.drop integral.size)
      else none) (new : α) (target : List α) (s : List Byte) :
    (sequenceOptimizerDecode bufferDecoder (.withDefaultOptimizer order order) integral order new
        target s).toOption =
      (standardSequenceDecode bufferDecoder (.plain order) new dec target s).toOption := by
  rw [sequenceOptimizerDecode, standardSequenceDecode, toOption_bind, toOption_bind,
    decodeInt_optimized]
  congr 1
  funext r
  obtain ⟨x, input⟩ := r
  show ((bufferDecoder.memcpy (integral.size * (resize target x.toNat new).length) input) >>=
    fun r => pure (elementsOf integral order (resize target x.toNat new).length r.1,
      r.2)).toOption = (decodeEach dec (resize target x.toNat new) input).toOption
  rw [decodeEach_integral order hdec]
  simp only [bufferDecoder]
  by_cases hall : integral.size * (resize target x.toNat new).length ≤ input.length
  · rw [if_neg (not_lt.mpr hall), if_pos hall, ok_bind, elementsOf_take]
    rfl
  · rw [if_pos (not_le.mp hall), if_neg hall]
    rfl

theorem decode_vector_integral (host : Endian) (fresh : {α : Type} → Serializable α → α)
    {t : Serializable α} {integral : Integral α} (h : t.integral? = some integral)
    (target : List α) (s : List Byte) :
    decode bufferDecoder fresh (.withDefaultOptimizer order host) (.vector t) target s =
      sequenceOptimizerDecode bufferDecoder (.withDefaultOptimizer order host) integral host
        (fresh t) target s := by
  simp only [decode, Codec.host?, h]

theorem decode_vector_other (host : Endian) (fresh : {α : Type} → Serializable α → α)
    {t : Serializable α} (h : t.integral? = none) (target : List α) (s : List Byte) :
    decode bufferDecoder fresh (.withDefaultOptimizer order host) (.vector t) target s =
      standardSequenceDecode bufferDecoder (.withDefaultOptimizer order host) (fresh t)
        (decode bufferDecoder fresh (.withDefaultOptimizer order host) t) target s := by
  simp only [decode, Codec.host?, h]

theorem decode_optimized (fresh : {α : Type} → Serializable α → α) (t : Serializable α)
    (target : α) (s : List Byte) :
    (decode bufferDecoder fresh (.withDefaultOptimizer order order) t target s).toOption =
      (decode bufferDecoder fresh (.plain order) t target s).toOption := by
  induction t generalizing s with
  | char | uint8 => rfl
  | int k => exact decodeInt_optimized order k s
  | string =>
      exact sequenceOptimizerDecode_eq order
        (fun x s => decode_integral order fresh (t := .char) rfl x s) (fresh .char) target s
  | vector t ih =>
      cases hintegral : t.integral? with
      | some integral =>
          rw [decode_vector_integral order order fresh hintegral]
          exact sequenceOptimizerDecode_eq order (decode_integral order fresh hintegral) _ target s
      | none =>
          rw [decode_vector_other order order fresh hintegral]
          exact standardSequenceDecode_optimized order ih (fresh t) target s
  | list t ih => exact standardSequenceDecode_optimized order ih (fresh t) target s
  | set t cmp ih => exact uniqueContainerDecode_optimized order cmp ih (fresh t) s
  | pair first second ihfirst ihsecond | fields first second ihfirst ihsecond =>
      simp only [decode]
      rw [toOption_bind, toOption_bind, ihfirst]
      congr 1
      funext r
      rw [toOption_bind, toOption_bind, ihsecond]
  | noFields => rfl

end Decode

/-- **The optimised codec is interchangeable with the plain one** on a host of its byte order:
it writes the same bytes, and on every input it decodes the same value and leaves the same rest,
or both fail. -/
theorem optimizer_interchangeable (fresh : {α : Type} → Serializable α → α) (order : Endian)
    {α : Type} (t : Serializable α) :
    (∀ v, bufferEncode (.withDefaultOptimizer order order) t v =
      bufferEncode (.plain order) t v) ∧
    (∀ target input, (decode bufferDecoder fresh (.withDefaultOptimizer order order) t target
        input).toOption =
      (decode bufferDecoder fresh (.plain order) t target input).toOption) := by
  constructor
  · intro v
    rw [bufferEncode_eq, bufferEncode_eq, bytesOf_encode_optimized]
  · intro target input
    exact decode_optimized order fresh t target input

end Serialization
end CoherentDB
