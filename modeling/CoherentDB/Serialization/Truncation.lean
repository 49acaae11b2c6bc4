import CoherentDB.Serialization.RoundTrip

/-!
# Truncated input

`buffer_decoder` works on two iterators, and every read is preceded by a test.
`iteratorDecoder` is that decoder with the iterators as positions, where a read at or
behind the end is an outcome of its own.  It answers like `bufferDecoder` on the bytes
between the iterators, so that this outcome never happens (`decode_iterator`): no
byte string makes the decoder move past its end.

What was encoded is a list of operations, and on a strict prefix of their bytes one of
the calls that replay them fails.  Decoding a truncated value therefore throws
`std::out_of_range` (`truncated_detected`).
-/

namespace CoherentDB
namespace Serialization

open Debug ByteOrder Util

section Alike

variable {σ₁ σ₂ α β : Type}

/-- The same value with related states, or related exceptions. -/
def Alike (E : DecodeError → DecodeError → Prop) (R : σ₁ → σ₂ → Prop) :
    Except DecodeError (α × σ₁) → Except DecodeError (α × σ₂) → Prop
  | .ok (x, s₁), .ok (y, s₂) => x = y ∧ R s₁ s₂
  | .error e₁, .error e₂ => E e₁ e₂
  | .ok _, .error _ | .error _, .ok _ => False

variable {E : DecodeError → DecodeError → Prop} {R : σ₁ → σ₂ → Prop}

theorem Alike.bind {a₁ : Except DecodeError (α × σ₁)} {a₂ : Except DecodeError (α × σ₂)}
    {f₁ : α × σ₁ → Except DecodeError (β × σ₁)} {f₂ : α × σ₂ → Except DecodeError (β × σ₂)}
    (h : Alike E R a₁ a₂) (hnext : ∀ x s₁ s₂, R s₁ s₂ → Alike E R (f₁ (x, s₁)) (f₂ (x, s₂))) :
    Alike E R (a₁ >>= f₁) (a₂ >>= f₂) := by
  cases a₁ with
  | error e₁ =>
      cases a₂ with
      | error e₂ => exact h
      | ok _ => exact h.elim
  | ok p₁ =>
      cases a₂ with
      | error e₂ => exact h.elim
      | ok p₂ =>
          obtain ⟨x, s₁⟩ := p₁
          obtain ⟨y, s₂⟩ := p₂
          obtain ⟨rfl, hs⟩ := h
          exact hnext x s₁ s₂ hs

/-- Two decoders that answer alike in related states. -/
structure DecodersAlike (E : DecodeError → DecodeError → Prop) (R : σ₁ → σ₂ → Prop)
    (d₁ : Decoder σ₁) (d₂ : Decoder σ₂) : Prop where
  getChar : ∀ s₁ s₂, R s₁ s₂ → Alike E R (d₁.getChar s₁) (d₂.getChar s₂)
  memcpy : ∀ n s₁ s₂, R s₁ s₂ → Alike E R (d₁.memcpy n s₁) (d₂.memcpy n s₂)

variable {d₁ : Decoder σ₁} {d₂ : Decoder σ₂} {s₁ : σ₁} {s₂ : σ₂}

theorem DecodersAlike.littleEndianLoop (h : DecodersAlike E R d₁ d₂) {w : ℕ} (n i : ℕ)
    (x : BitVec w) (hs : R s₁ s₂) :
    Alike E R (littleEndianLoop d₁ w n i x s₁) (littleEndianLoop d₂ w n i x s₂) := by
  induction n generalizing i x s₁ s₂ with
  | zero => exact ⟨rfl, hs⟩
  | succ n ih => exact (h.getChar s₁ s₂ hs).bind fun c s₁ s₂ hs => ih (i + 1) _ hs

theorem DecodersAlike.bigEndianLoop (h : DecodersAlike E R d₁ d₂) {w : ℕ} (n : ℕ)
    (x : BitVec w) (hs : R s₁ s₂) :
    Alike E R (bigEndianLoop d₁ w n x s₁) (bigEndianLoop d₂ w n x s₂) := by
  induction n generalizing x s₁ s₂ with
  | zero => exact ⟨rfl, hs⟩
  | succ n ih => exact (h.getChar s₁ s₂ hs).bind fun c s₁ s₂ hs => ih _ hs

theorem DecodersAlike.decodeInt (h : DecodersAlike E R d₁ d₂) (c : Codec) (k : IntType)
    (hs : R s₁ s₂) : Alike E R (decodeInt d₁ c k s₁) (decodeInt d₂ c k s₂) := by
  unfold Serialization.decodeInt
  cases c.copies? k with
  | some host => exact (h.memcpy _ s₁ s₂ hs).bind fun bytes s₁ s₂ hs => ⟨rfl, hs⟩
  | none =>
      cases c.order with
      | little => exact h.littleEndianLoop _ _ _ hs
      | big => exact h.bigEndianLoop _ _ hs

variable {dec₁ : α → σ₁ → Except DecodeError (α × σ₁)} {dec₂ : α → σ₂ → Except DecodeError (α × σ₂)}

theorem decodeEach_alike
    (hdec : ∀ target s₁ s₂, R s₁ s₂ → Alike E R (dec₁ target s₁) (dec₂ target s₂))
    (targets : List α) (hs : R s₁ s₂) :
    Alike E R (decodeEach dec₁ targets s₁) (decodeEach dec₂ targets s₂) := by
  induction targets generalizing s₁ s₂ with
  | nil => exact ⟨rfl, hs⟩
  | cons target rest ih =>
      refine (hdec target s₁ s₂ hs).bind fun x s₁ s₂ hs => ?_
      exact (ih hs).bind fun rest s₁ s₂ hs => ⟨rfl, hs⟩

theorem insertEach_alike {cmp : Comparator α} (new : α)
    (hdec : ∀ target s₁ s₂, R s₁ s₂ → Alike E R (dec₁ target s₁) (dec₂ target s₂))
    (n : ℕ) (cont : SortedSet cmp) (hs : R s₁ s₂) :
    Alike E R (insertEach new dec₁ n cont s₁) (insertEach new dec₂ n cont s₂) := by
  induction n generalizing cont s₁ s₂ with
  | zero => exact ⟨rfl, hs⟩
  | succ n ih => exact (hdec new s₁ s₂ hs).bind fun x s₁ s₂ hs => ih (cont.insert x) hs

theorem DecodersAlike.standardSequenceDecode (h : DecodersAlike E R d₁ d₂) (c : Codec) (new : α)
    (hdec : ∀ target s₁ s₂, R s₁ s₂ → Alike E R (dec₁ target s₁) (dec₂ target s₂))
    (target : List α) (hs : R s₁ s₂) :
    Alike E R (standardSequenceDecode d₁ c new dec₁ target s₁)
      (standardSequenceDecode d₂ c new dec₂ target s₂) :=
  (h.decodeInt c .uint32 hs).bind fun _ _ _ hs => decodeEach_alike hdec _ hs

theorem DecodersAlike.sequenceOptimizerDecode (h : DecodersAlike E R d₁ d₂) (c : Codec)
    (integral : Integral α) (host : Endian) (new : α) (target : List α) (hs : R s₁ s₂) :
    Alike E R (sequenceOptimizerDecode d₁ c integral host new target s₁)
      (sequenceOptimizerDecode d₂ c integral host new target s₂) := by
  refine (h.decodeInt c .uint32 hs).bind fun x s₁ s₂ hs => ?_
  exact (h.memcpy _ s₁ s₂ hs).bind fun bytes s₁ s₂ hs => ⟨rfl, hs⟩

/-- **Decoders that answer alike decode alike**, whatever the type and the codec. -/
theorem DecodersAlike.decode (h : DecodersAlike E R d₁ d₂)
    (fresh : {α : Type} → Serializable α → α) (c : Codec) (t : Serializable α) (target : α)
    (hs : R s₁ s₂) :
    Alike E R (decode d₁ fresh c t target s₁) (decode d₂ fresh c t target s₂) := by
  induction t generalizing s₁ s₂ with
  | char | uint8 => exact h.getChar s₁ s₂ hs
  | int k => exact h.decodeInt c k hs
  | string =>
      unfold Serialization.decode
      cases c.host? with
      | some host => exact h.sequenceOptimizerDecode c Integral.byte host _ target hs
      | none => exact h.standardSequenceDecode c _ (fun _ => h.getChar) target hs
  | vector t ih =>
      unfold Serialization.decode
      cases c.host? with
      | none => exact h.standardSequenceDecode c _ (fun x _ _ => ih x) target hs
      | some host =>
          cases t.integral? with
          | none => exact h.standardSequenceDecode c _ (fun x _ _ => ih x) target hs
          | some integral => exact h.sequenceOptimizerDecode c integral host _ target hs
  | list t ih => exact h.standardSequenceDecode c _ (fun x _ _ => ih x) target hs
  | set t cmp ih =>
      exact (h.decodeInt c .uint32 hs).bind fun x s₁ s₂ hs =>
        insertEach_alike _ (fun x _ _ => ih x) x.toNat SortedSet.empty hs
  | pair first second ihfirst ihsecond | fields first second ihfirst ihsecond =>
      refine (ihfirst target.1 hs).bind fun x s₁ s₂ hs => ?_
      exact (ihsecond target.2 hs).bind fun y s₁ s₂ hs => ⟨rfl, hs⟩
  | noFields => exact ⟨rfl, hs⟩

end Alike

section Iterators

/-- Reading the memory that an iterator points to, with its end at `stop`. -/
def dereference (buffer : List Byte) (stop it : ℕ) : Except DecodeError Byte :=
  if it < stop then .ok (buffer.getD it 0) else .error (.runtimeError "read past the end iterator")

/-- The bytes of `n` iterators from `it` on. -/
def dereferenceEach (buffer : List Byte) (stop : ℕ) : ℕ → ℕ → Except DecodeError (List Byte)
  | 0, _ => .ok []
  | n + 1, it => do
      let byte ← dereference buffer stop it
      let rest ← dereferenceEach buffer stop n (it + 1)
      return byte :: rest

/-- `buffer_decoder` with `begin_` as a position in the buffer and `end_` at `stop`. -/
def iteratorDecoder (buffer : List Byte) (stop : ℕ) : Decoder ℕ where
  getChar begin_ :=
    if begin_ = stop then .error (.outOfRange "buffer_decoder::get_char")
    else do
      let byte ← dereference buffer stop begin_
      return (byte, begin_ + 1)
  memcpy n begin_ :=
    -- The difference is compared as a `size_t`: a negative one would pass any test.
    if begin_ ≤ stop ∧ stop - begin_ < n then .error (.outOfRange "buffer_decoder::memcpy")
    else do
      let bytes ← dereferenceEach buffer stop n begin_
      return (bytes, begin_ + n)

variable {buffer : List Byte} {stop it n : ℕ}

/-- The bytes between the two iterators. -/
def between (buffer : List Byte) (stop it : ℕ) : List Byte := (buffer.take stop).drop it

theorem length_between (hstop : stop ≤ buffer.length) :
    (between buffer stop it).length = stop - it := by
  rw [between, List.length_drop, List.length_take, min_eq_left hstop]

theorem between_eq_cons (hstop : stop ≤ buffer.length) (hit : it < stop) :
    between buffer stop it = buffer.getD it 0 :: between buffer stop (it + 1) := by
  have hlt : it < (buffer.take stop).length := by
    rw [List.length_take, min_eq_left hstop]
    exact hit
  have hget : buffer.getD it 0 = buffer[it] := by
    rw [List.getD_eq_getElem?_getD, List.getElem?_eq_getElem, Option.getD_some]
  rw [between, List.drop_eq_getElem_cons hlt, List.getElem_take, between, hget]

theorem dereferenceEach_eq (hstop : stop ≤ buffer.length) (hfits : it + n ≤ stop) :
    dereferenceEach buffer stop n it = .ok ((between buffer stop it).take n) := by
  induction n generalizing it with
  | zero => rfl
  | succ n ih =>
      have hit : it < stop := by omega
      rw [dereferenceEach, dereference, if_pos hit, ih (by omega), between_eq_cons hstop hit,
        List.take_succ_cons]
      rfl

/-- The iterator has not passed the end, and the list decoder is at the same place. -/
def AtSamePlace (buffer : List Byte) (start stop : ℕ) (it : ℕ) (input : List Byte) : Prop :=
  start ≤ it ∧ it ≤ stop ∧ input = between buffer stop it

/-- The same exception, which is `std::out_of_range`. -/
def SameOutOfRange (e₁ e₂ : DecodeError) : Prop := e₁ = e₂ ∧ ∃ what, e₁ = .outOfRange what

/-- **The two models of `buffer_decoder` answer alike**; in particular no call of the model with
iterators reads at or behind the end. -/
theorem iteratorDecoder_alike {start : ℕ} (hstop : stop ≤ buffer.length) :
    DecodersAlike SameOutOfRange (AtSamePlace buffer start stop) (iteratorDecoder buffer stop)
      bufferDecoder := by
  constructor
  · rintro it input ⟨hstart, hle, rfl⟩
    rcases Nat.eq_or_lt_of_le hle with rfl | hlt
    · have hnil : between buffer it it = [] := by
        rw [← List.length_eq_zero_iff, length_between hstop, Nat.sub_self]
      simp only [iteratorDecoder, if_true, hnil, bufferDecoder]
      exact ⟨rfl, _, rfl⟩
    · simp only [iteratorDecoder, if_neg hlt.ne, dereference, if_pos hlt,
        between_eq_cons hstop hlt, bufferDecoder]
      exact ⟨rfl, by omega, hlt, rfl⟩
  · rintro n it input ⟨hstart, hle, rfl⟩
    simp only [iteratorDecoder, bufferDecoder, hle, true_and, length_between hstop]
    split_ifs with hshort
    · exact ⟨rfl, _, rfl⟩
    · rw [dereferenceEach_eq hstop (by omega)]
      refine ⟨rfl, by omega, by omega, ?_⟩
      rw [between, between, List.drop_drop]

/-- **Decoding never passes the end iterator**: it throws `std::out_of_range`, or ends between
the iterators.  In both cases it has read only between them. -/
theorem decode_iterator (fresh : {α : Type} → Serializable α → α) (c : Codec) {α : Type}
    (t : Serializable α) (target : α) (hit : it ≤ stop) (hstop : stop ≤ buffer.length) :
    (∃ what, decode (iteratorDecoder buffer stop) fresh c t target it =
        .error (.outOfRange what) ∧
      decode bufferDecoder fresh c t target (between buffer stop it) =
        .error (.outOfRange what)) ∨
    ∃ v it', decode (iteratorDecoder buffer stop) fresh c t target it = .ok (v, it') ∧
      decode bufferDecoder fresh c t target (between buffer stop it) =
        .ok (v, between buffer stop it') ∧ it ≤ it' ∧ it' ≤ stop := by
  have halike := (iteratorDecoder_alike hstop).decode fresh c t target
    (show AtSamePlace buffer it stop it (between buffer stop it) from ⟨le_rfl, hit, rfl⟩)
  cases hmodel : decode (iteratorDecoder buffer stop) fresh c t target it with
  | error e₁ =>
      cases hlist : decode bufferDecoder fresh c t target (between buffer stop it) with
      | error e₂ =>
          rw [hmodel, hlist] at halike
          obtain ⟨rfl, what, rfl⟩ := halike
          exact Or.inl ⟨what, rfl, rfl⟩
      | ok p =>
          rw [hmodel, hlist] at halike
          exact halike.elim
  | ok p₁ =>
      cases hlist : decode bufferDecoder fresh c t target (between buffer stop it) with
      | error e₂ =>
          rw [hmodel, hlist] at halike
          exact halike.elim
      | ok p₂ =>
          rw [hmodel, hlist] at halike
          obtain ⟨x, it'⟩ := p₁
          obtain ⟨y, rest⟩ := p₂
          obtain ⟨rfl, hle, hle', rfl⟩ := halike
          exact Or.inr ⟨x, it', rfl, rfl, hle, hle'⟩

end Iterators

section Prefixes

/-- On a strict prefix of what was written, one of the calls that replay it fails. -/
theorem replay_strictPrefix (operations : List Operation) {p : List Byte}
    (hstart : p <+: bytesOf operations) (hne : p ≠ bytesOf operations) :
    ∃ what, Replay bufferDecoder operations p (.error (.outOfRange what)) := by
  induction operations generalizing p with
  | nil => exact absurd (List.prefix_nil.mp hstart) hne
  | cons operation operations ih =>
      cases operation with
      | writeChar c =>
          cases p with
          | nil => exact ⟨_, .charFails rfl⟩
          | cons x p =>
              obtain ⟨rfl, hrest⟩ := List.cons_prefix_cons.mp hstart
              obtain ⟨what, hreplay⟩ := ih hrest fun heq => hne (congrArg (x :: ·) heq)
              exact ⟨what, .char rfl hreplay⟩
      | memcpy src =>
          have hbytes : bytesOf (.memcpy src :: operations) = src ++ bytesOf operations := rfl
          rw [hbytes] at hstart hne
          by_cases hshort : p.length < src.length
          · -- The cut falls into the copied memory, and the test of its length fails.
            exact ⟨_, .copyFails (if_pos hshort)⟩
          · have hsrc : src <+: p :=
              List.prefix_of_prefix_length_le (List.prefix_append src _) hstart (not_lt.mp hshort)
            obtain ⟨q, rfl⟩ := hsrc
            have hq := (List.prefix_append_right_inj src).mp hstart
            obtain ⟨what, hreplay⟩ := ih hq fun heq => hne (congrArg (src ++ ·) heq)
            refine ⟨what, .copy ?_ hreplay⟩
            have hlong : ¬ (src ++ q).length < src.length := by
              rw [List.length_append]
              omega
            simp only [bufferDecoder, if_neg hlong, List.take_left, List.drop_left]

end Prefixes

/-- **Truncated input is detected.**  Decoding from a strict prefix of an encoded value throws
`std::out_of_range`; and from any bytes at all, decoding throws `std::out_of_range` or ends
between its iterators, without a read at or behind the end. -/
theorem truncated_detected (fresh : {α : Type} → Serializable α → α) (c : Codec) {α : Type}
    (t : Serializable α) :
    (∀ v, t.Small v → ∀ p, p <+: bufferEncode c t v → p ≠ bufferEncode c t v → ∀ target,
      ∃ what, decode (iteratorDecoder p p.length) fresh c t target 0 =
        .error (.outOfRange what)) ∧
    ∀ buffer stop it, it ≤ stop → stop ≤ buffer.length → ∀ target,
      (∃ what, decode (iteratorDecoder buffer stop) fresh c t target it =
        .error (.outOfRange what)) ∨
      ∃ v it', decode (iteratorDecoder buffer stop) fresh c t target it = .ok (v, it') ∧
        it ≤ it' ∧ it' ≤ stop := by
  constructor
  · intro v hsmall p hstart hne target
    rw [bufferEncode_eq] at hstart hne
    obtain ⟨what, hreplay⟩ := replay_strictPrefix _ hstart hne
    have hlist : decode bufferDecoder fresh c t target p = .error (.outOfRange what) :=
      decode_of_replay fresh c t v hsmall target p _ hreplay
    have hwhole : between p p.length 0 = p := by
      rw [between, List.take_length, List.drop_zero]
    -- The model with iterators throws as well: it cannot succeed where the other one fails.
    rcases decode_iterator fresh c t target (Nat.zero_le p.length) le_rfl with
      ⟨what', hthrows, -⟩ | ⟨v', it', -, hok, -⟩
    · exact ⟨what', hthrows⟩
    · rw [hwhole, hlist] at hok
      cases hok
  · intro buffer stop it hit hstop target
    rcases decode_iterator fresh c t target hit hstop with
      ⟨what, hthrows, -⟩ | ⟨v, it', hok, -, hle, hle'⟩
    · exact Or.inl ⟨what, hthrows⟩
    · exact Or.inr ⟨v, it', hok, hle, hle'⟩

/-- A vector of two 64-bit integers, copied as memory and cut in the second one. -/
theorem truncated_detected_vector :
    let t : Serializable (List IntType.uint64.Value) := .vector (.int .uint64)
    let bytes := bufferEncode (.withDefaultOptimizer .little .little) t [1, 2]
    ∃ what, decode (iteratorDecoder (bytes.take 15) (bytes.take 15).length) Serializable.zero
      (.withDefaultOptimizer .little .little) t [] 0 = .error (.outOfRange what) := by
  intro t bytes
  refine (truncated_detected Serializable.zero (.withDefaultOptimizer .little .little) t).1 [1, 2]
    ⟨by decide, ?_⟩ _ (List.take_prefix 15 bytes) ?_ []
  · intro x hx
    trivial
  · intro heq
    have hlength := congrArg List.length heq
    exact absurd hlength (by decide)

end Serialization
end CoherentDB
