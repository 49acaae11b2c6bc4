import CoherentDB.Serialization.Integers

/-!
# Decoding undoes encoding

Decoding makes the calls that encoding made: one `get_char` for each `write_char` and
one `memcpy` of the same length for each `memcpy`.  `Replay` says what a decoder does
with the calls for a list of operations.  Each part of a codec replays its operations
(the size of a container, one element after the other, the memory of a whole
sequence), for every decoder, and the induction over the universe of types puts the
parts together.

`buffer_decoder` can replay all operations that were written into its buffer.
-/

namespace CoherentDB
namespace Serialization

open Debug ByteOrder Util

/-- What `buffer_encoder` makes of a value, starting with an empty buffer. -/
def bufferEncode (c : Codec) {α : Type} (t : Serializable α) (v : α) : List Byte :=
  (encode c t v).foldl bufferEncoder []

theorem bufferEncode_eq (c : Codec) {α : Type} (t : Serializable α) (v : α) :
    bufferEncode c t v = bytesOf (encode c t v) := by
  rw [bufferEncode, foldl_bufferEncoder, List.nil_append]

/-- All containers in a value have fewer than `2 ^ 32` elements. -/
def Serializable.Small : {α : Type} → Serializable α → α → Prop
  | _, .char, _ | _, .uint8, _ | _, .int _, _ | _, .noFields, _ => True
  | _, .string, s => s.length < 2 ^ 32
  | _, .vector t, s | _, .list t, s => s.length < 2 ^ 32 ∧ ∀ x ∈ s, t.Small x
  | _, .set t _, s => s.elems.length < 2 ^ 32 ∧ ∀ x ∈ s.elems, t.Small x
  | _, .pair first second, p => first.Small p.1 ∧ second.Small p.2
  | _, .fields first rest, p => first.Small p.1 ∧ rest.Small p.2

section Replay

variable {σ : Type}

/-- The calls for a list of operations, made one after the other in state `s`, give the bytes of
the operations and end in `r`. -/
inductive Replay (d : Decoder σ) : List Operation → σ → Except DecodeError σ → Prop
  | done {s : σ} : Replay d [] s (.ok s)
  | char {c : Byte} {operations : List Operation} {s s' : σ} {r : Except DecodeError σ}
      (hget : d.getChar s = .ok (c, s')) (hrest : Replay d operations s' r) :
      Replay d (.writeChar c :: operations) s r
  | copy {src : List Byte} {operations : List Operation} {s s' : σ} {r : Except DecodeError σ}
      (hcopy : d.memcpy src.length s = .ok (src, s')) (hrest : Replay d operations s' r) :
      Replay d (.memcpy src :: operations) s r
  | charFails {c : Byte} {operations : List Operation} {s : σ} {e : DecodeError}
      (hget : d.getChar s = .error e) : Replay d (.writeChar c :: operations) s (.error e)
  | copyFails {src : List Byte} {operations : List Operation} {s : σ} {e : DecodeError}
      (hcopy : d.memcpy src.length s = .error e) : Replay d (.memcpy src :: operations) s (.error e)

/-- A value together with the state that a replay ends in. -/
def withState {α : Type} (x : α) (r : Except DecodeError σ) : Except DecodeError (α × σ) :=
  r.map fun s => (x, s)

variable {α β : Type} {d : Decoder σ} {a b : List Operation} {s : σ} {r : Except DecodeError σ}

theorem Replay.append (h : Replay d (a ++ b) s r) :
    (∃ s', Replay d a s (.ok s') ∧ Replay d b s' r) ∨
      ∃ e, r = .error e ∧ Replay d a s (.error e) := by
  induction a generalizing s with
  | nil => exact Or.inl ⟨s, .done, h⟩
  | cons operation a ih =>
      cases h with
      | char hget hrest =>
          obtain ⟨s', ha, hb⟩ | ⟨e, hr, ha⟩ := ih hrest
          · exact Or.inl ⟨s', .char hget ha, hb⟩
          · exact Or.inr ⟨e, hr, .char hget ha⟩
      | copy hcopy hrest =>
          obtain ⟨s', ha, hb⟩ | ⟨e, hr, ha⟩ := ih hrest
          · exact Or.inl ⟨s', .copy hcopy ha, hb⟩
          · exact Or.inr ⟨e, hr, .copy hcopy ha⟩
      | charFails hget => exact Or.inr ⟨_, rfl, .charFails hget⟩
      | copyFails hcopy => exact Or.inr ⟨_, rfl, .copyFails hcopy⟩

/-- Two parts, each of which replays its own operations. -/
theorem Replay.bind {x : α} {y : β} {first : Except DecodeError (α × σ)}
    {second : α × σ → Except DecodeError (β × σ)} (h : Replay d (a ++ b) s r)
    (hfirst : ∀ q, Replay d a s q → first = withState x q)
    (hsecond : ∀ s', Replay d b s' r → second (x, s') = withState y r) :
    (first >>= second) = withState y r := by
  obtain ⟨s', ha, hb⟩ | ⟨e, rfl, ha⟩ := h.append
  · rw [hfirst _ ha]
    exact hsecond s' hb
  · rw [hfirst _ ha]
    rfl

end Replay

section Integrals

variable {α : Type}

/-- The image of a value has the size of its type and gives it back. -/
structure Integral.Lawful (integral : Integral α) : Prop where
  length : ∀ host x, (integral.image host x).length = integral.size
  value : ∀ host x, integral.value host (integral.image host x) = x

theorem Integral.byte_lawful : Integral.byte.Lawful :=
  ⟨fun _ _ => rfl, fun _ _ => rfl⟩

theorem Integral.int_lawful (k : IntType) : (Integral.int k).Lawful :=
  ⟨fun host x => length_image host x k.size, fun host x => value_image host x le_rfl⟩

theorem Serializable.integral?_lawful {t : Serializable α} {integral : Integral α}
    (h : t.integral? = some integral) : integral.Lawful := by
  cases t with
  | char | uint8 =>
      obtain rfl := Option.some.inj h
      exact Integral.byte_lawful
  | int k =>
      obtain rfl := Option.some.inj h
      exact Integral.int_lawful k
  | string | vector | list | set | pair | noFields | fields => cases h

theorem length_flatMap_image {integral : Integral α} (hlawful : integral.Lawful) (host : Endian)
    (v : List α) : (v.flatMap (integral.image host)).length = integral.size * v.length := by
  induction v with
  | nil => rfl
  | cons x v ih =>
      rw [List.flatMap_cons, List.length_append, hlawful.length, ih, List.length_cons, Nat.mul_succ]
      omega

theorem elementsOf_flatMap {integral : Integral α} (hlawful : integral.Lawful) (host : Endian)
    (v : List α) : elementsOf integral host v.length (v.flatMap (integral.image host)) = v := by
  induction v with
  | nil => rfl
  | cons x v ih =>
      rw [List.flatMap_cons, List.length_cons, elementsOf, List.take_left' (hlawful.length host x),
        List.drop_left' (hlawful.length host x), hlawful.value, ih]

end Integrals

section Parts

variable {σ α : Type} {d : Decoder σ} {s : σ} {r : Except DecodeError σ} (c : Codec)

theorem getChar_of_replay {x : Byte} (h : Replay d [.writeChar x] s r) :
    d.getChar s = withState x r := by
  cases h with
  | char hget hrest =>
      cases hrest
      exact hget
  | charFails hget => exact hget

theorem memcpy_of_replay {src : List Byte} {n : ℕ} (hn : n = src.length)
    (h : Replay d [.memcpy src] s r) : d.memcpy n s = withState src r := by
  subst hn
  cases h with
  | copy hcopy hrest =>
      cases hrest
      exact hcopy
  | copyFails hcopy => exact hcopy

/-- A loop over chars gives what it gives on a buffer with the same chars. -/
theorem littleEndianLoop_of_replay {w n i : ℕ} {x y : BitVec w} {chars : List Byte}
    (hbuffer : littleEndianLoop bufferDecoder w n i x chars = .ok (y, []))
    (h : Replay d (chars.map .writeChar) s r) :
    littleEndianLoop d w n i x s = withState y r := by
  induction n generalizing i x chars s with
  | zero =>
      cases hbuffer
      cases h
      rfl
  | succ n ih =>
      cases chars with
      | nil => cases hbuffer
      | cons char chars =>
          exact Replay.bind (a := [.writeChar char]) h (fun q hq => getChar_of_replay hq)
            fun s' hs' => ih hbuffer hs'

theorem bigEndianLoop_of_replay {w n : ℕ} {x y : BitVec w} {chars : List Byte}
    (hbuffer : bigEndianLoop bufferDecoder w n x chars = .ok (y, []))
    (h : Replay d (chars.map .writeChar) s r) :
    bigEndianLoop d w n x s = withState y r := by
  induction n generalizing x chars s with
  | zero =>
      cases hbuffer
      cases h
      rfl
  | succ n ih =>
      cases chars with
      | nil => cases hbuffer
      | cons char chars =>
          exact Replay.bind (a := [.writeChar char]) h (fun q hq => getChar_of_replay hq)
            fun s' hs' => ih hbuffer hs'

theorem decodeInt_encodeInt (rest : List Byte) (k : IntType) (x : k.Value) :
    decodeInt bufferDecoder c k (bytesOf (encodeInt c k x) ++ rest) = .ok (x, rest) := by
  have hlength : (image (c.orderOf k) x k.size).length = k.size := length_image _ x _
  rw [← toOption_eq_some, decodeInt_spec, bytesOf_encodeInt, List.take_left' hlength,
    List.drop_left' hlength, value_image _ x le_rfl, if_pos]
  rw [List.length_append, hlength]
  exact Nat.le_add_right _ _

/-- The integer codecs write chars only. -/
theorem intCodecEncode_chars (k : IntType) (x : k.Value) (order : Endian) :
    intCodecEncode k x order = (bytesOf (intCodecEncode k x order)).map .writeChar := by
  cases order with
  | little =>
      rw [intCodecEncode, littleEndianEncode, bytesOf_writeChars, List.map_map]
      rfl
  | big =>
      rw [intCodecEncode, bigEndianEncode, bytesOf_writeChars, List.map_map]
      rfl

theorem decodeInt_of_replay (k : IntType) (x : k.Value) (h : Replay d (encodeInt c k x) s r) :
    decodeInt d c k s = withState x r := by
  have hbuffer := decodeInt_encodeInt c [] k x
  rw [List.append_nil] at hbuffer
  unfold encodeInt at h hbuffer
  unfold decodeInt at hbuffer ⊢
  cases hcopies : c.copies? k with
  | some host =>
      simp only [hcopies] at h ⊢
      rw [memcpy_of_replay (length_image host x k.size).symm h]
      cases r with
      | error e => rfl
      | ok s' =>
          show Except.ok (value host _ (image host x k.size), s') = withState x (.ok s')
          rw [value_image host x le_rfl]
          rfl
  | none =>
      simp only [hcopies] at h hbuffer ⊢
      rw [intCodecEncode_chars] at h
      cases horder : c.order with
      | little =>
          rw [horder] at h hbuffer
          exact littleEndianLoop_of_replay hbuffer h
      | big =>
          rw [horder] at h hbuffer
          exact bigEndianLoop_of_replay hbuffer h

theorem decodeSize_of_replay {n : ℕ} (hn : n < 2 ^ 32) :
    ∃ x : IntType.uint32.Value, x.toNat = n ∧
      ∀ s r, Replay d (encodeSize c n) s r → decodeInt d c .uint32 s = withState x r :=
  ⟨BitVec.ofNat _ n, Nat.mod_eq_of_lt hn, fun _ _ h => decodeInt_of_replay c .uint32 _ h⟩

theorem length_resize (s : List α) (n : ℕ) (new : α) : (resize s n new).length = n := by
  rw [resize, List.length_append, List.length_take, List.length_replicate]
  omega

variable {enc : α → List Operation} {dec : α → σ → Except DecodeError (α × σ)}

theorem decodeEach_of_replay (v : List α)
    (hdec : ∀ x ∈ v, ∀ target s r, Replay d (enc x) s r → dec target s = withState x r)
    (targets : List α) (hlength : targets.length = v.length)
    (h : Replay d (v.flatMap enc) s r) : decodeEach dec targets s = withState v r := by
  induction v generalizing targets s with
  | nil =>
      rw [List.length_nil, List.length_eq_zero_iff] at hlength
      subst hlength
      cases h
      rfl
  | cons x v ih =>
      cases targets with
      | nil => cases hlength
      | cons target targets =>
          rw [List.flatMap_cons] at h
          refine h.bind (fun q hq => hdec x List.mem_cons_self target s q hq) fun s' hs' => ?_
          have hrest := ih (fun y hy => hdec y (List.mem_cons_of_mem x hy)) targets
            (Nat.succ.inj hlength) hs'
          simp only [hrest]
          cases r <;> rfl

theorem insertEach_of_replay {cmp : Comparator α} (new : α) (v : List α)
    (hdec : ∀ x ∈ v, ∀ target s r, Replay d (enc x) s r → dec target s = withState x r)
    (cont whole : SortedSet cmp) (hwhole : whole.elems = cont.elems ++ v)
    (h : Replay d (v.flatMap enc) s r) :
    insertEach new dec v.length cont s = withState whole r := by
  induction v generalizing cont s with
  | nil =>
      rw [List.append_nil] at hwhole
      rw [SortedSet.ext hwhole]
      cases h
      rfl
  | cons x v ih =>
      have hinsert : whole.elems = (cont.insert x).elems ++ v :=
        SortedSet.elems_insert_next hwhole
      rw [List.flatMap_cons] at h
      exact h.bind (fun q hq => hdec x List.mem_cons_self new s q hq) fun s' hs' =>
        ih (fun y hy => hdec y (List.mem_cons_of_mem x hy)) (cont.insert x) hinsert hs'

theorem standardSequenceDecode_of_replay {v : List α} (hsmall : v.length < 2 ^ 32)
    (hdec : ∀ x ∈ v, ∀ target s r, Replay d (enc x) s r → dec target s = withState x r)
    (new : α) (target : List α) (h : Replay d (standardSequenceEncode c enc v) s r) :
    standardSequenceDecode d c new dec target s = withState v r := by
  obtain ⟨x, hx, hsize⟩ := decodeSize_of_replay (d := d) c hsmall
  refine Replay.bind h (hsize s) fun s' hs' => ?_
  exact decodeEach_of_replay v hdec _ (by rw [hx]; exact length_resize target _ new) hs'

theorem uniqueContainerDecode_of_replay {cmp : Comparator α} {v : SortedSet cmp}
    (hsmall : v.elems.length < 2 ^ 32)
    (hdec : ∀ x ∈ v.elems, ∀ target s r, Replay d (enc x) s r → dec target s = withState x r)
    (new : α) (h : Replay d (standardSequenceEncode c enc v.elems) s r) :
    uniqueContainerDecode d c cmp new dec s = withState v r := by
  obtain ⟨x, hx, hsize⟩ := decodeSize_of_replay (d := d) c hsmall
  refine Replay.bind h (hsize s) fun s' hs' => ?_
  simp only [hx]
  exact insertEach_of_replay new v.elems hdec SortedSet.empty v rfl hs'

theorem sequenceOptimizerDecode_of_replay {integral : Integral α} (hlawful : integral.Lawful)
    (host : Endian) {v : List α} (hsmall : v.length < 2 ^ 32) (new : α) (target : List α)
    (h : Replay d (sequenceOptimizerEncode c integral host v) s r) :
    sequenceOptimizerDecode d c integral host new target s = withState v r := by
  obtain ⟨x, hx, hsize⟩ := decodeSize_of_replay (d := d) c hsmall
  refine Replay.bind h (hsize s) fun s' hs' => ?_
  have hlength : integral.size * (resize target x.toNat new).length =
      (v.flatMap (integral.image host)).length := by
    rw [length_resize, hx, length_flatMap_image hlawful]
  simp only [memcpy_of_replay hlength hs']
  cases r with
  | error e => rfl
  | ok s'' =>
      show Except.ok (elementsOf integral host (resize target x.toNat new).length
        (v.flatMap (integral.image host)), s'') = withState v (.ok s'')
      rw [length_resize, hx, elementsOf_flatMap hlawful]
      rfl

end Parts

/-- **Decoding replays encoding**, for every decoder: it returns the value where the decoder can
make all the calls, and fails with the first call that fails. -/
theorem decode_of_replay {σ : Type} {d : Decoder σ} (fresh : {α : Type} → Serializable α → α)
    (c : Codec) {α : Type} (t : Serializable α) (v : α) (hsmall : t.Small v) (target : α) (s : σ)
    (r : Except DecodeError σ) (h : Replay d (encode c t v) s r) :
    decode d fresh c t target s = withState v r := by
  induction t generalizing s r with
  | char | uint8 => exact getChar_of_replay h
  | int k => exact decodeInt_of_replay c k v h
  | string =>
      unfold encode at h
      unfold decode
      cases hhost : c.host? with
      | some host =>
          rw [hhost] at h
          exact sequenceOptimizerDecode_of_replay c Integral.byte_lawful host hsmall _ target h
      | none =>
          rw [hhost] at h
          exact standardSequenceDecode_of_replay c hsmall
            (fun _ _ _ _ _ hx => getChar_of_replay hx) _ target h
  | vector t ih =>
      -- A vector of anything but integers is read entry by entry, with both kinds of codec.
      have hplain (hreplay : Replay d (standardSequenceEncode c (encode c t) v) s r) :=
        standardSequenceDecode_of_replay c hsmall.1
          (fun x hx target s r => ih x (hsmall.2 x hx) target s r) (fresh t) target hreplay
      unfold encode at h
      unfold decode
      cases hhost : c.host? with
      | none =>
          rw [hhost] at h
          exact hplain h
      | some host =>
          rw [hhost] at h
          cases hintegral : t.integral? with
          | none =>
              rw [hintegral] at h
              exact hplain h
          | some integral =>
              rw [hintegral] at h
              exact sequenceOptimizerDecode_of_replay c
                (Serializable.integral?_lawful hintegral) host hsmall.1 _ target h
  | list t ih =>
      exact standardSequenceDecode_of_replay c hsmall.1
        (fun x hx target s r => ih x (hsmall.2 x hx) target s r) (fresh t) target h
  | set t cmp ih =>
      exact uniqueContainerDecode_of_replay c hsmall.1
        (fun x hx target s r => ih x (hsmall.2 x hx) target s r) (fresh t) h
  | pair first second ihfirst ihsecond | fields first second ihfirst ihsecond =>
      -- The second part starts where the first one has left the decoder.
      refine Replay.bind h (fun q hq => ihfirst v.1 hsmall.1 target.1 s q hq) fun s' hs' => ?_
      have hrest := ihsecond v.2 hsmall.2 target.2 s' r hs'
      simp only [hrest]
      cases r <;> rfl
  | noFields =>
      cases h
      rfl

/-- `buffer_decoder` replays what was written into its buffer. -/
theorem replay_bufferDecoder (operations : List Operation) (rest : List Byte) :
    Replay bufferDecoder operations (bytesOf operations ++ rest) (.ok rest) := by
  induction operations with
  | nil => exact .done
  | cons operation operations ih =>
      cases operation with
      | writeChar c => exact .char rfl ih
      | memcpy src =>
          have hcopy : bufferDecoder.memcpy src.length (src ++ bytesOf operations ++ rest) =
              .ok (src, bytesOf operations ++ rest) := by
            rw [List.append_assoc, bufferDecoder]
            dsimp only
            rw [if_neg (by rw [List.length_append]; omega), List.take_left, List.drop_left]
          exact .copy hcopy ih

/-- **Decoding undoes encoding**, for every type, every codec on every host, every target and
whatever follows in the buffer. -/
theorem decode_undoes_encode (fresh : {α : Type} → Serializable α → α) (c : Codec) {α : Type}
    (t : Serializable α) (v : α) (hsmall : t.Small v) (target : α) (rest : List Byte) :
    decode bufferDecoder fresh c t target (bufferEncode c t v ++ rest) = .ok (v, rest) := by
  rw [bufferEncode_eq]
  exact decode_of_replay fresh c t v hsmall target _ _ (replay_bufferDecoder (encode c t v) rest)

/-- The value-initialised object of a type. -/
def Serializable.zero : {α : Type} → Serializable α → α
  | _, .char | _, .uint8 => (0 : UInt8)
  | _, .int k => (0 : k.Value)
  | _, .string => ([] : List Byte)
  | _, .vector _ | _, .list _ => []
  | _, .set _ _ => SortedSet.empty
  | _, .pair first second => (first.zero, second.zero)
  | _, .noFields => ()
  | _, .fields first rest => (first.zero, rest.zero)

/-- A vector of pairs, written on a host of the other byte order over a longer vector. -/
theorem decode_undoes_encode_pairs :
    let t : Serializable (List (IntType.int64.Value × List Byte)) :=
      .vector (.pair (.int .int64) .string)
    decode bufferDecoder Serializable.zero (.withDefaultOptimizer .big .little) t
        [(1, []), (2, [])]
        (bufferEncode (.withDefaultOptimizer .big .little) t [(-2, [65, 66])] ++ [7]) =
      .ok ([(-2, [65, 66])], [7]) := by
  intro t
  refine decode_undoes_encode Serializable.zero _ t _ ⟨by decide, ?_⟩ _ _
  intro x hx
  rw [List.mem_singleton] at hx
  subst hx
  exact ⟨trivial, show 2 < 2 ^ 32 by decide⟩

end Serialization
end CoherentDB
