import CoherentDB.Serialization.FileDecoder
import CoherentDB.Serialization.FileEncoder
import CoherentDB.Serialization.RoundTrip

/-!
# Files

A sequence of values is written with `file_encoder` and read with `file_decoder`.

`file_decoder` can replay all operations, with one exception: a `memcpy` of no bytes
when nothing is left of the file.  An optimizing codec ends with such a call where the
last thing it writes is an empty string or an empty vector of integers.
-/

namespace CoherentDB
namespace Serialization

open Debug ByteOrder Util

section LastPart

/-- Whether the last operation is a copy of no bytes, where there is an operation. -/
def lastOperation (operations : List Operation) : Option Bool :=
  operations.getLast?.map fun operation => decide (operation = .memcpy [])

@[simp] theorem lastOperation_singleton (operation : Operation) :
    lastOperation [operation] = some (decide (operation = .memcpy [])) := rfl

theorem lastOperation_append (a b : List Operation) :
    lastOperation (a ++ b) = (lastOperation b).or (lastOperation a) := by
  rw [lastOperation, List.getLast?_append, Option.map_or]
  rfl

theorem lastOperation_cons (operation : Operation) (operations : List Operation) :
    lastOperation (operation :: operations) =
      some ((lastOperation operations).getD (decide (operation = .memcpy []))) := by
  have happend := lastOperation_append [operation] operations
  rw [List.singleton_append] at happend
  rw [happend]
  cases lastOperation operations <;> rfl

theorem lastOperation_flatMap.{u} {α : Type u} (f : α → List Operation) (l : List α) :
    lastOperation (l.flatMap f) = l.reverse.findSome? fun x => lastOperation (f x) := by
  induction l with
  | nil => rfl
  | cons x l ih =>
      rw [List.flatMap_cons, lastOperation_append, ih, List.reverse_cons, List.findSome?_append]
      congr 1
      cases h : lastOperation (f x) <;> simp [h]

/-- Whether the last thing a codec writes for a value is the empty memory of a string or a vector
of integers; `none` where it writes nothing. -/
def lastPart (c : Codec) : {α : Type} → Serializable α → α → Option Bool
  | _, .char, _ | _, .uint8, _ | _, .int _, _ => some false
  | _, .string, s => some (c.host?.isSome && s.isEmpty)
  | _, .vector t, s =>
      match c.host?, t.integral? with
      | some _, some _ => some s.isEmpty
      | _, _ => some ((s.reverse.findSome? (lastPart c t)).getD false)
  | _, .list t, s => some ((s.reverse.findSome? (lastPart c t)).getD false)
  | _, .set t _, s => some ((s.elems.reverse.findSome? (lastPart c t)).getD false)
  | _, .pair first second, p => (lastPart c second p.2).or (lastPart c first p.1)
  | _, .noFields, _ => none
  | _, .fields first rest, p => (lastPart c rest p.2).or (lastPart c first p.1)

variable {α : Type} (c : Codec)

theorem lastOperation_chars {chars : List Byte} (h : chars ≠ []) :
    lastOperation (chars.map .writeChar) = some false := by
  rw [lastOperation, List.getLast?_map, List.getLast?_eq_some_getLast h]
  rfl

theorem size_pos (k : IntType) : 0 < k.size := by
  cases k <;> decide

theorem lastOperation_encodeInt (k : IntType) (x : k.Value) :
    lastOperation (encodeInt c k x) = some false := by
  have hbytes : bytesOf (encodeInt c k x) ≠ [] := by
    rw [bytesOf_encodeInt, ← List.length_pos_iff, length_image]
    exact size_pos k
  unfold encodeInt at hbytes ⊢
  cases hcopies : c.copies? k with
  | some host =>
      rw [hcopies] at hbytes
      have himage : image host x k.size ≠ [] := by
        intro hnil
        dsimp only at hbytes
        rw [hnil] at hbytes
        exact hbytes rfl
      simp [himage]
  | none =>
      rw [hcopies] at hbytes
      dsimp only at hbytes ⊢
      rw [intCodecEncode_chars]
      exact lastOperation_chars hbytes

theorem lastOperation_standardSequenceEncode {enc : α → List Operation} (v : List α) :
    lastOperation (standardSequenceEncode c enc v) =
      some ((v.reverse.findSome? fun x => lastOperation (enc x)).getD false) := by
  rw [standardSequenceEncode, lastOperation_append, lastOperation_flatMap, encodeSize,
    lastOperation_encodeInt]
  cases List.findSome? _ _ <;> rfl

theorem lastOperation_sequenceOptimizerEncode {integral : Integral α} (hlawful : integral.Lawful)
    (hsize : 0 < integral.size) (host : Endian) (v : List α) :
    lastOperation (sequenceOptimizerEncode c integral host v) = some v.isEmpty := by
  have hempty : v.flatMap (integral.image host) = [] ↔ v = [] := by
    rw [← List.length_eq_zero_iff, length_flatMap_image hlawful, Nat.mul_eq_zero,
      List.length_eq_zero_iff]
    exact or_iff_right hsize.ne'
  rw [sequenceOptimizerEncode, lastOperation_append, lastOperation_singleton, Option.some_or]
  simp only [Operation.memcpy.injEq, hempty]
  cases v <;> rfl

theorem Serializable.integral?_size_pos {t : Serializable α} {integral : Integral α}
    (h : t.integral? = some integral) : 0 < integral.size := by
  cases t with
  | char | uint8 =>
      obtain rfl := Option.some.inj h
      exact Nat.one_pos
  | int k =>
      obtain rfl := Option.some.inj h
      exact size_pos k
  | string | vector | list | set | pair | noFields | fields => cases h

/-- `lastPart` tells the last operation. -/
theorem lastOperation_encode (t : Serializable α) (v : α) :
    lastOperation (encode c t v) = lastPart c t v := by
  induction t with
  | char | uint8 => rfl
  | int k => exact lastOperation_encodeInt c k v
  | string =>
      unfold encode lastPart
      cases c.host? with
      | some host =>
          exact lastOperation_sequenceOptimizerEncode c Integral.byte_lawful Nat.one_pos host v
      | none =>
          show lastOperation (standardSequenceEncode c _ v) = some false
          rw [lastOperation_standardSequenceEncode]
          cases hlast : List.findSome? _ _ with
          | none => rfl
          | some b =>
              obtain ⟨x, -, hx⟩ := List.exists_of_findSome?_eq_some hlast
              exact hx.symm
  | vector t ih =>
      have hplain : lastOperation (standardSequenceEncode c (encode c t) v) =
          some ((v.reverse.findSome? (lastPart c t)).getD false) := by
        simp only [lastOperation_standardSequenceEncode, ih]
      unfold encode lastPart
      cases c.host? with
      | none => exact hplain
      | some host =>
          cases hintegral : t.integral? with
          | none => exact hplain
          | some integral =>
              exact lastOperation_sequenceOptimizerEncode c
                (Serializable.integral?_lawful hintegral)
                (Serializable.integral?_size_pos hintegral) host v
  | list t ih =>
      unfold encode lastPart
      simp only [lastOperation_standardSequenceEncode, ih]
  | set t cmp ih =>
      unfold encode lastPart
      simp only [lastOperation_standardSequenceEncode, ih]
  | pair first second ihfirst ihsecond | fields first second ihfirst ihsecond =>
      unfold encode lastPart
      rw [lastOperation_append, ihfirst, ihsecond]
  | noFields => rfl

end LastPart

section FileDecoder

theorem Operation.eq_of_no_bytes {operation : Operation} (h : operation.bytes = []) :
    operation = .memcpy [] := by
  cases operation with
  | writeChar c => cases h
  | memcpy src => exact congrArg Operation.memcpy h

/-- Operations without any bytes are copies of none. -/
theorem lastOperation_of_no_bytes {operations : List Operation} (hsome : operations ≠ [])
    (hbytes : bytesOf operations = []) : lastOperation operations = some true := by
  have hlast := List.flatMap_eq_nil_iff.mp hbytes _ (List.getLast_mem hsome)
  rw [lastOperation, List.getLast?_eq_some_getLast hsome, Operation.eq_of_no_bytes hlast]
  rfl

/-- `file_decoder` replays what the file begins with, unless it ends there with a copy of no
bytes. -/
theorem replay_fileDecoder {operations : List Operation} {rest : List Byte} {s : FileDecoder}
    (hleft : s.left = bytesOf operations ++ rest)
    (hend : rest ≠ [] ∨ lastOperation operations ≠ some true) :
    ∃ s', Replay fileDecoder operations s (.ok s') ∧ s'.left = rest := by
  induction operations generalizing s with
  | nil => exact ⟨s, .done, hleft⟩
  | cons operation operations ih =>
      have hlater : rest ≠ [] ∨ lastOperation operations ≠ some true := by
        refine hend.imp_right fun hlast hnone => hlast ?_
        rw [lastOperation_cons, hnone]
        rfl
      -- Something is left, if only by a later operation.
      have hsome : s.left ≠ [] := by
        intro hnil
        rw [hleft, List.append_eq_nil_iff] at hnil
        have hlast := lastOperation_of_no_bytes (List.cons_ne_nil operation operations) hnil.1
        exact hend.elim (absurd hnil.2) (absurd hlast)
      cases operation with
      | writeChar char =>
          obtain ⟨s₁, hget, hleft₁⟩ := FileDecoder.getChar_of_left hleft
          obtain ⟨s₂, hreplay, hleft₂⟩ := ih hleft₁ hlater
          exact ⟨s₂, .char hget hreplay, hleft₂⟩
      | memcpy src =>
          have hsplit : s.left = src ++ (bytesOf operations ++ rest) := by
            rw [hleft, ← List.append_assoc]
            rfl
          obtain ⟨s₁, hcopy, hleft₁⟩ := FileDecoder.memcpy_of_left hsplit hsome
          obtain ⟨s₂, hreplay, hleft₂⟩ := ih hleft₁ hlater
          exact ⟨s₂, .copy hcopy hreplay, hleft₂⟩

/-- At the end of the file a copy of no bytes throws. -/
theorem replay_fileDecoder_end {operations : List Operation} {s : FileDecoder}
    (hleft : s.left = bytesOf operations) (hlast : lastOperation operations = some true) :
    Replay fileDecoder operations s (.error (.runtimeError "read error")) := by
  induction operations generalizing s with
  | nil => cases hlast
  | cons operation operations ih =>
      have hsplit : s.left = operation.bytes ++ bytesOf operations := hleft
      by_cases hnil : s.left = []
      · rw [hsplit, List.append_eq_nil_iff] at hnil
        rw [Operation.eq_of_no_bytes hnil.1]
        refine .copyFails (FileDecoder.memcpy_at_end _ ?_)
        rw [hsplit, hnil.1, hnil.2]
        rfl
      · have hmore : operations ≠ [] := by
          rintro rfl
          rw [lastOperation_singleton, Option.some_inj, decide_eq_true_eq] at hlast
          rw [hsplit, hlast] at hnil
          exact hnil rfl
        have hlater : lastOperation operations = some true := by
          rw [lastOperation_cons] at hlast
          rw [lastOperation, List.getLast?_eq_some_getLast hmore] at hlast ⊢
          exact hlast
        cases operation with
        | writeChar char =>
            obtain ⟨s₁, hget, hleft₁⟩ := FileDecoder.getChar_of_left hsplit
            exact .char hget (ih hleft₁ hlater)
        | memcpy src =>
            obtain ⟨s₁, hcopy, hleft₁⟩ := FileDecoder.memcpy_of_left hsplit hnil
            exact .copy hcopy (ih hleft₁ hlater)

end FileDecoder

/-- A variable of the writing program and the one of the same type that the reading program
decodes into. -/
structure Item where
  {α : Type}
  type : Serializable α
  value : α
  target : α

namespace Item

/-- The variable holds what was written. -/
def filled (item : Item) : Item := { item with target := item.value }

/-- Encode one value after the other. -/
def encodeAll (c : Codec) (items : List Item) : List Operation :=
  items.flatMap fun item => encode c item.type item.value

/-- Decode one value after the other, up to the first exception. -/
def decodeAll {σ : Type} (d : Decoder σ) (fresh : {α : Type} → Serializable α → α) (c : Codec) :
    List Item → σ → Except DecodeError (List Item × σ)
  | [], s => .ok ([], s)
  | item :: rest, s =>
      match decode d fresh c item.type item.target s with
      | .error e => .error e
      | .ok (x, s) =>
          match decodeAll d fresh c rest s with
          | .error e => .error e
          | .ok (rest', s) => .ok ({ item with target := x } :: rest', s)

/-- Whether the last thing that is written for the items is the empty memory of a string or a
vector of integers. -/
def lastPart (c : Codec) (items : List Item) : Option Bool :=
  items.reverse.findSome? fun item => Serialization.lastPart c item.type item.value

theorem lastOperation_encodeAll (c : Codec) (items : List Item) :
    lastOperation (encodeAll c items) = lastPart c items := by
  rw [encodeAll, lastOperation_flatMap, lastPart]
  simp only [lastOperation_encode]

theorem decodeAll_of_replay {σ : Type} {d : Decoder σ} (fresh : {α : Type} → Serializable α → α)
    (c : Codec) {items : List Item} (hsmall : ∀ item ∈ items, item.type.Small item.value) {s : σ}
    {r : Except DecodeError σ} (h : Replay d (encodeAll c items) s r) :
    decodeAll d fresh c items s = r.map fun s' => (items.map filled, s') := by
  induction items generalizing s with
  | nil =>
      cases h
      rfl
  | cons item items ih =>
      have hitem (q : Except DecodeError σ) (hq : Replay d (encode c item.type item.value) s q) :=
        decode_of_replay fresh c item.type item.value (hsmall item List.mem_cons_self) item.target
          s q hq
      rw [encodeAll, List.flatMap_cons] at h
      obtain ⟨s', hfirst, hrest⟩ | ⟨e, rfl, hfirst⟩ := h.append
      · have hothers := ih (fun other hother => hsmall other (List.mem_cons_of_mem item hother)) hrest
        rw [decodeAll, hitem _ hfirst]
        simp only [withState, Except.map, hothers]
        cases r <;> rfl
      · rw [decodeAll, hitem _ hfirst]
        rfl

/-- Encode the items with a new `file_encoder` and destroy it; every `write(2)` is complete. -/
def encodeFile (c : Codec) (bufferSize : ℕ) (positive : 0 < bufferSize) (items : List Item) :
    Outcome FileEncoder :=
  ((FileEncoder.new bufferSize positive).performAll FileEncoder.alwaysComplete
    (encodeAll c items)).andThen (FileEncoder.destroy FileEncoder.alwaysComplete)

theorem encodeFile_spec (c : Codec) (bufferSize : ℕ) (positive : 0 < bufferSize)
    (items : List Item) :
    ∃ e, encodeFile c bufferSize positive items = .returned e ∧
      e.descriptor = bytesOf (encodeAll c items) := by
  obtain ⟨e₁, hall, hcontent₁⟩ :=
    (FileEncoder.new bufferSize positive).performAll_complete (encodeAll c items)
  obtain ⟨e₂, hflush, hcontent₂, hbuffer⟩ := e₁.flush_complete
  refine ⟨e₂, ?_, ?_⟩
  · rw [encodeFile, hall]
    exact hflush
  · rw [FileEncoder.content, hbuffer, List.append_nil] at hcontent₂
    rw [hcontent₂, hcontent₁]
    rfl

/-- The file is written without an exception and read back into the variables of the reading
program, without an exception and up to its end. -/
def RoundTrips (fresh : {α : Type} → Serializable α → α) (c : Codec) (items : List Item)
    (written : Outcome FileEncoder) (reader : FileDecoder) : Prop :=
  (∃ e, written = .returned e) ∧
    ∃ s, decodeAll fileDecoder fresh c items reader = .ok (items.map filled, s) ∧ s.left = []

section File

variable (fresh : {α : Type} → Serializable α → α) (c : Codec) {items : List Item}
  (hsmall : ∀ item ∈ items, item.type.Small item.value) {reader : FileDecoder}

include hsmall

theorem decodeAll_file (hleft : reader.left = bytesOf (encodeAll c items))
    (hlast : lastPart c items ≠ some true) :
    ∃ s, decodeAll fileDecoder fresh c items reader = .ok (items.map filled, s) ∧ s.left = [] := by
  rw [← lastOperation_encodeAll] at hlast
  rw [← List.append_nil (bytesOf _)] at hleft
  obtain ⟨s, hreplay, hend⟩ := replay_fileDecoder hleft (Or.inr hlast)
  exact ⟨s, decodeAll_of_replay fresh c hsmall hreplay, hend⟩

theorem decodeAll_file_throws (hleft : reader.left = bytesOf (encodeAll c items))
    (hlast : lastPart c items = some true) :
    decodeAll fileDecoder fresh c items reader = .error (.runtimeError "read error") := by
  rw [← lastOperation_encodeAll] at hlast
  exact decodeAll_of_replay fresh c hsmall (replay_fileDecoder_end hleft hlast)

end File

/-- **A file gives back what was written to it**, for every sequence of values, every codec, all
buffer sizes and however `read(2)` splits the file, exactly where the last thing written is not
the empty memory of a string or a vector of integers. -/
theorem file_round_trip (fresh : {α : Type} → Serializable α → α) (c : Codec) (items : List Item)
    (hsmall : ∀ item ∈ items, item.type.Small item.value) (encoderSize decoderSize pos : ℕ)
    (positive : 0 < encoderSize) (pieces : List (List Byte))
    (fit : ∀ piece ∈ pieces, 0 < piece.length ∧ piece.length ≤ decoderSize)
    (hpieces : pieces.flatten = (encodeFile c encoderSize positive items).state.descriptor) :
    RoundTrips fresh c items (encodeFile c encoderSize positive items)
        (.new decoderSize pos pieces fit) ↔
      lastPart c items ≠ some true := by
  obtain ⟨e, hwritten, hdescriptor⟩ := encodeFile_spec c encoderSize positive items
  have hleft : (FileDecoder.new decoderSize pos pieces fit).left = bytesOf (encodeAll c items) := by
    rw [FileDecoder.left_new, hpieces, hwritten]
    exact hdescriptor
  constructor
  · rintro ⟨-, s, hdecoded, -⟩ hlast
    rw [decodeAll_file_throws fresh c hsmall hleft hlast] at hdecoded
    cases hdecoded
  · intro hlast
    exact ⟨⟨e, hwritten⟩, decodeAll_file fresh c hsmall hleft hlast⟩

/-- A number and a string, written through three bytes and read in pieces of one to four. -/
theorem file_round_trip_pieces :
    let items : List Item := [⟨.int .uint16, 0x0201, 7⟩, ⟨.string, [65], [66, 67]⟩]
    let written := encodeFile (.plain .little) 3 (by decide) items
    written.state.descriptor = [1, 2, 1, 0, 0, 0, 65] ∧
      RoundTrips Serializable.zero (.plain .little) items written
        (.new 4 9 [[1], [2, 1, 0, 0], [0, 65]] (by decide)) := by
  intro items written
  have hsmall : ∀ item ∈ items, item.type.Small item.value := by
    intro item hitem
    rw [List.mem_cons, List.mem_singleton] at hitem
    obtain rfl | rfl := hitem
    · trivial
    · show 1 < 2 ^ 32
      decide
  exact ⟨rfl, (file_round_trip Serializable.zero (.plain .little) items hsmall 3 4 9 (by decide)
    [[1], [2, 1, 0, 0], [0, 65]] (by decide) rfl).mpr (by decide)⟩

/-- An empty string at the end of a file: its size is read, and then `memcpy` of no bytes asks
`read(2)` for more. -/
theorem empty_string_at_end :
    let items : List Item := [⟨.string, [], [66]⟩]
    let codec : Codec := .withDefaultOptimizer .little .little
    let written := encodeFile codec 4096 (by decide) items
    let reader : FileDecoder := .new 4096 0 [[0, 0, 0, 0]] (by decide)
    written.state.descriptor = [0, 0, 0, 0] ∧
      decodeAll fileDecoder Serializable.zero codec items reader =
        .error (.runtimeError "read error") ∧
      ¬ RoundTrips Serializable.zero codec items written reader := by
  intro items codec written reader
  obtain ⟨e, hwritten, hdescriptor⟩ := encodeFile_spec codec 4096 (by decide) items
  have hthrows : decodeAll fileDecoder Serializable.zero codec items reader =
      .error (.runtimeError "read error") := by
    refine decodeAll_file_throws Serializable.zero codec ?_ rfl rfl
    intro item hitem
    rw [List.mem_singleton] at hitem
    subst hitem
    show 0 < 2 ^ 32
    decide
  refine ⟨?_, hthrows, ?_⟩
  · show written.state.descriptor = bytesOf (encodeAll codec items)
    rw [← hdescriptor]
    exact congrArg (fun o : Outcome FileEncoder => o.state.descriptor) hwritten
  · rintro ⟨-, s, hdecoded, -⟩
    rw [hthrows] at hdecoded
    cases hdecoded

end Item

end Serialization
end CoherentDB
