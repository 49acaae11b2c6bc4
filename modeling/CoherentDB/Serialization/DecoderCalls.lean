import CoherentDB.Serialization.FileDecoder

/-!
# `file_decoder` over sequences of calls

Here a call of `get_char` or `memcpy` gives what it returns or throws, and the object that
it leaves, also where it throws.  `advance` makes the buffer as large as it may be before
it calls `read(2)`, and cuts it to what was read afterwards.  Where it throws it has not
cut it, and `pos_` is still where the last piece ended.  So the next call may find bytes
behind `pos_` that were never read.

`delivers_stream_iff` says for which sequences of calls the decoder delivers its stream:
those without a call after the first one that throws, and those in which that call needs
more bytes than the buffer has behind the last piece.
-/

namespace CoherentDB
namespace Serialization

open Debug Util

/-- A call with what it needs; a `memcpy` is of a byte at least. -/
inductive DecoderCall
  | getChar
  | memcpy (n : ℕ) (positive : 0 < n)
  deriving DecidableEq

/-- The bytes that a call needs. -/
def DecoderCall.needs : DecoderCall → ℕ
  | .getChar => 1
  | .memcpy n _ => n

/-- What a call returns or throws. -/
abbrev Delivered := Except DecodeError (List Byte)

/-- `std::runtime_error("read error")`. -/
def readError : Delivered := .error (.runtimeError "read error")

namespace FileDecoder

/-- What `advance` leaves where `read(2)` returns 0: the buffer with its new size. -/
def afterEnd (s : FileDecoder) : FileDecoder :=
  { s with
    buffer := s.buffer.take s.bufferSize ++ List.replicate (s.bufferSize - s.buffer.length) 0 }

/-- `get_char`, with the object that it leaves. -/
def getCharCall (s : FileDecoder) : Delivered × FileDecoder :=
  match s.ready with
  | .error e => (.error e, s.afterEnd)
  | .ok s' => (.ok [s'.buffer.getD s'.pos 0], { s' with pos := s'.pos + 1 })

/-- `memcpy` round by round, with the object that it leaves. -/
def memcpyCall (n : ℕ) (s : FileDecoder) : Delivered × FileDecoder :=
  match hready : s.ready with
  | .error e => (.error e, s.afterEnd)
  | .ok s' =>
      let toRead := min n (s'.buffer.length - s'.pos)
      let piece := (s'.buffer.drop s'.pos).take toRead
      let s'' := { s' with pos := s'.pos + toRead }
      if hdone : n - toRead = 0 then (.ok piece, s'')
      else
        have hless : n - toRead < n := by
          have hroom := ready_room hready
          omega
        ((memcpyCall (n - toRead) s'').1.map (piece ++ ·), (memcpyCall (n - toRead) s'').2)
termination_by n
decreasing_by all_goals exact hless

def call (s : FileDecoder) : DecoderCall → Delivered × FileDecoder
  | .getChar => s.getCharCall
  | .memcpy n _ => s.memcpyCall n

/-- What a sequence of calls returns and throws. -/
def callAll : FileDecoder → List DecoderCall → List Delivered
  | _, [] => []
  | s, c :: calls => (s.call c).1 :: (s.call c).2.callAll calls

end FileDecoder

/-- What the calls deliver of a stream: each the next bytes that it needs, or an exception where
fewer remain; after one nothing remains. -/
def deliverAll : List Byte → List DecoderCall → List Delivered
  | _, [] => []
  | stream, c :: calls =>
      if c.needs ≤ stream.length then
        .ok (stream.take c.needs) :: deliverAll (stream.drop c.needs) calls
      else readError :: deliverAll [] calls

/-- The calls after the first one for which too few of `left` bytes remain. -/
def callsAfterEnd : ℕ → List DecoderCall → List DecoderCall
  | _, [] => []
  | left, c :: calls =>
      if c.needs ≤ left then callsAfterEnd (left - c.needs) calls else calls

namespace FileDecoder

/-- The bytes of the buffer were read, and those in front of `pos_` were given out; before the first
piece `pos_` is what the memory has. -/
def Live (s : FileDecoder) : Prop := s.buffer = [] ∨ s.pos ≤ s.buffer.length

/-- Where `pos_` is when all bytes were given out: at the end of the last piece. -/
def endPos (s : FileDecoder) : ℕ :=
  match s.pieces.getLast? with
  | some piece => piece.length
  | none => if s.buffer = [] then s.pos else s.buffer.length

/-- `read(2)` has returned 0, and `pos_` is at `p`. -/
structure Spent (s : FileDecoder) (p : ℕ) : Prop where
  pieces : s.pieces = []
  buffer : s.buffer.length = s.bufferSize
  pos : s.pos = p

section Rounds

variable {s s' : FileDecoder} {n p : ℕ}

theorem memcpyCall_eq (n : ℕ) (hready : s.ready = .ok s') :
    s.memcpyCall n =
      let toRead := min n (s'.buffer.length - s'.pos)
      let piece := (s'.buffer.drop s'.pos).take toRead
      let s'' := { s' with pos := s'.pos + toRead }
      if n - toRead = 0 then (.ok piece, s'')
      else ((s''.memcpyCall (n - toRead)).1.map (piece ++ ·), (s''.memcpyCall (n - toRead)).2) := by
  rw [memcpyCall]
  split
  · next herror =>
    rw [herror] at hready
    cases hready
  · next hok =>
    rw [hok] at hready
    cases hready
    simp only [dite_eq_ite]

theorem memcpyCall_of_error {e : DecodeError} (n : ℕ) (hready : s.ready = .error e) :
    s.memcpyCall n = (.error e, s.afterEnd) := by
  rw [memcpyCall]
  split
  · next herror =>
    rw [herror] at hready
    rw [Except.error.inj hready]
  · next hok =>
    rw [hok] at hready
    cases hready

/-- `get_char` is a `memcpy` of one byte. -/
theorem getCharCall_eq (s : FileDecoder) : s.getCharCall = s.memcpyCall 1 := by
  cases hready : s.ready with
  | error e => rw [getCharCall, hready, memcpyCall_of_error 1 hready]
  | ok s' =>
      have hroom := ready_room hready
      have hone : min 1 (s'.buffer.length - s'.pos) = 1 := by omega
      rw [getCharCall, hready, memcpyCall_eq 1 hready]
      simp only [hone, Nat.sub_self, if_true]
      rw [List.drop_eq_getElem_cons hroom, List.take_succ_cons, List.take_zero,
        List.getD_eq_getElem?_getD, List.getElem?_eq_getElem hroom]
      rfl

/-- Without the object that an exception leaves, `memcpyCall` is `memcpy`. -/
theorem memcpy_eq_memcpyCall (n : ℕ) (s : FileDecoder) :
    s.memcpy n = (s.memcpyCall n).1.map fun bytes => (bytes, (s.memcpyCall n).2) := by
  induction n using Nat.strong_induction_on generalizing s with
  | _ n ih =>
    cases hready : s.ready with
    | error e =>
        rw [memcpyCall_of_error n hready, memcpy_of_error n hready]
        rfl
    | ok s' =>
        have hroom := ready_room hready
        rw [memcpy_eq n hready, memcpyCall_eq n hready]
        simp only
        split_ifs with hdone
        · rfl
        · rw [ih _ (by omega)]
          cases (memcpyCall (n - min n (s'.buffer.length - s'.pos)) _).1 with
          | error e => rfl
          | ok bytes => rfl

theorem call_eq (s : FileDecoder) (c : DecoderCall) : s.call c = s.memcpyCall c.needs := by
  cases c with
  | getChar => exact s.getCharCall_eq
  | memcpy n positive => rfl

theorem length_afterEnd (s : FileDecoder) : s.afterEnd.buffer.length = s.bufferSize := by
  show (s.buffer.take s.bufferSize ++ List.replicate _ _).length = _
  rw [List.length_append, List.length_take, List.length_replicate]
  omega

/-- A buffer with bytes that were not given out, and what does not change on the way there. -/
theorem ready_of_left_ne_nil (hsome : s.left ≠ []) :
    ∃ s', s.ready = .ok s' ∧ s'.left = s.left ∧ s'.endPos = s.endPos ∧
      s'.bufferSize = s.bufferSize := by
  obtain ⟨s', hready, hleft⟩ := ready_of_left hsome
  refine ⟨s', hready, hleft, ?_⟩
  unfold ready at hready
  split_ifs at hready with hused
  · unfold advance at hready
    split at hready
    · cases hready
    · next piece rest hpieces =>
      have hpiece : piece ≠ [] :=
        List.ne_nil_of_length_pos (s.fit piece (hpieces ▸ List.mem_cons_self)).1
      have hend : s.endPos = (rest.getLast?.getD piece).length := by
        rw [endPos, hpieces, List.getLast?_cons]
      cases hready
      refine ⟨?_, rfl⟩
      rw [hend]
      simp only [endPos]
      cases rest.getLast? with
      | none => exact if_neg hpiece
      | some last => rfl
  · cases hready
    exact ⟨rfl, rfl⟩

/-- **One round of `memcpy`** while bytes are left: it gives out the next of them. -/
theorem round_of_left (hsome : s.left ≠ []) (hn : 0 < n) :
    ∃ s' toRead, s.ready = .ok s' ∧ min n (s'.buffer.length - s'.pos) = toRead ∧
      0 < toRead ∧ toRead ≤ s.left.length ∧
      (s'.buffer.drop s'.pos).take toRead = s.left.take toRead ∧
      Live { s' with pos := s'.pos + toRead } ∧
      left { s' with pos := s'.pos + toRead } = s.left.drop toRead ∧
      endPos { s' with pos := s'.pos + toRead } = s.endPos ∧ s'.bufferSize = s.bufferSize := by
  obtain ⟨s', hready, hleft, hend, hsize⟩ := ready_of_left_ne_nil hsome
  have hroom := ready_room hready
  generalize htoRead : min n (s'.buffer.length - s'.pos) = toRead
  have hinside : toRead ≤ (s'.buffer.drop s'.pos).length := by
    rw [List.length_drop]
    omega
  rw [← hleft, ← hend]
  refine ⟨s', toRead, hready, htoRead, by omega, ?_, ?_, ?_, ?_, ?_, hsize⟩
  · rw [left, List.length_append]
    omega
  · rw [left, List.take_append_of_le_length hinside]
  · refine Or.inr ?_
    show s'.pos + toRead ≤ s'.buffer.length
    omega
  · rw [left, left, List.drop_append_of_le_length hinside, List.drop_drop]
  · have hbuffer : s'.buffer ≠ [] := by
      rintro hnil
      rw [hnil, List.length_nil] at hroom
      omega
    simp only [endPos, if_neg hbuffer]

/-- At the end of the file, with all bytes given out. -/
theorem Live.at_end (h : s.Live) (hleft : s.left = []) (n : ℕ) :
    ∃ s', s.memcpyCall n = (readError, s') ∧ s'.Spent s.endPos ∧ s'.bufferSize = s.bufferSize := by
  obtain ⟨hused, hpieces⟩ := used_up hleft
  refine ⟨s.afterEnd, memcpyCall_of_error n (ready_at_end hleft),
    ⟨hpieces, s.length_afterEnd, ?_⟩, rfl⟩
  show s.pos = s.endPos
  rw [endPos, hpieces]
  simp only [List.getLast?_nil]
  split_ifs with hbuffer
  · rfl
  · exact le_antisymm (h.resolve_left hbuffer) hused

/-- **A `memcpy` while bytes are left.** -/
theorem Live.memcpyCall_spec (h : s.Live) (hn : 0 < n) :
    (n ≤ s.left.length → ∃ s', s.memcpyCall n = (.ok (s.left.take n), s') ∧ s'.Live ∧
        s'.left = s.left.drop n ∧ s'.endPos = s.endPos ∧ s'.bufferSize = s.bufferSize) ∧
      (s.left.length < n → ∃ s', s.memcpyCall n = (readError, s') ∧ s'.Spent s.endPos ∧
        s'.bufferSize = s.bufferSize) := by
  induction n using Nat.strong_induction_on generalizing s with
  | _ n ih =>
    by_cases hleft : s.left = []
    · refine ⟨fun hle => ?_, fun _ => h.at_end hleft n⟩
      rw [hleft, List.length_nil] at hle
      omega
    obtain ⟨s', toRead, hready, htoRead, hpos, hle, hpiece, hlive, hafter, hend, hsize⟩ :=
      round_of_left hleft hn
    rw [memcpyCall_eq n hready]
    simp only [htoRead, hpiece]
    have hlength : (s.left.drop toRead).length = s.left.length - toRead := List.length_drop
    split_ifs with hdone
    · have hall : toRead = n := by omega
      subst hall
      exact ⟨fun _ => ⟨_, rfl, hlive, hafter, hend, hsize⟩, fun hlt => by omega⟩
    · have hsum : toRead + (n - toRead) = n := by omega
      obtain ⟨henough, hshort⟩ := ih (n - toRead) (by omega) hlive (by omega)
      rw [hafter, hlength, hend] at henough hshort
      refine ⟨fun hn => ?_, fun hn => ?_⟩
      · obtain ⟨s'', hcopy, hlive', hleft', hend', hsize'⟩ := henough (Nat.sub_le_sub_right hn toRead)
        refine ⟨s'', ?_, hlive', ?_, hend', hsize'.trans hsize⟩
        · rw [hcopy]
          simp only [Except.map]
          rw [← List.take_add, hsum]
        · rw [hleft', List.drop_drop, hsum]
      · obtain ⟨s'', hcopy, hspent, hsize'⟩ := hshort (Nat.sub_lt_sub_right hle hn)
        refine ⟨s'', ?_, hspent, hsize'.trans hsize⟩
        rw [hcopy]
        rfl

/-- **A `memcpy` after the end of the file** throws where the buffer has no room for it behind
`pos_`; else it gives out bytes that were never read. -/
theorem Spent.memcpyCall_spec (h : s.Spent p) (hn : 0 < n) :
    (s.bufferSize < p + n → ∃ s' p', s.memcpyCall n = (readError, s') ∧ s'.Spent p' ∧
        s'.bufferSize = s.bufferSize ∧ s.bufferSize ≤ p') ∧
      (p + n ≤ s.bufferSize → ∃ bytes s', s.memcpyCall n = (.ok bytes, s')) := by
  have hleft : ∀ s : FileDecoder, s.pieces = [] → s.buffer.length ≤ s.pos → s.left = [] := by
    intro s hpieces hused
    rw [left, hpieces, List.drop_eq_nil_of_le hused]
    rfl
  by_cases hend : s.bufferSize ≤ p
  · have hused : s.buffer.length ≤ s.pos := by
      rw [h.buffer, h.pos]
      exact hend
    refine ⟨fun _ => ⟨s.afterEnd, p, ?_, ⟨h.pieces, s.length_afterEnd, h.pos⟩, rfl, hend⟩,
      fun hle => by omega⟩
    exact memcpyCall_of_error n (ready_at_end (hleft s h.pieces hused))
  · have hready : s.ready = .ok s := by
      rw [ready, h.buffer, h.pos, if_neg hend]
    rw [memcpyCall_eq n hready]
    simp only [h.buffer, h.pos]
    split_ifs with hdone
    · exact ⟨fun hlt => by omega, fun _ => ⟨_, _, rfl⟩⟩
    · refine ⟨fun _ => ?_, fun hle => by omega⟩
      have hmin : p + min n (s.bufferSize - p) = s.bufferSize := by omega
      rw [hmin]
      -- The rest of the copy finds the buffer used up.
      have hempty := hleft { s with pos := s.bufferSize } h.pieces h.buffer.le
      rw [memcpyCall_of_error _ (ready_at_end hempty)]
      exact ⟨_, s.bufferSize, rfl, ⟨h.pieces, length_afterEnd _, rfl⟩, rfl, le_rfl⟩

end Rounds

section Sequences

variable {s : FileDecoder} {p : ℕ}

theorem needs_pos (c : DecoderCall) : 0 < c.needs := by
  cases c with
  | getChar => exact Nat.one_pos
  | memcpy n positive => exact positive

theorem deliverAll_nil_cons (c : DecoderCall) (calls : List DecoderCall) :
    deliverAll [] (c :: calls) = readError :: deliverAll [] calls := by
  have hpos := needs_pos c
  rw [deliverAll, if_neg (by rw [List.length_nil]; omega)]

/-- Once `pos_` is at the end of the buffer every call throws. -/
theorem Spent.callAll_eq (h : s.Spent p) (hend : s.bufferSize ≤ p) (calls : List DecoderCall) :
    s.callAll calls = deliverAll [] calls := by
  induction calls generalizing s p with
  | nil => rfl
  | cons c calls ih =>
      have hpos := needs_pos c
      obtain ⟨s', p', hcall, hspent, hsize, hend'⟩ := (h.memcpyCall_spec hpos).1 (by omega)
      rw [callAll, call_eq, hcall, deliverAll_nil_cons, ih hspent (hsize ▸ hend')]

/-- After the end of the file only the next call decides. -/
theorem Spent.callAll_eq_iff (h : s.Spent p) (calls : List DecoderCall) :
    s.callAll calls = deliverAll [] calls ↔ ∀ next ∈ calls.head?, s.bufferSize < p + next.needs := by
  cases calls with
  | nil => simp [callAll, deliverAll]
  | cons c calls =>
      obtain ⟨hthrows, hreturns⟩ := h.memcpyCall_spec (needs_pos c)
      rw [callAll, call_eq, deliverAll_nil_cons]
      simp only [List.head?_cons, Option.mem_some_iff, forall_eq']
      constructor
      · intro hsame
        by_contra hle
        obtain ⟨bytes, s', hcall⟩ := hreturns (by omega)
        rw [hcall] at hsame
        cases (List.cons.inj hsame).1
      · intro hlt
        obtain ⟨s', p', hcall, hspent, hsize, hend⟩ := hthrows hlt
        rw [hcall, hspent.callAll_eq (hsize ▸ hend)]

theorem Live.callAll_eq_iff (h : s.Live) (calls : List DecoderCall) :
    s.callAll calls = deliverAll s.left calls ↔
      ∀ next ∈ (callsAfterEnd s.left.length calls).head?, s.bufferSize < s.endPos + next.needs := by
  induction calls generalizing s with
  | nil => simp [callAll, deliverAll, callsAfterEnd]
  | cons c calls ih =>
      obtain ⟨henough, hshort⟩ := h.memcpyCall_spec (needs_pos c)
      rw [callAll, call_eq, deliverAll, callsAfterEnd]
      split_ifs with hle
      · obtain ⟨s', hcall, hlive, hleft, hend, hsize⟩ := henough hle
        rw [hcall, List.cons.injEq, ← hleft, ih hlive, hleft, List.length_drop, hend, hsize]
        exact and_iff_right rfl
      · obtain ⟨s', hcall, hspent, hsize⟩ := hshort (by omega)
        rw [hcall, List.cons.injEq, hspent.callAll_eq_iff, hsize]
        exact and_iff_right rfl

end Sequences

end FileDecoder

/-- **When a decoder delivers its stream.**  For every splitting of the stream by `read(2)` and every
sequence of calls: each call returns the next bytes of the stream, or throws where fewer remain,
exactly if no call follows the first one that throws, or the next one needs more bytes than the
buffer has room for behind the last piece. -/
theorem delivers_stream_iff (bufferSize pos : ℕ) (pieces : List (List Byte))
    (fit : ∀ piece ∈ pieces, 0 < piece.length ∧ piece.length ≤ bufferSize)
    (calls : List DecoderCall) :
    (FileDecoder.new bufferSize pos pieces fit).callAll calls = deliverAll pieces.flatten calls ↔
      ∀ next ∈ (callsAfterEnd pieces.flatten.length calls).head?,
        bufferSize < (pieces.getLast?.map List.length).getD pos + next.needs := by
  have hlive : (FileDecoder.new bufferSize pos pieces fit).Live := Or.inl rfl
  have hend : (FileDecoder.new bufferSize pos pieces fit).endPos =
      (pieces.getLast?.map List.length).getD pos := by
    rw [FileDecoder.endPos, FileDecoder.new]
    cases pieces.getLast? with
    | none => rfl
    | some piece => rfl
  have hiff := hlive.callAll_eq_iff calls
  rw [FileDecoder.left_new, hend] at hiff
  exact hiff

/-- A stream of three bytes in two pieces, read byte by byte, by a copy over both pieces, and once too
often. -/
theorem delivers_stream_iff_three :
    (FileDecoder.new 2 0 [[1, 2], [3]] (by decide)).callAll
        [.getChar, .memcpy 2 (by decide), .getChar] =
      [.ok [1], .ok [2, 3], readError] :=
  (delivers_stream_iff 2 0 [[1, 2], [3]] (by decide)
    [.getChar, .memcpy 2 (by decide), .getChar]).mpr (by decide)

/-- The second call throws, since the file has one byte; the third returns a byte that was never
read. -/
theorem call_after_end_delivers_unread_byte :
    (FileDecoder.new 4 0 [[7]] (by decide)).callAll [.getChar, .getChar, .getChar] =
        [.ok [7], readError, .ok [0]] ∧
      deliverAll [7] [.getChar, .getChar, .getChar] = [.ok [7], readError, readError] ∧
      (FileDecoder.new 4 0 [[7]] (by decide)).callAll [.getChar, .getChar, .getChar] ≠
        deliverAll [7] [.getChar, .getChar, .getChar] := by
  refine ⟨rfl, rfl, ?_⟩
  intro hsame
  have hthird := congrArg (fun delivered : List Delivered => delivered[2]?) hsame
  cases hthird

end Serialization
end CoherentDB
