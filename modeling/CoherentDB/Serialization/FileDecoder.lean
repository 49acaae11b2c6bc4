import CoherentDB.Serialization.Encoders

/-!
# `file_decoder`

The decoder takes its input from `read(2)`, one buffer at a time.  The file comes in
pieces of 1 to `bufferSize` bytes, as `read(2)` splits it; when no piece is left
`read(2)` returns 0 and `advance` throws.

`left` is what the decoder has not given out yet.  A char or a copy of some bytes is
taken from its front, however the pieces lie.  A copy of no bytes needs a buffer as
well: at the end of the file it throws.
-/

namespace CoherentDB
namespace Serialization

open Debug Util

structure FileDecoder where
  bufferSize : ℕ
  buffer : List Byte
  pos : ℕ
  /-- What the next calls of `read(2)` return. -/
  pieces : List (List Byte)
  fit : ∀ piece ∈ pieces, 0 < piece.length ∧ piece.length ≤ bufferSize

namespace FileDecoder

/-- What has not been given out yet. -/
def left (s : FileDecoder) : List Byte := s.buffer.drop s.pos ++ s.pieces.flatten

/-- The constructor; it leaves `pos_` as the memory has it. -/
def new (bufferSize pos : ℕ) (pieces : List (List Byte))
    (fit : ∀ piece ∈ pieces, 0 < piece.length ∧ piece.length ≤ bufferSize) : FileDecoder :=
  ⟨bufferSize, [], pos, pieces, fit⟩

@[simp] theorem left_new (bufferSize pos : ℕ) (pieces : List (List Byte))
    (fit : ∀ piece ∈ pieces, 0 < piece.length ∧ piece.length ≤ bufferSize) :
    (new bufferSize pos pieces fit).left = pieces.flatten := by
  simp [new, left]

/-- `advance`. -/
def advance (s : FileDecoder) : Except DecodeError FileDecoder :=
  match hpieces : s.pieces with
  | [] => .error (.runtimeError "read error")
  | piece :: rest => .ok
      { s with
        buffer := piece
        pos := 0
        pieces := rest
        fit := fun other hother => s.fit other (hpieces ▸ List.mem_cons_of_mem piece hother) }

/-- `advance` where the buffer is used up. -/
def ready (s : FileDecoder) : Except DecodeError FileDecoder :=
  if s.buffer.length ≤ s.pos then s.advance else .ok s

/-- `get_char`. -/
def getChar (s : FileDecoder) : Except DecodeError (Byte × FileDecoder) := do
  let s ← s.ready
  return (s.buffer.getD s.pos 0, { s with pos := s.pos + 1 })

theorem ready_room {s s' : FileDecoder} (h : s.ready = .ok s') : s'.pos < s'.buffer.length := by
  unfold ready at h
  split_ifs at h with hused
  · unfold advance at h
    split at h
    · cases h
    · next piece rest hpieces =>
      cases h
      exact (s.fit piece (hpieces ▸ List.mem_cons_self)).1
  · cases h
    exact Nat.lt_of_not_le hused

/-- `memcpy`, round by round. -/
def memcpy (n : ℕ) (s : FileDecoder) : Except DecodeError (List Byte × FileDecoder) :=
  match hready : s.ready with
  | .error e => .error e
  | .ok s' =>
      let toRead := min n (s'.buffer.length - s'.pos)
      let piece := (s'.buffer.drop s'.pos).take toRead
      let s'' := { s' with pos := s'.pos + toRead }
      -- The loop tests after its first round, so a copy of no bytes has asked for a buffer too.
      if hdone : n - toRead = 0 then .ok (piece, s'')
      else
        have hless : n - toRead < n := by
          have hroom := ready_room hready
          omega
        (memcpy (n - toRead) s'').map fun (bytes, s) => (piece ++ bytes, s)
termination_by n
decreasing_by exact hless

/-- One round of `memcpy` and the rest. -/
theorem memcpy_eq (n : ℕ) {s s' : FileDecoder} (hready : s.ready = .ok s') :
    s.memcpy n =
      let toRead := min n (s'.buffer.length - s'.pos)
      let piece := (s'.buffer.drop s'.pos).take toRead
      let s'' := { s' with pos := s'.pos + toRead }
      if n - toRead = 0 then .ok (piece, s'')
      else (memcpy (n - toRead) s'').map fun (bytes, s) => (piece ++ bytes, s) := by
  rw [memcpy]
  split
  · next herror =>
    rw [herror] at hready
    cases hready
  · next hok =>
    rw [hok] at hready
    cases hready
    simp only [dite_eq_ite]

theorem memcpy_of_error {e : DecodeError} (n : ℕ) {s : FileDecoder} (hready : s.ready = .error e) :
    s.memcpy n = .error e := by
  rw [memcpy]
  split
  · next herror =>
    rw [herror] at hready
    rw [Except.error.inj hready]
  · next hok =>
    rw [hok] at hready
    cases hready

section Stream

variable {s s' : FileDecoder} {c : Byte} {bytes rest : List Byte}

/-- While something is left there is a buffer with some of it. -/
theorem ready_of_left (hleft : s.left ≠ []) :
    ∃ s', s.ready = .ok s' ∧ s'.left = s.left := by
  unfold ready
  split_ifs with hused
  · have hbuffer : s.buffer.drop s.pos = [] := List.drop_eq_nil_of_le hused
    unfold advance
    split
    · next hpieces =>
      rw [left, hbuffer, hpieces] at hleft
      exact absurd rfl hleft
    · next piece rest hpieces =>
      have hleft' : s.left = piece ++ rest.flatten := by
        rw [left, hbuffer, hpieces, List.flatten_cons, List.nil_append]
      exact ⟨_, rfl, hleft'.symm⟩
  · exact ⟨s, rfl, rfl⟩

/-- Where nothing is left the buffer is used up, and there are no more pieces. -/
theorem used_up (hleft : s.left = []) : s.buffer.length ≤ s.pos ∧ s.pieces = [] := by
  obtain ⟨hbuffer, hflatten⟩ := List.append_eq_nil_iff.mp hleft
  refine ⟨List.drop_eq_nil_iff.mp hbuffer, ?_⟩
  cases hpieces : s.pieces with
  | nil => rfl
  | cons piece rest =>
      have hsome := (s.fit piece (hpieces ▸ List.mem_cons_self)).1
      rw [hpieces, List.flatten_cons] at hflatten
      rw [(List.append_eq_nil_iff.mp hflatten).1] at hsome
      cases hsome

/-- At the end of the file `read(2)` returns 0. -/
theorem ready_at_end (hleft : s.left = []) : s.ready = .error (.runtimeError "read error") := by
  obtain ⟨hused, hpieces⟩ := used_up hleft
  rw [ready, if_pos hused, advance]
  split
  · rfl
  · next hcons =>
    rw [hpieces] at hcons
    cases hcons

theorem getChar_of_left (hleft : s.left = c :: rest) :
    ∃ s', s.getChar = .ok (c, s') ∧ s'.left = rest := by
  obtain ⟨s', hready, hsame⟩ := ready_of_left (s := s) (by rw [hleft]; exact List.cons_ne_nil _ _)
  have hroom := ready_room hready
  rw [hleft, left, List.drop_eq_getElem_cons hroom, List.cons_append] at hsame
  injection hsame with hc hrest
  refine ⟨{ s' with pos := s'.pos + 1 }, ?_, hrest⟩
  have hhere : s'.buffer.getD s'.pos 0 = c := by
    rw [List.getD_eq_getElem?_getD, List.getElem?_eq_getElem hroom, hc]
    rfl
  rw [getChar, hready, ok_bind, hhere]
  rfl

theorem memcpy_at_end (n : ℕ) (hleft : s.left = []) :
    s.memcpy n = .error (.runtimeError "read error") :=
  memcpy_of_error n (ready_at_end hleft)

/-- `memcpy` takes what it is asked for from the front, as long as the file has not ended. -/
theorem memcpy_of_left (hleft : s.left = bytes ++ rest) (hsome : s.left ≠ []) :
    ∃ s', s.memcpy bytes.length = .ok (bytes, s') ∧ s'.left = rest := by
  induction hn : bytes.length using Nat.strong_induction_on generalizing bytes s with
  | _ n ih =>
    obtain ⟨s', hready, hsame⟩ := ready_of_left hsome
    have hroom := ready_room hready
    rw [memcpy_eq n hready]
    dsimp only
    generalize htoRead : min n (s'.buffer.length - s'.pos) = toRead
    -- The round gives the first `toRead` bytes.
    have hfront : (s'.buffer.drop s'.pos).take toRead = bytes.take toRead := by
      have hinside : toRead ≤ (s'.buffer.drop s'.pos).length := by
        rw [List.length_drop]
        omega
      have htake := congrArg (List.take toRead) (hsame.trans hleft)
      rwa [left, List.take_append_of_le_length hinside,
        List.take_append_of_le_length (by omega)] at htake
    have hrest : left { s' with pos := s'.pos + toRead } = bytes.drop toRead ++ rest := by
      have hdrop := congrArg (List.drop toRead) (hsame.trans hleft)
      rw [left, List.drop_append_of_le_length (by rw [List.length_drop]; omega), List.drop_drop,
        List.drop_append_of_le_length (by omega)] at hdrop
      exact hdrop
    rw [hfront]
    split_ifs with hdone
    · have hall : bytes.length ≤ toRead := by omega
      refine ⟨_, by rw [List.take_of_length_le hall], ?_⟩
      rw [hrest, List.drop_of_length_le hall, List.nil_append]
    · have hlength : (bytes.drop toRead).length = n - toRead := by
        rw [List.length_drop, hn]
      have hmore : left { s' with pos := s'.pos + toRead } ≠ [] := by
        intro hnil
        rw [hrest, List.append_eq_nil_iff] at hnil
        rw [hnil.1, List.length_nil] at hlength
        omega
      obtain ⟨s'', hcopy, hafter⟩ := ih (n - toRead) (by omega) hrest hmore hlength
      refine ⟨s'', ?_, hafter⟩
      rw [hcopy]
      show Except.ok (bytes.take toRead ++ bytes.drop toRead, s'') = _
      rw [List.take_append_drop]

end Stream

end FileDecoder

/-- `file_decoder` as the codecs use it. -/
def fileDecoder : Decoder FileDecoder where
  getChar := FileDecoder.getChar
  memcpy := FileDecoder.memcpy

end Serialization
end CoherentDB
