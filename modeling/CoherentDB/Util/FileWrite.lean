import CoherentDB.Util.File

/-!
# `file::write`

A write gathers the window of a `multi_buffer` into one `pwritev`: the loop skips
`left_off` bytes of the first buffer, cuts the last one it needs and sets empty vectors
for the rest.  The number of buffers is a `size_t` that is kept in a `uint32_t`, so of a
list of `2 ^ 32` buffers or more only the front is looked at, and a window that reaches
further fails the assertion after the loop.  Everything else is stored exactly
(`write_exactly_iff`).

`pwritev` writes the bytes of its vectors in order from the 64-bit offset.  How many it
writes, or the error it reports, is up to the kernel; `strerror` gives the text of an error.
-/

namespace CoherentDB
namespace Util

open Debug MachineInt ListRange

/-- The loop of `file::write` that sets the vectors: the bytes of each, and `size_left` after
it.  `first` tells the first buffer of the list from the others. -/
def gatherLoop (leftOff : ℕ) : List (List Byte) → Bool → ℕ → Except Failure (List (List Byte) × ℕ)
  | [], _, sizeLeft => .ok ([], sizeLeft)
  | b :: rest, first, sizeLeft => do
      let bufOff := if first then leftOff else 0
      dAssert (bufOff ≤ b.length)
      let bufLen := min (subWrap 32 b.length bufOff) sizeLeft
      let (vecs, left) ← gatherLoop leftOff rest false (subWrap 32 sizeLeft bufLen)
      return (slice b bufOff bufLen :: vecs, left)

/-- The buffers that the loop runs over, as many as `num_bufs` says. -/
def MultiBuffer.counted (m : MultiBuffer (List Byte)) : List (List Byte) :=
  let numBufs := m.buffers.length % 2 ^ 32
  m.buffers.take numBufs

/-- The vectors that `file::write` passes to `pwritev`. -/
def MultiBuffer.gather (m : MultiBuffer (List Byte)) : Except Failure (List (List Byte)) := do
  let (vecs, sizeLeft) ← gatherLoop m.leftOff m.counted true m.size
  dAssert (sizeLeft = 0)
  return vecs

/-- What `pwritev` returns: `-1` with an `errno`, or the number of bytes written. -/
inductive PwritevResult
  | error (errno : ℕ)
  | wrote (count : ℕ)

/-- The content of a file after bytes are written at an offset; a gap before them is filled with
zeros, and writing no bytes changes nothing. -/
def writeAt (content : List Byte) (offset : ℕ) (bytes : List Byte) : List Byte :=
  if bytes = [] then content
  else
    overwrite (content ++ List.replicate (offset + bytes.length - content.length) 0) offset bytes

/-- `pwritev`: the file afterwards. -/
def pwritev (content : List Byte) (vecs : List (List Byte)) (offset : ℕ) :
    PwritevResult → List Byte
  | .error _ => content
  | .wrote count => writeAt content offset (vecs.flatten.take count)

/-- `io_exception` of a call that set `errno`; the source ignores the name of the call. -/
def File.ioErrno (strerror : ℕ → String) (f : File) (errno : ℕ) : Failure :=
  f.ioException (strerror errno ++ " (" ++ toString errno ++ ")")

/-- `file::write` on a file with the given content: how it ends, and the file afterwards.
`result` is what `pwritev` returns. -/
def File.write (strerror : ℕ → String) (f : File) (content : List Byte) (result : PwritevResult)
    (m : MultiBuffer (List Byte)) (offset : ℕ) : Except Failure Unit × List Byte :=
  match m.gather with
  | .error failure => (.error failure, content)
  | .ok vecs =>
      let content' := pwritev content vecs offset result
      match result with
      | .error errno => (.error (f.ioErrno strerror errno), content')
      | .wrote count =>
          if count ≠ m.size then
            (.error (f.ioException ("short write: " ++ toString count ++ " " ++ toString m.size)),
              content')
          else (.ok (), content')

/-- The file `content'` is `content` with `bytes` at `offset`.  A byte past the end counts as
zero. -/
structure Stored (content content' bytes : List Byte) (offset : ℕ) : Prop where
  inside : slice content' offset bytes.length = bytes
  outside : ∀ i, i < offset ∨ offset + bytes.length ≤ i → content'.getD i 0 = content.getD i 0
  length : content'.length =
    if bytes = [] then content.length else max content.length (offset + bytes.length)

/-- What `file::write` is for: the vectors hold the logical content, which is stored when all
of it is transferred, and an error or a short write throws. -/
structure File.WritesExactly (strerror : ℕ → String) (f : File) (m : MultiBuffer (List Byte))
    (offset : ℕ) : Prop where
  gathers : ∃ vecs, m.gather = .ok vecs ∧ vecs.flatten = m.content
  stores : ∀ content, (f.write strerror content (.wrote m.size) m offset).1 = .ok () ∧
    Stored content (f.write strerror content (.wrote m.size) m offset).2 m.content offset
  throws : ∀ content errno, ∃ message,
    (f.write strerror content (.error errno) m offset).1 = .error (.ioException message)
  short : ∀ content count, count < m.size → ∃ message,
    (f.write strerror content (.wrote count) m offset).1 = .error (.ioException message)

section Gathering

variable {leftOff sizeLeft : ℕ} {first : Bool} {m : MultiBuffer (List Byte)}

/-- **The vectors hold the window**, or all there is of it behind the offset, and `size_left`
is what is missing. -/
theorem gatherLoop_ok {bufs : List (List Byte)} {base : ℕ}
    (hbase : (if first then leftOff else 0) = base) (hword : bufs.flatten.length < 2 ^ 32)
    (hleft : sizeLeft < 2 ^ 32) (hfront : ∀ b ∈ bufs.head?, base ≤ b.length) :
    ∃ vecs, gatherLoop leftOff bufs first sizeLeft =
        .ok (vecs, sizeLeft - (bufs.flatten.length - base)) ∧
      vecs.flatten = slice bufs.flatten base sizeLeft := by
  induction bufs generalizing first sizeLeft base with
  | nil =>
      refine ⟨[], ?_, ?_⟩
      · simp [gatherLoop]
      · simp [slice]
  | cons b rest ih =>
      rw [List.flatten_cons, List.length_append] at hword
      have hb : base ≤ b.length := hfront b rfl
      have hsub : subWrap 32 b.length base = b.length - base := subWrap_of_le hb (by omega)
      have hrem : subWrap 32 sizeLeft (min (b.length - base) sizeLeft) =
          sizeLeft - min (b.length - base) sizeLeft :=
        subWrap_of_le (Nat.min_le_right _ _) hleft
      have hlater : (if false then leftOff else 0) = 0 := rfl
      have hless : sizeLeft - min (b.length - base) sizeLeft < 2 ^ 32 := by omega
      obtain ⟨vecs, hloop, hvecs⟩ := ih hlater (by omega) hless fun _ _ => Nat.zero_le _
      refine ⟨slice b base (min (b.length - base) sizeLeft) :: vecs, ?_, ?_⟩
      · simp only [gatherLoop, hbase, dAssert_of hb, ok_bind, hsub, hrem, hloop]
        have hcount : sizeLeft - min (b.length - base) sizeLeft - (rest.flatten.length - 0) =
            sizeLeft - ((b :: rest).flatten.length - base) := by
          rw [List.flatten_cons, List.length_append]
          omega
        rw [hcount]
        rfl
      · rw [List.flatten_cons, hvecs, List.flatten_cons, slice_append_cross hb, Nat.min_comm]

/-- The window of the constructor's conditions. -/
structure MultiBuffer.Window (m : MultiBuffer (List Byte)) : Prop where
  word : m.buffers.flatten.length < 2 ^ 32
  fits : m.leftOff + m.size ≤ m.buffers.flatten.length
  front : ∀ b ∈ m.buffers.head?, m.leftOff < b.length

theorem MultiBuffer.flatten_counted (m : MultiBuffer (List Byte)) :
    m.buffers.flatten = m.counted.flatten ++ (m.buffers.drop (m.buffers.length % 2 ^ 32)).flatten := by
  rw [MultiBuffer.counted, ← List.flatten_append, List.take_append_drop]

/-- What the loop and the assertion after it do. -/
theorem MultiBuffer.Window.gather_eq (h : m.Window) :
    ∃ vecs, m.gather = (do
        dAssert (m.size - (m.counted.flatten.length - m.leftOff) = 0)
        return vecs) ∧
      vecs.flatten = slice m.counted.flatten m.leftOff m.size := by
  have hfits := h.fits
  have hword := h.word
  have hle : m.counted.flatten.length ≤ m.buffers.flatten.length := by
    rw [m.flatten_counted, List.length_append]
    omega
  have hfront : ∀ b ∈ m.counted.head?, m.leftOff ≤ b.length := by
    intro b hb
    rw [MultiBuffer.counted, List.head?_take] at hb
    split_ifs at hb
    · cases hb
    · exact (h.front b hb).le
  have hfirst : (if true then m.leftOff else 0) = m.leftOff := rfl
  obtain ⟨vecs, hloop, hvecs⟩ := gatherLoop_ok hfirst (by omega)
    (by omega : m.size < 2 ^ 32) hfront
  refine ⟨vecs, ?_, hvecs⟩
  rw [MultiBuffer.gather]
  simp only [hloop, ok_bind]

/-- The vectors hold the logical content where the window ends in the counted front. -/
theorem MultiBuffer.Window.gathers (h : m.Window)
    (hcounted : m.size ≤ m.counted.flatten.length - m.leftOff) :
    ∃ vecs, m.gather = .ok vecs ∧ vecs.flatten = m.content := by
  obtain ⟨vecs, hgather, hvecs⟩ := h.gather_eq
  refine ⟨vecs, ?_, ?_⟩
  · rw [hgather, dAssert_of (by omega), ok_bind]
    rfl
  · rw [hvecs, MultiBuffer.content, m.flatten_counted]
    by_cases hzero : m.size = 0
    · rw [hzero, slice_zero, slice_zero]
    · rw [slice_append_left (by omega)]

/-- Otherwise the assertion after the loop fails. -/
theorem MultiBuffer.Window.gather_fails (h : m.Window)
    (hcounted : m.counted.flatten.length - m.leftOff < m.size) : m.gather = .error .assertion := by
  obtain ⟨vecs, hgather, -⟩ := h.gather_eq
  rw [hgather, dAssert_of_not (by omega), error_bind]

end Gathering

section Storing

variable {m : MultiBuffer (List Byte)} {f : File} {strerror : ℕ → String}
  {content bytes : List Byte} {offset : ℕ}

/-- Writing bytes at an offset stores them there and changes nothing else. -/
theorem writeAt_stored (content bytes : List Byte) (offset : ℕ) :
    Stored content (writeAt content offset bytes) bytes offset := by
  unfold writeAt
  split_ifs with hnone
  · subst hnone
    refine ⟨by simp, fun i _ => rfl, by simp⟩
  · have hfit : offset + bytes.length ≤
        (content ++ List.replicate (offset + bytes.length - content.length) (0 : Byte)).length := by
      rw [List.length_append, List.length_replicate]
      omega
    refine ⟨?_, fun i hi => ?_, ?_⟩
    · have hslice : (slice (content ++ List.replicate (offset + bytes.length - content.length) 0)
          offset bytes.length).length = bytes.length := length_slice hfit
      have hover := slice_overwrite hfit (by omega : 0 + bytes.length ≤ bytes.length)
      rw [Nat.add_zero] at hover
      rw [hover, overwrite_all hslice.symm]
    · rw [List.getD_eq_getElem?_getD, List.getD_eq_getElem?_getD, getElem?_overwrite hfit,
        if_neg (by omega), List.getElem?_append]
      split_ifs with hin
      · rfl
      · rw [List.getElem?_eq_none (by omega : content.length ≤ i), List.getElem?_replicate]
        split_ifs <;> rfl
    · rw [length_overwrite hfit, List.length_append, List.length_replicate, if_neg hnone]
      omega

theorem MultiBuffer.Window.length_content (h : m.Window) : m.content.length = m.size :=
  length_slice h.fits

/-- Vectors that hold the logical content are stored, and a failed or short write throws. -/
theorem MultiBuffer.Window.writesExactly (h : m.Window)
    (hcounted : m.size ≤ m.counted.flatten.length - m.leftOff) :
    f.WritesExactly strerror m offset := by
  obtain ⟨vecs, hgather, hvecs⟩ := h.gathers hcounted
  have hall : vecs.flatten.take m.size = m.content := by
    rw [hvecs, List.take_of_length_le h.length_content.le]
  refine ⟨⟨vecs, hgather, hvecs⟩, fun content => ?_, fun content errno => ?_,
    fun content count hcount => ?_⟩
  · simp only [File.write, hgather, ne_eq, not_true_eq_false, if_false, pwritev, hall, true_and]
    exact writeAt_stored content m.content offset
  · simp only [File.write, hgather]
    exact ⟨_, rfl⟩
  · simp only [File.write, hgather, ne_eq, if_pos hcount.ne]
    exact ⟨_, rfl⟩

end Storing

/-- **When `file::write` stores exactly the logical content.**  The vectors hold the content, a
complete transfer stores it and nothing else, and an error or a short write throws, if and
only if the window ends in the buffers that are counted.  Below `2 ^ 32` buffers it always
does. -/
theorem write_exactly_iff (strerror : ℕ → String) (f : File) (m : MultiBuffer (List Byte))
    (h : m.Window) (offset : ℕ) :
    (f.WritesExactly strerror m offset ↔
      m.size ≤ (m.buffers.take (m.buffers.length % 2 ^ 32)).flatten.length - m.leftOff) ∧
    (m.buffers.length < 2 ^ 32 → f.WritesExactly strerror m offset) := by
  refine ⟨⟨fun hwrites => ?_, fun hcounted => h.writesExactly hcounted⟩, fun hlength => ?_⟩
  · by_contra hnot
    obtain ⟨vecs, hgather, -⟩ := hwrites.gathers
    rw [h.gather_fails (not_le.mp hnot)] at hgather
    cases hgather
  · apply h.writesExactly
    rw [MultiBuffer.counted, Nat.mod_eq_of_lt hlength, List.take_length]
    have hfits := h.fits
    omega

/-- Two bytes with `2 ^ 32 - 1` empty buffers between them. -/
def manyBuffers : MultiBuffer (List Byte) :=
  ⟨[7] :: (List.replicate (2 ^ 32 - 1) [] ++ [[8]]), 2, 0⟩

theorem manyBuffers_window : manyBuffers.Window := by
  have hflat : manyBuffers.buffers.flatten = [7, 8] := by
    rw [manyBuffers, List.flatten_cons, List.flatten_append, List.flatten_replicate_nil]
    rfl
  refine ⟨?_, ?_, ?_⟩
  · rw [hflat]
    decide
  · rw [hflat]
    decide
  · rintro b ⟨⟩
    decide

/-- `num_bufs` is 1 of `2 ^ 32 + 1`: one byte of the two is gathered, and the assertion fails. -/
theorem write_miscounts :
    manyBuffers.Window ∧ manyBuffers.buffers.length = 2 ^ 32 + 1 ∧
      (openFile.write (fun _ => "") [] (.wrote 2) manyBuffers 0).1 = .error .assertion ∧
      ¬ openFile.WritesExactly (fun _ => "") manyBuffers 0 := by
  have hlength : manyBuffers.buffers.length = 2 ^ 32 + 1 := by
    rw [manyBuffers, List.length_cons, List.length_append, List.length_replicate]
    rfl
  have hcounted : manyBuffers.counted = [[7]] := by
    have hone : (2 ^ 32 + 1) % 2 ^ 32 = 1 := by norm_num
    rw [MultiBuffer.counted, hlength, hone, manyBuffers, List.take_succ_cons, List.take_zero]
  have hfails : manyBuffers.gather = .error .assertion := by
    apply manyBuffers_window.gather_fails
    rw [hcounted]
    decide
  refine ⟨manyBuffers_window, hlength, ?_, fun hwrites => ?_⟩
  · rw [File.write, hfails]
  · obtain ⟨vecs, hgather, -⟩ := hwrites.gathers
    rw [hfails] at hgather
    cases hgather

/-- Three bytes of two buffers, with an unused one behind them. -/
theorem write_exactly_iff_unusedBuffer :
    openFile.WritesExactly (fun _ => "") ⟨[[1, 2, 3], [4, 5], [6]], 3, 1⟩ 100 := by
  refine (write_exactly_iff (fun _ => "") openFile ⟨[[1, 2, 3], [4, 5], [6]], 3, 1⟩ ⟨?_, ?_, ?_⟩
    100).2 ?_
  · decide
  · decide
  · rintro b ⟨⟩
    decide
  · decide

end Util
end CoherentDB
