import CoherentDB.Lib.ListRange
import CoherentDB.Util.Misc

/-!
# `buffer` and `multi_buffer`

A `multi_buffer` is a window of `size` bytes, `left_off` bytes behind the start of
a list of buffers.  The list holds `boost::shared_ptr`s, so a buffer can occur in
several lists and several times in one; the heap keeps for each buffer the number
of pointers to it.  `read` and `write` share the loop `do_rw`, which clones a
buffer before it writes to it unless its pointer is the only one.

Sizes and offsets have type `uint32_t`, so sums and differences wrap at `2 ^ 32`.
The alignment of a clone has no effect on what is read and is left out.
-/

namespace CoherentDB
namespace Util

open Debug MachineInt ListRange

/-- The fields of `multi_buffer`; `β` is what stands for a buffer in the list. -/
structure MultiBuffer (β : Type) where
  buffers : List β
  size : ℕ
  leftOff : ℕ
  deriving DecidableEq

/-- The constructor of `multi_buffer` with its assertions. -/
def MultiBuffer.create {β : Type} (getSize : β → ℕ) (buffers : List β) (size leftOff : ℕ) :
    Except Failure (MultiBuffer β) := do
  let realSize := buffers.foldl (fun total b => addWrap 32 total (getSize b)) 0
  dAssert (addWrap 32 leftOff size ≤ realSize)
  dAssert (∀ b ∈ buffers.head?, leftOff < getSize b)
  return ⟨buffers, size, leftOff⟩

section Create

variable {β : Type} {getSize : β → ℕ} {buffers : List β} {size leftOff : ℕ}

theorem foldl_addWrap (getSize : β → ℕ) (buffers : List β) (total : ℕ)
    (hword : total + (buffers.map getSize).sum < 2 ^ 32) :
    buffers.foldl (fun total b => addWrap 32 total (getSize b)) total =
      total + (buffers.map getSize).sum := by
  induction buffers generalizing total with
  | nil => rfl
  | cons b rest ih =>
      rw [List.map_cons, List.sum_cons] at hword ⊢
      rw [List.foldl_cons, addWrap_of_lt (by omega), ih _ (by omega)]
      omega

/-- The constructor accepts a window that fits. -/
theorem MultiBuffer.create_of_fits (hword : (buffers.map getSize).sum < 2 ^ 32)
    (hwindow : leftOff + size ≤ (buffers.map getSize).sum)
    (hfront : ∀ b ∈ buffers.head?, leftOff < getSize b) :
    MultiBuffer.create getSize buffers size leftOff = .ok ⟨buffers, size, leftOff⟩ := by
  have hsum := foldl_addWrap getSize buffers 0 (by omega)
  have hadd : addWrap 32 leftOff size = leftOff + size := addWrap_of_lt (by omega)
  rw [MultiBuffer.create, hsum, Nat.zero_add, hadd, dAssert_of hwindow, ok_bind,
    dAssert_of hfront, ok_bind]
  rfl

/-- The constructor fails by its assertions only. -/
theorem MultiBuffer.create_error {failure : Failure}
    (h : MultiBuffer.create getSize buffers size leftOff = .error failure) :
    failure = .assertion := by
  unfold MultiBuffer.create at h
  rcases dAssert_bind_error h with hfailure | ⟨-, h⟩
  · exact hfailure
  · rcases dAssert_bind_error h with hfailure | ⟨-, h⟩
    · exact hfailure
    · cases h

end Create

/-- Identity of a buffer object. -/
abbrev BufferId := ℕ

/-- The buffers with the number of `shared_ptr`s to each; no buffer has an identity from
`next` on yet. -/
structure Heap where
  data : BufferId → List Byte
  useCount : BufferId → ℕ
  next : BufferId

namespace Heap

variable (h : Heap)

/-- `buffer::get_size`. -/
def getSize (id : BufferId) : ℕ := (h.data id).length

/-- A new buffer with the content of `id` replaces one pointer to `id`. -/
def clone (id : BufferId) : Heap where
  data := Function.update h.data h.next (h.data id)
  useCount := Function.update (Function.update h.useCount id (h.useCount id - 1)) h.next 1
  next := h.next + 1

/-- `memcpy` into a buffer. -/
def poke (id : BufferId) (pos : ℕ) (bytes : List Byte) : Heap :=
  { h with data := Function.update h.data id (overwrite (h.data id) pos bytes) }

/-- The copying step of `do_rw`: out of the buffer, or into it after the copy-on-write. -/
def moveChunk (READ : Bool) (id : BufferId) (pos : ℕ) (buf : List Byte) (outOff size : ℕ) :
    BufferId × Heap × List Byte :=
  if READ then
    (id, h, overwrite buf outOff (slice (h.data id) pos size))
  else if h.useCount id ≠ 1 then
    (h.next, (h.clone id).poke h.next pos (slice buf outOff size), buf)
  else
    (id, h.poke id pos (slice buf outOff size), buf)

end Heap

/-- The loop of `do_rw` over the rest of the list: the list afterwards, the heap and the
caller's bytes.  `first` tells the first buffer of the list from the others. -/
def rwLoop (READ : Bool) (leftOff reqSize reqOff : ℕ) :
    List BufferId → Bool → ℕ → ℕ → Heap → List Byte →
      Except Failure (List BufferId × Heap × List Byte)
  | [], _, _, sizeLeft, h, buf => do
      dAssert (sizeLeft = 0)
      return ([], h, buf)
  | id :: rest, first, off, sizeLeft, h, buf =>
      if sizeLeft = 0 then .ok (id :: rest, h, buf)
      else do
        let offInBuf := if first then leftOff else 0
        let bufSize := subWrap 32 (h.getSize id) offInBuf
        dAssert (bufSize ≠ 0)
        if reqOff < addWrap 32 off bufSize then
          let bufStart := if off < reqOff then subWrap 32 reqOff off else 0
          dAssert (bufStart < bufSize)
          let size := min sizeLeft (subWrap 32 bufSize bufStart)
          dAssert (reqOff ≤ addWrap 32 off bufStart)
          let outOff := subWrap 32 (addWrap 32 off bufStart) reqOff
          dAssert (addWrap 32 outOff size ≤ reqSize)
          let (id', h', buf') := h.moveChunk READ id (offInBuf + bufStart) buf outOff size
          dAssert (size ≤ sizeLeft)
          let (rest', h'', buf'') ← rwLoop READ leftOff reqSize reqOff rest false
            (addWrap 32 off bufSize) (subWrap 32 sizeLeft size) h' buf'
          return (id' :: rest', h'', buf'')
        else
          let (rest', h'', buf'') ← rwLoop READ leftOff reqSize reqOff rest false
            (addWrap 32 off bufSize) sizeLeft h buf
          return (id :: rest', h'', buf'')

/-- `multi_buffer::do_rw`. -/
def MultiBuffer.doRw (READ : Bool) (m : MultiBuffer BufferId) (h : Heap) (buf : List Byte)
    (reqSize reqOff : ℕ) : Except Failure (MultiBuffer BufferId × Heap × List Byte) := do
  dAssert (addWrap 32 reqSize reqOff ≤ m.size)
  if reqSize = 0 then
    return (m, h, buf)
  else
    dAssert (m.buffers ≠ [])
    let (buffers, h', buf') ← rwLoop READ m.leftOff reqSize reqOff m.buffers true 0 reqSize h buf
    return ({ m with buffers := buffers }, h', buf')

/-- `multi_buffer::read` into `buf`: the bytes of `buf` afterwards. -/
def MultiBuffer.read (m : MultiBuffer BufferId) (h : Heap) (buf : List Byte) (off : ℕ) :
    Except Failure (List Byte) := do
  let (_, _, buf') ← m.doRw true h buf buf.length off
  return buf'

/-- `multi_buffer::write`. -/
def MultiBuffer.write (m : MultiBuffer BufferId) (h : Heap) (buf : List Byte) (off : ℕ) :
    Except Failure (MultiBuffer BufferId × Heap) := do
  let (m', h', _) ← m.doRw false h buf buf.length off
  return (m', h')

section Iteration

variable {READ : Bool} {leftOff reqSize reqOff off sizeLeft : ℕ} {first : Bool} {id : BufferId}
  {rest : List BufferId} {h : Heap} {buf : List Byte}

/-- Where the loop stands: the buffers passed so far end at `off`, and the next byte of the
request is at `reqOff` plus what was moved already.  Once a byte was moved the two agree. -/
structure Cursor (reqSize reqOff off sizeLeft : ℕ) : Prop where
  left : sizeLeft ≤ reqSize
  behind : off ≤ reqOff + (reqSize - sizeLeft)
  synced : sizeLeft < reqSize → off = reqOff + (reqSize - sizeLeft)
  fits : reqOff + reqSize < 2 ^ 32

/-- The distance from `off` to the next byte of the request. -/
def ahead (reqSize reqOff off sizeLeft : ℕ) : ℕ := reqOff + (reqSize - sizeLeft) - off

/-- An iteration over a buffer that ends before the request starts. -/
theorem rwLoop_skip {base : ℕ} (hbase : (if first then leftOff else 0) = base)
    (hcur : Cursor reqSize reqOff off sizeLeft) (hleft : sizeLeft ≠ 0)
    (hsize : base < h.getSize id) (hword : h.getSize id < 2 ^ 32)
    (hskip : h.getSize id ≤ base + ahead reqSize reqOff off sizeLeft) :
    rwLoop READ leftOff reqSize reqOff (id :: rest) first off sizeLeft h buf = (do
      let (rest', h', buf') ← rwLoop READ leftOff reqSize reqOff rest false
        (off + (h.getSize id - base)) sizeLeft h buf
      return (id :: rest', h', buf')) := by
  have hleft' := hcur.left
  have hbehind := hcur.behind
  have hfits := hcur.fits
  unfold ahead at hskip
  have hsub : subWrap 32 (h.getSize id) base = h.getSize id - base :=
    subWrap_of_le hsize.le hword
  -- A buffer that ends before the request was reached with nothing moved.
  have hstart : sizeLeft = reqSize := by
    by_contra hne
    have := hcur.synced (by omega)
    omega
  have hadd : addWrap 32 off (h.getSize id - base) = off + (h.getSize id - base) :=
    addWrap_of_lt (by omega)
  have hnonempty : h.getSize id - base ≠ 0 := by omega
  have hbefore : ¬ reqOff < off + (h.getSize id - base) := by omega
  rw [rwLoop, if_neg hleft]
  simp only [hbase, hsub, hadd, dAssert_of hnonempty, if_neg hbefore, ok_bind]

/-- An iteration over a buffer that the request reaches into. -/
theorem rwLoop_move {base : ℕ} (hbase : (if first then leftOff else 0) = base)
    (hcur : Cursor reqSize reqOff off sizeLeft) (hleft : sizeLeft ≠ 0)
    (hsize : base < h.getSize id) (hword : h.getSize id < 2 ^ 32)
    (hoff : off + (h.getSize id - base) < 2 ^ 32)
    (hreach : base + ahead reqSize reqOff off sizeLeft < h.getSize id) :
    rwLoop READ leftOff reqSize reqOff (id :: rest) first off sizeLeft h buf =
      (let pos := base + ahead reqSize reqOff off sizeLeft
      let size := min sizeLeft (h.getSize id - pos)
      let (id', h', buf') := h.moveChunk READ id pos buf (reqSize - sizeLeft) size
      do
        let (rest', h'', buf'') ← rwLoop READ leftOff reqSize reqOff rest false
          (off + (h.getSize id - base)) (sizeLeft - size) h' buf'
        return (id' :: rest', h'', buf'')) := by
  have hleft' := hcur.left
  have hbehind := hcur.behind
  have hsynced := hcur.synced
  have hfits := hcur.fits
  unfold ahead at hreach ⊢
  generalize hsz : h.getSize id = bytes at *
  have hsub : subWrap 32 bytes base = bytes - base := subWrap_of_le hsize.le hword
  have hadd : addWrap 32 off (bytes - base) = off + (bytes - base) := addWrap_of_lt hoff
  have hnonempty : bytes - base ≠ 0 := by omega
  have hafter : reqOff < off + (bytes - base) := by
    by_cases hmoved : sizeLeft < reqSize
    · have := hsynced hmoved
      omega
    · omega
  -- The start inside the buffer is the distance to the next byte of the request.
  have hstart : (if off < reqOff then subWrap 32 reqOff off else 0) =
      reqOff + (reqSize - sizeLeft) - off := by
    split_ifs with hlt
    · have hnone : sizeLeft = reqSize := by
        by_contra hne
        have := hsynced (by omega)
        omega
      rw [subWrap_of_le hlt.le (by omega)]
      omega
    · by_cases hmoved : sizeLeft < reqSize
      · have := hsynced hmoved
        omega
      · omega
  generalize hk : reqOff + (reqSize - sizeLeft) - off = k at *
  have hroom : subWrap 32 (bytes - base) k = bytes - (base + k) := by
    rw [subWrap_of_le (by omega) (by omega)]
    omega
  have hsum : addWrap 32 off k = off + k := addWrap_of_lt (by omega)
  have hout : subWrap 32 (off + k) reqOff = reqSize - sizeLeft := by
    rw [subWrap_of_le (by omega) (by omega)]
    omega
  have hend : addWrap 32 (reqSize - sizeLeft) (min sizeLeft (bytes - (base + k))) =
      reqSize - sizeLeft + min sizeLeft (bytes - (base + k)) := addWrap_of_lt (by omega)
  have hrem : subWrap 32 sizeLeft (min sizeLeft (bytes - (base + k))) =
      sizeLeft - min sizeLeft (bytes - (base + k)) :=
    subWrap_of_le (Nat.min_le_left _ _) (by omega)
  have hinside : k < bytes - base := by omega
  have hpast : reqOff ≤ off + k := by omega
  have hwithin : reqSize - sizeLeft + min sizeLeft (bytes - (base + k)) ≤ reqSize := by omega
  rw [rwLoop, if_neg hleft]
  simp only [hbase, hsz, hsub, hadd, dAssert_of hnonempty, ok_bind, if_pos hafter, hstart,
    dAssert_of hinside, hroom, hsum, dAssert_of hpast, hout, hend, dAssert_of hwithin, hrem,
    dAssert_of (Nat.min_le_left sizeLeft (bytes - (base + k)))]

theorem rwLoop_done (ids : List BufferId) :
    rwLoop READ leftOff reqSize reqOff ids first off 0 h buf = .ok (ids, h, buf) := by
  cases ids with
  | nil => rfl
  | cons id rest => rfl

/-- Past a buffer that ends before the request. -/
theorem Cursor.skip (base bytes more : ℕ) (hcur : Cursor reqSize reqOff off sizeLeft)
    (hsize : base < bytes) (hskip : bytes ≤ base + ahead reqSize reqOff off sizeLeft)
    (hfit : base + ahead reqSize reqOff off sizeLeft + sizeLeft ≤ bytes + more) :
    Cursor reqSize reqOff (off + (bytes - base)) sizeLeft ∧
      ahead reqSize reqOff (off + (bytes - base)) sizeLeft =
        base + ahead reqSize reqOff off sizeLeft - bytes ∧
      ahead reqSize reqOff (off + (bytes - base)) sizeLeft + sizeLeft ≤ more := by
  have hbehind := hcur.behind
  unfold ahead at *
  refine ⟨⟨hcur.left, by omega, fun hmoved => ?_, hcur.fits⟩, by omega, by omega⟩
  have := hcur.synced hmoved
  omega

/-- Past a buffer from which a chunk was moved, when the request goes on: the next buffer
starts with the request's next byte. -/
theorem Cursor.move (base bytes more : ℕ) (hcur : Cursor reqSize reqOff off sizeLeft)
    (hreach : base + ahead reqSize reqOff off sizeLeft < bytes)
    (hfit : base + ahead reqSize reqOff off sizeLeft + sizeLeft ≤ bytes + more)
    (hmore : sizeLeft - min sizeLeft (bytes - (base + ahead reqSize reqOff off sizeLeft)) ≠ 0) :
    let left := sizeLeft - min sizeLeft (bytes - (base + ahead reqSize reqOff off sizeLeft))
    Cursor reqSize reqOff (off + (bytes - base)) left ∧
      ahead reqSize reqOff (off + (bytes - base)) left = 0 ∧ left ≤ more := by
  have hleft := hcur.left
  have hbehind := hcur.behind
  unfold ahead at *
  exact ⟨⟨by omega, by omega, fun _ => by omega, hcur.fits⟩, by omega, by omega⟩

end Iteration

/-- All bytes of a list of buffers. -/
def Heap.flat (h : Heap) (ids : List BufferId) : List Byte := (ids.map h.data).flatten

@[simp] theorem Heap.flat_nil (h : Heap) : h.flat [] = [] := rfl

theorem Heap.flat_cons (h : Heap) (id : BufferId) (rest : List BufferId) :
    h.flat (id :: rest) = h.data id ++ h.flat rest := rfl

/-- Buffers with the same content have the same bytes. -/
theorem Heap.flat_congr {h h' : Heap} {ids : List BufferId}
    (hsame : ∀ id ∈ ids, h'.data id = h.data id) : h'.flat ids = h.flat ids := by
  rw [Heap.flat, Heap.flat, List.map_congr_left hsame]

/-- What the loop expects of the buffers ahead of it: none is empty, the first of the whole
list is longer than `left_off`, and no offset leaves `uint32_t`. -/
structure Heap.Chain (h : Heap) (leftOff : ℕ) (ids : List BufferId) (first : Bool) (off : ℕ) :
    Prop where
  nonempty : ∀ id ∈ ids, 0 < h.getSize id
  front : ∀ id ∈ ids.head?, (if first then leftOff else 0) < h.getSize id
  word : off + (h.flat ids).length < 2 ^ 32

section Chain

variable {leftOff off : ℕ} {first : Bool} {id : BufferId} {rest : List BufferId} {h h' : Heap}

theorem Heap.Chain.head (hc : h.Chain leftOff (id :: rest) first off) :
    (if first then leftOff else 0) < h.getSize id ∧ h.getSize id < 2 ^ 32 ∧
      off + h.getSize id + (h.flat rest).length < 2 ^ 32 := by
  have hword := hc.word
  rw [Heap.flat_cons, List.length_append] at hword
  have hsize : h.getSize id = (h.data id).length := rfl
  exact ⟨hc.front id rfl, by omega, by omega⟩

theorem Heap.Chain.tail (hc : h.Chain leftOff (id :: rest) first off)
    (hsame : ∀ j ∈ rest, h'.data j = h.data j) :
    h'.Chain leftOff rest false (off + (h.getSize id - if first then leftOff else 0)) := by
  obtain ⟨-, -, hword⟩ := hc.head
  have hpos : ∀ j ∈ rest, 0 < h'.getSize j := by
    intro j hj
    rw [Heap.getSize, hsame j hj]
    exact hc.nonempty j (List.mem_cons_of_mem id hj)
  refine ⟨hpos, fun j hj => hpos j (List.mem_of_mem_head? hj), ?_⟩
  rw [Heap.flat_congr hsame]
  omega

end Chain

/-- A request that fits no buffers is done. -/
theorem Heap.done_of_nil {h : Heap} {p : Prop} {pos sizeLeft : ℕ}
    (hfit : sizeLeft ≠ 0 → p ∧ pos + sizeLeft ≤ (h.flat []).length) : sizeLeft = 0 := by
  by_contra hne
  obtain ⟨-, hle⟩ := hfit hne
  rw [Heap.flat_nil, List.length_nil] at hle
  omega

/-- **The reading loop** copies the requested range of the buffers and changes nothing else. -/
theorem rwLoop_read {leftOff reqSize reqOff : ℕ} {h : Heap} (ids : List BufferId) (first : Bool)
    (off sizeLeft : ℕ) (buf : List Byte) (hbuf : buf.length = reqSize)
    (hchain : h.Chain leftOff ids first off)
    (hcur : sizeLeft ≠ 0 → Cursor reqSize reqOff off sizeLeft ∧
      (if first then leftOff else 0) + ahead reqSize reqOff off sizeLeft + sizeLeft
        ≤ (h.flat ids).length) :
    rwLoop true leftOff reqSize reqOff ids first off sizeLeft h buf =
      .ok (ids, h, overwrite buf (reqSize - sizeLeft) (slice (h.flat ids)
        ((if first then leftOff else 0) + ahead reqSize reqOff off sizeLeft) sizeLeft)) := by
  induction ids generalizing first off sizeLeft buf with
  | nil =>
      obtain rfl : sizeLeft = 0 := Heap.done_of_nil hcur
      rw [rwLoop_done, slice_zero, overwrite_nil]
  | cons id rest ih =>
      rcases Nat.eq_zero_or_pos sizeLeft with rfl | hpos
      · rw [rwLoop_done, slice_zero, overwrite_nil]
      obtain ⟨hcursor, hfit⟩ := hcur hpos.ne'
      obtain ⟨hfront, hword, htotal⟩ := hchain.head
      have hdata : (h.data id).length = h.getSize id := rfl
      have hnext : h.Chain leftOff rest false
          (off + (h.getSize id - if first then leftOff else 0)) := hchain.tail fun _ _ => rfl
      rw [Heap.flat_cons, List.length_append] at hfit
      generalize hbase : (if first then leftOff else 0) = base at *
      rcases Nat.lt_or_ge (base + ahead reqSize reqOff off sizeLeft) (h.getSize id)
        with hreach | hskip
      · -- The request reaches into this buffer: one chunk is moved, then the rest.
        have hcur' := hcursor.move base (h.getSize id) (h.flat rest).length hreach (by omega)
        have hleft := hcursor.left
        rw [rwLoop_move hbase hcursor hpos.ne' hfront hword (by omega) hreach]
        generalize ahead reqSize reqOff off sizeLeft = k at *
        obtain ⟨size, hsize⟩ : ∃ size, size = min sizeLeft (h.getSize id - (base + k)) := ⟨_, rfl⟩
        simp only [← hsize] at hcur' ⊢
        have hchunk : (slice (h.data id) (base + k) size).length = size :=
          length_slice (by omega)
        have hlength : (overwrite buf (reqSize - sizeLeft)
            (slice (h.data id) (base + k) size)).length = reqSize := by
          rw [length_overwrite (by omega), hbuf]
        -- What is left of the request starts with the next buffer, or nothing is left.
        have hrest : slice (h.flat rest) (0 + ahead reqSize reqOff (off + (h.getSize id - base))
            (sizeLeft - size)) (sizeLeft - size) = slice (h.flat rest) 0 (sizeLeft - size) := by
          by_cases hmore : sizeLeft - size = 0
          · rw [hmore, slice_zero, slice_zero]
          · rw [(hcur' hmore).2.1]
        have hdone : reqSize - (sizeLeft - size) =
            reqSize - sizeLeft + (slice (h.data id) (base + k) size).length := by omega
        have hroom : (slice (h.flat rest) 0 (sizeLeft - size)).length ≤ sizeLeft - size := by
          rw [slice, List.length_take]
          exact Nat.min_le_left _ _
        simp only [Heap.moveChunk, if_true]
        rw [ih false _ (sizeLeft - size) _ hlength hnext fun hmore => ?_]
        · simp only [Bool.false_eq_true, if_false, ok_bind, pure, Except.pure, Except.ok.injEq,
            Prod.mk.injEq, true_and]
          rw [hrest, hdone, overwrite_overwrite (by omega), Heap.flat_cons,
            slice_append_cross (by omega), hdata, ← hsize]
        · obtain ⟨hc, hzero, hle⟩ := hcur' hmore
          simp only [Bool.false_eq_true, if_false]
          exact ⟨hc, by omega⟩
      · obtain ⟨hc, hahead, hle⟩ :=
          hcursor.skip base (h.getSize id) (h.flat rest).length hfront hskip (by omega)
        rw [rwLoop_skip hbase hcursor hpos.ne' hfront hword hskip,
          ih false _ sizeLeft buf hbuf hnext fun _ => ?_]
        · simp only [Bool.false_eq_true, if_false, ok_bind, pure, Except.pure, Except.ok.injEq,
            Prod.mk.injEq, true_and]
          rw [Heap.flat_cons, slice_append_right (by omega), hahead, hdata, Nat.zero_add]
        · simp only [Bool.false_eq_true, if_false]
          exact ⟨hc, by omega⟩

/-- The counts cover the pointers of a list and `refs` pointers held elsewhere, and every
buffer that is pointed to exists. -/
structure Heap.Holds (h : Heap) (refs : BufferId → ℕ) (ids : List BufferId) : Prop where
  count : ∀ id, refs id + ids.count id ≤ h.useCount id
  known : ∀ id, 0 < refs id ∨ id ∈ ids → id < h.next

section Writing

variable {h h' : Heap} {refs : BufferId → ℕ} {id : BufferId} {rest : List BufferId}

/-- One more pointer to `id` elsewhere. -/
def addRef (refs : BufferId → ℕ) (id : BufferId) : BufferId → ℕ :=
  fun j => refs j + if j = id then 1 else 0

/-- The head of a list counts as a pointer held elsewhere while the loop is behind it. -/
theorem Heap.holds_cons_iff : h.Holds refs (id :: rest) ↔ h.Holds (addRef refs id) rest := by
  have hcount : ∀ j, refs j + (id :: rest).count j = addRef refs id j + rest.count j := by
    intro j
    rw [addRef, List.count_cons]
    by_cases hj : j = id
    · subst hj
      simp only [beq_self_eq_true, if_true]
      omega
    · have hne : (id == j) = false := by simpa using fun heq => hj heq.symm
      simp [hne, hj]
  have hknown : ∀ j, (0 < refs j ∨ j ∈ id :: rest) ↔ (0 < addRef refs id j ∨ j ∈ rest) := by
    intro j
    rw [addRef, List.mem_cons]
    by_cases hj : j = id
    · simp [hj]
    · simp [hj]
  constructor
  · intro hh
    exact ⟨fun j => hcount j ▸ hh.count j, fun j hj => hh.known j ((hknown j).mpr hj)⟩
  · intro hh
    exact ⟨fun j => hcount j ▸ hh.count j, fun j hj => hh.known j ((hknown j).mp hj)⟩

/-- Nothing points to the identity of the next buffer. -/
theorem Heap.Holds.ne_next {ids : List BufferId} (hh : h.Holds refs ids) {j : BufferId}
    (hj : 0 < refs j ∨ j ∈ ids) : j ≠ h.next :=
  Nat.ne_of_lt (hh.known j hj)

/-- The content of a buffer does not matter for the counts. -/
theorem Heap.Holds.poke {ids : List BufferId} (hh : h.Holds refs ids) (j : BufferId) (pos : ℕ)
    (bytes : List Byte) : (h.poke j pos bytes).Holds refs ids := ⟨hh.count, hh.known⟩

/-- A clone takes over one pointer of the list. -/
theorem Heap.Holds.clone (hh : h.Holds refs (id :: rest)) :
    (h.clone id).Holds refs (h.next :: rest) := by
  constructor
  · intro j
    have hj := hh.count j
    rw [List.count_cons] at hj ⊢
    by_cases hnew : j = h.next
    · subst hnew
      have href : refs h.next = 0 := by
        by_contra hpos
        exact hh.ne_next (Or.inl (Nat.pos_of_ne_zero hpos)) rfl
      have hmem : rest.count h.next = 0 := by
        rw [List.count_eq_zero]
        intro hin
        exact hh.ne_next (Or.inr (List.mem_cons_of_mem id hin)) rfl
      simp [Heap.clone, href, hmem]
    · have hne : (h.next == j) = false := by simpa using fun heq => hnew heq.symm
      by_cases hold : j = id
      · subst hold
        simp only [Heap.clone, Function.update_of_ne hnew, Function.update_self, hne]
        simp only [beq_self_eq_true, if_true] at hj
        simp only [Bool.false_eq_true, if_false]
        omega
      · simp only [Heap.clone, Function.update_of_ne hnew, Function.update_of_ne hold, hne]
        simp only [Bool.false_eq_true, if_false]
        omega
  · intro j hj
    show j < h.next + 1
    rcases hj with hj | hj
    · exact Nat.lt_succ_of_lt (hh.known j (Or.inl hj))
    · rcases List.mem_cons.mp hj with rfl | hj
      · exact Nat.lt_succ_self h.next
      · exact Nat.lt_succ_of_lt (hh.known j (Or.inr (List.mem_cons_of_mem id hj)))

/-- Where the pointer of the list is the only one, no other leads to its buffer. -/
theorem Heap.Holds.ne_of_unique (hh : h.Holds refs (id :: rest)) (hunique : h.useCount id = 1)
    {j : BufferId} (hj : 0 < refs j ∨ j ∈ rest) : j ≠ id := by
  have hcount := hh.count id
  rw [List.count_cons_self] at hcount
  rintro rfl
  rcases hj with hj | hj
  · omega
  · have := List.count_pos_iff.mpr hj
    omega

/-- **Copy-on-write.**  After a chunk was moved into a buffer, the pointer points to the
changed content, the counts still cover all pointers, and every buffer that another pointer
leads to is as before. -/
theorem Heap.moveChunk_write (hh : h.Holds refs (id :: rest)) (pos : ℕ) (buf : List Byte)
    (outOff size : ℕ) :
    ∃ id' h', h.moveChunk false id pos buf outOff size = (id', h', buf) ∧
      h'.data id' = overwrite (h.data id) pos (slice buf outOff size) ∧
      (∀ j, 0 < refs j ∨ j ∈ rest → h'.data j = h.data j) ∧
      h'.Holds refs (id' :: rest) := by
  by_cases hunique : h.useCount id = 1
  · refine ⟨id, h.poke id pos (slice buf outOff size), by simp [Heap.moveChunk, hunique], ?_, ?_,
      hh.poke id pos _⟩
    · simp [Heap.poke]
    · intro j hj
      simp [Heap.poke, hh.ne_of_unique hunique hj]
  · refine ⟨h.next, (h.clone id).poke h.next pos (slice buf outOff size),
      by simp [Heap.moveChunk, hunique], ?_, ?_, hh.clone.poke h.next pos _⟩
    · simp [Heap.poke, Heap.clone]
    · intro j hj
      simp [Heap.poke, Heap.clone, hh.ne_next (hj.imp_right (List.mem_cons_of_mem id))]

/-- Buffers were overwritten: the list leads to `new`, no buffer changed its size, and every
buffer that another pointer leads to keeps its content. -/
structure Heap.Wrote (h h' : Heap) (refs : BufferId → ℕ) (ids ids' : List BufferId)
    (new : List Byte) : Prop where
  flat : h'.flat ids' = new
  sizes : ids'.map h'.getSize = ids.map h.getSize
  kept : ∀ j, 0 < refs j → h'.data j = h.data j
  held : h'.Holds refs ids'

theorem Heap.Wrote.refl {ids : List BufferId} (hh : h.Holds refs ids) :
    h.Wrote h refs ids ids (h.flat ids) := ⟨rfl, rfl, fun _ _ => rfl, hh⟩

/-- The pointer at the head was moved to `id'` before the rest was overwritten. -/
theorem Heap.Wrote.cons {h₁ h₂ : Heap} {id' : BufferId} {rest' : List BufferId} {new : List Byte}
    (hrest : h₁.Wrote h₂ (addRef refs id') rest rest' new)
    (hsame : ∀ j, 0 < refs j ∨ j ∈ rest → h₁.data j = h.data j)
    (hsize : h₁.getSize id' = h.getSize id) :
    h.Wrote h₂ refs (id :: rest) (id' :: rest') (h₁.data id' ++ new) := by
  have hkept : h₂.data id' = h₁.data id' := hrest.kept id' (by simp [addRef])
  refine ⟨?_, ?_, ?_, Heap.holds_cons_iff.mpr hrest.held⟩
  · rw [Heap.flat_cons, hkept, hrest.flat]
  · have hsizes : rest.map h₁.getSize = rest.map h.getSize := by
      refine List.map_congr_left fun j hj => ?_
      rw [Heap.getSize, Heap.getSize, hsame j (Or.inr hj)]
    rw [List.map_cons, List.map_cons, hrest.sizes, hsizes, ← hsize, Heap.getSize, hkept,
      Heap.getSize]
  · intro j hj
    rw [hrest.kept j (by rw [addRef]; omega), hsame j (Or.inl hj)]

/-- **The writing loop** overwrites the requested range of the buffers it is given; every
buffer that another pointer leads to keeps its content. -/
theorem rwLoop_write {leftOff reqSize reqOff : ℕ} {buf : List Byte} (hbuf : buf.length = reqSize)
    (ids : List BufferId) (first : Bool) (off sizeLeft : ℕ) (h : Heap) (refs : BufferId → ℕ)
    (hh : h.Holds refs ids) (hchain : h.Chain leftOff ids first off)
    (hcur : sizeLeft ≠ 0 → Cursor reqSize reqOff off sizeLeft ∧
      (if first then leftOff else 0) + ahead reqSize reqOff off sizeLeft + sizeLeft
        ≤ (h.flat ids).length) :
    ∃ ids' h', rwLoop false leftOff reqSize reqOff ids first off sizeLeft h buf =
        .ok (ids', h', buf) ∧
      h.Wrote h' refs ids ids' (overwrite (h.flat ids)
        ((if first then leftOff else 0) + ahead reqSize reqOff off sizeLeft)
        (slice buf (reqSize - sizeLeft) sizeLeft)) := by
  induction ids generalizing first off sizeLeft h refs with
  | nil =>
      obtain rfl : sizeLeft = 0 := Heap.done_of_nil hcur
      rw [slice_zero, overwrite_nil]
      exact ⟨[], h, rwLoop_done [], .refl hh⟩
  | cons id rest ih =>
      rcases Nat.eq_zero_or_pos sizeLeft with rfl | hpos
      · rw [slice_zero, overwrite_nil]
        exact ⟨id :: rest, h, rwLoop_done _, .refl hh⟩
      obtain ⟨hcursor, hfit⟩ := hcur hpos.ne'
      obtain ⟨hfront, hword, htotal⟩ := hchain.head
      have hdata : (h.data id).length = h.getSize id := rfl
      rw [Heap.flat_cons, List.length_append] at hfit
      have hleft := hcursor.left
      have htail : ∀ h' : Heap, (∀ j ∈ rest, h'.data j = h.data j) →
          h'.Chain leftOff rest false (off + (h.getSize id - if first then leftOff else 0)) :=
        fun h' hsame => hchain.tail hsame
      generalize hbase : (if first then leftOff else 0) = base at *
      rcases Nat.lt_or_ge (base + ahead reqSize reqOff off sizeLeft) (h.getSize id)
        with hreach | hskip
      · -- The chunk goes into this buffer or its clone; the loop goes on with the new heap.
        have hcur' := hcursor.move base (h.getSize id) (h.flat rest).length hreach (by omega)
        rw [rwLoop_move hbase hcursor hpos.ne' hfront hword (by omega) hreach]
        generalize ahead reqSize reqOff off sizeLeft = k at *
        obtain ⟨size, hsize⟩ : ∃ size, size = min sizeLeft (h.getSize id - (base + k)) := ⟨_, rfl⟩
        simp only [← hsize] at hcur' ⊢
        obtain ⟨id', h₁, hmoved, hnew, hsame, hheld⟩ :=
          Heap.moveChunk_write hh (base + k) buf (reqSize - sizeLeft) size
        have hrestSame : ∀ j ∈ rest, h₁.data j = h.data j := fun j hj => hsame j (Or.inr hj)
        have hflat : h₁.flat rest = h.flat rest := Heap.flat_congr hrestSame
        obtain ⟨rest', h₂, hloop, hwrote⟩ := ih false
          (off + (h.getSize id - base)) (sizeLeft - size) h₁ (addRef refs id')
          (Heap.holds_cons_iff.mp hheld) (htail h₁ hrestSame) fun hmore => by
            obtain ⟨hc, hzero, hle⟩ := hcur' hmore
            rw [hflat]
            simp only [Bool.false_eq_true, if_false]
            exact ⟨hc, by omega⟩
        have hchunk : (slice buf (reqSize - sizeLeft) size).length = size :=
          length_slice (by omega)
        have hsame₁ : h₁.getSize id' = h.getSize id := by
          rw [Heap.getSize, hnew, length_overwrite (by omega), hdata]
        refine ⟨id' :: rest', h₂, by simp only [hmoved, hloop, ok_bind]; rfl, ?_⟩
        -- The bytes moved here and those moved later make up the request.
        convert hwrote.cons hsame hsame₁ using 1
        have hrest : overwrite (h₁.flat rest) ((if false then leftOff else 0) +
            ahead reqSize reqOff (off + (h.getSize id - base)) (sizeLeft - size))
            (slice buf (reqSize - (sizeLeft - size)) (sizeLeft - size)) =
              overwrite (h.flat rest) 0
                (slice buf (reqSize - sizeLeft + size) (sizeLeft - size)) := by
          rw [hflat]
          by_cases hmore : sizeLeft - size = 0
          · rw [hmore, slice_zero, slice_zero, overwrite_nil, overwrite_nil]
          · rw [(hcur' hmore).2.1]
            congr 2
            omega
        have hall : (slice buf (reqSize - sizeLeft) sizeLeft).length = sizeLeft :=
          length_slice (by omega)
        rw [Heap.flat_cons, overwrite_append_cross (by omega), hall, hdata, ← hsize,
          take_slice (by omega), drop_slice, hnew, hrest]
      · obtain ⟨hc, hahead, hle⟩ :=
          hcursor.skip base (h.getSize id) (h.flat rest).length hfront hskip (by omega)
        obtain ⟨rest', h₂, hloop, hwrote⟩ := ih false
          (off + (h.getSize id - base)) sizeLeft h (addRef refs id)
          (Heap.holds_cons_iff.mp hh) (htail h fun _ _ => rfl) fun _ => by
            simp only [Bool.false_eq_true, if_false]
            exact ⟨hc, by omega⟩
        refine ⟨id :: rest', h₂, ?_, ?_⟩
        · rw [rwLoop_skip hbase hcursor hpos.ne' hfront hword hskip]
          simp only [hloop, ok_bind]
          rfl
        · convert hwrote.cons (fun _ _ => rfl) rfl using 1
          rw [Heap.flat_cons, overwrite_append_right (by omega), hahead, hdata]
          simp only [Bool.false_eq_true, if_false, Nat.zero_add]

end Writing

end Util
end CoherentDB
