import CoherentDB.Util.MultiBuffer

/-!
# The buffers of `file::read`

A read is widened to page bounds and cut into buffers of 512 KiB.  The bounds and the loop that
allocates the buffers have the types of the source: the bounds, the index and the lengths are
`uint32_t`, the running offset is a `uint64_t`.  The array `vecs` has `num_bufs` entries that are
not set at first, and to set one behind its end is an overrun.

The loop is modelled with and without `d_assert`, and for every behaviour of the allocation
functions of the C library, which may fail.  POSIX has `posix_memalign` fail for lack of memory,
and always where the alignment is no multiple of the size of a pointer.

Abstractly the loop cuts the aligned range into `pieces`.  This is its invariant: what is
allocated so far, followed by the pieces of the range that is left, are the pieces of the
whole range.
-/

namespace CoherentDB
namespace Util

open Debug MachineInt ListRange

/-- What memory holds in the block at an address. -/
def blockAt (memory : ℕ → Byte) (addr size : ℕ) : List Byte :=
  (List.range size).map fun j => memory (addr + j)

theorem length_blockAt (memory : ℕ → Byte) (addr size : ℕ) :
    (blockAt memory addr size).length = size := by
  rw [blockAt, List.length_map, List.length_range]

namespace ReadBuffers

/-- The allocation functions of the C library on a heap.  They return an address, or nothing
where the call fails. -/
structure Allocator (σ : Type) where
  malloc : σ → UInt32 → Option (ℕ × σ)
  posixMemalign : σ → UInt32 → UInt32 → Option (ℕ × σ)

/-- The fields of `buffer`. -/
structure Buffer where
  data : ℕ
  size : UInt32
  deriving DecidableEq, Repr

/-- `struct iovec`. -/
structure IoVec where
  iovBase : ℕ
  iovLen : UInt32
  deriving DecidableEq, Repr

/-- What the loop has allocated: the list of buffers, the vectors and the heap. -/
structure Allocated (σ : Type) where
  bufs : List Buffer
  vecs : List (Option IoVec)
  heap : σ

/-- `single_buf_size`. -/
def singleBufSize : UInt32 := 512 * 1024

theorem toNat_singleBufSize : singleBufSize.toNat = 512 * 1024 := by decide

/-- `num_bufs`. -/
def numBufs (alignedOff alignedEnd : UInt32) : UInt32 :=
  if (alignedEnd - alignedOff) % singleBufSize = 0 then
    (alignedEnd - alignedOff) / singleBufSize
  else
    (alignedEnd - alignedOff) / singleBufSize + 1

/-- `buf_len`.  The difference has 64 bits before it is stored. -/
def bufLen (alignedEnd : UInt32) (curOff : UInt64) : UInt32 :=
  if alignedEnd.toUInt64 ≤ curOff + singleBufSize.toUInt64 then
    (alignedEnd.toUInt64 - curOff).toUInt32
  else
    singleBufSize

/-- `NO_ALIGNMENT`. -/
def noAlignment : UInt32 := 0

section Loop

variable {σ : Type} (lib : Allocator σ)

/-- `alloc_aligned`. -/
def allocAligned (heap : σ) (size alignment : UInt32) : Except Failure (ℕ × σ) :=
  match if alignment = noAlignment then lib.malloc heap size
    else lib.posixMemalign heap alignment size with
  | some mem => .ok mem
  | none => .error .badAlloc

/-- The constructor of `buffer`. -/
def newBuffer (heap : σ) (size alignment : UInt32) : Except Failure (Buffer × σ) := do
  let (data, heap) ← allocAligned lib heap size alignment
  return (⟨data, size⟩, heap)

/-- `vecs[i] = vec`. -/
def setVec (vecs : List (Option IoVec)) (i : UInt32) (vec : IoVec) :
    Except Failure (List (Option IoVec)) :=
  if i.toNat < vecs.length then .ok (vecs.set i.toNat (some vec)) else .error .undefinedBehaviour

variable (checked : Bool) (alignment alignedEnd num : UInt32)

/-- The body of the loop; `checked` says whether `d_assert` is compiled in. -/
def body (curOff : UInt64) (i : UInt32) (st : Allocated σ) : Except Failure (Allocated σ) := do
  dAssertElse .assertion (checked = true → i < num)
  let (buf, heap) ← newBuffer lib st.heap (bufLen alignedEnd curOff) alignment
  let vecs ← setVec st.vecs i ⟨buf.data, bufLen alignedEnd curOff⟩
  return ⟨st.bufs ++ [buf], vecs, heap⟩

theorem curOff_lt_iff {alignedEnd : UInt32} {curOff : UInt64} :
    curOff < alignedEnd.toUInt64 ↔ curOff.toNat < alignedEnd.toNat := by
  rw [UInt64.lt_iff_toNat_lt, UInt32.toNat_toUInt64]

/-- The running offset comes closer to the end, and does not wrap on its way. -/
theorem toNat_add_singleBufSize {alignedEnd : UInt32} {curOff : UInt64}
    (h : curOff < alignedEnd.toUInt64) :
    (curOff + singleBufSize.toUInt64).toNat = curOff.toNat + singleBufSize.toNat := by
  rw [curOff_lt_iff] at h
  have hend := alignedEnd.toNat_lt
  have hsize : singleBufSize.toUInt64.toNat = 512 * 1024 := by decide
  rw [UInt64.toNat_add, hsize, toNat_singleBufSize]
  omega

/-- The loop. -/
def loop (curOff : UInt64) (i : UInt32) (st : Allocated σ) : Except Failure (Allocated σ) :=
  if curOff < alignedEnd.toUInt64 then do
    let st' ← body lib checked alignment alignedEnd num curOff i st
    loop (curOff + singleBufSize.toUInt64) (i + 1) st'
  else
    return st
termination_by alignedEnd.toNat - curOff.toNat
decreasing_by
  rename_i h
  have hlt := curOff_lt_iff.mp h
  rw [toNat_add_singleBufSize h, toNat_singleBufSize]
  omega

end Loop

/-- The part of `file::read` that allocates the buffers. -/
def allocateBuffers {σ : Type} (lib : Allocator σ) (checked : Bool)
    (alignment alignedOff alignedEnd : UInt32) (heap : σ) : Except Failure (Allocated σ) :=
  let num := numBufs alignedOff alignedEnd
  loop lib checked alignment alignedEnd num alignedOff.toUInt64 0
    ⟨[], List.replicate num.toNat none, heap⟩

/-- The bounds that `file::read` computes. -/
structure Bounds where
  alignedOff : UInt32
  shift : UInt32
  alignedEnd : UInt32
  deriving DecidableEq, Repr

/-- `aligned_size`. -/
def Bounds.alignedSize (b : Bounds) : UInt32 := b.alignedEnd - b.alignedOff

theorem Bounds.toNat_alignedSize {b : Bounds} (hle : b.alignedOff ≤ b.alignedEnd) :
    b.alignedSize.toNat = b.alignedEnd.toNat - b.alignedOff.toNat :=
  UInt32.toNat_sub_of_le _ _ hle

/-- The aligned range covers a request, which starts in the first buffer. -/
structure Bounds.Covers (b : Bounds) (size : UInt32) : Prop where
  ordered : b.alignedOff ≤ b.alignedEnd
  shift : b.shift.toNat < singleBufSize.toNat
  request : b.alignedOff.toNat + b.shift.toNat + size.toNat ≤ b.alignedEnd.toNat

theorem Bounds.Covers.toNat_add {b : Bounds} {size : UInt32} (h : b.Covers size) :
    (size + b.shift).toNat = size.toNat + b.shift.toNat := by
  have hrequest := h.request
  have hword := b.alignedEnd.toNat_lt
  rw [UInt32.toNat_add, Nat.mod_eq_of_lt (by omega)]

/-- The part of `file::read` before the loop.  Each bound is cut to 32 bits when it is stored. -/
def readBounds (pageSize size : UInt32) (offset : UInt64) : Except Failure Bounds := do
  let downOff ← alignDown 64 offset.toNat pageSize.toNat
  let alignedOff := UInt32.ofNat downOff
  let shift := (offset - alignedOff.toUInt64).toUInt32
  let upEnd ← alignUp 64 (offset + size.toUInt64).toNat pageSize.toNat
  return ⟨alignedOff, shift, UInt32.ofNat upEnd⟩

section Numbers

variable {alignedOff alignedEnd : UInt32} {curOff : UInt64}

/-- `num_bufs` is the number of pieces. -/
theorem toNat_numBufs (alignedOff alignedEnd : UInt32) :
    (numBufs alignedOff alignedEnd).toNat =
      (pieces singleBufSize.toNat (alignedEnd - alignedOff).toNat).length := by
  have hword := (alignedEnd - alignedOff).toNat_lt
  have hzero : (alignedEnd - alignedOff) % singleBufSize = 0 ↔
      (alignedEnd - alignedOff).toNat % singleBufSize.toNat = 0 := by
    rw [← UInt32.toNat_inj, UInt32.toNat_mod]
    rfl
  rw [length_pieces, numBufs]
  simp only [hzero]
  split_ifs
  · rw [UInt32.toNat_div]
  · rw [UInt32.toNat_add, UInt32.toNat_div, toNat_singleBufSize]
    show ((alignedEnd - alignedOff).toNat / (512 * 1024) + 1) % 2 ^ 32 = _
    omega

theorem toNat_numBufs_of_le (h : alignedOff ≤ alignedEnd) :
    (numBufs alignedOff alignedEnd).toNat =
      (pieces singleBufSize.toNat (alignedEnd.toNat - alignedOff.toNat)).length := by
  rw [toNat_numBufs, UInt32.toNat_sub_of_le _ _ h]

theorem numBufs_pos (h : alignedEnd ≠ alignedOff) : 0 < (numBufs alignedOff alignedEnd).toNat := by
  have hsome : 0 < (alignedEnd - alignedOff).toNat := by
    rw [← UInt32.toNat_zero, ← UInt32.lt_iff_toNat_lt, UInt32.pos_iff_ne_zero, Ne,
      UInt32.sub_eq_iff_eq_add, UInt32.zero_add]
    exact h
  rw [toNat_numBufs, pieces_step (by decide) hsome, List.length_cons]
  exact Nat.succ_pos _

/-- The length of a buffer in 32 bits is the next piece of the range. -/
theorem toNat_bufLen (h : curOff < alignedEnd.toUInt64) :
    (bufLen alignedEnd curOff).toNat =
      min singleBufSize.toNat (alignedEnd.toNat - curOff.toNat) := by
  have hend := alignedEnd.toNat_lt
  have hsum := toNat_add_singleBufSize h
  have hsub : (alignedEnd.toUInt64 - curOff).toNat = alignedEnd.toNat - curOff.toNat := by
    rw [UInt64.toNat_sub_of_le _ _ (UInt64.le_of_lt h), UInt32.toNat_toUInt64]
  have hlast : alignedEnd.toUInt64 ≤ curOff + singleBufSize.toUInt64 ↔
      alignedEnd.toNat ≤ curOff.toNat + singleBufSize.toNat := by
    rw [UInt64.le_iff_toNat_le, hsum, UInt32.toNat_toUInt64]
  unfold bufLen
  split_ifs with hle
  · rw [hlast] at hle
    rw [UInt64.toNat_toUInt32, hsub]
    omega
  · rw [hlast] at hle
    omega

end Numbers

section Invariant

variable {σ : Type} {lib : Allocator σ} {checked : Bool} {alignment alignedOff alignedEnd : UInt32}
  {curOff : UInt64} {i : UInt32} {st : Allocated σ}

/-- The vector that describes a buffer to `preadv`. -/
def Buffer.vec (b : Buffer) : IoVec := ⟨b.data, b.size⟩

/-- The calls of `posix_memalign` for blocks of these sizes, one after the other, all succeed. -/
def Allocator.Grants (lib : Allocator σ) (alignment : UInt32) : σ → List ℕ → Prop
  | _, [] => True
  | heap, size :: rest =>
      ∃ mem, lib.posixMemalign heap alignment (UInt32.ofNat size) = some mem ∧
        lib.Grants alignment mem.2 rest

/-- Between two rounds of the loop: the buffers so far and the pieces of what is left of the range
make up the range, and a vector is set for each buffer. -/
structure Invariant (alignedOff alignedEnd : UInt32) (curOff : UInt64) (i : UInt32)
    (st : Allocated σ) : Prop where
  cut : st.bufs.map (fun b => b.size.toNat) ++
      pieces singleBufSize.toNat (alignedEnd.toNat - curOff.toNat) =
    pieces singleBufSize.toNat (alignedEnd.toNat - alignedOff.toNat)
  index : i.toNat = st.bufs.length
  vectors : st.vecs = st.bufs.map (fun b => some b.vec) ++
    List.replicate ((numBufs alignedOff alignedEnd).toNat - st.bufs.length) none

theorem newBuffer_eq (lib : Allocator σ) (heap : σ) (size : UInt32)
    (halign : alignment ≠ noAlignment) :
    newBuffer lib heap size alignment =
      match lib.posixMemalign heap alignment size with
      | some mem => .ok (⟨mem.1, size⟩, mem.2)
      | none => .error .badAlloc := by
  rw [newBuffer, allocAligned, if_neg halign]
  cases lib.posixMemalign heap alignment size <;> rfl

theorem setVec_of_lt {vecs : List (Option IoVec)} (h : i.toNat < vecs.length) (vec : IoVec) :
    setVec vecs i vec = .ok (vecs.set i.toNat (some vec)) :=
  if_pos h

/-- There is room for one more buffer as long as the range is not used up. -/
theorem Invariant.index_lt (hinv : Invariant alignedOff alignedEnd curOff i st)
    (hle : alignedOff ≤ alignedEnd) (hlt : curOff < alignedEnd.toUInt64) :
    st.bufs.length < (numBufs alignedOff alignedEnd).toNat := by
  rw [curOff_lt_iff] at hlt
  rw [toNat_numBufs_of_le hle, ← hinv.cut, List.length_append, List.length_map,
    pieces_step (by decide) (by omega : 0 < alignedEnd.toNat - curOff.toNat), List.length_cons]
  omega

/-- One more buffer of the length that the code computes. -/
theorem Invariant.push (hinv : Invariant alignedOff alignedEnd curOff i st)
    (hle : alignedOff ≤ alignedEnd) (hlt : curOff < alignedEnd.toUInt64) {b : Buffer}
    (hb : b.size = bufLen alignedEnd curOff) (heap : σ) :
    Invariant alignedOff alignedEnd (curOff + singleBufSize.toUInt64) (i + 1)
      ⟨st.bufs ++ [b], st.vecs.set i.toNat (some b.vec), heap⟩ := by
  have hroom := hinv.index_lt hle hlt
  have hword := (numBufs alignedOff alignedEnd).toNat_lt
  have hleft : 0 < alignedEnd.toNat - curOff.toNat := Nat.sub_pos_of_lt (curOff_lt_iff.mp hlt)
  refine ⟨?_, ?_, ?_⟩
  · rw [← hinv.cut, pieces_step (by decide) hleft, toNat_add_singleBufSize hlt, List.map_append,
      List.append_assoc, List.map_singleton, hb, toNat_bufLen hlt, Nat.sub_sub]
    rfl
  · rw [UInt32.toNat_add, hinv.index, List.length_append]
    show (st.bufs.length + 1) % 2 ^ 32 = st.bufs.length + 1
    omega
  · -- The entry for the buffer is the first one that is not set.
    have hnext : (numBufs alignedOff alignedEnd).toNat - st.bufs.length =
        (numBufs alignedOff alignedEnd).toNat - (st.bufs.length + 1) + 1 := by omega
    rw [hinv.vectors, hinv.index, hnext, List.replicate_succ, List.set_append_right _ _ (by simp),
      List.length_map, Nat.sub_self, List.set_cons_zero, List.map_append, List.append_assoc,
      List.length_append]
    rfl

/-- At the end of the range the buffers make it up, and all the vectors are set. -/
theorem Invariant.finished (hinv : Invariant alignedOff alignedEnd curOff i st)
    (hle : alignedOff ≤ alignedEnd) (hlt : ¬ curOff < alignedEnd.toUInt64) :
    alignedEnd.toNat - curOff.toNat = 0 ∧
      st.bufs.map (fun b => b.size.toNat) =
        pieces singleBufSize.toNat (alignedEnd.toNat - alignedOff.toNat) ∧
      st.vecs = st.bufs.map fun b => some b.vec := by
  have hdone : alignedEnd.toNat - curOff.toNat = 0 := by
    rw [curOff_lt_iff] at hlt
    omega
  have hcut := hinv.cut
  rw [hdone, pieces_zero, List.append_nil] at hcut
  have hcount : (numBufs alignedOff alignedEnd).toNat - st.bufs.length = 0 := by
    rw [toNat_numBufs_of_le hle, ← hcut, List.length_map, Nat.sub_self]
  have hvecs := hinv.vectors
  rw [hcount, List.replicate_zero, List.append_nil] at hvecs
  exact ⟨hdone, hcut, hvecs⟩

/-- One round: a buffer is allocated and its vector set, or the allocation fails. -/
theorem body_eq (hinv : Invariant alignedOff alignedEnd curOff i st)
    (halign : alignment ≠ noAlignment) (hle : alignedOff ≤ alignedEnd)
    (hlt : curOff < alignedEnd.toUInt64) :
    body lib checked alignment alignedEnd (numBufs alignedOff alignedEnd) curOff i st =
      match lib.posixMemalign st.heap alignment (bufLen alignedEnd curOff) with
      | some mem =>
          .ok ⟨st.bufs ++ [⟨mem.1, bufLen alignedEnd curOff⟩],
            st.vecs.set i.toNat (some ⟨mem.1, bufLen alignedEnd curOff⟩), mem.2⟩
      | none => .error .badAlloc := by
  have hindex : i < numBufs alignedOff alignedEnd := by
    rw [UInt32.lt_iff_toNat_lt, hinv.index]
    exact hinv.index_lt hle hlt
  have hvec : i.toNat < st.vecs.length := by
    rw [hinv.vectors, List.length_append, List.length_map, List.length_replicate]
    rw [UInt32.lt_iff_toNat_lt] at hindex
    omega
  rw [body, dAssertElse_of fun _ => hindex, ok_bind, newBuffer_eq lib _ _ halign]
  cases lib.posixMemalign st.heap alignment (bufLen alignedEnd curOff) with
  | none => rfl
  | some mem =>
      rw [ok_bind]
      dsimp only
      rw [setVec_of_lt hvec, ok_bind]
      rfl

/-- The next block that the pieces ask for is the one that the loop asks for. -/
theorem grants_step (hlt : curOff < alignedEnd.toUInt64) (heap : σ) :
    lib.Grants alignment heap (pieces singleBufSize.toNat (alignedEnd.toNat - curOff.toNat)) ↔
      ∃ mem, lib.posixMemalign heap alignment (bufLen alignedEnd curOff) = some mem ∧
        lib.Grants alignment mem.2 (pieces singleBufSize.toNat
          (alignedEnd.toNat - (curOff + singleBufSize.toUInt64).toNat)) := by
  have hleft : 0 < alignedEnd.toNat - curOff.toNat := Nat.sub_pos_of_lt (curOff_lt_iff.mp hlt)
  rw [pieces_step (by decide) hleft, ← toNat_bufLen hlt, Allocator.Grants, UInt32.ofNat_toNat,
    toNat_add_singleBufSize hlt, Nat.sub_sub]

/-- The whole loop: it allocates the buffers as the range is cut where all the allocations
succeed, and throws `bad_alloc` otherwise. -/
theorem loop_cases (hinv : Invariant alignedOff alignedEnd curOff i st)
    (halign : alignment ≠ noAlignment) (hle : alignedOff ≤ alignedEnd) :
    (lib.Grants alignment st.heap
        (pieces singleBufSize.toNat (alignedEnd.toNat - curOff.toNat)) →
      ∃ st', loop lib checked alignment alignedEnd (numBufs alignedOff alignedEnd) curOff i st =
          .ok st' ∧
        st'.bufs.map (fun b => b.size.toNat) =
          pieces singleBufSize.toNat (alignedEnd.toNat - alignedOff.toNat) ∧
        st'.vecs = st'.bufs.map fun b => some b.vec) ∧
    (¬ lib.Grants alignment st.heap
        (pieces singleBufSize.toNat (alignedEnd.toNat - curOff.toNat)) →
      loop lib checked alignment alignedEnd (numBufs alignedOff alignedEnd) curOff i st =
        .error .badAlloc) := by
  -- Induction on what is left of the range.
  induction hn : alignedEnd.toNat - curOff.toNat using Nat.strong_induction_on
    generalizing curOff i st with
  | _ n ih =>
      rw [← hn, loop]
      by_cases hlt : curOff < alignedEnd.toUInt64
      · rw [if_pos hlt, body_eq hinv halign hle hlt, grants_step hlt]
        cases hcall : lib.posixMemalign st.heap alignment (bufLen alignedEnd curOff) with
        | none =>
            dsimp only
            rw [error_bind]
            refine ⟨?_, fun _ => rfl⟩
            rintro ⟨mem, hmem, -⟩
            cases hmem
        | some mem =>
            dsimp only
            rw [ok_bind]
            have hnext := toNat_add_singleBufSize hlt
            have hcur := curOff_lt_iff.mp hlt
            rw [toNat_singleBufSize] at hnext
            obtain ⟨hgranted, hrefused⟩ := ih _ (by omega)
              (hinv.push hle hlt (b := ⟨mem.1, bufLen alignedEnd curOff⟩) rfl mem.2) rfl
            refine ⟨?_, fun hnot => hrefused fun hrest => hnot ⟨mem, rfl, hrest⟩⟩
            rintro ⟨mem', hmem, hrest⟩
            obtain rfl := Option.some.inj hmem
            exact hgranted hrest
      · rw [if_neg hlt]
        obtain ⟨hdone, hcut, hvecs⟩ := hinv.finished hle hlt
        refine ⟨fun _ => ⟨st, rfl, hcut, hvecs⟩, fun hnot => absurd ?_ hnot⟩
        rw [hdone, pieces_zero]
        trivial

/-- The buffers are allocated as the range is cut, or an allocation fails. -/
theorem allocateBuffers_cases (lib : Allocator σ) (checked : Bool) (heap : σ)
    (halign : alignment ≠ noAlignment) (hle : alignedOff ≤ alignedEnd) :
    (lib.Grants alignment heap
        (pieces singleBufSize.toNat (alignedEnd.toNat - alignedOff.toNat)) →
      ∃ st, allocateBuffers lib checked alignment alignedOff alignedEnd heap = .ok st ∧
        st.bufs.map (fun b => b.size.toNat) =
          pieces singleBufSize.toNat (alignedEnd.toNat - alignedOff.toNat) ∧
        st.vecs = st.bufs.map fun b => some b.vec) ∧
    (¬ lib.Grants alignment heap
        (pieces singleBufSize.toNat (alignedEnd.toNat - alignedOff.toNat)) →
      allocateBuffers lib checked alignment alignedOff alignedEnd heap = .error .badAlloc) := by
  have hstart : Invariant alignedOff alignedEnd alignedOff.toUInt64 0
      ⟨[], List.replicate (numBufs alignedOff alignedEnd).toNat none, heap⟩ := by
    refine ⟨?_, rfl, rfl⟩
    rw [UInt32.toNat_toUInt64]
    rfl
  have hloop := @loop_cases _ lib checked _ _ _ _ _ _ hstart halign hle
  rw [UInt32.toNat_toUInt64] at hloop
  exact hloop

/-- An empty range needs no buffer. -/
theorem allocateBuffers_of_le (h : alignedEnd ≤ alignedOff) (heap : σ) :
    allocateBuffers lib checked alignment alignedOff alignedEnd heap =
      .ok ⟨[], List.replicate (numBufs alignedOff alignedEnd).toNat none, heap⟩ := by
  have hnot : ¬ alignedOff.toUInt64 < alignedEnd.toUInt64 := by
    rw [UInt32.le_iff_toNat_le] at h
    rw [curOff_lt_iff, UInt32.toNat_toUInt64]
    omega
  rw [allocateBuffers, loop, if_neg hnot]
  rfl

end Invariant

section Posix

variable {σ : Type} {lib : Allocator σ} {alignment : UInt32} {k s n : ℕ}

/-- `posix_memalign` fails with EINVAL where the alignment is no multiple of the size of a
pointer. -/
def Allocator.RejectsAlignment (lib : Allocator σ) : Prop :=
  ∀ heap alignment size, alignment.toNat % 8 ≠ 0 → lib.posixMemalign heap alignment size = none

/-- Pages of one, two or four bytes are never granted. -/
theorem Allocator.RejectsAlignment.not_grants (h : lib.RejectsAlignment)
    (hpage : alignment.toNat = 2 ^ k) (hk : k ≤ 2) (hs : 0 < s) (hn : 0 < n) (heap : σ) :
    ¬ lib.Grants alignment heap (pieces s n) := by
  have hsmall : alignment.toNat % 8 ≠ 0 := by
    rw [hpage]
    interval_cases k <;> decide
  rw [pieces_step hs hn]
  rintro ⟨mem, hmem, -⟩
  rw [h heap alignment _ hsmall] at hmem
  cases hmem

end Posix

/-- The buffers tile the aligned range: there are `num_bufs` of them, none is empty or longer than
512 KiB, all but the last are of this length, their lengths add up to `aligned_size`, and each
entry of `vecs` is set to its buffer. -/
structure Tiles {σ : Type} (alignedOff alignedEnd : UInt32) (st : Allocated σ) : Prop where
  count : st.bufs.length = (numBufs alignedOff alignedEnd).toNat
  nonempty : ∀ b ∈ st.bufs, 0 < b.size
  atMost : ∀ b ∈ st.bufs, b.size ≤ singleBufSize
  whole : ∀ b ∈ st.bufs.dropLast, b.size = singleBufSize
  total : (st.bufs.map fun b => b.size.toNat).sum = (alignedEnd - alignedOff).toNat
  vectors : st.vecs = st.bufs.map fun b => some b.vec

section Tiling

variable {σ : Type} {lib : Allocator σ} {checked : Bool} {alignment alignedOff alignedEnd : UInt32}
  {st : Allocated σ} {heap : σ}

theorem tiles_of_pieces (hle : alignedOff ≤ alignedEnd)
    (hcut : st.bufs.map (fun b => b.size.toNat) =
      pieces singleBufSize.toNat (alignedEnd.toNat - alignedOff.toNat))
    (hvecs : st.vecs = st.bufs.map fun b => some b.vec) : Tiles alignedOff alignedEnd st := by
  have hmem : ∀ b ∈ st.bufs, b.size.toNat ∈
      pieces singleBufSize.toNat (alignedEnd.toNat - alignedOff.toNat) := by
    intro b hb
    rw [← hcut]
    exact List.mem_map_of_mem hb
  refine ⟨?_, ?_, ?_, ?_, ?_, hvecs⟩
  · rw [toNat_numBufs_of_le hle, ← hcut, List.length_map]
  · intro b hb
    rw [UInt32.lt_iff_toNat_lt]
    exact (mem_pieces (by decide) (hmem b hb)).1
  · intro b hb
    rw [UInt32.le_iff_toNat_le]
    exact (mem_pieces (by decide) (hmem b hb)).2
  · intro b hb
    rw [← UInt32.toNat_inj]
    apply eq_of_mem_dropLast_pieces
    rw [← hcut, ← List.map_dropLast]
    exact List.mem_map_of_mem hb
  · rw [hcut, sum_pieces, UInt32.toNat_sub_of_le _ _ hle]

/-- What the loop returns is cut from the range. -/
theorem allocateBuffers_ok (halign : alignment ≠ noAlignment) (hle : alignedOff ≤ alignedEnd)
    (h : allocateBuffers lib checked alignment alignedOff alignedEnd heap = .ok st) :
    st.bufs.map (fun b => b.size.toNat) =
        pieces singleBufSize.toNat (alignedEnd.toNat - alignedOff.toNat) ∧
      st.vecs = st.bufs.map fun b => some b.vec := by
  obtain ⟨hgranted, hrefused⟩ := allocateBuffers_cases lib checked heap halign hle
  by_cases hall : lib.Grants alignment heap
      (pieces singleBufSize.toNat (alignedEnd.toNat - alignedOff.toNat))
  · obtain ⟨st', hok, hcut, hvecs⟩ := hgranted hall
    rw [h] at hok
    obtain rfl := Except.ok.inj hok
    exact ⟨hcut, hvecs⟩
  · rw [hrefused hall] at h
    cases h

end Tiling

section Requests

theorem ne_noAlignment {pageSize : UInt32} {k : ℕ} (hpage : pageSize.toNat = 2 ^ k) :
    pageSize ≠ noAlignment := by
  rintro rfl
  exact (Nat.two_pow_pos k).ne hpage

variable {pageSize size : UInt32} {offset : UInt64} {k : ℕ}

/-- What the bounds of a request are before they are cut to 32 bits. -/
theorem readBounds_two_pow (hpage : pageSize.toNat = 2 ^ k) :
    readBounds pageSize size offset =
      .ok ⟨UInt32.ofNat (offset.toNat - offset.toNat % 2 ^ k),
        (offset - (UInt32.ofNat (offset.toNat - offset.toNat % 2 ^ k)).toUInt64).toUInt32,
        UInt32.ofNat (ceilTo (2 ^ k) (offset + size.toUInt64).toNat % 2 ^ 64)⟩ := by
  rw [readBounds, hpage, alignDown_two_pow offset.toNat_lt, ok_bind,
    alignUp_two_pow (offset + size.toUInt64).toNat_lt, ok_bind]
  rfl

/-- The bounds of a request whose aligned end fits 32 bits. -/
theorem readBounds_eq (hpage : pageSize.toNat = 2 ^ k)
    (hfits : ceilTo (2 ^ k) (offset.toNat + size.toNat) < 2 ^ 32) :
    ∃ b, readBounds pageSize size offset = .ok b ∧
      b.alignedOff.toNat = offset.toNat - offset.toNat % 2 ^ k ∧
      b.shift.toNat = offset.toNat % 2 ^ k ∧
      b.alignedEnd.toNat = ceilTo (2 ^ k) (offset.toNat + size.toNat) := by
  obtain ⟨-, hge, -⟩ := ceilTo_spec (Nat.two_pow_pos k) (offset.toNat + size.toNat)
  have hle := Nat.mod_le offset.toNat (2 ^ k)
  have hsum : (offset + size.toUInt64).toNat = offset.toNat + size.toNat := by
    rw [UInt64.toNat_add, UInt32.toNat_toUInt64, Nat.mod_eq_of_lt (by omega)]
  have hoff : (UInt32.ofNat (offset.toNat - offset.toNat % 2 ^ k)).toNat =
      offset.toNat - offset.toNat % 2 ^ k := by
    rw [UInt32.toNat_ofNat', Nat.mod_eq_of_lt (by omega)]
  have hend : (UInt32.ofNat (ceilTo (2 ^ k) (offset.toNat + size.toNat) % 2 ^ 64)).toNat =
      ceilTo (2 ^ k) (offset.toNat + size.toNat) := by
    rw [UInt32.toNat_ofNat', Nat.mod_eq_of_lt (by omega), Nat.mod_eq_of_lt (by omega)]
  have hshift : (offset - (UInt32.ofNat (offset.toNat - offset.toNat % 2 ^ k)).toUInt64).toNat =
      offset.toNat % 2 ^ k := by
    rw [UInt64.toNat_sub_of_le _ _ (by rw [UInt64.le_iff_toNat_le, UInt32.toNat_toUInt64]; omega),
      UInt32.toNat_toUInt64, hoff]
    omega
  rw [readBounds_two_pow hpage, hsum]
  refine ⟨_, rfl, hoff, ?_, hend⟩
  rw [UInt64.toNat_toUInt32, hshift, Nat.mod_eq_of_lt (by omega)]

/-- The aligned end of every request, cut to 32 bits. -/
theorem readBounds_truncates (hpage : pageSize.toNat = 2 ^ k) :
    ∃ b, readBounds pageSize size offset = .ok b ∧
      b.alignedEnd.toNat =
        ceilTo (2 ^ k) (offset + size.toUInt64).toNat % 2 ^ 64 % 2 ^ 32 :=
  ⟨_, readBounds_two_pow hpage, UInt32.toNat_ofNat'⟩

/-- The aligned range covers the request, and the request starts in its first page. -/
theorem readBounds_covers (hpage : pageSize.toNat = 2 ^ k) (hsize : 1 ≤ size)
    (hfits : ceilTo (2 ^ k) (offset.toNat + size.toNat) < 2 ^ 32) :
    ∃ b, readBounds pageSize size offset = .ok b ∧ b.alignedOff < b.alignedEnd ∧
      b.shift.toNat < 2 ^ k ∧ b.shift.toNat + size.toNat ≤ b.alignedSize.toNat := by
  obtain ⟨b, hbounds, hoff, hshift, hend⟩ := readBounds_eq hpage hfits
  obtain ⟨-, hge, -⟩ := ceilTo_spec (Nat.two_pow_pos k) (offset.toNat + size.toNat)
  have hmod := Nat.mod_le offset.toNat (2 ^ k)
  have hone : 1 ≤ size.toNat := UInt32.le_iff_toNat_le.mp hsize
  have hlt : b.alignedOff < b.alignedEnd := by
    rw [UInt32.lt_iff_toNat_lt]
    omega
  have hwhole := Bounds.toNat_alignedSize (UInt32.le_of_lt hlt)
  refine ⟨b, hbounds, hlt, ?_, by omega⟩
  rw [hshift]
  exact Nat.mod_lt _ (Nat.two_pow_pos k)

end Requests

section Windows

variable {σ : Type} {lib : Allocator σ} {checked : Bool} {alignment alignedOff alignedEnd : UInt32}
  {st : Allocated σ} {heap : σ} {shift : ℕ}

/-- A shift that is shorter than the range and than a whole buffer stays inside the first
buffer. -/
theorem exists_first (halign : alignment ≠ noAlignment) (hlt : alignedOff < alignedEnd)
    (h : allocateBuffers lib checked alignment alignedOff alignedEnd heap = .ok st)
    (hwhole : shift < singleBufSize.toNat) (hrange : shift < (alignedEnd - alignedOff).toNat) :
    ∃ first ∈ st.bufs.head?, shift < first.size.toNat := by
  have hle := UInt32.le_of_lt hlt
  obtain ⟨hcut, -⟩ := allocateBuffers_ok halign hle h
  rw [UInt32.toNat_sub_of_le _ _ hle] at hrange
  rw [pieces_step (by decide) (by omega : 0 < alignedEnd.toNat - alignedOff.toNat)] at hcut
  obtain ⟨first, rest, hbufs, hfirst, -⟩ := List.map_eq_cons_iff.mp hcut
  refine ⟨first, ?_, ?_⟩
  · rw [hbufs]
    rfl
  · rw [hfirst]
    exact lt_min hwhole hrange

/-- The constructor of `multi_buffer` accepts every window inside the range. -/
theorem create_of_window {count : ℕ} (halign : alignment ≠ noAlignment)
    (hlt : alignedOff < alignedEnd)
    (h : allocateBuffers lib checked alignment alignedOff alignedEnd heap = .ok st)
    (hfirst : ∃ first ∈ st.bufs.head?, shift < first.size.toNat)
    (hwindow : shift + count ≤ (alignedEnd - alignedOff).toNat) :
    MultiBuffer.create (fun buf => buf.size.toNat) st.bufs count shift =
      .ok ⟨st.bufs, count, shift⟩ := by
  have hle := UInt32.le_of_lt hlt
  have hword := (alignedEnd - alignedOff).toNat_lt
  have hsum : (st.bufs.map fun buf => buf.size.toNat).sum = (alignedEnd - alignedOff).toNat := by
    rw [(allocateBuffers_ok halign hle h).1, sum_pieces, UInt32.toNat_sub_of_le _ _ hle]
  apply MultiBuffer.create_of_fits
  · rw [hsum]
    exact hword
  · rw [hsum]
    exact hwindow
  · intro buf hbuf
    obtain ⟨first, hmem, hinside⟩ := hfirst
    rw [Option.mem_def.mp hmem, Option.mem_some_iff] at hbuf
    rw [← hbuf]
    exact hinside

end Windows

/-- **The buffers of `file::read` tile the aligned range.** For every page size that is a power of
two of at most 512 KiB, every range and every allocator, in builds with and without `d_assert`: the
loop ends, and it neither fails an assertion nor overruns `vecs`.  Where the allocations that it
asks for succeed, its buffers tile the range, and otherwise it throws `bad_alloc`.  For a request of
at least one byte whose aligned end fits 32 bits, the shifted request fits the range, the shift
stays inside the first buffer, and the assertions of `multi_buffer` hold for it. -/
theorem read_buffers_tile {σ : Type} (lib : Allocator σ) (heap : σ) (checked : Bool)
    {pageSize : UInt32} {k : ℕ} (hpage : pageSize.toNat = 2 ^ k) (hk : k ≤ 19) :
    (∀ alignedOff alignedEnd : UInt32, alignedOff < alignedEnd →
      (lib.Grants pageSize heap
          (pieces singleBufSize.toNat (alignedEnd.toNat - alignedOff.toNat)) →
        ∃ st, allocateBuffers lib checked pageSize alignedOff alignedEnd heap = .ok st ∧
          Tiles alignedOff alignedEnd st) ∧
      (¬ lib.Grants pageSize heap
          (pieces singleBufSize.toNat (alignedEnd.toNat - alignedOff.toNat)) →
        allocateBuffers lib checked pageSize alignedOff alignedEnd heap = .error .badAlloc)) ∧
    ∀ (size : UInt32) (offset : UInt64), 1 ≤ size →
      ceilTo (2 ^ k) (offset.toNat + size.toNat) < 2 ^ 32 →
      ∃ b, readBounds pageSize size offset = .ok b ∧ b.alignedOff < b.alignedEnd ∧
        b.shift.toNat + size.toNat ≤ b.alignedSize.toNat ∧
        ∀ st, allocateBuffers lib checked pageSize b.alignedOff b.alignedEnd heap = .ok st →
          (∃ first ∈ st.bufs.head?, b.shift < first.size) ∧
          ∀ count ≤ size.toNat,
            MultiBuffer.create (fun buf => buf.size.toNat) st.bufs count b.shift.toNat =
              .ok ⟨st.bufs, count, b.shift.toNat⟩ := by
  have halign := ne_noAlignment hpage
  constructor
  · intro alignedOff alignedEnd hlt
    have hle := UInt32.le_of_lt hlt
    obtain ⟨hgranted, hrefused⟩ := allocateBuffers_cases lib checked heap halign hle
    refine ⟨fun hall => ?_, hrefused⟩
    obtain ⟨st, hok, hcut, hvecs⟩ := hgranted hall
    exact ⟨st, hok, tiles_of_pieces hle hcut hvecs⟩
  · intro size offset hsize hfits
    obtain ⟨b, hbounds, hlt, hshift, hcover⟩ := readBounds_covers hpage hsize hfits
    have hone : 1 ≤ size.toNat := UInt32.le_iff_toNat_le.mp hsize
    have hwhole : b.shift.toNat < singleBufSize.toNat := by
      rw [toNat_singleBufSize]
      exact hshift.trans_le (Nat.pow_le_pow_right (by decide) hk)
    refine ⟨b, hbounds, hlt, hcover, ?_⟩
    intro st hst
    have hinside := exists_first halign hlt hst hwhole
      (show b.shift.toNat < b.alignedSize.toNat by omega)
    refine ⟨hinside, ?_⟩
    intro count hcount
    exact create_of_window halign hlt hst hinside
      (show b.shift.toNat + count ≤ b.alignedSize.toNat by omega)

/-- Memory is handed out from the front.  As POSIX has it, an alignment is a power of two and a
multiple of the size of a pointer. -/
def frontAllocator : Allocator ℕ where
  malloc next size := some (ceilTo 16 next, ceilTo 16 next + size.toNat)
  posixMemalign next alignment size :=
    if isPow2 alignment.toNat ∧ alignment.toNat % 8 = 0 then
      some (ceilTo alignment.toNat next, ceilTo alignment.toNat next + size.toNat)
    else
      none

theorem frontAllocator_rejects : frontAllocator.RejectsAlignment :=
  fun _ _ _ hsmall => if_neg fun hvalid => hsmall hvalid.2

theorem frontAllocator_grants {alignment : UInt32} {k : ℕ} (hpage : alignment.toNat = 2 ^ k)
    (hpointer : alignment.toNat % 8 = 0) (next : ℕ) (sizes : List ℕ) :
    frontAllocator.Grants alignment next sizes := by
  have hpow : isPow2 alignment.toNat = true := by
    rw [hpage]
    exact isPow2_two_pow k
  induction sizes generalizing next with
  | nil => trivial
  | cons size rest ih => exact ⟨_, if_pos ⟨hpow, hpointer⟩, ih _⟩

/-- A megabyte from the second page on. -/
theorem read_buffers_tile_secondPage :
    (∃ st, allocateBuffers frontAllocator true 4096 4096 1056768 0 = .ok st ∧
      Tiles 4096 1056768 st) ∧
    ∃ b, readBounds 4096 1048576 5000 = .ok b ∧
      b.shift.toNat + (1048576 : UInt32).toNat ≤ b.alignedSize.toNat := by
  have hpage : (4096 : UInt32).toNat = 2 ^ 12 := by decide
  have hresult := read_buffers_tile frontAllocator 0 true hpage (by decide)
  constructor
  · exact (hresult.1 4096 1056768 (by decide)).1 (frontAllocator_grants hpage (by decide) 0 _)
  · obtain ⟨b, hbounds, -, hcover, -⟩ := hresult.2 1048576 5000 (by decide) (by decide)
    exact ⟨b, hbounds, hcover⟩

/-- For pages of four bytes no buffer is made. -/
theorem read_buffers_smallPage :
    (4 : UInt32).toNat = 2 ^ 2 ∧ (0 : UInt32) < 8 ∧
    allocateBuffers frontAllocator true 4 0 8 0 = .error .badAlloc ∧
    ¬ ∃ st, allocateBuffers frontAllocator true 4 0 8 0 = .ok st ∧ Tiles 0 8 st := by
  have hrefused : allocateBuffers frontAllocator true 4 0 8 0 = .error .badAlloc :=
    (allocateBuffers_cases frontAllocator true 0 (by decide) (by decide)).2
      (frontAllocator_rejects.not_grants (k := 2) rfl le_rfl (by decide) (by decide) 0)
  refine ⟨rfl, by decide, hrefused, ?_⟩
  rintro ⟨st, hok, -⟩
  rw [hrefused] at hok
  cases hok

end ReadBuffers
end Util
end CoherentDB
