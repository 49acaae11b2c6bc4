import CoherentDB.Util.ReadBuffers

/-!
# `file::read`

A read is widened to page bounds, cut into buffers of 512 KiB, done with one
`preadv` and narrowed to the request again by the window of the `multi_buffer` it
returns.  The bounds are kept in `uint32_t` while the offset is a `uint64_t`.

The buffers are those of `ReadBuffers.lean`, so that a read throws `bad_alloc` where
one of its allocations fails; page sizes below the size of a pointer are no alignment
for `posix_memalign`.  New buffers hold whatever was in memory.

`preadv` fills the buffers in order from the file and returns how many bytes it
got; it does not fail, so the loop around it ends after one call.
-/

namespace CoherentDB
namespace Util

open Debug MachineInt ListRange ReadBuffers

/-- The fields of `file`. -/
structure File where
  path : String
  fd : ℤ

namespace File

/-- `NOT_OPEN`. -/
def notOpen : ℤ := -1

/-- `file::is_open`. -/
def isOpen (f : File) : Bool := f.fd ≠ notOpen

/-- `io_exception` with a message about a file. -/
def ioException (f : File) (msg : String) : Failure :=
  .ioException ("file \"" ++ f.path ++ "\" (fd: " ++ toString f.fd ++ "): " ++ msg)

end File

/-- Bytes go into the buffers of a vector in order. -/
def scatter : List Byte → List (List Byte) → List (List Byte)
  | _, [] => []
  | bytes, buf :: rest =>
      overwrite buf 0 (bytes.take buf.length) :: scatter (bytes.drop buf.length) rest

/-- `preadv`: the buffers afterwards and the number of bytes read. -/
def preadv (content : List Byte) (vecs : List (List Byte)) (off : ℕ) : List (List Byte) × ℕ :=
  let count := min vecs.flatten.length (content.length - off)
  (scatter (slice content off count) vecs, count)

/-- The part of `file::read` after the bounds are known. -/
def File.readAligned {σ : Type} (f : File) (lib : Allocator σ) (heap : σ) (pageSize : UInt32)
    (content : List Byte) (memory : ℕ → Byte) (size : UInt32) (b : Bounds) :
    Except Failure (MultiBuffer (List Byte)) := do
  let st ← allocateBuffers lib true pageSize b.alignedOff b.alignedEnd heap
  -- `preadv` is told of `num_bufs` vectors, whether the loop has set them or not.
  if none ∈ st.vecs then
    .error .undefinedBehaviour
  else
    let bufs := st.bufs.map fun buf => blockAt memory buf.data buf.size.toNat
    let (bufs', err) := preadv content bufs b.alignedOff.toNat
    if err ≠ b.alignedSize.toNat ∧ err < (size + b.shift).toNat then
      .error (f.ioException
        ("short read: " ++ toString err ++ " " ++ toString b.alignedSize.toNat))
    else
      MultiBuffer.create List.length bufs' (min size.toNat err) b.shift.toNat

/-- `file::read` on a file with the given content. -/
def File.read {σ : Type} (f : File) (lib : Allocator σ) (heap : σ) (pageSize : UInt32)
    (content : List Byte) (memory : ℕ → Byte) (size : UInt32) (offset : UInt64) :
    Except Failure (MultiBuffer (List Byte)) := do
  dAssert (f.isOpen = true)
  if size = 0 then
    MultiBuffer.create List.length [] 0 0
  else
    let b ← readBounds pageSize size offset
    f.readAligned lib heap pageSize content memory size b

/-- The logical content of a `multi_buffer`. -/
def MultiBuffer.content (m : MultiBuffer (List Byte)) : List Byte :=
  slice m.buffers.flatten m.leftOff m.size

section Preadv

theorem scatter_lengths (bytes : List Byte) (vecs : List (List Byte)) :
    (scatter bytes vecs).map List.length = vecs.map List.length := by
  induction vecs generalizing bytes with
  | nil => rfl
  | cons buf rest ih =>
      have hfit : 0 + (bytes.take buf.length).length ≤ buf.length := by
        rw [List.length_take]
        omega
      rw [scatter, List.map_cons, List.map_cons, ih, length_overwrite hfit]

/-- Filling the buffers in order overwrites the front of their concatenation. -/
theorem flatten_scatter {bytes : List Byte} {vecs : List (List Byte)}
    (hfit : bytes.length ≤ vecs.flatten.length) :
    (scatter bytes vecs).flatten = overwrite vecs.flatten 0 bytes := by
  induction vecs generalizing bytes with
  | nil =>
      rw [List.flatten_nil, List.length_nil, Nat.le_zero, List.length_eq_zero_iff] at hfit
      rw [hfit, overwrite_nil]
      rfl
  | cons buf rest ih =>
      rw [List.flatten_cons, List.length_append] at hfit
      have hrest : (bytes.drop buf.length).length ≤ rest.flatten.length := by
        rw [List.length_drop]
        omega
      have htake : bytes.take (min bytes.length buf.length) = bytes.take buf.length := by
        rw [List.take_eq_take_iff]
        omega
      have hdrop : bytes.drop (min bytes.length buf.length) = bytes.drop buf.length := by
        rcases Nat.le_total bytes.length buf.length with hle | hle
        · rw [Nat.min_eq_left hle, List.drop_length, List.drop_eq_nil_of_le hle]
        · rw [Nat.min_eq_right hle]
      rw [scatter, List.flatten_cons, List.flatten_cons, ih hrest,
        overwrite_append_cross (Nat.zero_le _), Nat.sub_zero, htake, hdrop]

end Preadv

section Reading

variable {σ : Type} {f : File} {lib : Allocator σ} {heap : σ} {pageSize size : UInt32}
  {content : List Byte} {memory : ℕ → Byte} {b : Bounds}

/-- What the aligned part does when the bounds are in order and its buffers are granted: it reads
the range from the file and decides by the number of bytes it got. -/
theorem File.readAligned_eq (f : File) (content : List Byte) (memory : ℕ → Byte) (size : UInt32)
    (halign : pageSize ≠ noAlignment) (hle : b.alignedOff ≤ b.alignedEnd)
    (hgranted : lib.Grants pageSize heap (pieces singleBufSize.toNat b.alignedSize.toNat)) :
    ∃ bufs : List (List Byte), bufs.flatten.length = b.alignedSize.toNat ∧
      (∀ buf ∈ bufs.head?, buf.length = min singleBufSize.toNat b.alignedSize.toNat) ∧
      ∃ err, err = min b.alignedSize.toNat (content.length - b.alignedOff.toNat) ∧
      f.readAligned lib heap pageSize content memory size b =
        if err ≠ b.alignedSize.toNat ∧ err < (size + b.shift).toNat then
          .error (f.ioException
            ("short read: " ++ toString err ++ " " ++ toString b.alignedSize.toNat))
        else
          MultiBuffer.create List.length (scatter (slice content b.alignedOff.toNat err) bufs)
            (min size.toNat err) b.shift.toNat := by
  have hsize := Bounds.toNat_alignedSize hle
  rw [hsize] at hgranted
  obtain ⟨st, hok, hcut, hvecs⟩ := (allocateBuffers_cases lib true heap halign hle).1 hgranted
  rw [← hsize] at hcut
  have hlengths : (st.bufs.map fun buf => blockAt memory buf.data buf.size.toNat).map List.length =
      pieces singleBufSize.toNat b.alignedSize.toNat := by
    rw [← hcut, List.map_map]
    exact List.map_congr_left fun buf _ => length_blockAt memory _ _
  have htotal : (st.bufs.map fun buf =>
      blockAt memory buf.data buf.size.toNat).flatten.length = b.alignedSize.toNat := by
    rw [List.length_flatten, hlengths, sum_pieces]
  have hset : none ∉ st.vecs := by
    rw [hvecs]
    intro hnone
    obtain ⟨buf, -, hbuf⟩ := List.mem_map.mp hnone
    cases hbuf
  refine ⟨_, htotal, fun buf hbuf => ?_, _, rfl, ?_⟩
  · have hhead : buf.length ∈ (pieces singleBufSize.toNat b.alignedSize.toNat).head? := by
      rw [← hlengths, List.head?_map, Option.mem_def.mp hbuf]
      rfl
    rcases Nat.eq_zero_or_pos b.alignedSize.toNat with hzero | hpos
    · rw [hzero] at hhead
      cases hhead
    · rw [pieces_step (by decide) hpos, List.head?_cons, Option.mem_some_iff] at hhead
      exact hhead.symm
  · rw [File.readAligned, hok, ok_bind, if_neg hset]
    simp only [preadv, htotal]

/-- The aligned range covers the request and the file goes on to its end. -/
theorem File.readAligned_ok (halign : pageSize ≠ noAlignment) (hsize : 0 < size)
    (hcover : b.Covers size)
    (hgranted : lib.Grants pageSize heap (pieces singleBufSize.toNat b.alignedSize.toNat))
    (hfile : b.alignedOff.toNat + b.shift.toNat + size.toNat ≤ content.length) :
    ∃ m, f.readAligned lib heap pageSize content memory size b = .ok m ∧
      m.size = size.toNat ∧
      m.content = slice content (b.alignedOff.toNat + b.shift.toNat) size.toNat := by
  obtain ⟨bufs, htotal, hhead, err, herr, hread⟩ :=
    f.readAligned_eq content memory size halign hcover.ordered hgranted
  have hpositive : 0 < size.toNat := UInt32.lt_iff_toNat_lt.mp hsize
  have hrange := Bounds.toNat_alignedSize hcover.ordered
  have hword := b.alignedSize.toNat_lt
  have hshift := hcover.shift
  have hrequest := hcover.request
  have hgot : ¬ (err ≠ b.alignedSize.toNat ∧ err < size.toNat + b.shift.toNat) := by omega
  have hbytes : (slice content b.alignedOff.toNat err).length = err := length_slice (by omega)
  have hlengths := scatter_lengths (slice content b.alignedOff.toNat err) bufs
  have hsum : ((scatter (slice content b.alignedOff.toNat err) bufs).map List.length).sum =
      b.alignedSize.toNat := by
    rw [hlengths, ← List.length_flatten, htotal]
  rw [hcover.toNat_add, if_neg hgot, Nat.min_eq_left (by omega)] at hread
  refine ⟨⟨scatter (slice content b.alignedOff.toNat err) bufs, size.toNat, b.shift.toNat⟩,
    ?_, rfl, ?_⟩
  · rw [hread]
    apply MultiBuffer.create_of_fits
    · rw [hsum]
      exact hword
    · rw [hsum]
      omega
    · -- The first buffer is a whole one or the whole range, so the shift stays inside it.
      intro buf hbuf
      have hmem : buf.length ∈ (bufs.map List.length).head? := by
        rw [← hlengths, List.head?_map, Option.mem_def.mp hbuf]
        rfl
      rw [List.head?_map] at hmem
      obtain ⟨buf₀, hbuf₀, heq⟩ := Option.map_eq_some_iff.mp hmem
      have hfirst := hhead buf₀ hbuf₀
      omega
  · have hfit : (slice content b.alignedOff.toNat err).length ≤ bufs.flatten.length := by omega
    show slice (scatter (slice content b.alignedOff.toNat err) bufs).flatten b.shift.toNat
      size.toNat = _
    rw [flatten_scatter hfit]
    -- The window lies inside the bytes that were read.
    rw [overwrite, List.take_zero, List.nil_append, slice_append_left (by omega),
      slice_slice (by omega)]

/-- The aligned range covers the request and the file ends before it does. -/
theorem File.readAligned_short (halign : pageSize ≠ noAlignment) (hsize : 0 < size)
    (hcover : b.Covers size)
    (hgranted : lib.Grants pageSize heap (pieces singleBufSize.toNat b.alignedSize.toNat))
    (hfile : content.length < b.alignedOff.toNat + b.shift.toNat + size.toNat) :
    ∃ message, f.readAligned lib heap pageSize content memory size b =
      .error (.ioException message) := by
  obtain ⟨bufs, -, -, err, herr, hread⟩ :=
    f.readAligned_eq content memory size halign hcover.ordered hgranted
  have hpositive : 0 < size.toNat := UInt32.lt_iff_toNat_lt.mp hsize
  have hrange := Bounds.toNat_alignedSize hcover.ordered
  have hrequest := hcover.request
  rw [hcover.toNat_add, if_pos (by omega)] at hread
  exact ⟨_, hread⟩

/-- An allocation fails. -/
theorem File.readAligned_badAlloc (halign : pageSize ≠ noAlignment)
    (hle : b.alignedOff ≤ b.alignedEnd)
    (hrefused : ¬ lib.Grants pageSize heap (pieces singleBufSize.toNat b.alignedSize.toNat)) :
    f.readAligned lib heap pageSize content memory size b = .error .badAlloc := by
  rw [Bounds.toNat_alignedSize hle] at hrefused
  rw [File.readAligned, (allocateBuffers_cases lib true heap halign hle).2 hrefused]
  rfl

/-- A file that ends where the aligned range does never makes a short read: the range is read
whole, or the bounds are out of order and the vectors were not set, or an allocation fails. -/
theorem File.readAligned_no_exception (halign : pageSize ≠ noAlignment)
    (hfile : content.length = b.alignedEnd.toNat) (message : String) :
    f.readAligned lib heap pageSize content memory size b ≠ .error (.ioException message) := by
  intro hread
  rcases UInt32.lt_or_le b.alignedEnd b.alignedOff with hover | hle
  · have hsome := numBufs_pos (UInt32.ne_of_lt hover)
    have hunset : none ∈ List.replicate (numBufs b.alignedOff b.alignedEnd).toNat
        (none : Option ReadBuffers.IoVec) :=
      List.mem_replicate.mpr ⟨hsome.ne', rfl⟩
    rw [File.readAligned, allocateBuffers_of_le (UInt32.le_of_lt hover), ok_bind,
      if_pos hunset] at hread
    cases hread
  · by_cases hgranted : lib.Grants pageSize heap (pieces singleBufSize.toNat b.alignedSize.toNat)
    · obtain ⟨bufs, -, -, err, herr, heq⟩ :=
        f.readAligned_eq content memory size halign hle hgranted
      rw [hfile, ← Bounds.toNat_alignedSize hle, Nat.min_self] at herr
      rw [heq, if_neg (fun h => h.1 herr)] at hread
      cases MultiBuffer.create_error hread
    · rw [File.readAligned_badAlloc halign hle hgranted] at hread
      cases hread

end Reading

/-- What `file::read` is for: whatever the file holds, the requested bytes are returned when
they are all there, and a request past the end of the file throws. -/
def File.ReadsExactly {σ : Type} (f : File) (lib : Allocator σ) (heap : σ)
    (pageSize size : UInt32) (offset : UInt64) : Prop :=
  ∀ (content : List Byte) (memory : ℕ → Byte),
    (offset.toNat + size.toNat ≤ content.length →
      ∃ m, f.read lib heap pageSize content memory size offset = .ok m ∧
        m.size = size.toNat ∧ m.content = slice content offset.toNat size.toNat) ∧
    (0 < size → content.length < offset.toNat + size.toNat →
      ∃ message, f.read lib heap pageSize content memory size offset =
        .error (.ioException message))

/-- The length of a request that is widened to whole pages. -/
def widened (page offset size : ℕ) : ℕ :=
  ceilTo page (offset + size) - (offset - offset % page)

section Requests

variable {σ : Type} {f : File} {lib : Allocator σ} {heap : σ} {pageSize size : UInt32}
  {offset : UInt64} {k : ℕ}

/-- A request of some bytes computes its bounds and goes on from there. -/
theorem File.read_eq (hopen : f.isOpen = true) (hsize : 0 < size) (content : List Byte)
    (memory : ℕ → Byte) {b : Bounds} (hbounds : readBounds pageSize size offset = .ok b) :
    f.read lib heap pageSize content memory size offset =
      f.readAligned lib heap pageSize content memory size b := by
  have hne : size ≠ 0 := (UInt32.ne_of_lt hsize).symm
  rw [File.read, dAssert_of hopen, ok_bind, if_neg hne, hbounds, ok_bind]

/-- The bounds of a request whose aligned end fits `uint32_t`. -/
theorem bounds_of_fits (hpage : pageSize.toNat = 2 ^ k) (hk : k ≤ 19)
    (hfits : offset.toNat + size.toNat ≤ 2 ^ 32 - 2 ^ k) :
    ∃ b, readBounds pageSize size offset = .ok b ∧ b.Covers size ∧
      b.alignedOff.toNat + b.shift.toNat = offset.toNat ∧
      b.alignedSize.toNat = widened (2 ^ k) offset.toNat size.toNat := by
  have hpow : 2 ^ k ≤ 2 ^ 19 := Nat.pow_le_pow_right (by decide) hk
  have hpos : 0 < 2 ^ k := Nat.two_pow_pos k
  have hle := Nat.mod_le offset.toNat (2 ^ k)
  have hmod : offset.toNat % 2 ^ k < 2 ^ k := Nat.mod_lt _ hpos
  obtain ⟨-, hge, hlt⟩ := ceilTo_spec hpos (offset.toNat + size.toNat)
  obtain ⟨b, hbounds, hoff, hshift, hend⟩ :=
    @readBounds_eq pageSize size offset k hpage (by omega)
  have hordered : b.alignedOff ≤ b.alignedEnd := by
    rw [UInt32.le_iff_toNat_le]
    omega
  refine ⟨b, hbounds, ⟨hordered, ?_, by omega⟩, by omega, ?_⟩
  · rw [toNat_singleBufSize]
    omega
  · rw [Bounds.toNat_alignedSize hordered, hoff, hend, widened]

/-- A request whose aligned end fits `uint32_t` and whose buffers are granted. -/
theorem File.readsExactly_of_fits (hopen : f.isOpen = true) (hpage : pageSize.toNat = 2 ^ k)
    (hk : k ≤ 19) (hsize : 0 < size) (hfits : offset.toNat + size.toNat ≤ 2 ^ 32 - 2 ^ k)
    (hgranted : lib.Grants pageSize heap
      (pieces singleBufSize.toNat (widened (2 ^ k) offset.toNat size.toNat))) :
    f.ReadsExactly lib heap pageSize size offset := by
  have halign := ne_noAlignment hpage
  obtain ⟨b, hbounds, hcover, hstart, hrange⟩ := bounds_of_fits hpage hk hfits
  rw [← hrange] at hgranted
  intro content memory
  rw [File.read_eq hopen hsize content memory hbounds, ← hstart]
  exact ⟨File.readAligned_ok halign hsize hcover hgranted,
    fun _ => File.readAligned_short halign hsize hcover hgranted⟩

/-- A request with an allocation that fails. -/
theorem File.read_badAlloc (hopen : f.isOpen = true) (hpage : pageSize.toNat = 2 ^ k)
    (hk : k ≤ 19) (hsize : 0 < size) (hfits : offset.toNat + size.toNat ≤ 2 ^ 32 - 2 ^ k)
    (hrefused : ¬ lib.Grants pageSize heap
      (pieces singleBufSize.toNat (widened (2 ^ k) offset.toNat size.toNat)))
    (content : List Byte) (memory : ℕ → Byte) :
    f.read lib heap pageSize content memory size offset = .error .badAlloc := by
  obtain ⟨b, hbounds, hcover, -, hrange⟩ := bounds_of_fits hpage hk hfits
  rw [← hrange] at hrefused
  rw [File.read_eq hopen hsize content memory hbounds]
  exact File.readAligned_badAlloc (ne_noAlignment hpage) hcover.ordered hrefused

/-- Where the aligned end does not fit, a file that ends at the truncated end is read without
an exception although the request goes past it. -/
theorem File.read_past_truncated_end (hopen : f.isOpen = true) (hpage : pageSize.toNat = 2 ^ k)
    (hk : k ≤ 19) (hsize : 0 < size) (hpast : 2 ^ 32 - 2 ^ k < offset.toNat + size.toNat) :
    ¬ f.ReadsExactly lib heap pageSize size offset := by
  intro hreads
  have hpow : 2 ^ k ≤ 2 ^ 19 := Nat.pow_le_pow_right (by decide) hk
  obtain ⟨b, hbounds, hend⟩ := @readBounds_truncates pageSize size offset k hpage
  have hword := b.alignedEnd.toNat_lt
  -- The truncated end is still aligned, so it is a page below `2 ^ 32` at least.
  have hdvd : 2 ^ k ∣ b.alignedEnd.toNat := by
    obtain ⟨hceil, -, -⟩ :=
      ceilTo_spec (Nat.two_pow_pos k) (offset + size.toUInt64).toNat
    rw [hend, Nat.dvd_mod_iff (Nat.pow_dvd_pow 2 (by omega)),
      Nat.dvd_mod_iff (Nat.pow_dvd_pow 2 (by omega))]
    exact hceil
  have hgap : 2 ^ k ≤ 2 ^ 32 - b.alignedEnd.toNat :=
    Nat.le_of_dvd (by omega) (Nat.dvd_sub (Nat.pow_dvd_pow 2 (by omega)) hdvd)
  have hlength : (List.replicate b.alignedEnd.toNat (0 : Byte)).length = b.alignedEnd.toNat :=
    List.length_replicate
  obtain ⟨message, hread⟩ :=
    (hreads (List.replicate b.alignedEnd.toNat 0) fun _ => 0).2 hsize (by omega)
  rw [File.read_eq hopen hsize _ _ hbounds] at hread
  exact File.readAligned_no_exception (ne_noAlignment hpage) hlength message hread

end Requests

/-- **When `file::read` reads exactly the request**: for requests of no bytes, and for those
whose end, rounded up to a page, fits the `uint32_t` it is kept in, and for whose buffers
`posix_memalign` finds memory. -/
theorem read_exactly_iff {σ : Type} (lib : Allocator σ) (heap : σ) {f : File}
    (hopen : f.isOpen = true) {pageSize size : UInt32} {offset : UInt64} {k : ℕ}
    (hpage : pageSize.toNat = 2 ^ k) (hk : k ≤ 19) :
    f.ReadsExactly lib heap pageSize size offset ↔
      size = 0 ∨ offset.toNat + size.toNat ≤ 2 ^ 32 - 2 ^ k ∧
        lib.Grants pageSize heap
          (pieces singleBufSize.toNat (widened (2 ^ k) offset.toNat size.toNat)) := by
  by_cases hzero : size = 0
  · subst hzero
    refine iff_of_true (fun content memory => ⟨fun hfile => ?_, fun habs => ?_⟩) (Or.inl rfl)
    · refine ⟨⟨[], 0, 0⟩, ?_, rfl, ?_⟩
      · rw [File.read, dAssert_of hopen, ok_bind, if_pos rfl]
        rfl
      · rw [MultiBuffer.content, slice_zero]
        exact (slice_zero _ _).symm
    · exact absurd habs (UInt32.lt_irrefl 0)
  · have hpos : 0 < size := UInt32.pos_iff_ne_zero.mpr hzero
    constructor
    · intro hreads
      have hfits : offset.toNat + size.toNat ≤ 2 ^ 32 - 2 ^ k := by
        by_contra hnot
        exact File.read_past_truncated_end hopen hpage hk hpos (by omega) hreads
      refine Or.inr ⟨hfits, ?_⟩
      -- With an allocation that fails, nothing is read from a file that is long enough.
      by_contra hrefused
      obtain ⟨m, hread, -⟩ :=
        (hreads (List.replicate (offset.toNat + size.toNat) 0) fun _ => 0).1
          List.length_replicate.ge
      rw [File.read_badAlloc hopen hpage hk hpos hfits hrefused] at hread
      cases hread
    · rintro (hnone | ⟨hfits, hgranted⟩)
      · exact absurd hnone hzero
      · exact File.readsExactly_of_fits hopen hpage hk hpos hfits hgranted

/-- An open file. -/
def openFile : File := ⟨"data", 3⟩

theorem read_exactly_iff_secondPage :
    openFile.ReadsExactly frontAllocator 0 4096 20 5000 ↔
      (20 : UInt32) = 0 ∨ 5000 + 20 ≤ 2 ^ 32 - 2 ^ 12 ∧
        frontAllocator.Grants 4096 0
          (pieces singleBufSize.toNat (widened (2 ^ 12) 5000 20)) :=
  read_exactly_iff frontAllocator 0 rfl (by decide) (by decide)

/-- The byte at `2 ^ 32` of a file with a single byte is read from the start of the file. -/
theorem read_wraps_offset :
    (∃ m, openFile.read frontAllocator 0 4096 [7] (fun _ => 0) 1 4294967296 = .ok m ∧ m.size = 1 ∧
      m.content = [7]) ∧ ¬ openFile.ReadsExactly frontAllocator 0 4096 1 4294967296 := by
  have hread : openFile.read frontAllocator 0 4096 [7] (fun _ => 0) 1 4294967296 =
      openFile.readAligned frontAllocator 0 4096 [7] (fun _ => 0) 1 ⟨0, 0, 4096⟩ :=
    File.read_eq rfl (by decide) _ _ (readBounds_two_pow (k := 12) rfl)
  have hcover : Bounds.Covers ⟨0, 0, 4096⟩ 1 := ⟨by decide, by decide, by decide⟩
  obtain ⟨m, hm, hsize, hcontent⟩ :
      ∃ m, openFile.readAligned frontAllocator 0 4096 [7] (fun _ => 0) 1 ⟨0, 0, 4096⟩ = .ok m ∧
        m.size = 1 ∧ m.content = slice [7] (0 + 0) 1 :=
    File.readAligned_ok (by decide) (by decide) hcover
      (frontAllocator_grants (k := 12) rfl (by decide) 0 _) (by decide)
  refine ⟨⟨m, hread.trans hm, hsize, hcontent⟩, fun hreads => ?_⟩
  obtain ⟨message, herror⟩ := (hreads [7] fun _ => 0).2 (by decide) (by decide)
  rw [hread, hm] at herror
  cases herror

/-- Pages of one, two or four bytes are rejected by `posix_memalign`, and nothing is read. -/
theorem read_smallPage {σ : Type} {lib : Allocator σ} (hrejects : lib.RejectsAlignment) (heap : σ)
    {f : File} (hopen : f.isOpen = true) {pageSize size : UInt32} {offset : UInt64} {k : ℕ}
    (hpage : pageSize.toNat = 2 ^ k) (hk : k ≤ 2) (hsize : 0 < size)
    (hfits : offset.toNat + size.toNat ≤ 2 ^ 32 - 2 ^ k) (content : List Byte)
    (memory : ℕ → Byte) :
    f.read lib heap pageSize content memory size offset = .error .badAlloc := by
  have hpositive : 0 < size.toNat := UInt32.lt_iff_toNat_lt.mp hsize
  obtain ⟨-, hge, -⟩ := ceilTo_spec (Nat.two_pow_pos k) (offset.toNat + size.toNat)
  have hrange : 0 < widened (2 ^ k) offset.toNat size.toNat := by
    rw [widened]
    omega
  exact File.read_badAlloc hopen hpage (by omega) hsize hfits
    (hrejects.not_grants hpage hk (by decide) hrange heap) content memory

end Util
end CoherentDB
