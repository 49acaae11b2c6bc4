import CoherentDB.Util.MultiBuffer

/-!
# What the entry checks of `multi_buffer` leave open

The constructor compares `left_off + size` with the sum of the buffer sizes, `do_rw`
compares `req_size + req_off` with `size`; all sums are `uint32_t` and may wrap around.
The loop of `do_rw` asks for more: it fails at an empty buffer and at the end of the list
when the request is not served by then.  Nothing else can go wrong in it, whatever wraps
around (`entry_checks_iff`).

`rwLoopTraced` is the loop with a note of every `memcpy`.
-/

namespace CoherentDB
namespace Util

open Debug MachineInt ListRange

/-- One `memcpy` of `do_rw`: `size` bytes, at `pos` of a buffer of `bufSize` bytes on one side
and at `outOff` of the caller's bytes on the other. -/
structure Copy where
  bufSize : ℕ
  pos : ℕ
  outOff : ℕ
  size : ℕ
  deriving DecidableEq

/-- The copy stays inside its buffer and inside the caller's `reqSize` bytes. -/
def Copy.InBounds (c : Copy) (reqSize : ℕ) : Prop :=
  c.pos + c.size ≤ c.bufSize ∧ c.outOff + c.size ≤ reqSize

/-- The loop of `do_rw` as in `rwLoop`, with its copies. -/
def rwLoopTraced (READ : Bool) (leftOff reqSize reqOff : ℕ) :
    List BufferId → Bool → ℕ → ℕ → Heap → List Byte →
      Except Failure ((List BufferId × Heap × List Byte) × List Copy)
  | [], _, _, sizeLeft, h, buf => do
      dAssert (sizeLeft = 0)
      return (([], h, buf), [])
  | id :: rest, first, off, sizeLeft, h, buf =>
      if sizeLeft = 0 then .ok ((id :: rest, h, buf), [])
      else do
        let offInBuf := if first then leftOff else 0
        let bufSize := subWrap 32 (h.getSize id) offInBuf
        dAssert (bufSize ≠ 0)
        if reqOff < addWrap 32 off bufSize then
          let bufStart := if off < reqOff then subWrap 32 reqOff off else 0
          dAssert (bufStart < bufSize)
          let size := min sizeLeft (subWrap 32 bufSize bufStart)
          dAssert (reqOff ≤ addWrap 32 off bufStart)
          let outOff := subWrap 32 (addWrap 32 off bufStart) reqOff
          dAssert (addWrap 32 outOff size ≤ reqSize)
          let (id', h', buf') := h.moveChunk READ id (offInBuf + bufStart) buf outOff size
          dAssert (size ≤ sizeLeft)
          let ((rest', h'', buf''), copies) ← rwLoopTraced READ leftOff reqSize reqOff rest false
            (addWrap 32 off bufSize) (subWrap 32 sizeLeft size) h' buf'
          return ((id' :: rest', h'', buf''),
            ⟨h.getSize id, offInBuf + bufStart, outOff, size⟩ :: copies)
        else
          let ((rest', h'', buf''), copies) ← rwLoopTraced READ leftOff reqSize reqOff rest false
            (addWrap 32 off bufSize) sizeLeft h buf
          return ((id :: rest', h'', buf''), copies)

/-- `multi_buffer::do_rw` with its copies. -/
def MultiBuffer.doRwTraced (READ : Bool) (m : MultiBuffer BufferId) (h : Heap) (buf : List Byte)
    (reqSize reqOff : ℕ) :
    Except Failure ((MultiBuffer BufferId × Heap × List Byte) × List Copy) := do
  dAssert (addWrap 32 reqSize reqOff ≤ m.size)
  if reqSize = 0 then
    return ((m, h, buf), [])
  else
    dAssert (m.buffers ≠ [])
    let ((buffers, h', buf'), copies) ←
      rwLoopTraced READ m.leftOff reqSize reqOff m.buffers true 0 reqSize h buf
    return (({ m with buffers := buffers }, h', buf'), copies)

section Erasing

variable {READ : Bool} {leftOff reqSize reqOff : ℕ}

theorem map_dAssert_bind {α β : Type} {condition : Prop} [Decidable condition] (f : α → β)
    (next : Unit → Except Failure α) :
    (dAssert condition >>= next).map f = dAssert condition >>= fun u => (next u).map f := by
  by_cases h : condition
  · rw [dAssert_of h]
    rfl
  · rw [dAssert_of_not h]
    rfl

/-- **Without the notes it is the loop of `do_rw`.** -/
theorem rwLoopTraced_erase (ids : List BufferId) (first : Bool) (off sizeLeft : ℕ) (h : Heap)
    (buf : List Byte) :
    (rwLoopTraced READ leftOff reqSize reqOff ids first off sizeLeft h buf).map Prod.fst =
      rwLoop READ leftOff reqSize reqOff ids first off sizeLeft h buf := by
  induction ids generalizing first off sizeLeft h buf with
  | nil =>
      rw [rwLoopTraced, rwLoop, map_dAssert_bind]
      rfl
  | cons id rest ih =>
      -- The notes are dropped behind the recursive call, with a copy in front of them or not.
      have hcopy : ∀ (x : Except Failure ((List BufferId × Heap × List Byte) × List Copy))
          (id' : BufferId) (c : Copy),
          (x >>= fun r => pure ((id' :: r.1.1, r.1.2.1, r.1.2.2), c :: r.2) :
            Except Failure ((List BufferId × Heap × List Byte) × List Copy)).map Prod.fst =
          x.map Prod.fst >>= fun r => pure (id' :: r.1, r.2.1, r.2.2) := by
        intro x id' c
        cases x <;> rfl
      have hskip : ∀ (x : Except Failure ((List BufferId × Heap × List Byte) × List Copy))
          (id' : BufferId),
          (x >>= fun r => pure ((id' :: r.1.1, r.1.2.1, r.1.2.2), r.2) :
            Except Failure ((List BufferId × Heap × List Byte) × List Copy)).map Prod.fst =
          x.map Prod.fst >>= fun r => pure (id' :: r.1, r.2.1, r.2.2) := by
        intro x id'
        cases x <;> rfl
      rw [rwLoopTraced, rwLoop]
      by_cases hleft : sizeLeft = 0
      · rw [if_pos hleft, if_pos hleft]
        rfl
      · rw [if_neg hleft, if_neg hleft]
        simp only [map_dAssert_bind, apply_ite (Except.map Prod.fst), hcopy, hskip, ih]

/-- Without the notes it is `do_rw`. -/
theorem MultiBuffer.doRwTraced_erase (m : MultiBuffer BufferId) (h : Heap) (buf : List Byte) :
    (m.doRwTraced READ h buf reqSize reqOff).map Prod.fst = m.doRw READ h buf reqSize reqOff := by
  rw [MultiBuffer.doRwTraced, MultiBuffer.doRw, map_dAssert_bind]
  congr 1
  funext u
  by_cases hzero : reqSize = 0
  · rw [if_pos hzero, if_pos hzero]
    rfl
  · rw [if_neg hzero, if_neg hzero, map_dAssert_bind]
    congr 1
    funext u
    rw [← rwLoopTraced_erase]
    cases rwLoopTraced READ m.leftOff reqSize reqOff m.buffers true 0 reqSize h buf <;> rfl

end Erasing

/-- How many bytes a buffer of `bytes` bytes serves at offset `off`: those from `reqOff` on, or
all of them where the offset behind it wraps around to a value above `reqOff`. -/
def supply (reqOff off bytes : ℕ) : ℕ :=
  if off + bytes < 2 ^ 32 then off + bytes - max off reqOff
  else if reqOff < off + bytes - 2 ^ 32 then bytes
  else 0

/-- How many bytes the buffers serve before the first empty one. -/
def supplied (reqOff : ℕ) : List ℕ → ℕ → ℕ
  | [], _ => 0
  | bytes :: rest, off =>
      if bytes = 0 then 0 else supply reqOff off bytes + supplied reqOff rest (addWrap 32 off bytes)

/-- The sizes of the buffers as the loop sees them, the first without `left_off`. -/
def Heap.effectiveSizes (h : Heap) (leftOff : ℕ) : Bool → List BufferId → List ℕ
  | _, [] => []
  | first, id :: rest => (h.getSize id - if first then leftOff else 0) :: rest.map h.getSize

/-- What holds of the offset and of `size_left` in every iteration. -/
structure Serving (reqSize reqOff off sizeLeft : ℕ) : Prop where
  word : off < 2 ^ 32
  room : sizeLeft ≠ 0 → off - reqOff + sizeLeft ≤ reqSize

section Iteration

variable {READ : Bool} {leftOff reqSize reqOff off sizeLeft bytes : ℕ} {first : Bool}
  {id : BufferId} {rest : List BufferId} {h : Heap} {buf : List Byte}

/-- Where a copy starts in its buffer and in the request. -/
theorem start_of_copy (hoff : off < 2 ^ 32) (hreq : reqOff < 2 ^ 32) (hpos : 0 < bytes)
    (hword : bytes < 2 ^ 32) (hmove : reqOff < addWrap 32 off bytes) :
    (if off < reqOff then subWrap 32 reqOff off else 0) = bytes - supply reqOff off bytes ∧
      0 < supply reqOff off bytes ∧ supply reqOff off bytes ≤ bytes ∧
      off + (bytes - supply reqOff off bytes) = max off reqOff := by
  unfold addWrap at hmove
  unfold supply subWrap
  split_ifs
  all_goals omega

theorem supply_of_skip (hoff : off < 2 ^ 32) (hword : bytes < 2 ^ 32)
    (hskip : ¬ reqOff < addWrap 32 off bytes) : supply reqOff off bytes = 0 := by
  unfold addWrap at hskip
  unfold supply
  split_ifs
  all_goals omega

/-- Behind a buffer the invariant holds again. -/
theorem Serving.next (hs : Serving reqSize reqOff off sizeLeft) (hleft : sizeLeft ≠ 0)
    (hreq : reqOff < 2 ^ 32) (hpos : 0 < bytes) (hword : bytes < 2 ^ 32) :
    Serving reqSize reqOff (addWrap 32 off bytes)
      (sizeLeft - min sizeLeft (supply reqOff off bytes)) := by
  refine ⟨addWrap_lt 32 off bytes, fun hmore => ?_⟩
  have hroom := hs.room hleft
  have hoff := hs.word
  unfold addWrap
  unfold supply at hmore ⊢
  split_ifs at hmore ⊢
  all_goals omega

/-- **An iteration that copies**: none of its assertions fails. -/
theorem rwLoopTraced_move {base : ℕ} (hbase : (if first then leftOff else 0) = base)
    (hs : Serving reqSize reqOff off sizeLeft) (hleft : sizeLeft ≠ 0) (hsize : reqSize < 2 ^ 32)
    (hreq : reqOff < 2 ^ 32) (hbytes : h.getSize id = base + bytes) (hpos : 0 < bytes)
    (hword : base + bytes < 2 ^ 32) (hmove : reqOff < addWrap 32 off bytes) :
    rwLoopTraced READ leftOff reqSize reqOff (id :: rest) first off sizeLeft h buf =
      (let given := supply reqOff off bytes
      let pos := base + (bytes - given)
      let size := min sizeLeft given
      let (id', h', buf') := h.moveChunk READ id pos buf (off - reqOff) size
      do
        let r ← rwLoopTraced READ leftOff reqSize reqOff rest false (addWrap 32 off bytes)
          (sizeLeft - size) h' buf'
        return ((id' :: r.1.1, r.1.2.1, r.1.2.2), ⟨base + bytes, pos, off - reqOff, size⟩ :: r.2)) := by
  obtain ⟨hstart, hgiven, hle, hmax⟩ :=
    start_of_copy hs.word hreq hpos (by omega : bytes < 2 ^ 32) hmove
  have hroom := hs.room hleft
  have hoff := hs.word
  generalize supply reqOff off bytes = given at *
  have hsub : subWrap 32 (base + bytes) base = bytes := by
    rw [subWrap_of_le (by omega) hword]
    omega
  have hserved : subWrap 32 bytes (bytes - given) = given := by
    rw [subWrap_of_le (by omega) (by omega)]
    omega
  have hsum : addWrap 32 off (bytes - given) = max off reqOff := by
    rw [addWrap_of_lt (by omega), hmax]
  have hout : subWrap 32 (max off reqOff) reqOff = off - reqOff := by
    rw [subWrap_of_le (by omega) (by omega)]
    omega
  have hend : addWrap 32 (off - reqOff) (min sizeLeft given) = off - reqOff + min sizeLeft given :=
    addWrap_of_lt (by omega)
  have hrem : subWrap 32 sizeLeft (min sizeLeft given) = sizeLeft - min sizeLeft given :=
    subWrap_of_le (Nat.min_le_left _ _) (by omega)
  have hnonempty : bytes ≠ 0 := by omega
  have hinside : bytes - given < bytes := by omega
  have hpast : reqOff ≤ max off reqOff := Nat.le_max_right _ _
  have hwithin : off - reqOff + min sizeLeft given ≤ reqSize := by omega
  rw [rwLoopTraced, if_neg hleft]
  simp only [hbase, hbytes, hsub, dAssert_of hnonempty, ok_bind, if_pos hmove, hstart,
    dAssert_of hinside, hserved, hsum, dAssert_of hpast, hout, hend, dAssert_of hwithin, hrem,
    dAssert_of (Nat.min_le_left sizeLeft given)]

/-- An iteration that copies nothing. -/
theorem rwLoopTraced_skip {base : ℕ} (hbase : (if first then leftOff else 0) = base)
    (hleft : sizeLeft ≠ 0) (hbytes : h.getSize id = base + bytes) (hpos : 0 < bytes)
    (hword : base + bytes < 2 ^ 32) (hskip : ¬ reqOff < addWrap 32 off bytes) :
    rwLoopTraced READ leftOff reqSize reqOff (id :: rest) first off sizeLeft h buf = (do
      let r ← rwLoopTraced READ leftOff reqSize reqOff rest false (addWrap 32 off bytes) sizeLeft h buf
      return ((id :: r.1.1, r.1.2.1, r.1.2.2), r.2)) := by
  have hsub : subWrap 32 (base + bytes) base = bytes := by
    rw [subWrap_of_le (by omega) hword]
    omega
  have hnonempty : bytes ≠ 0 := by omega
  rw [rwLoopTraced, if_neg hleft]
  simp only [hbase, hbytes, hsub, dAssert_of hnonempty, ok_bind, if_neg hskip]

/-- An iteration at an empty buffer. -/
theorem rwLoopTraced_empty {base : ℕ} (hbase : (if first then leftOff else 0) = base)
    (hleft : sizeLeft ≠ 0) (hbytes : h.getSize id = base) (hword : base < 2 ^ 32) :
    rwLoopTraced READ leftOff reqSize reqOff (id :: rest) first off sizeLeft h buf =
      .error .assertion := by
  have hsub : subWrap 32 base base = 0 := by
    rw [subWrap_of_le le_rfl hword, Nat.sub_self]
  rw [rwLoopTraced, if_neg hleft]
  simp only [hbase, hbytes, hsub, dAssert, dAssertElse, ne_eq, not_true_eq_false, if_false,
    error_bind]

/-- A chunk that stays inside its buffer changes the size of no buffer. -/
theorem Heap.getSize_moveChunk (READ : Bool) (buf : List Byte) (outOff : ℕ) {pos size : ℕ}
    (hfit : pos + size ≤ h.getSize id) {j : BufferId} (hj : j < h.next) :
    (h.moveChunk READ id pos buf outOff size).2.1.getSize j = h.getSize j ∧
      j < (h.moveChunk READ id pos buf outOff size).2.1.next := by
  have hslice : (slice buf outOff size).length ≤ size := by
    rw [slice, List.length_take]
    exact Nat.min_le_left _ _
  have hlength : (overwrite (h.data id) pos (slice buf outOff size)).length = h.getSize id :=
    length_overwrite (by rw [← Heap.getSize]; omega)
  unfold Heap.moveChunk
  split_ifs with hread hshared
  · exact ⟨rfl, hj⟩
  · have hne : j ≠ h.next := hj.ne
    refine ⟨?_, Nat.lt_succ_of_lt hj⟩
    simp [Heap.getSize, Heap.poke, Heap.clone, hne]
  · refine ⟨?_, hj⟩
    by_cases heq : j = id
    · subst heq
      simpa [Heap.getSize, Heap.poke] using hlength
    · simp [Heap.getSize, Heap.poke, heq]

end Iteration

/-- The buffers exist, their sizes are `uint32_t`, and the first is not shorter than what is
skipped of it. -/
structure Heap.Sized (h : Heap) (leftOff : ℕ) (first : Bool) (ids : List BufferId) : Prop where
  known : ∀ id ∈ ids, id < h.next
  word : ∀ id ∈ ids, h.getSize id < 2 ^ 32
  front : ∀ id ∈ ids.head?, (if first then leftOff else 0) ≤ h.getSize id

/-- What becomes of a loop whose buffers serve `bytes` bytes where `sizeLeft` are left: it runs
through with every copy in bounds where these suffice, and fails an assertion otherwise. -/
structure ServedBy (reqSize sizeLeft bytes : ℕ)
    (loop : Except Failure ((List BufferId × Heap × List Byte) × List Copy)) : Prop where
  runs : sizeLeft ≤ bytes → ∃ res copies, loop = .ok (res, copies) ∧ ∀ c ∈ copies, c.InBounds reqSize
  fails : bytes < sizeLeft → loop = .error .assertion

section Serving

variable {READ : Bool} {leftOff reqSize reqOff sizeLeft bytes : ℕ} {first : Bool} {id : BufferId}
  {rest : List BufferId} {h h' : Heap}
  {loop : Except Failure ((List BufferId × Heap × List Byte) × List Copy)}

/-- Nothing is left to do. -/
theorem ServedBy.done (res : List BufferId × Heap × List Byte) :
    ServedBy reqSize 0 bytes (.ok (res, [])) :=
  ⟨fun _ => ⟨res, [], rfl, fun _ hc => absurd hc List.not_mem_nil⟩,
    fun hshort => absurd hshort (Nat.not_lt_zero bytes)⟩

/-- An assertion fails before a byte more is served. -/
theorem ServedBy.stops (hleft : sizeLeft ≠ 0) : ServedBy reqSize sizeLeft 0 (.error .assertion) :=
  ⟨fun hserved => absurd (Nat.le_zero.mp hserved) hleft, fun _ => rfl⟩

/-- A buffer in front that serves nothing. -/
theorem ServedBy.skip (hserved : ServedBy reqSize sizeLeft bytes loop) (id : BufferId) :
    ServedBy reqSize sizeLeft bytes (do
      let r ← loop
      return ((id :: r.1.1, r.1.2.1, r.1.2.2), r.2)) := by
  refine ⟨fun henough => ?_, fun hshort => ?_⟩
  · obtain ⟨res, copies, rfl, hbounds⟩ := hserved.runs henough
    exact ⟨(id :: res.1, res.2), copies, rfl, hbounds⟩
  · rw [hserved.fails hshort]
    rfl

/-- A buffer in front with a copy of its own. -/
theorem ServedBy.move {given : ℕ} {c : Copy}
    (hserved : ServedBy reqSize (sizeLeft - min sizeLeft given) bytes loop) (id : BufferId)
    (hc : c.InBounds reqSize) :
    ServedBy reqSize sizeLeft (given + bytes) (do
      let r ← loop
      return ((id :: r.1.1, r.1.2.1, r.1.2.2), c :: r.2)) := by
  refine ⟨fun henough => ?_, fun hshort => ?_⟩
  · obtain ⟨res, copies, rfl, hbounds⟩ := hserved.runs (by omega)
    exact ⟨(id :: res.1, res.2), c :: copies, rfl, List.forall_mem_cons.mpr ⟨hc, hbounds⟩⟩
  · rw [hserved.fails (by omega)]
    rfl

theorem Heap.effectiveSizes_false (h : Heap) (leftOff : ℕ) (ids : List BufferId) :
    h.effectiveSizes leftOff false ids = ids.map h.getSize := by
  cases ids <;> rfl

theorem Heap.Sized.tail (hsized : h.Sized leftOff first (id :: rest))
    (hsame : ∀ j ∈ rest, h'.getSize j = h.getSize j ∧ j < h'.next) :
    h'.Sized leftOff false rest := by
  refine ⟨fun j hj => (hsame j hj).2, fun j hj => ?_, fun j hj => Nat.zero_le _⟩
  rw [(hsame j hj).1]
  exact hsized.word j (List.mem_cons_of_mem id hj)

/-- **The loop of `do_rw` runs through exactly when the buffers before the first empty one serve
the request**, and then every copy is in bounds. -/
theorem rwLoopTraced_served (READ : Bool) (hsize : reqSize < 2 ^ 32) (hreq : reqOff < 2 ^ 32)
    (ids : List BufferId) (first : Bool) (off sizeLeft : ℕ) (h : Heap) (buf : List Byte)
    (hs : Serving reqSize reqOff off sizeLeft) (hsized : h.Sized leftOff first ids) :
    ServedBy reqSize sizeLeft (supplied reqOff (h.effectiveSizes leftOff first ids) off)
      (rwLoopTraced READ leftOff reqSize reqOff ids first off sizeLeft h buf) := by
  induction ids generalizing first off sizeLeft h buf with
  | nil =>
      rw [rwLoopTraced]
      by_cases hleft : sizeLeft = 0
      · rw [dAssert_of hleft, hleft]
        exact .done _
      · rw [dAssert_of_not hleft]
        exact .stops hleft
  | cons id rest ih =>
      by_cases hleft : sizeLeft = 0
      · rw [rwLoopTraced, if_pos hleft, hleft]
        exact .done _
      have hfront := hsized.front id rfl
      have hword := hsized.word id List.mem_cons_self
      rw [Heap.effectiveSizes, supplied]
      generalize hbase : (if first then leftOff else 0) = base at *
      obtain ⟨bytes, hbytes⟩ : ∃ bytes, h.getSize id = base + bytes := Nat.exists_eq_add_of_le hfront
      rw [hbytes, Nat.add_sub_cancel_left]
      rcases Nat.eq_zero_or_pos bytes with rfl | hpos
      · rw [if_pos rfl, rwLoopTraced_empty hbase hleft hbytes (by omega)]
        exact .stops hleft
      rw [if_neg hpos.ne']
      have hnext := hs.next hleft hreq hpos (by omega : bytes < 2 ^ 32)
      by_cases hmove : reqOff < addWrap 32 off bytes
      · obtain ⟨-, -, hle, -⟩ := start_of_copy hs.word hreq hpos (by omega) hmove
        have hroom := hs.room hleft
        rw [rwLoopTraced_move hbase hs hleft hsize hreq hbytes hpos (by omega) hmove]
        generalize supply reqOff off bytes = given at *
        have hsame : ∀ j ∈ rest, _ := fun j hj =>
          Heap.getSize_moveChunk READ buf (off - reqOff)
            (by omega : base + (bytes - given) + min sizeLeft given ≤ h.getSize id)
            (hsized.known j (List.mem_cons_of_mem id hj))
        dsimp only
        generalize h.moveChunk READ id (base + (bytes - given)) buf (off - reqOff)
          (min sizeLeft given) = moved at *
        obtain ⟨id', h', buf'⟩ := moved
        have hrest := ih false _ _ h' buf' hnext (hsized.tail hsame)
        -- The sizes of the buffers to come are as before the copy.
        rw [Heap.effectiveSizes_false, List.map_congr_left fun j hj => (hsame j hj).1] at hrest
        exact hrest.move id' ⟨by dsimp only; omega, by dsimp only; omega⟩
      · rw [supply_of_skip hs.word (by omega) hmove, Nat.zero_add]
        rw [supply_of_skip hs.word (by omega) hmove, Nat.min_zero, Nat.sub_zero] at hnext
        have hsame : ∀ j ∈ rest, h.getSize j = h.getSize j ∧ j < h.next := fun j hj =>
          ⟨rfl, hsized.known j (List.mem_cons_of_mem id hj)⟩
        have hrest := ih false _ _ h buf hnext (hsized.tail hsame)
        rw [Heap.effectiveSizes_false] at hrest
        rw [rwLoopTraced_skip hbase hleft hbytes hpos (by omega) hmove]
        exact hrest.skip id

end Serving

/-- `do_rw` runs through, and every byte that it copies lies inside its buffer and inside the
caller's `reqSize` bytes. -/
def MultiBuffer.RwSafe (m : MultiBuffer BufferId) (READ : Bool) (h : Heap) (buf : List Byte)
    (reqSize reqOff : ℕ) : Prop :=
  ∃ res copies, m.doRwTraced READ h buf reqSize reqOff = .ok (res, copies) ∧
    m.doRw READ h buf reqSize reqOff = .ok res ∧ ∀ c ∈ copies, c.InBounds reqSize

section Entry

variable {READ : Bool} {reqSize reqOff size leftOff : ℕ} {ids : List BufferId} {h : Heap}
  {buf : List Byte}

/-- Where no offset wraps around, the buffers serve what they hold behind `reqOff`. -/
theorem supplied_of_fits (reqOff : ℕ) (sizes : List ℕ) (off : ℕ)
    (hfits : off + (sizes.takeWhile (· ≠ 0)).sum < 2 ^ 32) :
    supplied reqOff sizes off = off + (sizes.takeWhile (· ≠ 0)).sum - max off reqOff := by
  induction sizes generalizing off with
  | nil =>
      rw [supplied, List.takeWhile_nil, List.sum_nil]
      omega
  | cons bytes rest ih =>
      by_cases hzero : bytes = 0
      · rw [supplied, if_pos hzero, List.takeWhile_cons_of_neg (by simp [hzero]), List.sum_nil]
        omega
      · rw [List.takeWhile_cons_of_pos (by simp [hzero]), List.sum_cons] at hfits ⊢
        rw [supplied, if_neg hzero, addWrap_of_lt (by omega), ih _ (by omega), supply,
          if_pos (by omega)]
        omega

/-- What the constructor has checked of the first buffer. -/
theorem MultiBuffer.create_ok {β : Type} {getSize : β → ℕ} {buffers : List β}
    {m : MultiBuffer β} (hm : MultiBuffer.create getSize buffers size leftOff = .ok m) :
    m = ⟨buffers, size, leftOff⟩ ∧ ∀ b ∈ buffers.head?, leftOff < getSize b := by
  unfold MultiBuffer.create at hm
  obtain ⟨-, hm⟩ := dAssert_bind_ok hm
  obtain ⟨hfront, hm⟩ := dAssert_bind_ok hm
  exact ⟨(Except.ok.inj hm).symm, hfront⟩

/-- A request that is not served fails an assertion. -/
theorem MultiBuffer.doRw_fails (READ : Bool) (h : Heap) (buf : List Byte)
    (hsized : h.Sized leftOff true ids) (hreqSize : reqSize < 2 ^ 32) (hreqOff : reqOff < 2 ^ 32)
    (hentry : addWrap 32 reqSize reqOff ≤ size)
    (hshort : supplied reqOff (h.effectiveSizes leftOff true ids) 0 < reqSize) :
    MultiBuffer.doRw READ ⟨ids, size, leftOff⟩ h buf reqSize reqOff = .error .assertion := by
  have hserving : Serving reqSize reqOff 0 reqSize := ⟨by norm_num, fun _ => by omega⟩
  have hloop :=
    (rwLoopTraced_served READ hreqSize hreqOff ids true 0 reqSize h buf hserving hsized).fails hshort
  rw [← MultiBuffer.doRwTraced_erase, MultiBuffer.doRwTraced, dAssert_of hentry, ok_bind,
    if_neg (by omega), hloop]
  by_cases hne : ids ≠ []
  · rw [dAssert_of hne]
    rfl
  · rw [dAssert_of_not hne]
    rfl

/-- A request that passes the first assertion. -/
theorem MultiBuffer.rwSafe_iff (READ : Bool) (h : Heap) (buf : List Byte)
    (hsized : h.Sized leftOff true ids) (hreqSize : reqSize < 2 ^ 32) (hreqOff : reqOff < 2 ^ 32)
    (hentry : addWrap 32 reqSize reqOff ≤ size) :
    MultiBuffer.RwSafe ⟨ids, size, leftOff⟩ READ h buf reqSize reqOff ↔
      reqSize ≤ supplied reqOff (h.effectiveSizes leftOff true ids) 0 := by
  have hserving : Serving reqSize reqOff 0 reqSize := ⟨by norm_num, fun _ => by omega⟩
  constructor
  · rintro ⟨res, copies, -, hok, -⟩
    by_contra hnot
    rw [MultiBuffer.doRw_fails READ h buf hsized hreqSize hreqOff hentry (not_le.mp hnot)] at hok
    cases hok
  · intro hserved
    obtain ⟨res, copies, hloop, hbounds⟩ :=
      (rwLoopTraced_served READ hreqSize hreqOff ids true 0 reqSize h buf hserving hsized).runs hserved
    have hrun : ∃ res copies, MultiBuffer.doRwTraced READ ⟨ids, size, leftOff⟩ h buf reqSize reqOff =
        .ok (res, copies) ∧ ∀ c ∈ copies, c.InBounds reqSize := by
      rw [MultiBuffer.doRwTraced, dAssert_of hentry, ok_bind]
      by_cases hzero : reqSize = 0
      · rw [if_pos hzero]
        exact ⟨_, [], rfl, fun c hc => absurd hc List.not_mem_nil⟩
      · -- An empty list serves nothing.
        have hne : ids ≠ [] := by
          rintro rfl
          exact hzero (Nat.le_zero.mp hserved)
        rw [if_neg hzero, dAssert_of hne, ok_bind, hloop, ok_bind]
        exact ⟨_, copies, rfl, hbounds⟩
    obtain ⟨res, copies, htraced, hbounds⟩ := hrun
    refine ⟨res, copies, htraced, ?_, hbounds⟩
    rw [← MultiBuffer.doRwTraced_erase, htraced]
    rfl

end Entry

/-- **When the entry checks of `multi_buffer` are sufficient.**  A request that the first
assertion of `do_rw` accepts, on a list that the constructor accepts, runs through with every
copy in bounds if and only if the buffers before the first empty one serve it.  Where these
hold less than `2 ^ 32` bytes, that is a request of no bytes or one that ends in them, the end
taken without wrapping around. -/
theorem entry_checks_iff (READ : Bool) (h : Heap) (ids : List BufferId) (size leftOff : ℕ)
    (m : MultiBuffer BufferId) (hcreate : MultiBuffer.create h.getSize ids size leftOff = .ok m)
    (hknown : ∀ id ∈ ids, id < h.next) (hword : ∀ id ∈ ids, h.getSize id < 2 ^ 32)
    (buf : List Byte) (reqSize reqOff : ℕ) (hreqSize : reqSize < 2 ^ 32) (hreqOff : reqOff < 2 ^ 32)
    (hentry : addWrap 32 reqSize reqOff ≤ size) :
    (m.RwSafe READ h buf reqSize reqOff ↔
      reqSize ≤ supplied reqOff (h.effectiveSizes leftOff true ids) 0) ∧
    (((h.effectiveSizes leftOff true ids).takeWhile (· ≠ 0)).sum < 2 ^ 32 →
      (m.RwSafe READ h buf reqSize reqOff ↔
        reqSize = 0 ∨
          reqOff + reqSize ≤ ((h.effectiveSizes leftOff true ids).takeWhile (· ≠ 0)).sum)) := by
  obtain ⟨rfl, hfront⟩ := MultiBuffer.create_ok hcreate
  have hsized : h.Sized leftOff true ids := ⟨hknown, hword, fun id hid => (hfront id hid).le⟩
  have hiff := MultiBuffer.rwSafe_iff READ h buf hsized hreqSize hreqOff hentry
  refine ⟨hiff, fun hfits => ?_⟩
  rw [hiff, supplied_of_fits reqOff _ 0 (by omega)]
  omega

/-- Three buffers of one byte, no bytes and one byte. -/
def emptyBetween : Heap where
  data := fun id => if id = 1 then [] else [5]
  useCount := fun _ => 1
  next := 3

/-- The empty buffer in the middle is not noticed before the loop reaches it.  A request whose
end wraps around to 1 passes the first assertion, and the loop runs off the end of the list. -/
theorem entry_checks_insufficient :
    (∃ m, MultiBuffer.create emptyBetween.getSize [0, 1, 2] 2 0 = .ok m ∧
      addWrap 32 2 0 ≤ m.size ∧ m.doRw true emptyBetween [0, 0] 2 0 = .error .assertion ∧
      ¬ m.RwSafe true emptyBetween [0, 0] 2 0) ∧
    ∃ m, MultiBuffer.create emptyBetween.getSize [0] 1 0 = .ok m ∧
      addWrap 32 2 (2 ^ 32 - 1) ≤ m.size ∧
      m.doRw true emptyBetween [0, 0] 2 (2 ^ 32 - 1) = .error .assertion ∧
      ¬ m.RwSafe true emptyBetween [0, 0] 2 (2 ^ 32 - 1) := by
  have hunsafe : ∀ {m : MultiBuffer BufferId} {buf : List Byte} {reqSize reqOff : ℕ},
      m.doRw true emptyBetween buf reqSize reqOff = .error .assertion →
        ¬ m.RwSafe true emptyBetween buf reqSize reqOff := by
    rintro m buf reqSize reqOff herror ⟨res, copies, -, hok, -⟩
    rw [herror] at hok
    cases hok
  have hmiddle : MultiBuffer.doRw true ⟨[0, 1, 2], 2, 0⟩ emptyBetween [0, 0] 2 0 =
      .error .assertion := by
    apply MultiBuffer.doRw_fails
    · exact ⟨by decide, by decide, by decide⟩
    all_goals decide
  have hwrapped : MultiBuffer.doRw true ⟨[0], 1, 0⟩ emptyBetween [0, 0] 2 (2 ^ 32 - 1) =
      .error .assertion := by
    apply MultiBuffer.doRw_fails
    · exact ⟨by decide, by decide, by decide⟩
    all_goals decide
  exact ⟨⟨_, rfl, by decide, hmiddle, hunsafe hmiddle⟩,
    ⟨_, rfl, by decide, hwrapped, hunsafe hwrapped⟩⟩

/-- The byte before the empty buffer. -/
theorem entry_checks_iff_firstByte :
    ∃ m, MultiBuffer.create emptyBetween.getSize [0, 1, 2] 2 0 = .ok m ∧
      m.RwSafe true emptyBetween [0] 1 0 := by
  refine ⟨_, rfl, ?_⟩
  refine ((entry_checks_iff true emptyBetween [0, 1, 2] 2 0 _ rfl ?_ ?_ [0] 1 0 (by decide)
    (by decide) (by decide)).1).mpr ?_
  all_goals decide

end Util
end CoherentDB
