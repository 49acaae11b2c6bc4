import CoherentDB.MemoryManager.LiveBlocks

/-!
# What the calls do to the regions and the counters

`allocate` and `deallocate` change the recorded regions and the counters in two
ways only: a region is added, or a region is dropped.  `Scope.allocate_effect` and
`Scope.deallocate_effect` say so for any state of the containers, consistent or
not, and name the condition on the state before the call that decides:
`regionRequest` for `allocate` and `FreesRegion` for `deallocate`.
-/

namespace CoherentDB
namespace MemoryManager

open Debug Containers MachineInt ArenaLayout

namespace MemorySubSession

/-- Bytes of the free chunk that starts in region `r` and ends at `p`. -/
def freeBefore (s : MemorySubSession) (r : Block) (p : ℕ) : ℕ :=
  match s.freeSmallChunks.lastAtMost p with
  | none => 0
  | some previous =>
      if r.1 ≤ previous.1 ∧ p - previous.1 = previous.2 then previous.2 else 0

/-- Bytes of the first free chunk above `p`, when it starts at `start + size`. -/
def freeAfter (s : MemorySubSession) (p start size : ℕ) : ℕ :=
  match s.freeSmallChunks.upperBound p with
  | none => 0
  | some next => if next.1 - start = size then next.2 else 0

/-- Giving `b` back unmaps a region: `b` is no small block, or together with the free
chunks on both sides it is as long as its region. -/
def FreesRegion (s : MemorySubSession) (b : Block) : Prop :=
  s.isSmallAlloc b.1 = false ∨
  ∃ r, s.allocs.lastAtMost b.1 = some r ∧
    let front := s.freeBefore r b.1
    let size := addWrap 64 b.2 front
    size = r.2 ∨ addWrap 64 size (s.freeAfter b.1 (b.1 - front) size) = r.2

/-- Without the last chunk at or below `p`, the search above that chunk finds what the
search above `p` finds. -/
theorem upperBound_erase_last {t : AddressMap} {p : ℕ} {previous : Block}
    (h : t.lastAtMost p = some previous) :
    (t.erase previous.1).upperBound previous.1 = t.upperBound p := by
  obtain ⟨-, hle, hlast⟩ := OrderedTable.lastAtMost_spec h
  have hiff : ∀ y ∈ t, previous.1 < y.1 ↔ p < y.1 := by
    intro y hy
    refine ⟨fun hlt => ?_, fun hlt => lt_of_le_of_lt hle hlt⟩
    by_contra hge
    exact absurd (hlast y hy (not_lt.mp hge)) (not_le.mpr hlt)
  ext x
  rw [OrderedTable.upperBound_eq_some_iff, OrderedTable.upperBound_eq_some_iff]
  constructor
  · rintro ⟨hx, hlt, hleast⟩
    have hx' := (OrderedTable.mem_erase.mp hx).1
    refine ⟨hx', (hiff x hx').mp hlt, fun y hy hylt => ?_⟩
    have hylt' := (hiff y hy).mpr hylt
    exact hleast y (OrderedTable.mem_erase.mpr ⟨hy, hylt'.ne'⟩) hylt'
  · rintro ⟨hx, hlt, hleast⟩
    have hlt' := (hiff x hx).mpr hlt
    refine ⟨OrderedTable.mem_erase.mpr ⟨hx, hlt'.ne'⟩, hlt', fun y hy hylt => ?_⟩
    have hy' := (OrderedTable.mem_erase.mp hy).1
    exact hleast y hy' ((hiff y hy').mp hylt)

/-- What the first merging step returns, from any state. -/
theorem mergePrevious_result {s s' : MemorySubSession} {r b b' : Block} (hb : b.2 < 2 ^ 64)
    (h : s.mergePrevious r b = .ok (s', b')) :
    b' = (b.1 - s.freeBefore r b.1, addWrap 64 b.2 (s.freeBefore r b.1)) ∧
      s'.freeSmallChunks.upperBound b'.1 = s.freeSmallChunks.upperBound b.1 := by
  have hzero : addWrap 64 b.2 0 = b.2 := addWrap_of_lt (by omega)
  rw [mergePrevious] at h
  cases hprev : s.freeSmallChunks.lastAtMost b.1 with
  | none =>
      simp only [hprev, Except.ok.injEq, Prod.mk.injEq] at h
      obtain ⟨rfl, rfl⟩ := h
      simp [freeBefore, hprev, hzero]
  | some previous =>
      obtain ⟨-, hle, -⟩ := OrderedTable.lastAtMost_spec hprev
      simp only [hprev, dAssert, dAssertElse] at h
      split_ifs at h with hregion hlt hdiff hadj <;>
        simp only [ok_bind, error_bind, pure, Except.pure, Except.ok.injEq, Prod.mk.injEq,
          reduceCtorEq] at h
      · -- The chunk before is taken over; the next search finds the same chunk as before.
        obtain ⟨rfl, rfl⟩ := h
        have hfront : s.freeBefore r b.1 = previous.2 := by simp [freeBefore, hprev, hregion, hadj]
        refine ⟨Prod.ext (by simp only [hfront]; omega) (by rw [hfront]), ?_⟩
        exact upperBound_erase_last hprev
      · obtain ⟨rfl, rfl⟩ := h
        simp [freeBefore, hprev, hadj, hzero]
      · obtain ⟨rfl, rfl⟩ := h
        simp [freeBefore, hprev, hregion, hzero]

/-- The size that the second merging step returns, from any state. -/
theorem mergeNext_size {s₀ s s' : MemorySubSession} {r b b' : Block} {p : ℕ} (hb : b.2 < 2 ^ 64)
    (hsearch : s.freeSmallChunks.upperBound b.1 = s₀.freeSmallChunks.upperBound p)
    (h : s.mergeNext r b = .ok (s', b')) :
    b'.2 = if b.2 = r.2 then b.2 else addWrap 64 b.2 (s₀.freeAfter p b.1 b.2) := by
  have hzero : addWrap 64 b.2 0 = b.2 := addWrap_of_lt (by omega)
  rw [mergeNext] at h
  rw [freeAfter, ← hsearch]
  cases hnext : s.freeSmallChunks.upperBound b.1 with
  | none =>
      simp only [hnext, Except.ok.injEq, Prod.mk.injEq] at h
      simp only [← h.2, hzero, ite_self]
  | some next =>
      simp only [hnext, dAssert, dAssertElse] at h
      split_ifs at h with hpart hlt hadj <;>
        simp only [ok_bind, error_bind, pure, Except.pure, Except.ok.injEq, Prod.mk.injEq,
          reduceCtorEq] at h
      · simp only [← h.2, if_neg hpart, hadj, if_true]
      · simp only [← h.2, if_neg hpart, hadj, if_false, hzero]
      · rw [not_not] at hpart
        simp only [← h.2, hpart, if_true]

/-- The two merging steps leave a block as long as the region exactly when the free chunks
on both sides fill the region up. -/
theorem merged_size_iff {s₁ s₂ s₃ : MemorySubSession} {r b₂ b₃ : Block} {p n : ℕ}
    (hn : n < 2 ^ 64) (hprev : s₁.mergePrevious r (p, n) = .ok (s₂, b₂))
    (hnext : s₂.mergeNext r b₂ = .ok (s₃, b₃)) :
    r.2 = b₃.2 ↔
      addWrap 64 n (s₁.freeBefore r p) = r.2 ∨
      addWrap 64 (addWrap 64 n (s₁.freeBefore r p))
        (s₁.freeAfter p (p - s₁.freeBefore r p) (addWrap 64 n (s₁.freeBefore r p))) = r.2 := by
  obtain ⟨rfl, hsearch⟩ := mergePrevious_result hn hprev
  rw [mergeNext_size (addWrap_lt _ _ _) hsearch hnext]
  split_ifs with hwhole
  · exact iff_of_true hwhole.symm (Or.inl hwhole)
  · rw [or_iff_right hwhole]
    exact eq_comm

end MemorySubSession

variable {cfg : ManagerConfig} {c c' : Scope}

/-- The regions and the counters are as before. -/
structure Scope.Kept (c c' : Scope) : Prop where
  mapped : c'.mapped = c.mapped
  parent : c'.parent = c.parent
  this : c'.this = c.this
  frozen : c'.self.frozen = c.self.frozen
  unfrozenThreadsCount : c'.self.unfrozenThreadsCount = c.self.unfrozenThreadsCount
  allocatedBytes : c'.self.allocatedBytes = c.self.allocatedBytes
  allocs : c'.self.allocs = c.self.allocs

/-- The record of region `r` and its bytes are gone, and `pages` are unmapped. -/
structure Scope.Dropped (c c' : Scope) (r : Block) (pages : Finset ℕ) : Prop where
  recorded : r ∈ c.self.allocs
  mapped : c'.mapped = c.mapped \ pages
  parent : c'.parent = { c.parent with
    ramAllocatedBytes := subWrap 64 c.parent.ramAllocatedBytes r.2
    totalAllocatedBytes := subWrap 64 c.parent.totalAllocatedBytes r.2
    allocs := c.parent.allocs.insert (r.1, c.this) }
  this : c'.this = c.this
  frozen : c'.self.frozen = c.self.frozen
  unfrozenThreadsCount : c'.self.unfrozenThreadsCount = c.self.unfrozenThreadsCount
  allocatedBytes : c'.self.allocatedBytes = subWrap 64 c.self.allocatedBytes r.2
  allocs : c'.self.allocs = c.self.allocs.erase r.1

/-- A region of `bytes` at `p` is mapped, recorded and counted. -/
structure Scope.Added (cfg : ManagerConfig) (c c' : Scope) (p bytes : ℕ) : Prop where
  mapped : c'.mapped = c.mapped ∪ cfg.pages p bytes
  parent : c'.parent = { c.parent with
    ramAllocatedBytes := addWrap 64 c.parent.ramAllocatedBytes bytes
    totalAllocatedBytes := addWrap 64 c.parent.totalAllocatedBytes bytes
    allocs := c.parent.allocs.insert (p, c.this) }
  this : c'.this = c.this
  frozen : c'.self.frozen = c.self.frozen
  unfrozenThreadsCount : c'.self.unfrozenThreadsCount = c.self.unfrozenThreadsCount
  allocatedBytes : c'.self.allocatedBytes = addWrap 64 c.self.allocatedBytes bytes
  allocs : c'.self.allocs = c.self.allocs.insert (p, bytes)

/-- The length of the region that `allocate` asks the kernel for, if it asks at all. -/
def MemorySubSession.regionRequest (cfg : ManagerConfig) (s : MemorySubSession)
    (neededBytes : ℕ) : Option ℕ :=
  if cfg.getMaxSmallAllocBytes < neededBytes then some (cfg.pageAligned neededBytes)
  else if (s.smallestSufficentFreeSmallChunk neededBytes).1 = 0 then
    some cfg.getSingleSmallAllocBytes
  else none

/-- A region that `allocate` asks for is as long as the request. -/
theorem MemorySubSession.le_regionRequest {s : MemorySubSession} {n bytes : ℕ}
    (hcfg : cfg.getMaxSmallAllocBytes ≤ cfg.getSingleSmallAllocBytes) (hn : n < 2 ^ 64)
    (hpos : 0 < bytes) (h : s.regionRequest cfg n = some bytes) : n ≤ bytes := by
  unfold MemorySubSession.regionRequest at h
  split_ifs at h with hlarge hchunk
  · obtain rfl := Option.some.inj h
    exact cfg.le_pageAligned hn hpos
  · obtain rfl := Option.some.inj h
    exact (not_lt.mp hlarge).trans hcfg

/-- `memory_sub_session::allocate` fails only where the kernel does. -/
theorem Scope.allocate_isOk {mmap : ℕ → Option ℕ} {n : ℕ}
    (hregion : ∀ bytes, c.self.regionRequest cfg n = some bytes → (mmap bytes).isSome) :
    ∃ p c', c.allocate cfg mmap n = .ok (p, c') := by
  unfold MemorySubSession.regionRequest at hregion
  unfold Scope.allocate
  dsimp only
  split_ifs at hregion ⊢
  · obtain ⟨p, hp⟩ := Option.isSome_iff_exists.mp (hregion _ rfl)
    simp only [Scope.map, hp]
    exact ⟨_, _, rfl⟩
  · obtain ⟨p, hp⟩ := Option.isSome_iff_exists.mp (hregion _ rfl)
    simp only [Scope.map, hp]
    exact ⟨_, _, rfl⟩
  · exact ⟨_, _, rfl⟩

/-- Filing a remainder touches neither the regions nor the counters. -/
theorem Scope.fileRemainder_kept (c : Scope) (res n k : ℕ) :
    Scope.Kept c (c.fileRemainder res n k) := by
  unfold Scope.fileRemainder
  split_ifs
  · exact ⟨rfl, rfl, rfl, rfl, rfl, rfl, rfl⟩
  · exact ⟨rfl, rfl, rfl, rfl, rfl, rfl, rfl⟩

/-- **What a successful `allocate` did to the regions**, from any state: nothing when it
did not ask the kernel, else it added the region it asked for. -/
theorem Scope.allocate_effect {mmap : ℕ → Option ℕ} {n p : ℕ}
    (h : c.allocate cfg mmap n = .ok (p, c')) :
    (c.self.regionRequest cfg n = none ∧ Scope.Kept c c') ∨
      ∃ bytes, c.self.regionRequest cfg n = some bytes ∧ mmap bytes = some p ∧
        Scope.Added cfg c c' p bytes := by
  rcases Scope.allocate_cases h with ⟨hlarge, hmap, rfl⟩ | ⟨hmax, hchunk, hmap, c₁, rfl, rfl⟩ |
    ⟨hmax, hchunk, -, rfl⟩
  · refine Or.inr ⟨_, by simp [MemorySubSession.regionRequest, hlarge], hmap, ?_⟩
    exact ⟨rfl, rfl, rfl, rfl, rfl, rfl, rfl⟩
  · refine Or.inr ⟨_, ?_, hmap, ?_⟩
    · simp [MemorySubSession.regionRequest, not_lt.mpr hmax, hchunk]
    · have hkept := Scope.fileRemainder_kept
        { (c.mapAt cfg p cfg.getSingleSmallAllocBytes).addAlloc p cfg.getSingleSmallAllocBytes with
          self := ((c.mapAt cfg p cfg.getSingleSmallAllocBytes).addAlloc p
            cfg.getSingleSmallAllocBytes).self.addSmallAlloc p n } p n
        (subWrap 64 cfg.getSingleSmallAllocBytes n)
      exact ⟨hkept.mapped, hkept.parent, hkept.this, hkept.frozen, hkept.unfrozenThreadsCount,
        hkept.allocatedBytes, hkept.allocs⟩
  · refine Or.inl ⟨?_, ?_⟩
    · simp [MemorySubSession.regionRequest, not_lt.mpr hmax, hchunk]
    · have hkept := Scope.fileRemainder_kept
        { c with self := (c.self.addSmallAlloc p n).removeFreeSmallChunk p } p n
        (subWrap 64 (c.self.smallestSufficentFreeSmallChunk n).1 n)
      exact ⟨hkept.mapped, hkept.parent, hkept.this, hkept.frozen, hkept.unfrozenThreadsCount,
        hkept.allocatedBytes, hkept.allocs⟩

/-- Without a region the block is cut from the chunk that the search finds. -/
theorem Scope.allocate_chunk {mmap : ℕ → Option ℕ} {n p : ℕ}
    (hnone : c.self.regionRequest cfg n = none) (h : c.allocate cfg mmap n = .ok (p, c')) :
    (c.self.smallestSufficentFreeSmallChunk n).1 ≠ 0 ∧
      p = (c.self.smallestSufficentFreeSmallChunk n).2 ∧
      c' = Scope.fileRemainder
        { c with self := (c.self.addSmallAlloc p n).removeFreeSmallChunk p } p n
        (subWrap 64 (c.self.smallestSufficentFreeSmallChunk n).1 n) := by
  unfold MemorySubSession.regionRequest at hnone
  rcases Scope.allocate_cases h with ⟨hlarge, -, -⟩ | ⟨hmax, hzero, -, -⟩ | ⟨-, hchunk, hp, hc'⟩
  · rw [if_pos hlarge] at hnone
    cases hnone
  · rw [if_neg (not_lt.mpr hmax), if_pos hzero] at hnone
    cases hnone
  · exact ⟨hchunk, hp, hc'⟩

/-- `remove_alloc` after the bookkeeping of a small block, or with none. -/
theorem Scope.removeAlloc_effect {s₁ s : MemorySubSession} {pages : Finset ℕ} {q : ℕ}
    (hs₁ : s₁ = { c.self with smallAllocs := s₁.smallAllocs })
    (hshrink : MemorySubSession.Shrinks s₁ s)
    (h : Scope.removeAlloc { c with self := s, mapped := c.mapped \ pages } q = .ok c') :
    ∃ r, Scope.Dropped c c' r pages := by
  rw [hs₁] at hshrink
  rw [Scope.removeAlloc] at h
  cases hfind : s.allocs.find? q with
  | none => simp [hfind] at h
  | some r =>
      obtain ⟨hr, rfl⟩ := OrderedTable.find?_eq_some_iff.mp hfind
      simp only [hfind, Except.ok.injEq] at h
      have hallocs : s.allocs = c.self.allocs := hshrink.allocs
      subst h
      refine ⟨r, hallocs ▸ hr, rfl, rfl, rfl, hshrink.frozen, hshrink.unfrozenThreadsCount, ?_,
        congrArg (fun t => t.erase r.1) hallocs⟩
      exact congrArg (fun x => subWrap 64 x r.2) hshrink.allocatedBytes

/-- Every way of unmapping is a difference with some set of pages. -/
theorem Scope.munmap_eq (cfg : ManagerConfig) (c : Scope) (q m : ℕ) :
    ∃ pages, c.munmap cfg q m = { c with mapped := c.mapped \ pages } := by
  unfold Scope.munmap
  split_ifs
  · exact ⟨_, rfl⟩
  · exact ⟨∅, by simp⟩

theorem removeSmallAlloc_eq {s s₁ : MemorySubSession} {p : ℕ}
    (h : s.removeSmallAlloc p = .ok s₁) : s₁ = { s with smallAllocs := s₁.smallAllocs } := by
  rw [MemorySubSession.removeSmallAlloc] at h
  cases hub : s.smallAllocs.upperBound (toLex (p, 0)) with
  | none => simp [hub] at h
  | some i =>
      simp only [hub, dAssert, dAssertElse] at h
      split_ifs at h <;> simp [pure, Except.pure] at h
      rw [← h]

/-- **What a successful `deallocate` did to the regions**, from any state: nothing, or it
dropped a recorded region; which of the two, the state before it tells. -/
theorem Scope.deallocate_effect {p n : ℕ} (h : c.deallocate cfg p n = .ok c') :
    (n < 2 ^ 64 → ¬ c.self.FreesRegion (p, n)) ∧ Scope.Kept c c' ∨
      (n < 2 ^ 64 → c.self.FreesRegion (p, n)) ∧ ∃ r pages, Scope.Dropped c c' r pages := by
  rw [Scope.deallocate] at h
  by_cases hsmall : c.self.isSmallAlloc p = true
  · rw [if_pos hsmall] at h
    cases hrel : c.self.removeSmallAlloc p with
    | error e => simp [hrel] at h
    | ok s₁ =>
        have hs₁ := removeSmallAlloc_eq hrel
        simp only [hrel, ok_bind, MemorySubSession.addMergeRemoveFreeSmallChunk_eq] at h
        cases hregion : s₁.freeSmallChunkAlloc p with
        | error e => simp [hregion] at h
        | ok r =>
            simp only [hregion, ok_bind] at h
            cases hprev : s₁.mergePrevious r (p, n) with
            | error e => simp [hprev] at h
            | ok res =>
                obtain ⟨s₂, b₂⟩ := res
                obtain ⟨s₃, b₃, hnext, hshrink₃⟩ := MemorySubSession.mergeNext_ok s₂ r b₂
                simp only [hprev, ok_bind, hnext] at h
                have hshrink : MemorySubSession.Shrinks s₁ s₃ :=
                  (MemorySubSession.mergePrevious_shrinks hprev).trans hshrink₃
                have hlast : c.self.allocs.lastAtMost p = some r := by
                  rw [MemorySubSession.freeSmallChunkAlloc, hs₁] at hregion
                  cases hlast : c.self.allocs.lastAtMost p with
                  | none => simp [hlast] at hregion
                  | some r₀ => simpa [hlast] using hregion
                -- Releasing the block leaves the free chunks as they were.
                have hfrees : n < 2 ^ 64 → (c.self.FreesRegion (p, n) ↔ r.2 = b₃.2) := by
                  intro hn
                  have hiff := MemorySubSession.merged_size_iff hn hprev hnext
                  rw [hs₁] at hiff
                  rw [hiff, MemorySubSession.FreesRegion, hsmall]
                  simp only [hlast, Option.some.injEq, exists_eq_left', Bool.true_eq_false,
                    false_or]
                  rfl
                by_cases hwhole : r.2 = b₃.2
                · -- The merged block has the size of the region: the region is given back.
                  rw [if_pos hwhole] at h
                  obtain ⟨pages, hpages⟩ := Scope.munmap_eq cfg { c with self := s₃ } r.1 r.2
                  rw [hpages] at h
                  obtain ⟨r', hdrop⟩ := Scope.removeAlloc_effect hs₁ hshrink h
                  exact Or.inr ⟨fun hn => (hfrees hn).mpr hwhole, r', pages, hdrop⟩
                · rw [if_neg hwhole] at h
                  obtain rfl := Except.ok.inj h
                  rw [hs₁] at hshrink
                  exact Or.inl ⟨fun hn => mt (hfrees hn).mp hwhole, rfl, rfl, rfl, hshrink.frozen,
                    hshrink.unfrozenThreadsCount, hshrink.allocatedBytes, hshrink.allocs⟩
  · -- A large block is a region of its own.
    rw [if_neg hsmall] at h
    obtain ⟨pages, hpages⟩ := Scope.munmap_eq cfg c p n
    rw [hpages] at h
    have hself : c.self = { c.self with smallAllocs := c.self.smallAllocs } := rfl
    obtain ⟨r, hdrop⟩ := Scope.removeAlloc_effect hself (MemorySubSession.Shrinks.refl _) h
    exact Or.inr ⟨fun _ => Or.inl (by simpa using hsmall), r, pages, hdrop⟩

end MemoryManager
end CoherentDB
