import CoherentDB.MemoryManager.SubSessionRuns
import CoherentDB.MemoryManager.Ownership

/-!
# Giving everything back

An arena goes back to the kernel only when the merging of free chunks has rebuilt
one chunk of the arena's size at the moment of the last free.  `Occupied` is the
invariant that makes this happen: a small block of the bookkeeping is always in
the hands of a caller, and no region is kept that holds no live block.

`Charged` relates the counters and the mapped pages to the recorded regions.  In
a run without a cross-arena merge both hold at every state, so that a state
without live blocks is as the run found it (`no_leak`).  After a cross-arena merge
two regions may stay mapped for ever (`leak_after_crossArenaMerge`).
-/

namespace CoherentDB
namespace MemoryManager

open Debug Containers MachineInt ArenaLayout

section Calls

variable {cfg : ManagerConfig} {c c' : Scope}

/-- The small blocks on record after a successful `allocate`. -/
theorem Scope.allocate_smallAllocs {mmap : ℕ → Option ℕ} {n p : ℕ}
    (h : c.allocate cfg mmap n = .ok (p, c')) {u : Block} (hu : u ∈ c'.self.smallAllocs) :
    u = (p, n) ∨ u ∈ c.self.smallAllocs := by
  rcases Scope.allocate_cases h with ⟨-, -, rfl⟩ | ⟨-, -, -, c₁, rfl, rfl⟩ | ⟨-, -, -, rfl⟩
  · exact Or.inr hu
  · rw [Scope.fileRemainder_self] at hu
    split_ifs at hu
    · exact OrderedTable.mem_insertEntry hu
    · exact OrderedTable.mem_insertEntry hu
  · -- The chunk that serves the request leaves its two containers, not this one.
    have hremove : ((c.self.addSmallAlloc p n).removeFreeSmallChunk p).smallAllocs =
        (c.self.addSmallAlloc p n).smallAllocs := by
      rfl
    rw [Scope.fileRemainder_self] at hu
    split_ifs at hu
    · exact OrderedTable.mem_insertEntry (hremove ▸ hu)
    · exact OrderedTable.mem_insertEntry (hremove ▸ hu)

/-- What giving back a block of region `r` did: the block is off the record, and either
the region stays with a block in use or it went back to the kernel. -/
structure Scope.Settled (cfg : ManagerConfig) (c c' : Scope) (b r : Block) : Prop where
  region : r ∈ c.self.allocs
  inside : Inside b r
  smallAllocs : ∀ u ∈ c'.self.smallAllocs, u ∈ c.self.smallAllocs ∧ u ≠ b
  outcome : (Scope.Kept c c' ∧ ∃ u ∈ c'.self.smallAllocs, Inside u r) ∨
    Scope.Dropped c c' r (cfg.pages r.1 r.2)

/-- **`deallocate` settles the region of the block**, unless it is a cross-arena merge. -/
theorem Held.deallocate_settled (h : Held cfg c.mapped c.self) {b : Block} (hpos : 0 < b.2)
    (hb : Recorded cfg c.self b) (hclean : ¬ CrossArenaMerge c.self b) :
    ∃ c' r, c.deallocate cfg b.1 b.2 = .ok c' ∧ Scope.Settled cfg c c' b r := by
  rcases hb with ⟨-, hmem⟩ | ⟨-, hlt, hreg, hbare⟩
  · obtain ⟨r, hr, hin, s₂, b₂, s₃, b₃, hprev, hnext, heq⟩ := h.deallocate_small_eq hmem
    have hm : Merged c.self s₃ r b b₃ := h.merged hmem hclean hr hin hprev hnext
    obtain ⟨s₃', b₃', hnext', hshrink₃⟩ := MemorySubSession.mergeNext_ok s₂ r b₂
    obtain ⟨rfl, rfl⟩ : s₃ = s₃' ∧ b₃ = b₃' := by
      simpa using hnext.symm.trans hnext'
    have hshrink := (MemorySubSession.mergePrevious_shrinks hprev).trans hshrink₃
    have hothers : ∀ u ∈ s₃.smallAllocs, u ∈ c.self.smallAllocs ∧ u ≠ b := by
      intro u hu
      rw [hm.smallAllocs] at hu
      obtain ⟨hu', hne⟩ := OrderedTable.mem_erase.mp hu
      exact ⟨hu', fun hub => hne (congrArg toLex hub)⟩
    refine ⟨_, r, heq, ?_⟩
    by_cases hwhole : r.2 = b₃.2
    · rw [if_pos hwhole]
      exact ⟨hr, hin, hothers, Or.inr (Scope.dropped_dropRegion hr hshrink.frozen
        hshrink.unfrozenThreadsCount hshrink.allocatedBytes hshrink.allocs)⟩
    · rw [if_neg hwhole]
      obtain ⟨hheld, -⟩ := hm.file h fun hsize => hwhole hsize.symm
      -- The merged chunk is a piece of the region, and regions with a piece are in use.
      have hchunk : b₃ ∈ (s₃.addFreeSmallChunk b₃.1 b₃.2).freeSmallChunks := by
        refine OrderedTable.self_mem_insertEntry fun f hf hkey => ?_
        have hfree := hm.sound.free_apart_hole hf
        have hfpos := hm.sound.free_pos hf
        have hmpos := hm.sound.hole_pos
        omega
      have hr₃ : r ∈ (s₃.addFreeSmallChunk b₃.1 b₃.2).allocs := by
        show r ∈ s₃.allocs
        rw [hm.allocs]
        exact hr
      refine ⟨hr, hin, hothers, Or.inl ⟨⟨rfl, rfl, rfl, hshrink.frozen,
        hshrink.unfrozenThreadsCount, hshrink.allocatedBytes, hshrink.allocs⟩, ?_⟩⟩
      exact hheld.populated r hr₃ b₃ (Or.inr (Or.inl hchunk)) hm.inside
  · have hBpos : 0 < cfg.pageAligned b.2 := h.sound.tiled.region_pos _ hreg
    have hin : Inside b (b.1, cfg.pageAligned b.2) := by
      have := cfg.le_pageAligned hlt hBpos
      exact ⟨le_rfl, by simp only; omega⟩
    refine ⟨_, _, h.deallocate_large_eq hlt hpos hreg hbare, hreg, hin, fun u hu => ?_,
      Or.inr (Scope.dropped_dropRegion hreg rfl rfl rfl rfl)⟩
    exact ⟨hu, fun hub => hbare u (Or.inl hu) (hub ▸ hin)⟩

end Calls

section Occupied

variable {cfg : ManagerConfig} {st st' : LiveState}

/-- Every small block on record is live, and every recorded region holds a live block. -/
structure LiveState.Occupied (st : LiveState) : Prop where
  small : ∀ u ∈ st.scope.self.smallAllocs, u ∈ st.live
  region : ∀ r ∈ st.scope.self.allocs, ∃ b ∈ st.live, Inside b r

theorem LiveState.Initial.occupied (h : st.Initial) : st.Occupied := by
  constructor
  · simp [h.smallAllocs]
  · simp [h.allocs]

theorem LiveState.Occupied.allocate {mmap : ℕ → Option ℕ} {c' : Scope} {p n : ℕ}
    (ho : st.Occupied) (hcfg : cfg.getMaxSmallAllocBytes ≤ cfg.getSingleSmallAllocBytes)
    (hmmap : MmapFresh cfg st.scope.mapped mmap) (hn' : n < 2 ^ 64)
    (halloc : st.scope.allocate cfg mmap n = .ok (p, c')) :
    LiveState.Occupied ⟨c', (p, n) :: st.live⟩ := by
  have hold : ∀ r ∈ st.scope.self.allocs, ∃ b ∈ (p, n) :: st.live, Inside b r := by
    intro r hr
    obtain ⟨b, hb, hin⟩ := ho.region r hr
    exact ⟨b, List.mem_cons_of_mem _ hb, hin⟩
  constructor
  · intro u hu
    rcases Scope.allocate_smallAllocs halloc hu with rfl | hu
    · exact List.mem_cons_self
    · exact List.mem_cons_of_mem _ (ho.small u hu)
  · intro r hr
    rcases Scope.allocate_effect halloc with ⟨-, hkept⟩ | ⟨bytes, hreq, hmap, hadded⟩
    · exact hold r (hkept.allocs ▸ hr)
    · have hr' : r ∈ st.scope.self.allocs.insert (p, bytes) := hadded.allocs ▸ hr
      rcases OrderedTable.mem_insertEntry hr' with rfl | hr'
      · have hle := MemorySubSession.le_regionRequest hcfg hn' (hmmap _ _ hmap).nonempty hreq
        exact ⟨(p, n), List.mem_cons_self, le_rfl, by simp only; omega⟩
      · exact hold r hr'

theorem LiveState.Occupied.deallocate {b r : Block} {c' : Scope} (ho : st.Occupied)
    (h : st.Good cfg) (hb : b ∈ st.live) (hsettled : Scope.Settled cfg st.scope c' b r) :
    LiveState.Occupied ⟨c', st.live.erase b⟩ := by
  have hbpos := (h.recorded b hb).1
  have hin := hsettled.inside
  have hsmall : ∀ u ∈ c'.self.smallAllocs, u ∈ st.live.erase b := by
    intro u hu
    obtain ⟨hu', hne⟩ := hsettled.smallAllocs u hu
    exact (List.mem_erase_of_ne hne).mpr (ho.small u hu')
  -- The block that occupies another region is not the one given back.
  have hother : ∀ r' ∈ st.scope.self.allocs, r' ≠ r → ∃ d ∈ st.live.erase b, Inside d r' := by
    intro r' hr' hne
    obtain ⟨d, hd, hdin⟩ := ho.region r' hr'
    refine ⟨d, (List.mem_erase_of_ne fun hdb => ?_).mpr hd, hdin⟩
    subst hdb
    exact hne (h.held.sound.tiled.region_eq hr' hsettled.region (x := d.1)
      ⟨hdin.1, by have := hdin.2; omega⟩ ⟨hin.1, by have := hin.2; omega⟩)
  refine ⟨hsmall, fun r' hr' => ?_⟩
  rcases hsettled.outcome with ⟨hkept, u, hu, huin⟩ | hdropped
  · by_cases hsame : r' = r
    · exact ⟨u, hsmall u hu, hsame ▸ huin⟩
    · exact hother r' (hkept.allocs ▸ hr') hsame
  · obtain ⟨hmem, hne⟩ := OrderedTable.mem_erase.mp (hdropped.allocs ▸ hr')
    exact hother r' hmem fun hsame => hne (hsame ▸ rfl)

end Occupied

section Charged

variable {cfg : ManagerConfig} {start c c' : Scope}

/-- The counters of `c` are those of `start` and the bytes of the regions recorded since;
the mapped pages are those of `start` and the pages of these regions. -/
structure Scope.Charged (cfg : ManagerConfig) (start c : Scope) : Prop where
  allocatedBytes : c.self.allocatedBytes = c.self.allocs.total Prod.snd % 2 ^ 64
  ram : c.parent.ramAllocatedBytes =
    (start.parent.ramAllocatedBytes + c.self.allocs.total Prod.snd) % 2 ^ 64
  total : c.parent.totalAllocatedBytes =
    (start.parent.totalAllocatedBytes + c.self.allocs.total Prod.snd) % 2 ^ 64
  mapped : ∀ k, k ∈ c.mapped ↔
    k ∈ start.mapped ∨ ∃ r ∈ c.self.allocs, k ∈ cfg.pages r.1 r.2
  apart : ∀ r ∈ c.self.allocs, Disjoint (cfg.pages r.1 r.2) start.mapped

theorem Scope.Charged.kept (h : Scope.Charged cfg start c) (hkept : Scope.Kept c c') :
    Scope.Charged cfg start c' := by
  obtain ⟨hbytes, hram, htotal, hmapped, hapart⟩ := h
  constructor
  · rw [hkept.allocatedBytes, hkept.allocs, hbytes]
  · rw [hkept.parent, hkept.allocs, hram]
  · rw [hkept.parent, hkept.allocs, htotal]
  · rw [hkept.mapped, hkept.allocs]
    exact hmapped
  · rw [hkept.allocs]
    exact hapart

theorem Scope.Charged.added {p bytes : ℕ} (h : Scope.Charged cfg start c)
    (hheld : Held cfg c.mapped c.self) (hfresh : Fresh cfg c.mapped p bytes)
    (hadded : Scope.Added cfg c c' p bytes) : Scope.Charged cfg start c' := by
  have hsum : c'.self.allocs.total Prod.snd = bytes + c.self.allocs.total Prod.snd := by
    rw [hadded.allocs]
    exact hheld.total_insert hfresh
  have hmem : ∀ r, r ∈ c'.self.allocs ↔ r = (p, bytes) ∨ r ∈ c.self.allocs := by
    intro r
    rw [hadded.allocs]
    exact OrderedTable.mem_insert_of_fresh (hheld.start_ne hfresh)
  constructor
  · have hfollow := addWrap_follow 64 0 (c.self.allocs.total Prod.snd) bytes
    rw [Nat.zero_add, Nat.zero_add] at hfollow
    rw [hsum, hadded.allocatedBytes, h.allocatedBytes, hfollow]
  · rw [hsum, hadded.parent]
    simp only [h.ram, addWrap_follow]
  · rw [hsum, hadded.parent]
    simp only [h.total, addWrap_follow]
  · intro k
    rw [hadded.mapped, Finset.mem_union, h.mapped]
    constructor
    · rintro ((hk | ⟨r, hr, hk⟩) | hk)
      · exact Or.inl hk
      · exact Or.inr ⟨r, (hmem r).mpr (Or.inr hr), hk⟩
      · exact Or.inr ⟨(p, bytes), (hmem _).mpr (Or.inl rfl), hk⟩
    · rintro (hk | ⟨r, hr, hk⟩)
      · exact Or.inl (Or.inl hk)
      · rcases (hmem r).mp hr with rfl | hr
        · exact Or.inr hk
        · exact Or.inl (Or.inr ⟨r, hr, hk⟩)
  · intro r hr
    rcases (hmem r).mp hr with rfl | hr
    · refine Finset.disjoint_of_subset_right ?_ hfresh.unmapped
      intro k hk
      exact (h.mapped k).mpr (Or.inl hk)
    · exact h.apart r hr

theorem Scope.Charged.dropped {r : Block} (h : Scope.Charged cfg start c)
    (hheld : Held cfg c.mapped c.self) (hdropped : Scope.Dropped c c' r (cfg.pages r.1 r.2)) :
    Scope.Charged cfg start c' := by
  have hr := hdropped.recorded
  have hsum : c.self.allocs.total Prod.snd = r.2 + c'.self.allocs.total Prod.snd := by
    rw [hdropped.allocs]
    exact (OrderedTable.total_erase Prod.snd hr).symm
  have hmem : ∀ r', r' ∈ c'.self.allocs ↔ r' ∈ c.self.allocs ∧ r' ≠ r := by
    intro r'
    rw [hdropped.allocs, OrderedTable.mem_erase]
    refine and_congr_right fun hr' => not_congr ⟨fun hkey => ?_, fun heq => heq ▸ rfl⟩
    exact OrderedTable.key_inj hr' hr hkey
  constructor
  · have hfollow := subWrap_follow 64 0 (c'.self.allocs.total Prod.snd) r.2
    rw [Nat.zero_add, Nat.zero_add] at hfollow
    rw [hdropped.allocatedBytes, h.allocatedBytes, hsum, hfollow]
  · rw [hdropped.parent]
    simp only [h.ram, hsum, subWrap_follow]
  · rw [hdropped.parent]
    simp only [h.total, hsum, subWrap_follow]
  · intro k
    rw [hdropped.mapped, Finset.mem_sdiff, h.mapped]
    constructor
    · rintro ⟨hk | ⟨r', hr', hk⟩, hnot⟩
      · exact Or.inl hk
      · exact Or.inr ⟨r', (hmem r').mpr ⟨hr', fun heq => hnot (heq ▸ hk)⟩, hk⟩
    · rintro (hk | ⟨r', hr', hk⟩)
      · exact ⟨Or.inl hk, Finset.disjoint_right.mp (h.apart r hr) hk⟩
      · -- Two recorded regions have no page in common.
        obtain ⟨hr'', hne⟩ := (hmem r').mp hr'
        have hsep := hheld.sound.tiled.region_apart r' hr'' r hr hne
        have hdisj := cfg.disjoint_pages_of_apart (hheld.aligned r' hr'') (hheld.aligned r hr) hsep
        exact ⟨Or.inr ⟨r', hr'', hk⟩, Finset.disjoint_left.mp hdisj hk⟩
  · intro r' hr'
    exact h.apart r' ((hmem r').mp hr').1

end Charged

section Runs

variable {cfg : ManagerConfig} {start st st' : LiveState}

/-- The containers are empty, and the counters and the mapped pages are those of `start`. -/
structure LiveState.Restored (start st : LiveState) : Prop where
  allocs : st.scope.self.allocs = OrderedTable.empty
  smallAllocs : st.scope.self.smallAllocs = OrderedTable.empty
  freeSmallChunks : st.scope.self.freeSmallChunks = OrderedTable.empty
  freeSmallChunksInv : st.scope.self.freeSmallChunksInv = OrderedTable.empty
  allocatedBytes : st.scope.self.allocatedBytes = 0
  mapped : st.scope.mapped = start.scope.mapped
  ram : st.scope.parent.ramAllocatedBytes = start.scope.parent.ramAllocatedBytes
  total : st.scope.parent.totalAllocatedBytes = start.scope.parent.totalAllocatedBytes

/-- The invariant of a run from `start`. -/
structure LiveState.Kept (cfg : ManagerConfig) (start st : LiveState) : Prop where
  good : st.Good cfg
  occupied : st.Occupied
  charged : Scope.Charged cfg start.scope st.scope

theorem LiveState.Initial.kept (h : start.Initial) (hbytes : start.scope.self.allocatedBytes = 0)
    (hram : start.scope.parent.ramAllocatedBytes < 2 ^ 64)
    (htotal : start.scope.parent.totalAllocatedBytes < 2 ^ 64) :
    LiveState.Kept cfg start start := by
  refine ⟨h.good, h.occupied, ?_⟩
  constructor
  · simp [h.allocs, hbytes]
  · rw [h.allocs, OrderedTable.total_empty, Nat.add_zero, Nat.mod_eq_of_lt hram]
  · rw [h.allocs, OrderedTable.total_empty, Nat.add_zero, Nat.mod_eq_of_lt htotal]
  · simp [h.allocs]
  · simp [h.allocs]

/-- **One step keeps the invariant** unless it is a cross-arena merge. -/
theorem LiveStep.kept (hcfg : cfg.getMaxSmallAllocBytes ≤ cfg.getSingleSmallAllocBytes)
    (hstep : LiveStep cfg (MmapFresh cfg) (fun s b => ¬ CrossArenaMerge s b) st st')
    (h : LiveState.Kept cfg start st) : LiveState.Kept cfg start st' := by
  have hgood := hstep.good hcfg (fun _ _ h => h) (fun _ _ h => h) h.good
  cases hstep with
  | allocate mmap hmmap hn hn' halloc =>
      refine ⟨hgood, h.occupied.allocate hcfg hmmap hn' halloc, ?_⟩
      rcases Scope.allocate_effect halloc with ⟨-, hkept⟩ | ⟨bytes, -, hmap, hadded⟩
      · exact h.charged.kept hkept
      · exact h.charged.added h.good.held (hmmap _ _ hmap) hadded
  | deallocate b hb hok hfree =>
      obtain ⟨hpos, hrec⟩ := h.good.recorded b hb
      obtain ⟨c₁, r, heq, hsettled⟩ := h.good.held.deallocate_settled hpos hrec hok
      obtain rfl := Except.ok.inj (heq.symm.trans hfree)
      refine ⟨hgood, h.occupied.deallocate h.good hb hsettled, ?_⟩
      rcases hsettled.outcome with ⟨hkept, -⟩ | hdropped
      · exact h.charged.kept hkept
      · exact h.charged.dropped h.good.held hdropped

/-- Without a live block nothing is recorded and nothing is charged. -/
theorem LiveState.Kept.restored (h : LiveState.Kept cfg start st)
    (hram : start.scope.parent.ramAllocatedBytes < 2 ^ 64)
    (htotal : start.scope.parent.totalAllocatedBytes < 2 ^ 64) (hlive : st.live = []) :
    LiveState.Restored start st := by
  have hallocs : st.scope.self.allocs = OrderedTable.empty := by
    refine OrderedTable.eq_empty fun r hr => ?_
    obtain ⟨b, hb, -⟩ := h.occupied.region r hr
    simp [hlive] at hb
  have hsmall : st.scope.self.smallAllocs = OrderedTable.empty := by
    refine OrderedTable.eq_empty fun u hu => ?_
    have := h.occupied.small u hu
    simp [hlive] at this
  -- A free chunk lies in a region, and there is none.
  have hfree : st.scope.self.freeSmallChunks = OrderedTable.empty := by
    refine OrderedTable.eq_empty fun f hf => ?_
    obtain ⟨r, hr, -⟩ := h.good.held.sound.tiled.piece_inside f (Or.inr (Or.inl hf))
    have hr' : r ∈ st.scope.self.allocs := hr
    simp [hallocs] at hr'
  have hinv : st.scope.self.freeSmallChunksInv = OrderedTable.empty := by
    refine OrderedTable.eq_empty fun f hf => ?_
    have := (h.good.held.sound.transposed (f.2, f.1)).mpr hf
    simp [hfree] at this
  obtain ⟨hbytes, hram', htotal', hmapped, -⟩ := h.charged
  rw [hallocs, OrderedTable.total_empty] at hbytes hram' htotal'
  refine ⟨hallocs, hsmall, hfree, hinv, hbytes, ?_, ?_, ?_⟩
  · ext k
    rw [hmapped]
    simp [hallocs]
  · rw [hram', Nat.add_zero, Nat.mod_eq_of_lt hram]
  · rw [htotal', Nat.add_zero, Nat.mod_eq_of_lt htotal]

end Runs

/-- **No leak.**  In every run without a cross-arena merge, a state in which every block has
been given back is as the run found it. -/
theorem no_leak (cfg : ManagerConfig)
    (hcfg : cfg.getMaxSmallAllocBytes ≤ cfg.getSingleSmallAllocBytes)
    {start st : LiveState} (hstart : start.Initial)
    (hbytes : start.scope.self.allocatedBytes = 0)
    (hram : start.scope.parent.ramAllocatedBytes < 2 ^ 64)
    (htotal : start.scope.parent.totalAllocatedBytes < 2 ^ 64)
    (hrun : Relation.ReflTransGen
      (LiveStep cfg (MmapFresh cfg) (fun s b => ¬ CrossArenaMerge s b)) start st)
    (hlive : st.live = []) : LiveState.Restored start st := by
  have hkept : LiveState.Kept cfg start st := by
    clear hlive
    induction hrun with
    | refl => exact hstart.kept hbytes hram htotal
    | tail _ hstep ih => exact hstep.kept hcfg ih
  exact hkept.restored hram htotal hlive

/-- Two touching arenas, cut in two and in three.  The first block of the second arena is
freed before the last block of the first, and then all the others. -/
def leakingArenas : List LiveCall :=
  [.allocate (mmapAt 4096 65536) 2048, .allocate (fun _ => none) 2048,
    .allocate (mmapAt 4096 69632) 1024, .allocate (fun _ => none) 1024,
    .allocate (fun _ => none) 2048,
    .deallocate (69632, 1024), .deallocate (67584, 2048), .deallocate (65536, 2048),
    .deallocate (70656, 1024), .deallocate (71680, 2048)]

/-- A chunk that was merged across the border of two arenas never has the size of either:
every block is given back and both arenas stay mapped, recorded and charged. -/
theorem leak_after_crossArenaMerge :
    onePageArenas.getMaxSmallAllocBytes ≤ onePageArenas.getSingleSmallAllocBytes ∧
    ∃ start st, start.Initial ∧ start.scope.self.allocatedBytes = 0 ∧
      start.scope.parent.ramAllocatedBytes < 2 ^ 64 ∧
      start.scope.parent.totalAllocatedBytes < 2 ^ 64 ∧
      Relation.ReflTransGen
        (LiveStep onePageArenas (MmapFresh onePageArenas) (fun _ _ => True)) start st ∧
      st.live = [] ∧ ¬ LiveState.Restored start st := by
  refine ⟨by decide, blankState, _, blankState_initial, rfl, by decide, by decide,
    Succeeds.run leakingArenas ?_, by decide, fun hrestored => ?_⟩
  · refine ⟨⟨mmapAt_fresh ⟨?_, ?_, ?_, ?_⟩, ?_⟩, ⟨mmapNone_fresh, ?_⟩,
      ⟨mmapAt_fresh ⟨?_, ?_, ?_, ?_⟩, ?_⟩, ⟨mmapNone_fresh, ?_⟩, ⟨mmapNone_fresh, ?_⟩,
      ?_, ?_, ?_, ?_, ?_, trivial⟩ <;> decide
  · exact absurd hrestored.allocatedBytes (by decide)

/-- The same blocks, the second arena given back first: its blocks in one order, those of
the first arena in the other. -/
def returnedArenas : List LiveCall :=
  leakingArenas.take 5 ++
    [.deallocate (71680, 2048), .deallocate (69632, 1024), .deallocate (70656, 1024),
      .deallocate (65536, 2048), .deallocate (67584, 2048)]

/-- Nothing leaks when no merge crosses the border of the arenas. -/
theorem no_leak_returnedArenas :
    LiveState.Restored blankState
      (returnedArenas.foldl (LiveState.after onePageArenas) blankState) := by
  refine no_leak onePageArenas (by decide) blankState_initial rfl (by decide) (by decide)
    (Succeeds.run returnedArenas ?_) (by decide)
  refine ⟨⟨mmapAt_fresh ⟨?_, ?_, ?_, ?_⟩, ?_⟩, ⟨mmapNone_fresh, ?_⟩,
    ⟨mmapAt_fresh ⟨?_, ?_, ?_, ?_⟩, ?_⟩, ⟨mmapNone_fresh, ?_⟩, ⟨mmapNone_fresh, ?_⟩,
    ?_, ?_, ?_, ?_, ?_, trivial⟩ <;> decide

end MemoryManager
end CoherentDB
