import CoherentDB.MemoryManager.SubSessionRuns

/-!
# Configurations that are safe for small blocks

A small block is cut from a free chunk or from a new arena, and what is left of it is
filed as a free chunk.  The largest small block comes from one field of the configuration
and the length of an arena from another; nothing compares the two.  Where an arena can be
mapped at all, small blocks are safe exactly when the largest of them fits into an arena
(`smallBlocks_safe_iff`).
-/

namespace CoherentDB
namespace MemoryManager

open Debug Containers MachineInt ArenaLayout

/-- The size that `remainder_size` is computed from: the free chunk that the search finds, or a
new arena. -/
def Scope.remainderFrom (cfg : ManagerConfig) (c : Scope) (neededBytes : ℕ) : ℕ :=
  let optimalChunk := c.self.smallestSufficentFreeSmallChunk neededBytes
  if optimalChunk.1 = 0 then cfg.getSingleSmallAllocBytes else optimalChunk.1

/-- A request for a small block; the regions that `mmap` answers with are fresh and do not start
at the null pointer. -/
structure SmallRequest (cfg : ManagerConfig) (c : Scope) (mmap : ℕ → Option ℕ) (n : ℕ) : Prop where
  pos : 1 ≤ n
  small : n ≤ cfg.getMaxSmallAllocBytes
  fresh : MmapFresh cfg c.mapped mmap
  nonnull : ∀ bytes, mmap bytes ≠ some 0

/-- One small request that is served.  One that is not throws and changes nothing. -/
inductive SmallStep (cfg : ManagerConfig) : LiveState → LiveState → Prop
  | allocate {st : LiveState} {mmap : ℕ → Option ℕ} {c' : Scope} {p n : ℕ}
      (hrequest : SmallRequest cfg st.scope mmap n)
      (h : st.scope.allocate cfg mmap n = .ok (p, c')) :
      SmallStep cfg st ⟨c', (p, n) :: st.live⟩

/-- The next small request that is served does not subtract below zero, and every free chunk
lies in a mapped region. -/
structure LiveState.SmallSafe (cfg : ManagerConfig) (st : LiveState) : Prop where
  remainder : ∀ mmap n p c', SmallRequest cfg st.scope mmap n →
    st.scope.allocate cfg mmap n = .ok (p, c') → n ≤ st.scope.remainderFrom cfg n
  chunks : ∀ f ∈ st.scope.self.freeSmallChunks, ∃ r ∈ st.scope.self.allocs, Inside f r ∧
    cfg.pages r.1 r.2 ⊆ st.scope.mapped

/-- The configuration is safe for small blocks. -/
def SmallBlocksSafe (cfg : ManagerConfig) : Prop :=
  ∀ start st : LiveState, start.Initial → Relation.ReflTransGen (SmallStep cfg) start st →
    st.SmallSafe cfg

/-- An arena is not empty, and there is room for one above the null page. -/
def ManagerConfig.ArenaFits (cfg : ManagerConfig) : Prop :=
  0 < cfg.getSingleSmallAllocBytes ∧ cfg.pageSize + cfg.getSingleSmallAllocBytes < 2 ^ 64

section Small

variable {cfg : ManagerConfig} {st st' : LiveState} {mmap : ℕ → Option ℕ} {n p : ℕ}
  {c c' : Scope}

/-- An arena that is mapped fits. -/
theorem SmallRequest.arenaFits (h : SmallRequest cfg c mmap n)
    (hmap : mmap cfg.getSingleSmallAllocBytes = some p) : cfg.ArenaFits := by
  have hfresh := h.fresh _ _ hmap
  have hp : p ≠ 0 := by
    rintro rfl
    exact h.nonnull _ hmap
  have hpage : cfg.pageSize ≤ p := Nat.le_of_dvd (Nat.pos_of_ne_zero hp) hfresh.aligned
  exact ⟨hfresh.nonempty, by have := hfresh.fits; omega⟩

/-- Blocks that fit into an arena keep the containers in order. -/
theorem SmallStep.good (hcfg : cfg.getMaxSmallAllocBytes ≤ cfg.getSingleSmallAllocBytes)
    (hstep : SmallStep cfg st st') (h : st.Good cfg) : st'.Good cfg := by
  cases hstep with
  | allocate hrequest halloc =>
      exact h.allocate hcfg hrequest.fresh hrequest.pos
        (lt_of_le_of_lt hrequest.small cfg.getMaxSmallAllocBytes_lt) halloc

theorem LiveState.Good.smallSafe (h : st.Good cfg)
    (hcfg : cfg.getMaxSmallAllocBytes ≤ cfg.getSingleSmallAllocBytes) : st.SmallSafe cfg := by
  refine ⟨fun mmap n p c' hrequest _ => ?_, fun f hf => ?_⟩
  · unfold Scope.remainderFrom
    dsimp only
    split_ifs with hchunk
    · exact hrequest.small.trans hcfg
    · obtain ⟨f, -, hbest, hle⟩ := h.held.sound.smallestSufficent_spec hchunk
      rw [hbest]
      exact hle
  · obtain ⟨r, hr, hin⟩ := h.held.sound.tiled.piece_inside f (Or.inr (Or.inl hf))
    exact ⟨r, hr, hin, h.held.mapped r hr⟩

/-- Before the first request the search finds no chunk. -/
theorem LiveState.Initial.no_chunk (h : st.Initial) (n : ℕ) :
    st.scope.self.smallestSufficentFreeSmallChunk n = (0, 0) := by
  simp [MemorySubSession.smallestSufficentFreeSmallChunk, h.freeSmallChunksInv,
    OrderedTable.upperBound, OrderedTable.empty]

/-- Without free chunks a small request needs an arena. -/
theorem LiveState.Initial.maps_arena (h : st.Initial) (hrequest : SmallRequest cfg st.scope mmap n)
    (halloc : st.scope.allocate cfg mmap n = .ok (p, c')) :
    mmap cfg.getSingleSmallAllocBytes = some p := by
  rcases Scope.allocate_cases halloc with ⟨hlarge, -, -⟩ | ⟨-, -, hmap, -⟩ | ⟨-, hchunk, -, -⟩
  · have hsmall := hrequest.small
    omega
  · exact hmap
  · rw [h.no_chunk] at hchunk
    exact absurd rfl hchunk

/-- The largest small block as the first request of all, from an arena right above the null
page. -/
theorem largest_request (hfits : cfg.ArenaFits) (hmax : 1 ≤ cfg.getMaxSmallAllocBytes) :
    SmallRequest cfg blankState.scope (mmapAt cfg.getSingleSmallAllocBytes cfg.pageSize)
        cfg.getMaxSmallAllocBytes ∧
      ∃ p c', blankState.scope.allocate cfg (mmapAt cfg.getSingleSmallAllocBytes cfg.pageSize)
        cfg.getMaxSmallAllocBytes = .ok (p, c') := by
  refine ⟨⟨hmax, le_rfl, mmapAt_fresh ?_, mmapAt_ne_null cfg.pageSize_pos.ne'⟩,
    Scope.allocate_isOk fun bytes h => ?_⟩
  · exact ⟨hfits.1, dvd_rfl, hfits.2, Finset.disjoint_empty_right _⟩
  · rw [MemorySubSession.regionRequest, if_neg (lt_irrefl _), blankState_initial.no_chunk,
      if_pos rfl] at h
    cases h
    rw [mmapAt, if_pos rfl]
    rfl

/-- Where no arena can be mapped no small request is ever served. -/
theorem LiveState.Initial.stays (h : st.Initial) (hfits : ¬ cfg.ArenaFits)
    (hrun : Relation.ReflTransGen (SmallStep cfg) st st') : st' = st := by
  induction hrun with
  | refl => rfl
  | tail _ hstep ih =>
      subst ih
      cases hstep with
      | allocate hrequest halloc =>
          exact absurd (hrequest.arenaFits (h.maps_arena hrequest halloc)) hfits

end Small

/-- **Which configurations are safe for small blocks.**  In every run of small requests no
remainder goes below zero and every free chunk lies in a mapped region, if and only if the
largest small block fits into an arena or no arena can be mapped. -/
theorem smallBlocks_safe_iff (cfg : ManagerConfig) :
    SmallBlocksSafe cfg ↔
      (cfg.ArenaFits → cfg.getMaxSmallAllocBytes ≤ cfg.getSingleSmallAllocBytes) := by
  constructor
  · intro hsafe hfits
    by_contra hlt
    obtain ⟨hrequest, p, c', hok⟩ := largest_request hfits (by omega)
    have hle := (hsafe _ _ blankState_initial .refl).remainder _ _ p c' hrequest hok
    rw [Scope.remainderFrom, blankState_initial.no_chunk] at hle
    exact hlt hle
  · intro hcond start st hstart hrun
    by_cases hfits : cfg.ArenaFits
    · have hgood : st.Good cfg := by
        induction hrun with
        | refl => exact hstart.good
        | tail _ hstep ih => exact hstep.good (hcond hfits) ih
      exact hgood.smallSafe (hcond hfits)
    · obtain rfl := hstart.stays hfits hrun
      refine ⟨fun mmap n p c' hrequest halloc => ?_, fun f hf => ?_⟩
      · exact absurd (hrequest.arenaFits (hstart.maps_arena hrequest halloc)) hfits
      · rw [hstart.freeSmallChunks] at hf
        exact absurd hf (OrderedTable.notMem_empty f)

/-- Pages of 4 KiB, small blocks up to two pages, arenas of one page. -/
def twoPageBlocks : ManagerConfig where
  pageSize := 4096
  maxSmallAllocPages1024 := 2048
  singleSmallAllocPages := 1
  pageSize_pow := onePageArenas.pageSize_pow

/-- A first block of 5000 bytes from an arena of 4096: the remainder wraps around, and the free
chunk that is filed reaches to the end of the address space. -/
theorem smallBlocks_unsafe :
    ∃ c', blankState.scope.allocate twoPageBlocks (mmapAt 4096 65536) 5000 = .ok (65536, c') ∧
      c'.self.allocs.entries = [(65536, 4096)] ∧
      c'.self.freeSmallChunks.entries = [(70536, 2 ^ 64 - 904)] ∧
      ¬ SmallBlocksSafe twoPageBlocks := by
  refine ⟨_, rfl, by decide, by decide, fun hsafe => ?_⟩
  have hrequest : SmallRequest twoPageBlocks blankState.scope (mmapAt 4096 65536) 5000 := by
    refine ⟨by decide, by decide, mmapAt_fresh ⟨?_, ?_, ?_, ?_⟩, mmapAt_ne_null (by decide)⟩
    all_goals decide
  have hle := (hsafe _ _ blankState_initial .refl).remainder _ _ _ _ hrequest rfl
  revert hle
  decide

end MemoryManager
end CoherentDB
