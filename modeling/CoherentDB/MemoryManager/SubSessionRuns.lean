import Mathlib.Logic.Relation
import CoherentDB.MemoryManager.RegionEffects

/-!
# Safety of live blocks and exact tiling over whole runs

`LiveStep` is one call on a sub-session together with the list of blocks in the
callers' hands.  It is stated for an arbitrary contract of `mmap` and an
arbitrary restriction on `deallocate`, so that one invariant proof serves the
runs in which regions may touch and those in which they never do.

* With regions that may touch, the live blocks are safe in every run without a
  cross-arena merge (`liveBlocks_safe`); one such merge is enough to unmap a
  region that holds a live block (`liveBlocks_unsafe`).
* With regions that never touch, no cross-arena merge exists, the arenas are
  tiled exactly and no assertion of `deallocate` can fail (`arenas_tiled`).
-/

namespace CoherentDB
namespace MemoryManager

open Debug Containers MachineInt ArenaLayout

/-- A sub-session with its surroundings and the blocks handed out and not given back. -/
structure LiveState where
  scope : Scope
  live : List Block

namespace LiveState

/-- No region was ever obtained and no block is out. -/
structure Initial (st : LiveState) : Prop where
  live : st.live = []
  allocs : st.scope.self.allocs = OrderedTable.empty
  smallAllocs : st.scope.self.smallAllocs = OrderedTable.empty
  freeSmallChunks : st.scope.self.freeSmallChunks = OrderedTable.empty
  freeSmallChunksInv : st.scope.self.freeSmallChunksInv = OrderedTable.empty

/-- Every live block lies in a region that is recorded and mapped, and live blocks are
pairwise disjoint. -/
structure Safe (cfg : ManagerConfig) (st : LiveState) : Prop where
  inside : ∀ b ∈ st.live, ∃ r ∈ st.scope.self.allocs, Inside b r ∧
    cfg.pages r.1 r.2 ⊆ st.scope.mapped
  apart : st.live.Pairwise Apart

end LiveState

/-- One successful call: `allocate` of at least one byte, or `deallocate` of a live block
with the size it was requested with. -/
inductive LiveStep (cfg : ManagerConfig) (mmapOk : Finset ℕ → (ℕ → Option ℕ) → Prop)
    (freeOk : MemorySubSession → Block → Prop) : LiveState → LiveState → Prop
  | allocate {st : LiveState} {c' : Scope} {p n : ℕ} (mmap : ℕ → Option ℕ)
      (hmmap : mmapOk st.scope.mapped mmap) (hn : 1 ≤ n) (hn' : n < 2 ^ 64)
      (h : st.scope.allocate cfg mmap n = .ok (p, c')) :
      LiveStep cfg mmapOk freeOk st ⟨c', (p, n) :: st.live⟩
  | deallocate {st : LiveState} {c' : Scope} (b : Block) (hb : b ∈ st.live)
      (hok : freeOk st.scope.self b) (h : st.scope.deallocate cfg b.1 b.2 = .ok c') :
      LiveStep cfg mmapOk freeOk st ⟨c', st.live.erase b⟩

/-- A call, with the `mmap` that answers during it. -/
inductive LiveCall
  | allocate (mmap : ℕ → Option ℕ) (n : ℕ)
  | deallocate (b : Block)

/-- The state after a call; a failed call changes nothing. -/
def LiveState.after (cfg : ManagerConfig) (st : LiveState) : LiveCall → LiveState
  | .allocate mmap n =>
      match st.scope.allocate cfg mmap n with
      | .ok (p, c') => ⟨c', (p, n) :: st.live⟩
      | .error _ => st
  | .deallocate b =>
      match st.scope.deallocate cfg b.1 b.2 with
      | .ok c' => ⟨c', st.live.erase b⟩
      | .error _ => st

/-- A list of calls that all succeed and meet the conditions of a step. -/
def Succeeds (cfg : ManagerConfig) (mmapOk : Finset ℕ → (ℕ → Option ℕ) → Prop)
    (freeOk : MemorySubSession → Block → Prop) : LiveState → List LiveCall → Prop
  | _, [] => True
  | st, .allocate mmap n :: rest =>
      (mmapOk st.scope.mapped mmap ∧ 1 ≤ n ∧ n < 2 ^ 64 ∧
        (st.scope.allocate cfg mmap n).toOption.isSome) ∧
      Succeeds cfg mmapOk freeOk (st.after cfg (.allocate mmap n)) rest
  | st, .deallocate b :: rest =>
      (b ∈ st.live ∧ freeOk st.scope.self b ∧
        (st.scope.deallocate cfg b.1 b.2).toOption.isSome) ∧
      Succeeds cfg mmapOk freeOk (st.after cfg (.deallocate b)) rest

/-- Calls that succeed one after the other are a run. -/
theorem Succeeds.run {cfg : ManagerConfig} {mmapOk : Finset ℕ → (ℕ → Option ℕ) → Prop}
    {freeOk : MemorySubSession → Block → Prop} {st : LiveState} (calls : List LiveCall)
    (h : Succeeds cfg mmapOk freeOk st calls) :
    Relation.ReflTransGen (LiveStep cfg mmapOk freeOk) st (calls.foldl (LiveState.after cfg) st) := by
  induction calls generalizing st with
  | nil => exact Relation.ReflTransGen.refl
  | cons call rest ih =>
      cases call with
      | allocate mmap n =>
          obtain ⟨⟨hmmap, hn, hn', hok⟩, hrest⟩ := h
          refine Relation.ReflTransGen.head ?_ (ih hrest)
          cases hres : st.scope.allocate cfg mmap n with
          | error e => simp [hres, Except.toOption] at hok
          | ok res =>
              simp only [LiveState.after, hres]
              exact LiveStep.allocate mmap hmmap hn hn' hres
      | deallocate b =>
          obtain ⟨⟨hb, hfree, hok⟩, hrest⟩ := h
          refine Relation.ReflTransGen.head ?_ (ih hrest)
          cases hres : st.scope.deallocate cfg b.1 b.2 with
          | error e => simp [hres, Except.toOption] at hok
          | ok c' =>
              simp only [LiveState.after, hres]
              exact LiveStep.deallocate b hb hfree hres

/-- The invariant of a run: sound bookkeeping that knows every live block. -/
structure LiveState.Good (cfg : ManagerConfig) (st : LiveState) : Prop where
  held : Held cfg st.scope.mapped st.scope.self
  recorded : ∀ b ∈ st.live, 0 < b.2 ∧ Recorded cfg st.scope.self b
  apart : st.live.Pairwise Apart

section Invariant

variable {cfg : ManagerConfig} {st st' : LiveState}

theorem LiveState.Initial.good (h : st.Initial) : st.Good cfg := by
  have hlayout : st.scope.self.layout none = ⟨∅, ∅, ∅, none⟩ := by
    rw [MemorySubSession.layout, Layout.mk.injEq, h.allocs, h.smallAllocs, h.freeSmallChunks]
    simp
  refine ⟨⟨⟨hlayout ▸ Layout.tiled_empty, ?_, ?_⟩, ?_, ?_, ?_⟩, ?_, ?_⟩
  · simp [h.freeSmallChunks, h.freeSmallChunksInv]
  · simp [h.allocs]
  · rw [hlayout]
    intro r hr
    exact absurd hr (Set.notMem_empty r)
  · simp [h.allocs]
  · simp [h.allocs]
  · simp [h.live]
  · simp [h.live]

/-- Live blocks of a good state are safe. -/
theorem LiveState.Good.safe (h : st.Good cfg) : st.Safe cfg where
  inside := fun b hb => by
    obtain ⟨r, hr, hin⟩ := (h.recorded b hb).2.inside h.held
    exact ⟨r, hr, hin, h.held.mapped r hr⟩
  apart := h.apart

theorem LiveState.Good.allocate {mmap : ℕ → Option ℕ} {c' : Scope} {p n : ℕ} (h : st.Good cfg)
    (hcfg : cfg.getMaxSmallAllocBytes ≤ cfg.getSingleSmallAllocBytes)
    (hmmap : MmapFresh cfg st.scope.mapped mmap) (hn : 1 ≤ n) (hn' : n < 2 ^ 64)
    (halloc : st.scope.allocate cfg mmap n = .ok (p, c')) :
    LiveState.Good cfg ⟨c', (p, n) :: st.live⟩ := by
  obtain ⟨hheld, hnew, hold⟩ := h.held.allocate hmmap hn hn' (fun hmax => hmax.trans hcfg) halloc
  refine ⟨hheld, ?_, List.pairwise_cons.mpr ⟨?_, h.apart⟩⟩
  · intro b hb
    rcases List.mem_cons.mp hb with rfl | hb
    · exact ⟨hn, hnew⟩
    · exact ⟨(h.recorded b hb).1, (hold b (h.recorded b hb).2).1⟩
  · intro b hb
    exact (hold b (h.recorded b hb).2).2

/-- A live block that is not the front of a cross-arena merge is given back. -/
theorem LiveState.Good.deallocate {b : Block} (h : st.Good cfg) (hb : b ∈ st.live)
    (hclean : ¬ CrossArenaMerge st.scope.self b) :
    ∃ c', st.scope.deallocate cfg b.1 b.2 = .ok c' ∧
      LiveState.Good cfg ⟨c', st.live.erase b⟩ := by
  obtain ⟨hpos, hrec⟩ := h.recorded b hb
  obtain ⟨c', heq, hheld, hkeep⟩ := h.held.deallocate hpos hrec hclean
  -- The blocks left are the others of the list, and those are apart from `b`.
  have hsep : ∀ d ∈ st.live.erase b, Apart d b := by
    intro d hd
    have hperm := List.perm_cons_erase hb
    have hpair : (b :: st.live.erase b).Pairwise Apart :=
      (hperm.pairwise_iff fun h => h.symm).mp h.apart
    exact ((List.pairwise_cons.mp hpair).1 d hd).symm
  refine ⟨c', heq, hheld, fun d hd => ?_, h.apart.sublist List.erase_sublist⟩
  obtain ⟨hdpos, hdrec⟩ := h.recorded d (List.mem_of_mem_erase hd)
  exact ⟨hdpos, hkeep d hdrec hdpos (hsep d hd)⟩

/-- **One step keeps the invariant** when `mmap` answers with fresh regions and no step is
a cross-arena merge. -/
theorem LiveStep.good {mmapOk : Finset ℕ → (ℕ → Option ℕ) → Prop}
    {freeOk : MemorySubSession → Block → Prop}
    (hcfg : cfg.getMaxSmallAllocBytes ≤ cfg.getSingleSmallAllocBytes)
    (hmmapOk : ∀ mapped mmap, mmapOk mapped mmap → MmapFresh cfg mapped mmap)
    (hfreeOk : ∀ b ∈ st.live, freeOk st.scope.self b → ¬ CrossArenaMerge st.scope.self b)
    (hstep : LiveStep cfg mmapOk freeOk st st') (h : st.Good cfg) : st'.Good cfg := by
  cases hstep with
  | allocate mmap hmmap hn hn' halloc =>
      exact h.allocate hcfg (hmmapOk _ _ hmmap) hn hn' halloc
  | deallocate b hb hok hfree =>
      obtain ⟨c', heq, hgood⟩ := h.deallocate hb (hfreeOk b hb hok)
      obtain rfl := Except.ok.inj (heq.symm.trans hfree)
      exact hgood

end Invariant

/-- **Live-block safety.**  In every run without a cross-arena merge, whatever fresh
regions the kernel answers with, every live block lies inside one region that is still
mapped and still recorded, and live blocks are pairwise disjoint. -/
theorem liveBlocks_safe (cfg : ManagerConfig)
    (hcfg : cfg.getMaxSmallAllocBytes ≤ cfg.getSingleSmallAllocBytes)
    {start st : LiveState} (hstart : start.Initial)
    (hrun : Relation.ReflTransGen
      (LiveStep cfg (MmapFresh cfg) (fun s b => ¬ CrossArenaMerge s b)) start st) :
    st.Safe cfg := by
  have hgood : st.Good cfg := by
    induction hrun with
    | refl => exact hstart.good
    | tail _ hstep ih => exact hstep.good hcfg (fun _ _ h => h) (fun _ _ h => h) ih
  exact hgood.safe

/-- A sub-session before its first call, with nothing mapped. -/
def blankState : LiveState where
  scope :=
    { mapped := ∅
      parent :=
        { frozen := fun _ => none
          unfrozenThreadsCount := -1
          ramLimitBytes := 2 ^ 30
          totalLimitBytes := 2 ^ 30
          ramAllocatedBytes := 0
          totalAllocatedBytes := 0
          allocs := OrderedTable.empty
          defaultSubSession := 0
          subSessions := {0} }
      this := 0
      self := MemorySubSession.initial }
  live := []

theorem blankState_initial : blankState.Initial := ⟨rfl, rfl, rfl, rfl, rfl⟩

/-- Two touching arenas with two half-page blocks each; the first block of the second
arena is freed, and then the last block of the first. -/
def touchingArenas : List LiveCall :=
  [.allocate (mmapAt 4096 65536) 2048, .allocate (fun _ => none) 2048,
    .allocate (mmapAt 4096 69632) 2048, .allocate (fun _ => none) 2048,
    .deallocate (69632, 2048), .deallocate (67584, 2048)]

/-- The second free joins half a page of each arena to a chunk as long as an arena, takes
the first arena for empty and unmaps it under its first block. -/
theorem liveBlocks_unsafe :
    onePageArenas.getMaxSmallAllocBytes ≤ onePageArenas.getSingleSmallAllocBytes ∧
    ∃ start st, start.Initial ∧
      Relation.ReflTransGen
        (LiveStep onePageArenas (MmapFresh onePageArenas) (fun _ _ => True)) start st ∧
      ¬ st.Safe onePageArenas := by
  refine ⟨by decide, blankState, _, blankState_initial,
    Succeeds.run touchingArenas ?_, fun hsafe => ?_⟩
  · refine ⟨⟨mmapAt_fresh ⟨?_, ?_, ?_, ?_⟩, ?_⟩, ⟨mmapNone_fresh, ?_⟩,
      ⟨mmapAt_fresh ⟨?_, ?_, ?_, ?_⟩, ?_⟩, ⟨mmapNone_fresh, ?_⟩, ?_, ?_, trivial⟩ <;> decide
  · obtain ⟨r, hr, hin, hmapped⟩ := hsafe.inside (65536, 2048) (by decide)
    have hpage : 65536 / 4096 ∈ onePageArenas.pages r.1 r.2 :=
      onePageArenas.div_mem_pages hin.1 (by omega)
    exact absurd (hmapped hpage) (by decide)

/-- The law applied to a run that stops before the second free. -/
theorem liveBlocks_safe_touchingArenas :
    ((touchingArenas.take 5).foldl (LiveState.after onePageArenas) blankState).Safe
      onePageArenas := by
  refine liveBlocks_safe onePageArenas (by decide) blankState_initial
    (Succeeds.run (touchingArenas.take 5) ?_)
  have hclean : ¬ CrossArenaMerge
      ((touchingArenas.take 4).foldl (LiveState.after onePageArenas) blankState).scope.self
      (69632, 2048) := by decide
  refine ⟨⟨mmapAt_fresh ⟨?_, ?_, ?_, ?_⟩, ?_⟩, ⟨mmapNone_fresh, ?_⟩,
    ⟨mmapAt_fresh ⟨?_, ?_, ?_, ?_⟩, ?_⟩, ⟨mmapNone_fresh, ?_⟩, ⟨?_, hclean, ?_⟩, trivial⟩ <;>
    decide

section Apart

variable {cfg : ManagerConfig} {st st' : LiveState}

/-- No recorded region starts where another ends. -/
def Spaced (s : MemorySubSession) : Prop :=
  ∀ r ∈ s.allocs, ∀ r' ∈ s.allocs, r.1 + r.2 ≠ r'.1

/-- Between regions that never touch there is no cross-arena merge. -/
theorem LiveState.Good.not_crossArenaMerge (h : st.Good cfg) (hspaced : Spaced st.scope.self)
    (b : Block) : ¬ CrossArenaMerge st.scope.self b := by
  rintro ⟨r, hr, hin, hend, ⟨g, hg, hstart⟩, -⟩
  obtain ⟨r', hr', hin'⟩ := h.held.sound.tiled.piece_inside g (Or.inr (Or.inl hg))
  have hgpos := h.held.sound.free_pos hg
  have hrpos : 0 < r.2 := h.held.sound.tiled.region_pos r hr
  have hne : r ≠ r' := fun heq => by subst heq; omega
  have hsep := h.held.sound.tiled.region_apart r hr r' hr' hne
  exact hspaced r hr r' hr' (by omega)

/-- A region that touches no mapped page keeps the regions spaced. -/
theorem Held.spaced_insert {mapped : Finset ℕ} {s : MemorySubSession} (h : Held cfg mapped s)
    (hspaced : Spaced s) {p bytes : ℕ} (hfresh : Fresh cfg mapped p bytes)
    (huntouched : Untouched cfg mapped p bytes) :
    ∀ r ∈ s.allocs.insert (p, bytes), ∀ r' ∈ s.allocs.insert (p, bytes), r.1 + r.2 ≠ r'.1 := by
  have hpos := hfresh.nonempty
  have hps := cfg.pageSize_pos
  -- The first and the last page of a recorded region are mapped.
  have hfirst : ∀ r ∈ s.allocs, r.1 / cfg.pageSize ∈ mapped ∧
      r.1 / cfg.pageSize * cfg.pageSize = r.1 := by
    intro r hr
    have hrpos : 0 < r.2 := h.sound.tiled.region_pos r hr
    exact ⟨h.mapped r hr (cfg.div_mem_pages le_rfl (by omega)),
      Nat.div_mul_cancel (h.aligned r hr).1⟩
  have hlast : ∀ r ∈ s.allocs, (r.1 + r.2) / cfg.pageSize - 1 ∈ mapped ∧
      ((r.1 + r.2) / cfg.pageSize - 1 + 1) * cfg.pageSize = r.1 + r.2 := by
    intro r hr
    have hrpos : 0 < r.2 := h.sound.tiled.region_pos r hr
    obtain ⟨hd₁, hd₂⟩ := h.aligned r hr
    have hdvd := Nat.dvd_add hd₁ hd₂
    have hge : cfg.pageSize ≤ r.2 := Nat.le_of_dvd hrpos hd₂
    have hone : 1 ≤ (r.1 + r.2) / cfg.pageSize :=
      (Nat.one_le_div_iff hps).mpr (by omega)
    have hcancel := Nat.div_mul_cancel hdvd
    refine ⟨h.mapped r hr ?_, by rw [Nat.sub_add_cancel hone, hcancel]⟩
    have hpage : (r.1 + r.2) / cfg.pageSize - 1 = (r.1 + r.2 - cfg.pageSize) / cfg.pageSize := by
      obtain ⟨q, hq⟩ := hdvd
      rw [hq, Nat.mul_div_cancel_left _ hps, ← Nat.mul_sub_one, Nat.mul_div_cancel_left _ hps]
    rw [hpage]
    exact cfg.div_mem_pages (by omega) (by omega)
  intro r hr r' hr'
  rcases OrderedTable.mem_insertEntry hr with rfl | hr <;>
    rcases OrderedTable.mem_insertEntry hr' with rfl | hr'
  · simp only
    omega
  · obtain ⟨hmem, hval⟩ := hfirst r' hr'
    have := (huntouched _ hmem).2
    rw [hval] at this
    exact fun heq => this heq.symm
  · obtain ⟨hmem, hval⟩ := hlast r hr
    have := (huntouched _ hmem).1
    rwa [hval] at this
  · exact hspaced r hr r' hr'

/-- **One step keeps the regions spaced** when `mmap` never touches a mapped region. -/
theorem LiveStep.spaced {freeOk : MemorySubSession → Block → Prop}
    (hstep : LiveStep cfg (MmapApart cfg) freeOk st st') (h : st.Good cfg)
    (hspaced : Spaced st.scope.self) : Spaced st'.scope.self := by
  cases hstep with
  | allocate mmap hmmap hn hn' halloc =>
      rcases Scope.allocate_effect halloc with ⟨-, hkept⟩ | ⟨bytes, -, hmap, hadded⟩
      · intro r hr r' hr'
        exact hspaced r (hkept.allocs ▸ hr) r' (hkept.allocs ▸ hr')
      · obtain ⟨hfresh, huntouched⟩ := hmmap _ _ hmap
        intro r hr r' hr'
        exact h.held.spaced_insert hspaced hfresh huntouched r (hadded.allocs ▸ hr) r'
          (hadded.allocs ▸ hr')
  | deallocate b hb hok hfree =>
      rcases Scope.deallocate_effect hfree with ⟨-, hkept⟩ | ⟨-, r₀, pages, hdropped⟩
      · intro r hr r' hr'
        exact hspaced r (hkept.allocs ▸ hr) r' (hkept.allocs ▸ hr')
      · intro r hr r' hr'
        rw [hdropped.allocs] at hr hr'
        exact hspaced r (OrderedTable.mem_erase.mp hr).1 r' (OrderedTable.mem_erase.mp hr').1

/-- What exact tiling says about the containers of a sub-session and the calls on it. -/
structure LiveState.ExactlyTiled (cfg : ManagerConfig) (st : LiveState) : Prop where
  transposed : ∀ p bytes, (p, bytes) ∈ st.scope.self.freeSmallChunks ↔
    (bytes, p) ∈ st.scope.self.freeSmallChunksInv
  located : ∀ d, d ∈ st.scope.self.smallAllocs ∨ d ∈ st.scope.self.freeSmallChunks →
    ∃ r ∈ st.scope.self.allocs, Inside d r
  partition : ∀ r ∈ st.scope.self.allocs,
    (∃ u ∈ st.scope.self.smallAllocs, r.1 ≤ u.1 ∧ u.1 < r.1 + r.2) →
    (∀ d, d ∈ st.scope.self.smallAllocs ∨ d ∈ st.scope.self.freeSmallChunks →
      r.1 ≤ d.1 → d.1 < r.1 + r.2 → Inside d r) ∧
    ∀ x, r.1 ≤ x → x < r.1 + r.2 →
      ∃! d, (d ∈ st.scope.self.smallAllocs ∨ d ∈ st.scope.self.freeSmallChunks) ∧
        d.1 ≤ x ∧ x < d.1 + d.2
  exclusive : ∀ d ∈ st.scope.self.smallAllocs, d ∉ st.scope.self.freeSmallChunks
  maximal : ∀ f ∈ st.scope.self.freeSmallChunks, ∀ g ∈ st.scope.self.freeSmallChunks,
    f.1 + f.2 ≠ g.1
  inUse : ∀ r ∈ st.scope.self.allocs, ∀ f ∈ st.scope.self.freeSmallChunks,
    r.1 ≤ f.1 → f.1 < r.1 + r.2 →
    ∃ u ∈ st.scope.self.smallAllocs, r.1 ≤ u.1 ∧ u.1 < r.1 + r.2
  allocate_ok : ∀ mmap n, st.scope.allocate cfg mmap n ≠ .error .assertion
  deallocate_ok : ∀ b ∈ st.live, ∃ c', st.scope.deallocate cfg b.1 b.2 = .ok c'

/-- `allocate` contains no assertion. -/
theorem Scope.allocate_ne_assertion (c : Scope) (mmap : ℕ → Option ℕ) (n : ℕ) :
    c.allocate cfg mmap n ≠ .error .assertion := by
  unfold Scope.allocate Scope.map
  dsimp only
  split_ifs
  · cases mmap (cfg.pageAligned n) <;> simp [pure, Except.pure]
  · cases mmap cfg.getSingleSmallAllocBytes <;> simp [pure, Except.pure]
  · simp

/-- A good state with spaced regions is exactly tiled. -/
theorem LiveState.Good.exactlyTiled (h : st.Good cfg) (hspaced : Spaced st.scope.self) :
    st.ExactlyTiled cfg := by
  have htiled := h.held.sound.tiled
  have hpiece : ∀ d, (st.scope.self.layout none).Piece d ↔
      d ∈ st.scope.self.smallAllocs ∨ d ∈ st.scope.self.freeSmallChunks := by
    intro d
    simp [Layout.Piece, MemorySubSession.layout]
  refine ⟨fun p bytes => h.held.sound.transposed (p, bytes), ?_, ?_, htiled.used_notFree, ?_, ?_,
    fun mmap n => Scope.allocate_ne_assertion _ mmap n, ?_⟩
  · intro d hd
    exact htiled.piece_inside d ((hpiece d).mpr hd)
  · rintro r hr ⟨u, hu, hlo, hhi⟩
    refine ⟨fun d hd => htiled.inside_of_start hr ((hpiece d).mpr hd), fun x hx hx' => ?_⟩
    have huin := htiled.inside_of_start hr (Or.inl hu) hlo hhi
    obtain ⟨d, hd, hdx⟩ := htiled.cover r hr u (Or.inl hu) huin x hx hx'
    refine ⟨d, ⟨(hpiece d).mp hd, hdx⟩, ?_⟩
    rintro e ⟨he, hex⟩
    exact htiled.piece_eq ((hpiece e).mpr he) hd hex hdx
  · intro f hf g hg hadj
    -- The chunk behind a chunk would start a region where the chunk's own region ends.
    obtain ⟨r', hr', hstart⟩ := htiled.free_apart f hf g hg hadj
    obtain ⟨r, hr, hin⟩ := htiled.piece_inside f (Or.inr (Or.inl hf))
    have hfpos := h.held.sound.free_pos hf
    have hrpos' : 0 < r'.2 := htiled.region_pos r' hr'
    have hne : r ≠ r' := fun heq => by subst heq; omega
    have hsep := htiled.region_apart r hr r' hr' hne
    exact hspaced r hr r' hr' (by omega)
  · intro r hr f hf hlo hhi
    have hfp : (st.scope.self.layout none).Piece f := Or.inr (Or.inl hf)
    obtain ⟨u, hu, huin⟩ :=
      h.held.populated r hr f hfp (htiled.inside_of_start hr hfp hlo hhi)
    have hupos := h.held.sound.used_pos hu
    exact ⟨u, hu, huin.1, by omega⟩
  · intro b hb
    obtain ⟨c', heq, -⟩ := h.deallocate hb (h.not_crossArenaMerge hspaced b)
    exact ⟨c', heq⟩

/-- **Exact tiling.**  With regions that never touch a mapped region, every run keeps the
two containers of free chunks transposed, the arenas partitioned with maximal free chunks
and a block in use, and every call that follows free of failed assertions. -/
theorem arenas_tiled (cfg : ManagerConfig)
    (hcfg : cfg.getMaxSmallAllocBytes ≤ cfg.getSingleSmallAllocBytes)
    {start st : LiveState} (hstart : start.Initial)
    (hrun : Relation.ReflTransGen
      (LiveStep cfg (MmapApart cfg) (fun _ _ => True)) start st) :
    st.ExactlyTiled cfg := by
  have hinv : st.Good cfg ∧ Spaced st.scope.self := by
    induction hrun with
    | refl =>
        refine ⟨hstart.good, ?_⟩
        intro r hr
        rw [hstart.allocs] at hr
        exact absurd hr (OrderedTable.notMem_empty r)
    | tail _ hstep ih =>
        obtain ⟨hgood, hspaced⟩ := ih
        refine ⟨hstep.good hcfg (fun mapped mmap h bytes p hmap => (h bytes p hmap).1) ?_ hgood,
          hstep.spaced hgood hspaced⟩
        intro b _ _
        exact hgood.not_crossArenaMerge hspaced b
  exact hinv.1.exactlyTiled hinv.2

/-- The calls of `touchingArenas` with the arenas two pages apart. -/
def spacedArenas : List LiveCall :=
  [.allocate (mmapAt 4096 65536) 2048, .allocate (fun _ => none) 2048,
    .allocate (mmapAt 4096 73728) 2048, .allocate (fun _ => none) 2048,
    .deallocate (73728, 2048), .deallocate (67584, 2048)]

theorem mmapAt_apart {mapped : Finset ℕ} {bytes p : ℕ} (hfresh : Fresh cfg mapped p bytes)
    (huntouched : Untouched cfg mapped p bytes) : MmapApart cfg mapped (mmapAt bytes p) := by
  intro request q hq
  obtain ⟨rfl, rfl⟩ := mmapAt_eq_some hq
  exact ⟨hfresh, huntouched⟩

/-- Exact tiling after two arenas lost one block each. -/
theorem arenas_tiled_spacedArenas :
    (spacedArenas.foldl (LiveState.after onePageArenas) blankState).ExactlyTiled
      onePageArenas := by
  have hnone : ∀ mapped, MmapApart onePageArenas mapped (fun _ => none) := by
    intro mapped request q hq
    simp at hq
  refine arenas_tiled onePageArenas (by decide) blankState_initial
    (Succeeds.run spacedArenas ?_)
  refine ⟨⟨mmapAt_apart ⟨?_, ?_, ?_, ?_⟩ ?_, ?_⟩, ⟨hnone _, ?_⟩,
    ⟨mmapAt_apart ⟨?_, ?_, ?_, ?_⟩ ?_, ?_⟩, ⟨hnone _, ?_⟩, ⟨?_, trivial, ?_⟩,
    ⟨?_, trivial, ?_⟩, trivial⟩ <;> decide

end Apart

end MemoryManager
end CoherentDB
