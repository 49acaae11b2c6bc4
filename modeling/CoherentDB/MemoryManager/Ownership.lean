import CoherentDB.MemoryManager.Session

/-!
# Blocks belong to the sub-session they were allocated in

`allocator<T>::deallocate` works on the sub-session that is current when it is
called.  `SessionState.Owned` is the invariant of a session: every sub-session
keeps its own books in order, no page belongs to regions of two of them, and
every live block is recorded where it was allocated.

A live block can therefore be given back through a current sub-session exactly
when that is the one it came from (`deallocate_iff_owner`); through any other one
the call ends in a failed assertion (`deallocate_foreign`).
-/

namespace CoherentDB
namespace MemoryManager

open Debug Containers MachineInt ArenaLayout

section Outcome

variable {cfg : ManagerConfig} {c c' : Scope}

/-- What `deallocate` leaves of a block: its entry is gone, and the regions and counters
are as before or lost one region with its pages. -/
structure Scope.Released (cfg : ManagerConfig) (c c' : Scope) (b : Block) : Prop where
  removed : (b ∈ c.self.smallAllocs ∧ b ∉ c'.self.smallAllocs) ∨
    ((b.1, cfg.pageAligned b.2) ∈ c.self.allocs ∧
      (b.1, cfg.pageAligned b.2) ∉ c'.self.allocs)
  regions : Scope.Kept c c' ∨ ∃ r, Scope.Dropped c c' r (cfg.pages r.1 r.2)

/-- Dropping a region after the bookkeeping of a block shrank the containers. -/
theorem Scope.dropped_dropRegion {s : MemorySubSession} {r : Block} (hr : r ∈ c.self.allocs)
    (hfrozen : s.frozen = c.self.frozen)
    (hcount : s.unfrozenThreadsCount = c.self.unfrozenThreadsCount)
    (hbytes : s.allocatedBytes = c.self.allocatedBytes) (hallocs : s.allocs = c.self.allocs) :
    Scope.Dropped c (c.dropRegion cfg s r) r (cfg.pages r.1 r.2) := by
  refine ⟨hr, rfl, rfl, rfl, hfrozen, hcount, ?_, ?_⟩
  · rw [Scope.dropRegion, hbytes]
  · rw [Scope.dropRegion, hallocs]

/-- **`deallocate` of a recorded block completes and removes it**, a cross-arena merge
included. -/
theorem Held.deallocate_released (h : Held cfg c.mapped c.self) {b : Block} (hpos : 0 < b.2)
    (hb : Recorded cfg c.self b) :
    ∃ c', c.deallocate cfg b.1 b.2 = .ok c' ∧ Scope.Released cfg c c' b := by
  rcases hb with ⟨-, hmem⟩ | ⟨-, hlt, hreg, hbare⟩
  · obtain ⟨r, hr, -, s₂, b₂, s₃, b₃, hprev, hnext, heq⟩ := h.deallocate_small_eq hmem
    obtain ⟨s₃', b₃', hnext', hshrink₃⟩ := MemorySubSession.mergeNext_ok s₂ r b₂
    obtain ⟨rfl, rfl⟩ : s₃ = s₃' ∧ b₃ = b₃' := by
      simpa using hnext.symm.trans hnext'
    have hshrink := (MemorySubSession.mergePrevious_shrinks hprev).trans hshrink₃
    have hgone : b ∉ s₃.smallAllocs := by
      rw [hshrink.smallAllocs]
      simp
    refine ⟨_, heq, ?_⟩
    by_cases hwhole : r.2 = b₃.2
    · rw [if_pos hwhole]
      exact ⟨Or.inl ⟨hmem, hgone⟩, Or.inr ⟨r, Scope.dropped_dropRegion hr hshrink.frozen
        hshrink.unfrozenThreadsCount hshrink.allocatedBytes hshrink.allocs⟩⟩
    · rw [if_neg hwhole]
      exact ⟨Or.inl ⟨hmem, hgone⟩, Or.inl ⟨rfl, rfl, rfl, hshrink.frozen,
        hshrink.unfrozenThreadsCount, hshrink.allocatedBytes, hshrink.allocs⟩⟩
  · refine ⟨_, h.deallocate_large_eq hlt hpos hreg hbare, Or.inr ⟨hreg, ?_⟩,
      Or.inr ⟨_, Scope.dropped_dropRegion hreg rfl rfl rfl rfl⟩⟩
    intro hin
    exact (OrderedTable.mem_erase.mp hin).2 rfl

/-- The recorded regions fit into the address space. -/
theorem Held.total_lt {mapped : Finset ℕ} {s : MemorySubSession} (h : Held cfg mapped s) :
    s.allocs.total Prod.snd < 2 ^ 64 := by
  have hapart : s.allocs.entries.Pairwise Apart := by
    refine List.Pairwise.imp_of_mem ?_ s.allocs.sorted
    intro b d hb hd hlt
    exact h.sound.tiled.region_apart b hb d hd fun heq => by simp [heq] at hlt
  have hfit := sum_sizes_le 0 (2 ^ 64 - 1) (Nat.zero_le _) s.allocs.sorted hapart
    (fun b _ => Nat.zero_le b.1) (fun b hb => by have := h.sound.bounded b hb; omega)
  rw [OrderedTable.total]
  omega

/-- The pages of a sub-session stay mapped when pages of others come or go. -/
theorem Held.of_mapped {mapped mapped' : Finset ℕ} {s : MemorySubSession}
    (h : Held cfg mapped s) (hmapped : ∀ r ∈ s.allocs, cfg.pages r.1 r.2 ⊆ mapped') :
    Held cfg mapped' s :=
  ⟨h.sound, h.populated, h.aligned, hmapped⟩

end Outcome

section Books

/-- The containers and the byte count of two sub-sessions agree; the flags may differ. -/
structure MemorySubSession.SameBooks (s s' : MemorySubSession) : Prop where
  allocatedBytes : s'.allocatedBytes = s.allocatedBytes
  allocs : s'.allocs = s.allocs
  smallAllocs : s'.smallAllocs = s.smallAllocs
  freeSmallChunks : s'.freeSmallChunks = s.freeSmallChunks
  freeSmallChunksInv : s'.freeSmallChunksInv = s.freeSmallChunksInv

variable {cfg : ManagerConfig} {s s' : MemorySubSession}

theorem MemorySubSession.SameBooks.refl (s : MemorySubSession) : SameBooks s s :=
  ⟨rfl, rfl, rfl, rfl, rfl⟩

theorem MemorySubSession.SameBooks.layout (h : MemorySubSession.SameBooks s s')
    (hole : Option Block) : s'.layout hole = s.layout hole := by
  rw [MemorySubSession.layout, MemorySubSession.layout, h.allocs, h.smallAllocs,
    h.freeSmallChunks]

theorem Held.congr {mapped : Finset ℕ} (h : Held cfg mapped s)
    (hbooks : MemorySubSession.SameBooks s s') : Held cfg mapped s' := by
  refine ⟨⟨hbooks.layout none ▸ h.sound.tiled, ?_, ?_⟩, hbooks.layout none ▸ h.populated, ?_, ?_⟩
  · rw [hbooks.freeSmallChunks, hbooks.freeSmallChunksInv]
    exact h.sound.transposed
  · rw [hbooks.allocs]
    exact h.sound.bounded
  · rw [hbooks.allocs]
    exact h.aligned
  · rw [hbooks.allocs]
    exact h.mapped

theorem Recorded.congr {b : Block} (h : Recorded cfg s b)
    (hbooks : MemorySubSession.SameBooks s s') : Recorded cfg s' b := by
  unfold Recorded at *
  rw [hbooks.layout none, hbooks.smallAllocs, hbooks.allocs]
  exact h

/-- Flags and counts are not in the books. -/
theorem World.sameBooks_reflag (w : World) (t : ThreadId) (y : SubSessionId) (flag : Bool)
    (count : ℤ) (ram : ℕ) (x : SubSessionId) :
    MemorySubSession.SameBooks (w.subs x) ((w.reflag t y flag count ram).subs x) := by
  unfold World.reflag
  dsimp only
  rcases eq_or_ne x y with rfl | hne
  · rw [Function.update_self]
    exact ⟨rfl, rfl, rfl, rfl, rfl⟩
  · rw [Function.update_of_ne hne]
    exact .refl _

theorem World.Reflags.sameBooks {w w' : World} {t : ThreadId} {y : SubSessionId}
    (h : w.Reflags t y w') :
    w'.mapped = w.mapped ∧ ∀ x, MemorySubSession.SameBooks (w.subs x) (w'.subs x) := by
  cases h with
  | same => exact ⟨rfl, fun x => .refl _⟩
  | flip hflag ram => exact ⟨rfl, w.sameBooks_reflag t y _ _ ram⟩

theorem World.sameBooks_subBegin (w : World) (t : ThreadId) (y : SubSessionId) :
    (w.subBegin t y).mapped = w.mapped ∧
      ∀ x, MemorySubSession.SameBooks (w.subs x) ((w.subBegin t y).subs x) := by
  cases ht : (w.subs y).frozen t with
  | some flag =>
      rw [World.subBegin_again ht]
      exact ⟨rfl, fun x => .refl _⟩
  | none =>
      rw [World.subBegin_new ht]
      exact ⟨rfl, (w.activate t y).sameBooks_reflag t y _ _ _⟩

/-- **Switching, freezing and unfreezing leave the books and the pages alone.** -/
theorem World.sameBooks_call {w w' : World} {f : SessionCall} (h : w.call f = .ok w') :
    w'.mapped = w.mapped ∧ ∀ x, MemorySubSession.SameBooks (w.subs x) (w'.subs x) := by
  have hsame : ∀ x, MemorySubSession.SameBooks (w.subs x) (w.subs x) := fun x =>
    MemorySubSession.SameBooks.refl _
  cases f with
  | subBegin t y =>
      obtain rfl := Except.ok.inj h
      exact w.sameBooks_subBegin t y
  | subEnd t y =>
      obtain rfl := Except.ok.inj h
      unfold World.subEnd
      split_ifs
      · exact ⟨rfl, hsame⟩
      · exact ⟨rfl, hsame⟩
  | subSetCurrent t y =>
      obtain rfl := Except.ok.inj h
      exact ⟨rfl, hsame⟩
  | subFreeze t y => exact (World.subFreeze_reflags h).sameBooks
  | subUnfreeze t y =>
      obtain ⟨answer, hok⟩ := map_snd_eq_ok.mp h
      exact (World.subUnfreeze_reflags hok).sameBooks
  | sessionBegin t =>
      obtain rfl := Except.ok.inj h
      exact World.sameBooks_subBegin _ t _
  | sessionEnd t =>
      obtain rfl := Except.ok.inj h
      exact ⟨rfl, hsame⟩
  | setDefaultCurrent t =>
      obtain rfl := Except.ok.inj h
      exact ⟨rfl, hsame⟩

end Books

/-- The invariant of a session and the blocks in the callers' hands. -/
structure SessionState.Owned (cfg : ManagerConfig) (st : SessionState) : Prop where
  held : ∀ x, Held cfg st.world.mapped (st.world.subs x)
  separate : ∀ x y, x ≠ y → ∀ r ∈ (st.world.subs x).allocs, ∀ r' ∈ (st.world.subs y).allocs,
    Disjoint (cfg.pages r.1 r.2) (cfg.pages r'.1 r'.2)
  nonnull : ∀ x, ∀ r ∈ (st.world.subs x).allocs, r.1 ≠ 0
  counted : ∀ x, (st.world.subs x).allocatedBytes = (st.world.subs x).allocs.total Prod.snd
  recorded : ∀ x b, (x, b) ∈ st.live →
    0 < b.2 ∧ b.2 < 2 ^ 64 ∧ Recorded cfg (st.world.subs x) b
  apart : st.live.Pairwise (fun e d => e.1 = d.1 → Apart e.2 d.2)

/-- The calls that keep the books in order: `mmap` answers with fresh regions and never
with the null pointer, a small request fits into an arena, and no block that is given back
is the front of a cross-arena merge. -/
def BooksKept (cfg : ManagerConfig) (st : SessionState) : SessionOp → Prop
  | .allocate mmap _ sizeofT n =>
      MmapFresh cfg st.world.mapped mmap ∧ (∀ bytes, mmap bytes ≠ some 0) ∧
        (sizeofT * n ≤ cfg.getMaxSmallAllocBytes → sizeofT * n ≤ cfg.getSingleSmallAllocBytes)
  | .deallocate _ sizeofT n x p => ¬ CrossArenaMerge (st.world.subs x) (p, sizeofT * n)
  | .call _ => True

section Ownership

variable {cfg : ManagerConfig} {st st' : SessionState} {x y : SubSessionId} {b : Block}

theorem SessionState.Initial.owned (h : st.Initial) : st.Owned cfg := by
  have hallocs : ∀ x, (st.world.subs x).allocs = OrderedTable.empty := fun x => by
    rw [h.subs x]
    rfl
  have hnone : ∀ x r, r ∉ (st.world.subs x).allocs := fun x r => by
    rw [hallocs x]
    exact OrderedTable.notMem_empty r
  refine ⟨fun x => ?_, fun x _ _ r hr => absurd hr (hnone x r), fun x r hr => absurd hr (hnone x r),
    fun x => ?_, ?_, ?_⟩
  · have hlayout : (st.world.subs x).layout none = ⟨∅, ∅, ∅, none⟩ := by
      rw [h.subs x, MemorySubSession.layout, Layout.mk.injEq]
      simp [MemorySubSession.initial]
    refine ⟨⟨hlayout ▸ Layout.tiled_empty, ?_, fun r hr => absurd hr (hnone x r)⟩, ?_,
      fun r hr => absurd hr (hnone x r), fun r hr => absurd hr (hnone x r)⟩
    · rw [h.subs x]
      simp [MemorySubSession.initial]
    · rw [hlayout]
      intro r hr
      exact absurd hr (Set.notMem_empty r)
  · rw [h.subs x]
    rfl
  · simp [h.live]
  · simp [h.live]

/-- Regions with a common address belong to one sub-session. -/
theorem SessionState.Owned.owner_eq (h : st.Owned cfg) {r r' : Block} {a : ℕ}
    (hr : r ∈ (st.world.subs x).allocs) (hr' : r' ∈ (st.world.subs y).allocs)
    (ha : r.1 ≤ a ∧ a < r.1 + r.2) (ha' : r'.1 ≤ a ∧ a < r'.1 + r'.2) : x = y := by
  by_contra hne
  exact Finset.disjoint_left.mp (h.separate x y hne r hr r' hr')
    (cfg.div_mem_pages ha.1 ha.2) (cfg.div_mem_pages ha'.1 ha'.2)

/-- A live block lies in a region of its sub-session, so it does not start at zero. -/
theorem SessionState.Owned.live_inside (h : st.Owned cfg) (hlive : (x, b) ∈ st.live) :
    ∃ r ∈ (st.world.subs x).allocs, Inside b r ∧ b.1 ≠ 0 := by
  obtain ⟨-, -, hrec⟩ := h.recorded x b hlive
  obtain ⟨r, hr, hin⟩ := hrec.inside (h.held x)
  have hnonnull := h.nonnull x r hr
  exact ⟨r, hr, hin, by omega⟩

/-- **Through another sub-session the call fails**: that one knows neither a small block
nor a region at the address. -/
theorem SessionState.Owned.deallocate_foreign (h : st.Owned cfg) (hlive : (x, b) ∈ st.live)
    (hne : y ≠ x) (n : ℕ) :
    (st.world.scope y).deallocate cfg b.1 n = .error .assertion := by
  obtain ⟨hpos, -, -⟩ := h.recorded x b hlive
  obtain ⟨r, hr, hin, -⟩ := h.live_inside hlive
  have hb : r.1 ≤ b.1 ∧ b.1 < r.1 + r.2 := ⟨hin.1, by omega⟩
  -- A small block of `y` at this address would put a region of `y` over a region of `x`.
  have hsmall : ¬ (st.world.subs y).isSmallAlloc b.1 = true := by
    intro hsmall
    obtain ⟨m, hm⟩ := MemorySubSession.exists_of_isSmallAlloc hsmall
    have hmpos := (h.held y).sound.used_pos hm
    obtain ⟨r', hr', hin'⟩ := (h.held y).sound.tiled.piece_inside (b.1, m) (Or.inl hm)
    simp only [Inside] at hin'
    exact hne (h.owner_eq hr' hr ⟨hin'.1, by omega⟩ hb)
  have hregion : (st.world.subs y).allocs.find? b.1 = none := by
    refine OrderedTable.find?_eq_none_iff.mpr fun r' hr' hstart => ?_
    have hrpos : 0 < r'.2 := (h.held y).sound.tiled.region_pos r' hr'
    exact hne (h.owner_eq hr' hr ⟨by omega, by omega⟩ hb)
  obtain ⟨pages, hpages⟩ := Scope.munmap_eq cfg (st.world.scope y) b.1 n
  rw [Scope.deallocate, World.scope_self, if_neg hsmall, hpages, Scope.removeAlloc]
  simp [hregion]

/-- Other sub-sessions after a call on `x`. -/
theorem World.put_other {w : World} {c : Scope} (hthis : c.this = x) (hne : y ≠ x) :
    (w.put c).subs y = w.subs y := by
  rw [World.put, hthis]
  exact Function.update_of_ne hne _ _

theorem World.put_self {w : World} {c : Scope} (hthis : c.this = x) :
    (w.put c).subs x = c.self := by
  rw [World.put, hthis]
  exact Function.update_self _ _ _

/-- What holds of every sub-session after a call on `x`: of `x` as the call left it, and of
the others as they were. -/
theorem World.forall_put {w : World} {c : Scope} (P : SubSessionId → MemorySubSession → Prop)
    (hthis : c.this = x) (hself : P x c.self) (hother : ∀ y, y ≠ x → P y (w.subs y)) (y) :
    P y ((w.put c).subs y) := by
  rcases eq_or_ne y x with rfl | hne
  · rw [World.put_self hthis]
    exact hself
  · rw [World.put_other hthis hne]
    exact hother y hne

/-- **The invariant after a call on sub-session `x`**: its own books are in order again,
and it met no page of another sub-session. -/
theorem SessionState.Owned.of_put (h : st.Owned cfg) {c : Scope} {live : List (SubSessionId × Block)}
    (hthis : c.this = x) (hheld : Held cfg c.mapped c.self)
    (hother : ∀ y, y ≠ x → ∀ r ∈ (st.world.subs y).allocs, cfg.pages r.1 r.2 ⊆ c.mapped ∧
      ∀ r' ∈ c.self.allocs, Disjoint (cfg.pages r.1 r.2) (cfg.pages r'.1 r'.2))
    (hnonnull : ∀ r ∈ c.self.allocs, r.1 ≠ 0)
    (hcounted : c.self.allocatedBytes = c.self.allocs.total Prod.snd)
    (hown : ∀ b, (x, b) ∈ live → 0 < b.2 ∧ b.2 < 2 ^ 64 ∧ Recorded cfg c.self b)
    (hlive : ∀ y b, y ≠ x → (y, b) ∈ live → (y, b) ∈ st.live)
    (hapart : live.Pairwise (fun e d => e.1 = d.1 → Apart e.2 d.2)) :
    SessionState.Owned cfg ⟨st.world.put c, live⟩ := by
  have hself : (st.world.put c).subs x = c.self := World.put_self hthis
  have hsubs : ∀ y, y ≠ x → (st.world.put c).subs y = st.world.subs y := fun y hne =>
    World.put_other hthis hne
  refine ⟨World.forall_put (fun _ s => Held cfg c.mapped s) hthis hheld fun y hne => ?_,
    fun y z hyz r hr r' hr' => ?_,
    World.forall_put (fun _ s => ∀ r ∈ s.allocs, r.1 ≠ 0) hthis hnonnull fun y _ => h.nonnull y,
    World.forall_put (fun _ s => s.allocatedBytes = s.allocs.total Prod.snd) hthis hcounted
      fun y _ => h.counted y,
    World.forall_put
      (fun y s => ∀ b, (y, b) ∈ live → 0 < b.2 ∧ b.2 < 2 ^ 64 ∧ Recorded cfg s b)
      hthis hown fun y hne b hb => h.recorded y b (hlive y b hne hb),
    hapart⟩
  · exact (h.held y).of_mapped fun r hr => (hother y hne r hr).1
  · -- At most one of the two is the sub-session that changed.
    rcases eq_or_ne y x with rfl | hne
    · simp only [hself] at hr
      simp only [hsubs z hyz.symm] at hr'
      exact ((hother z hyz.symm r' hr').2 r hr).symm
    · simp only [hsubs y hne] at hr
      rcases eq_or_ne z x with rfl | hnez
      · simp only [hself] at hr'
        exact (hother y hne r hr).2 r' hr'
      · simp only [hsubs z hnez] at hr'
        exact h.separate y z hyz r hr r' hr'

/-- The invariant after a call on `x` that kept its regions. -/
theorem SessionState.Owned.put_kept (h : st.Owned cfg) {c : Scope}
    {live : List (SubSessionId × Block)} (hkept : Scope.Kept (st.world.scope x) c)
    (hheld : Held cfg c.mapped c.self)
    (hown : ∀ b, (x, b) ∈ live → 0 < b.2 ∧ b.2 < 2 ^ 64 ∧ Recorded cfg c.self b)
    (hlive : ∀ y b, y ≠ x → (y, b) ∈ live → (y, b) ∈ st.live)
    (hapart : live.Pairwise (fun e d => e.1 = d.1 → Apart e.2 d.2)) :
    SessionState.Owned cfg ⟨st.world.put c, live⟩ := by
  have hallocs : c.self.allocs = (st.world.subs x).allocs := hkept.allocs
  refine h.of_put hkept.this hheld (fun y hne r hr => ⟨?_, fun r' hr' => ?_⟩)
    (hallocs ▸ h.nonnull x) ?_ hown hlive hapart
  · rw [hkept.mapped]
    exact (h.held y).mapped r hr
  · exact h.separate y x hne r hr r' (hallocs ▸ hr')
  · rw [hkept.allocatedBytes, hallocs]
    exact h.counted x

/-- The invariant after a successful `allocate` of sub-session `x`. -/
theorem SessionState.Owned.allocate (h : st.Owned cfg) {mmap : ℕ → Option ℕ} {n p : ℕ} {c : Scope}
    (hfresh : MmapFresh cfg st.world.mapped mmap) (hnull : ∀ bytes, mmap bytes ≠ some 0)
    (hn : 0 < n) (hsize : n < 2 ^ 64)
    (hfits : n ≤ cfg.getMaxSmallAllocBytes → n ≤ cfg.getSingleSmallAllocBytes)
    (halloc : (st.world.scope x).allocate cfg mmap n = .ok (p, c)) :
    SessionState.Owned cfg ⟨st.world.put c, (x, (p, n)) :: st.live⟩ := by
  obtain ⟨hheld, hnew, hold⟩ := Held.allocate (c := st.world.scope x) (h.held x) hfresh hn hsize
    hfits halloc
  have hown : ∀ b, (x, b) ∈ (x, (p, n)) :: st.live →
      0 < b.2 ∧ b.2 < 2 ^ 64 ∧ Recorded cfg c.self b := by
    intro b hb
    rcases List.mem_cons.mp hb with heq | hb
    · obtain rfl : b = (p, n) := congrArg Prod.snd heq
      exact ⟨hn, hsize, hnew⟩
    · obtain ⟨hpos, hlt, hrec⟩ := h.recorded x b hb
      exact ⟨hpos, hlt, (hold b hrec).1⟩
  have hlive : ∀ y b, y ≠ x → (y, b) ∈ (x, (p, n)) :: st.live → (y, b) ∈ st.live := by
    intro y b hne hb
    rcases List.mem_cons.mp hb with heq | hb
    · exact absurd (congrArg Prod.fst heq) hne
    · exact hb
  have hapart : ((x, (p, n)) :: st.live).Pairwise (fun e d => e.1 = d.1 → Apart e.2 d.2) := by
    refine List.pairwise_cons.mpr ⟨fun d hd hsame => ?_, h.apart⟩
    obtain ⟨y, b⟩ := d
    obtain rfl : x = y := hsame
    exact (hold b (h.recorded x b hd).2.2).2
  rcases Scope.allocate_effect halloc with ⟨-, hkept⟩ | ⟨bytes, -, hmap, hadded⟩
  · exact h.put_kept hkept hheld hown hlive hapart
  · -- `mmap` was asked: its answer is disjoint from the pages of everyone.
    have hregion := hfresh bytes p hmap
    have hallocs : c.self.allocs = (st.world.subs x).allocs.insert (p, bytes) := hadded.allocs
    have hcases : ∀ r ∈ c.self.allocs, r = (p, bytes) ∨ r ∈ (st.world.subs x).allocs := by
      intro r hr
      rw [hallocs] at hr
      exact OrderedTable.mem_insertEntry hr
    refine h.of_put hadded.this hheld (fun y hne r hr => ⟨?_, fun r' hr' => ?_⟩)
      (fun r hr => ?_) ?_ hown hlive hapart
    · rw [hadded.mapped]
      exact ((h.held y).mapped r hr).trans Finset.subset_union_left
    · rcases hcases r' hr' with rfl | hr'
      · exact (Finset.disjoint_of_subset_right ((h.held y).mapped r hr) hregion.unmapped).symm
      · exact h.separate y x hne r hr r' hr'
    · rcases hcases r hr with rfl | hr
      · intro hzero
        exact hnull bytes (hmap.trans (congrArg some hzero))
      · exact h.nonnull x r hr
    · -- The new total is the total of the recorded regions, so it does not wrap.
      have hlt := hheld.total_lt
      have htotal := (h.held x).total_insert hregion
      have hcount := h.counted x
      rw [hallocs] at hlt ⊢
      rw [hadded.allocatedBytes, World.scope_self, htotal]
      rw [htotal] at hlt
      rw [hcount, addWrap_of_lt (by omega)]
      omega

/-- The invariant after a successful `deallocate` of sub-session `x`. -/
theorem SessionState.Owned.deallocate (h : st.Owned cfg) {c : Scope} (hlive : (x, b) ∈ st.live)
    (hclean : ¬ CrossArenaMerge (st.world.subs x) b)
    (hfree : (st.world.scope x).deallocate cfg b.1 b.2 = .ok c) :
    SessionState.Owned cfg ⟨st.world.put c, st.live.erase (x, b)⟩ := by
  obtain ⟨hpos, -, hrec⟩ := h.recorded x b hlive
  have hheldx : Held cfg (st.world.scope x).mapped (st.world.scope x).self := h.held x
  obtain ⟨c', heq, hheld, hkeep⟩ := hheldx.deallocate hpos hrec hclean
  obtain rfl := Except.ok.inj (heq.symm.trans hfree)
  obtain ⟨c'', heq', hreleased⟩ := hheldx.deallocate_released hpos hrec
  obtain rfl := Except.ok.inj (heq.symm.trans heq')
  -- The other blocks of the sub-session are apart from the one given back.
  have hsep : ∀ d, (x, d) ∈ st.live.erase (x, b) → Apart d b := by
    intro d hd
    have hpair : ((x, b) :: st.live.erase (x, b)).Pairwise (fun e d => e.1 = d.1 → Apart e.2 d.2) :=
      ((List.perm_cons_erase hlive).pairwise_iff fun hrel heq => (hrel heq.symm).symm).mp h.apart
    exact ((List.pairwise_cons.mp hpair).1 (x, d) hd rfl).symm
  have hown : ∀ d, (x, d) ∈ st.live.erase (x, b) →
      0 < d.2 ∧ d.2 < 2 ^ 64 ∧ Recorded cfg c'.self d := by
    intro d hd
    obtain ⟨hdpos, hdlt, hdrec⟩ := h.recorded x d (List.mem_of_mem_erase hd)
    exact ⟨hdpos, hdlt, hkeep d hdrec hdpos (hsep d hd)⟩
  have hold : ∀ y d, y ≠ x → (y, d) ∈ st.live.erase (x, b) → (y, d) ∈ st.live := fun y d _ hd =>
    List.mem_of_mem_erase hd
  have hapart := h.apart.sublist (List.erase_sublist (a := (x, b)))
  rcases hreleased.regions with hkept | ⟨r₀, hdropped⟩
  · exact h.put_kept hkept hheld hown hold hapart
  · -- A region went back: only its own pages were unmapped.
    have hrec₀ : r₀ ∈ (st.world.subs x).allocs := hdropped.recorded
    have hallocs : c'.self.allocs = (st.world.subs x).allocs.erase r₀.1 := hdropped.allocs
    have hmem : ∀ r ∈ c'.self.allocs, r ∈ (st.world.subs x).allocs := by
      intro r hr
      rw [hallocs] at hr
      exact (OrderedTable.mem_erase.mp hr).1
    refine h.of_put hdropped.this hheld (fun y hne r hr => ⟨?_, fun r' hr' => ?_⟩)
      (fun r hr => h.nonnull x r (hmem r hr)) ?_ hown hold hapart
    · rw [hdropped.mapped]
      intro k hk
      have hdisj := h.separate y x hne r hr r₀ hrec₀
      exact Finset.mem_sdiff.mpr ⟨(h.held y).mapped r hr hk, Finset.disjoint_left.mp hdisj hk⟩
    · exact h.separate y x hne r hr r' (hmem r' hr')
    · have htotal := OrderedTable.total_erase Prod.snd hrec₀
      have hlt := (h.held x).total_lt
      rw [hallocs, hdropped.allocatedBytes, World.scope_self, h.counted x,
        subWrap_of_le (by omega) hlt]
      omega

/-- A call that leaves the books alone keeps the invariant. -/
theorem SessionState.Owned.call (h : st.Owned cfg) {f : SessionCall} {w' : World}
    (hcall : st.world.call f = .ok w') : SessionState.Owned cfg ⟨w', st.live⟩ := by
  obtain ⟨hmapped, hbooks⟩ := World.sameBooks_call hcall
  refine ⟨fun x => ?_, fun x y hne r hr r' hr' => ?_, fun x r hr => ?_, fun x => ?_,
    fun x b hb => ?_, h.apart⟩
  · rw [hmapped]
    exact (h.held x).congr (hbooks x)
  · exact h.separate x y hne r ((hbooks x).allocs ▸ hr) r' ((hbooks y).allocs ▸ hr')
  · exact h.nonnull x r ((hbooks x).allocs ▸ hr)
  · rw [(hbooks x).allocatedBytes, (hbooks x).allocs]
    exact h.counted x
  · obtain ⟨hpos, hlt, hrec⟩ := h.recorded x b hb
    exact ⟨hpos, hlt, hrec.congr (hbooks x)⟩

/-- A live block is freed through the current sub-session by `memory_sub_session::deallocate`
with its address and size. -/
theorem SessionState.Owned.allocatorDeallocate_eq (h : st.Owned cfg) {t : ThreadId}
    {sizeofT n p : ℕ} (hlive : (x, (p, sizeofT * n)) ∈ st.live)
    (hcur : st.world.current t = some y) :
    st.world.allocatorDeallocate cfg t sizeofT p n =
      ((st.world.scope y).deallocate cfg p (sizeofT * n)).map st.world.put := by
  obtain ⟨hpos, hlt, -⟩ := h.recorded x _ hlive
  obtain ⟨-, -, -, hp⟩ := h.live_inside hlive
  have hn : n ≠ 0 := by
    rintro rfl
    simp at hpos
  have hmod : sizeofT * n % 2 ^ 64 = sizeofT * n := Nat.mod_eq_of_lt hlt
  simp only [World.allocatorDeallocate, if_neg (show ¬ (n = 0 ∨ p = 0) by simpa [hn] using hp),
    hcur, hmod]
  cases (st.world.scope y).deallocate cfg p (sizeofT * n) with
  | error e => rfl
  | ok c => rfl

/-- **One step keeps the books in order.**  A `deallocate` that succeeds went through the
sub-session the block came from. -/
theorem SessionStep.owned (h : st.Owned cfg) (hstep : SessionStep cfg (BooksKept cfg) st st') :
    st'.Owned cfg := by
  cases hstep with
  | allocate hok hn hsize hcur halloc =>
      obtain ⟨hfresh, hnull, hfits⟩ := hok
      obtain ⟨-, -, -, -, -, c, hc, rfl⟩ :=
        World.allocatorAllocate_ok (fun hzero => by simp [hzero] at hn) hcur halloc
      rw [Nat.mod_eq_of_lt hsize] at hc
      exact h.allocate hfresh hnull hn hsize hfits hc
  | @deallocate w' t sizeofT n p x hok hlive hfree =>
      cases hcur : st.world.current t with
      | none =>
          -- Without a current sub-session `deallocate` asserts; the block is not the null block.
          obtain ⟨hpos, -, -⟩ := h.recorded x _ hlive
          obtain ⟨-, -, -, hp⟩ := h.live_inside hlive
          have hn : n ≠ 0 := by
            rintro rfl
            simp at hpos
          obtain ⟨y, -, hy, -⟩ := World.allocatorDeallocate_ok hn hp hfree
          simp [hcur] at hy
      | some y =>
          rw [h.allocatorDeallocate_eq hlive hcur] at hfree
          rcases eq_or_ne y x with rfl | hne
          · cases hres : (st.world.scope y).deallocate cfg p (sizeofT * n) with
            | error e => simp [hres, Except.map] at hfree
            | ok c =>
                simp only [hres, Except.map, Except.ok.injEq] at hfree
                subst hfree
                exact h.deallocate hlive hok hres
          · rw [h.deallocate_foreign hlive hne] at hfree
            simp [Except.map] at hfree
  | call hok htarget hcall => exact h.call hcall

end Ownership

/-- A block went back to sub-session `x`: its entry is gone, a region it leaves empty is
subtracted from the byte count, and the other sub-sessions are as before. -/
structure World.GivenBack (cfg : ManagerConfig) (w w' : World) (x : SubSessionId) (b : Block) :
    Prop where
  removed : (b ∈ (w.subs x).smallAllocs ∧ b ∉ (w'.subs x).smallAllocs) ∨
    ((b.1, cfg.pageAligned b.2) ∈ (w.subs x).allocs ∧
      (b.1, cfg.pageAligned b.2) ∉ (w'.subs x).allocs)
  counted : ((w'.subs x).allocs = (w.subs x).allocs ∧
      (w'.subs x).allocatedBytes = (w.subs x).allocatedBytes) ∨
    ∃ r ∈ (w.subs x).allocs, (w'.subs x).allocs = (w.subs x).allocs.erase r.1 ∧
      (w'.subs x).allocatedBytes + r.2 = (w.subs x).allocatedBytes
  others : ∀ z, z ≠ x → w'.subs z = w.subs z

/-- Through its own sub-session a live block is given back. -/
theorem SessionState.Owned.givenBack {cfg : ManagerConfig} {st : SessionState} (h : st.Owned cfg)
    {x : SubSessionId} {b : Block} (hlive : (x, b) ∈ st.live) :
    ∃ c, (st.world.scope x).deallocate cfg b.1 b.2 = .ok c ∧
      st.world.GivenBack cfg (st.world.put c) x b := by
  obtain ⟨hpos, -, hrec⟩ := h.recorded x b hlive
  have hheld : Held cfg (st.world.scope x).mapped (st.world.scope x).self := h.held x
  obtain ⟨c, heq, hreleased⟩ := hheld.deallocate_released hpos hrec
  have hthis : c.this = x := by
    rcases hreleased.regions with hkept | ⟨r, hdropped⟩
    · exact hkept.this
    · exact hdropped.this
  refine ⟨c, heq, ?_, ?_, fun z hne => World.put_other hthis hne⟩
  · rw [World.put_self hthis]
    exact hreleased.removed
  · rw [World.put_self hthis]
    rcases hreleased.regions with hkept | ⟨r, hdropped⟩
    · exact Or.inl ⟨hkept.allocs, hkept.allocatedBytes⟩
    · refine Or.inr ⟨r, hdropped.recorded, hdropped.allocs, ?_⟩
      have htotal := OrderedTable.total_erase Prod.snd hdropped.recorded
      have hlt := (h.held x).total_lt
      have hcounted := h.counted x
      rw [World.scope_self] at htotal
      rw [hdropped.allocatedBytes, World.scope_self, subWrap_of_le (by omega) (by omega)]
      omega

/-- **Who can free a live block.**  In every state of a run that keeps the books in order,
`allocator<T>::deallocate` on a thread whose current sub-session is `y` completes, removes the
block from the books of the sub-session `x` it was allocated in and leaves the others alone
if and only if `y` is `x`. -/
theorem deallocate_iff_owner (cfg : ManagerConfig) {start st : SessionState}
    (hstart : start.Initial)
    (hrun : Relation.ReflTransGen (SessionStep cfg (BooksKept cfg)) start st)
    {x y : SubSessionId} {t : ThreadId} {sizeofT n p : ℕ}
    (hlive : (x, (p, sizeofT * n)) ∈ st.live) (hcur : st.world.current t = some y) :
    (∃ w', st.world.allocatorDeallocate cfg t sizeofT p n = .ok w' ∧
      st.world.GivenBack cfg w' x (p, sizeofT * n)) ↔ y = x := by
  have hinv : st.Owned cfg := by
    clear hlive hcur
    induction hrun with
    | refl => exact hstart.owned
    | tail _ hstep ih => exact hstep.owned ih
  rw [hinv.allocatorDeallocate_eq hlive hcur]
  constructor
  · rintro ⟨w', hok, -⟩
    by_contra hne
    rw [hinv.deallocate_foreign hlive hne] at hok
    simp [Except.map] at hok
  · rintro rfl
    obtain ⟨c, heq, hback⟩ := hinv.givenBack hlive
    rw [heq]
    exact ⟨_, rfl, hback⟩

/-- A block of the first sub-session, with the second one current in the end. -/
def allocateThenSwitch : List SessionOp :=
  [.call (.subBegin 0 0), .allocate (mmapAt 4096 65536) 0 1 100, .call (.subSetCurrent 0 1)]

/-- Freeing the block through the second sub-session does not complete. -/
theorem deallocate_foreign_fails :
    ∃ start st : SessionState, start.Initial ∧
      Relation.ReflTransGen (SessionStep onePageArenas (BooksKept onePageArenas)) start st ∧
      (0, (65536, 1 * 100)) ∈ st.live ∧ st.world.current 0 = some 1 ∧
      1 ∈ st.world.session.subSessions ∧
      ¬ ∃ w', st.world.allocatorDeallocate onePageArenas 0 1 65536 100 = .ok w' ∧
        st.world.GivenBack onePageArenas w' 0 (65536, 1 * 100) := by
  refine ⟨blankSession (2 ^ 30) (2 ^ 30), _, blankSession_initial (by norm_num) (by norm_num),
    SessionState.Performs.run allocateThenSwitch ?_, by decide, by decide, by decide, ?_⟩
  · refine ⟨trivial, by decide, ⟨mmapAt_fresh ⟨?_, ?_, ?_, ?_⟩, mmapAt_ne_null (by decide), ?_⟩,
      by decide, trivial, by decide, trivial⟩
    all_goals decide
  · rintro ⟨w', hok, -⟩
    have hfail : (((blankSession (2 ^ 30) (2 ^ 30)).after onePageArenas
        allocateThenSwitch).world.allocatorDeallocate onePageArenas 0 1 65536 100).toOption.isSome =
          false := by decide
    rw [hok] at hfail
    simp [Except.toOption] at hfail

/-- Before the switch the block can be freed. -/
theorem deallocate_iff_owner_beforeSwitch :
    ∃ w', ((blankSession (2 ^ 30) (2 ^ 30)).after onePageArenas
        (allocateThenSwitch.take 2)).world.allocatorDeallocate onePageArenas 0 1 65536 100 =
        .ok w' ∧
      ((blankSession (2 ^ 30) (2 ^ 30)).after onePageArenas
        (allocateThenSwitch.take 2)).world.GivenBack onePageArenas w' 0 (65536, 1 * 100) := by
  refine (deallocate_iff_owner onePageArenas (y := 0)
    (blankSession_initial (by norm_num) (by norm_num))
    (SessionState.Performs.run (allocateThenSwitch.take 2) ?_) (by decide) (by decide)).mpr rfl
  refine ⟨trivial, by decide, ⟨mmapAt_fresh ⟨?_, ?_, ?_, ?_⟩, mmapAt_ne_null (by decide), ?_⟩,
    by decide, trivial⟩
  all_goals decide

end MemoryManager
end CoherentDB
