import CoherentDB.MemoryManager.Ownership

/-!
# The byte counts of `allocator<T>`

`allocate(n)` computes `sizeof(T) * n` in `size_t` and compares, also in `size_t`, what is
allocated already plus this product with the limits of the session.  A product of `2 ^ 64`
or more wraps around, passes the checks with what is left of it and yields a block of
that size (`allocate_enough_iff`).

`max_size` answers with the room under the limits, in bytes where the caller expects
elements, and the second half of its guard compares the total limit with itself, so that the
room under the total limit is a difference that may wrap (`maxSize_agrees_iff`).
-/

namespace CoherentDB
namespace MemoryManager

open Debug Containers MachineInt ArenaLayout

/-- The recorded regions are mapped parts of the address space. -/
def World.RegionsMapped (cfg : ManagerConfig) (w : World) : Prop :=
  ∀ x, ∀ r ∈ (w.subs x).allocs, 0 < r.2 ∧ r.1 + r.2 < 2 ^ 64 ∧ cfg.pages r.1 r.2 ⊆ w.mapped

/-- Sub-session `x` has a block at `p` of at least `bytes` bytes, recorded as small block or as
region, and these bytes lie in one mapped region of it. -/
def World.Backs (cfg : ManagerConfig) (w : World) (x : SubSessionId) (p bytes : ℕ) : Prop :=
  (∃ size, bytes ≤ size ∧ ((p, size) ∈ (w.subs x).smallAllocs ∨ (p, size) ∈ (w.subs x).allocs)) ∧
    ∃ r ∈ (w.subs x).allocs, Inside (p, bytes) r ∧ cfg.pages r.1 r.2 ⊆ w.mapped

/-- `allocate(n)` throws or returns a block of at least `sizeof(T) * n` bytes. -/
def World.AllocatesEnough (cfg : ManagerConfig) (w : World) (mmap : ℕ → Option ℕ) (t : ThreadId)
    (sizeofT n : ℕ) : Prop :=
  ∀ p w', w.allocatorAllocate cfg mmap t sizeofT n = .ok (p, w') →
    ∃ x, w.current t = some x ∧ w'.Backs cfg x p (sizeofT * n)

/-- A request for `neededBytes` bytes on sub-session `x` passes the assertions and the limits,
and the kernel has a region where one is asked for. -/
structure World.Grants (cfg : ManagerConfig) (w : World) (mmap : ℕ → Option ℕ) (t : ThreadId)
    (x : SubSessionId) (sizeofT neededBytes : ℕ) : Prop where
  unfrozen : (w.subs x).frozen t = some false
  ramMax : w.session.ramLimitBytes ≤ World.stdMaxSize sizeofT
  totalMax : w.session.totalLimitBytes ≤ World.stdMaxSize sizeofT
  ram : addWrap 64 w.session.ramAllocatedBytes neededBytes ≤ w.session.ramLimitBytes
  total : addWrap 64 w.session.totalAllocatedBytes neededBytes ≤ w.session.totalLimitBytes
  region : ∀ bytes, (w.subs x).regionRequest cfg neededBytes = some bytes → (mmap bytes).isSome

/-- The free chunk that serves a request, if one does, starts with `bytes` bytes of one
region. -/
def MemorySubSession.ServesInside (cfg : ManagerConfig) (s : MemorySubSession) (bytes : ℕ) : Prop :=
  s.regionRequest cfg bytes = none →
    ∃ r ∈ s.allocs, Inside ((s.smallestSufficentFreeSmallChunk bytes).2, bytes) r

section Sizes

variable {cfg : ManagerConfig} {w w' : World} {mmap : ℕ → Option ℕ} {t : ThreadId}
  {x : SubSessionId} {c c' : Scope} {sizeofT n p : ℕ}

/-- A small request is recorded as a small block. -/
theorem Scope.allocate_small_recorded (hmax : n ≤ cfg.getMaxSmallAllocBytes)
    (h : c.allocate cfg mmap n = .ok (p, c')) : (p, n) ∈ c'.self.smallAllocs := by
  have hinsert : ∀ t : PairSet, (p, n) ∈ t.insert (p, n) :=
    fun t => (OrderedTable.mem_insert toLex.injective).mpr (Or.inl rfl)
  rcases Scope.allocate_cases h with ⟨hlarge, -, -⟩ | ⟨-, -, -, c₁, -, rfl⟩ | ⟨-, -, -, rfl⟩
  · omega
  · rw [Scope.fileRemainder_self]
    split_ifs
    · exact hinsert _
    · exact hinsert _
  · rw [Scope.fileRemainder_self]
    split_ifs
    · exact hinsert _
    · exact hinsert _

/-- **The block of a request that did not wrap** lies in one region unless it is cut from a free
chunk that does not. -/
theorem World.RegionsMapped.backs_iff (hmapped : w.RegionsMapped cfg)
    (hcfg : cfg.getMaxSmallAllocBytes ≤ cfg.getSingleSmallAllocBytes)
    (hfresh : MmapFresh cfg w.mapped mmap) (hn : n < 2 ^ 64)
    (h : (w.scope x).allocate cfg mmap n = .ok (p, c)) :
    (w.put c).Backs cfg x p n ↔ (w.subs x).ServesInside cfg n := by
  rcases Scope.allocate_effect h with ⟨hnone, hkept⟩ | ⟨bytes, hsome, hmap, hadded⟩
  · have hself : (w.put c).subs x = c.self := World.put_self hkept.this
    have hmax : n ≤ cfg.getMaxSmallAllocBytes := by
      by_contra hlarge
      rw [MemorySubSession.regionRequest, if_pos (not_le.mp hlarge)] at hnone
      cases hnone
    have hp : p = ((w.subs x).smallestSufficentFreeSmallChunk n).2 := (Scope.allocate_chunk hnone h).2.1
    have hallocs : c.self.allocs = (w.subs x).allocs := hkept.allocs
    have hpages : (w.put c).mapped = w.mapped := hkept.mapped
    rw [World.Backs, hself, hallocs, hpages]
    constructor
    · rintro ⟨-, r, hr, hin, -⟩ -
      rw [← hp]
      exact ⟨r, hr, hin⟩
    · intro hserves
      obtain ⟨r, hr, hin⟩ := hserves hnone
      rw [← hp] at hin
      exact ⟨⟨n, le_rfl, Or.inl (Scope.allocate_small_recorded hmax h)⟩, r, hr, hin,
        (hmapped x r hr).2.2⟩
  · have hself : (w.put c).subs x = c.self := World.put_self hadded.this
    have hpages : (w.put c).mapped = w.mapped ∪ cfg.pages p bytes := hadded.mapped
    have hregion := hfresh bytes p hmap
    have hle := MemorySubSession.le_regionRequest hcfg hn hregion.nonempty hsome
    have hmem : (p, bytes) ∈ c.self.allocs := by
      rw [hadded.allocs]
      refine OrderedTable.self_mem_insertEntry fun r hr => ?_
      obtain ⟨hpos, -, hsub⟩ := hmapped x r hr
      exact hregion.start_ne hpos hsub
    refine iff_of_true ?_ ?_
    · rw [World.Backs, hself, hpages]
      exact ⟨⟨bytes, hle, Or.inr hmem⟩, (p, bytes), hmem, ⟨le_rfl, Nat.add_le_add_left hle p⟩,
        Finset.subset_union_right⟩
    · intro hnone
      rw [World.scope_self] at hsome
      rw [hsome] at hnone
      cases hnone

/-- A call that is granted returns. -/
theorem World.Grants.allocates (hn : n ≠ 0) (hcur : w.current t = some x)
    (h : w.Grants cfg mmap t x sizeofT (sizeofT * n % 2 ^ 64)) :
    ∃ p c, (w.scope x).allocate cfg mmap (sizeofT * n % 2 ^ 64) = .ok (p, c) ∧
      w.allocatorAllocate cfg mmap t sizeofT n = .ok (p, w.put c) := by
  obtain ⟨p, c, hc⟩ := Scope.allocate_isOk (c := w.scope x) h.region
  refine ⟨p, c, hc, ?_⟩
  simp only [World.allocatorAllocate, if_neg hn, hcur, dAssert_of h.unfrozen, dAssert_of h.ramMax,
    dAssert_of h.totalMax, if_neg (not_lt.mpr h.ram), if_neg (not_lt.mpr h.total), ok_bind, hc]
  rfl

/-- A call that returns was granted. -/
theorem World.grants_of_ok (hn : n ≠ 0)
    (h : w.allocatorAllocate cfg mmap t sizeofT n = .ok (p, w')) :
    ∃ x c, w.current t = some x ∧ w.Grants cfg mmap t x sizeofT (sizeofT * n % 2 ^ 64) ∧
      (w.scope x).allocate cfg mmap (sizeofT * n % 2 ^ 64) = .ok (p, c) ∧ w' = w.put c := by
  cases hcur : w.current t with
  | none => simp [World.allocatorAllocate, hn, hcur] at h
  | some x =>
      obtain ⟨hfrozen, hramMax, htotalMax, hram, htotal, c, hc, hw'⟩ :=
        World.allocatorAllocate_ok hn hcur h
      refine ⟨x, c, rfl, ⟨hfrozen, hramMax, htotalMax, hram, htotal, fun bytes hbytes => ?_⟩, hc,
        hw'⟩
      rcases Scope.allocate_effect hc with ⟨hnone, -⟩ | ⟨bytes', hsome, hmap, -⟩
      · rw [World.scope_self, hbytes] at hnone
        cases hnone
      · rw [World.scope_self, hbytes] at hsome
        cases hsome
        rw [hmap]
        rfl

/-- The regions after the call still lie in the address space. -/
theorem World.RegionsMapped.region_lt (hmapped : w.RegionsMapped cfg)
    (hfresh : MmapFresh cfg w.mapped mmap) (h : (w.scope x).allocate cfg mmap n = .ok (p, c))
    {r : Block} (hr : r ∈ ((w.put c).subs x).allocs) : r.1 + r.2 < 2 ^ 64 := by
  rcases Scope.allocate_effect h with ⟨-, hkept⟩ | ⟨bytes, -, hmap, hadded⟩
  · rw [World.put_self (x := x) hkept.this, hkept.allocs] at hr
    exact (hmapped x r hr).2.1
  · rw [World.put_self (x := x) hadded.this, hadded.allocs] at hr
    rcases OrderedTable.mem_insertEntry hr with rfl | hr
    · exact (hfresh bytes p hmap).fits
    · exact (hmapped x r hr).2.1

/-- **When a call allocates enough**, in a session whose recorded regions are mapped. -/
theorem World.RegionsMapped.allocatesEnough_iff (hmapped : w.RegionsMapped cfg)
    (hcfg : cfg.getMaxSmallAllocBytes ≤ cfg.getSingleSmallAllocBytes)
    (hfresh : MmapFresh cfg w.mapped mmap) (hn : n ≠ 0) :
    w.AllocatesEnough cfg mmap t sizeofT n ↔
      ∀ x, w.current t = some x → w.Grants cfg mmap t x sizeofT (sizeofT * n % 2 ^ 64) →
        sizeofT * n < 2 ^ 64 ∧ (w.subs x).ServesInside cfg (sizeofT * n) := by
  constructor
  · intro henough x hcur hgrants
    obtain ⟨p, c, hc, hok⟩ := hgrants.allocates hn hcur
    obtain ⟨y, hy, hbacks⟩ := henough p _ hok
    obtain rfl : x = y := Option.some.inj (hcur.symm.trans hy)
    have hsize : sizeofT * n < 2 ^ 64 := by
      obtain ⟨-, r, hr, hin, -⟩ := hbacks
      have hend := hmapped.region_lt hfresh hc hr
      have hstop : p + sizeofT * n ≤ r.1 + r.2 := hin.2
      omega
    rw [Nat.mod_eq_of_lt hsize] at hc
    exact ⟨hsize, (hmapped.backs_iff hcfg hfresh hsize hc).mp hbacks⟩
  · intro hcond p w' hok
    obtain ⟨x, c, hcur, hgrants, hc, rfl⟩ := World.grants_of_ok hn hok
    obtain ⟨hsize, hserves⟩ := hcond x hcur hgrants
    rw [Nat.mod_eq_of_lt hsize] at hc
    exact ⟨x, hcur, (hmapped.backs_iff hcfg hfresh hsize hc).mpr hserves⟩

/-- A session that keeps its books has its regions mapped, and its free chunks lie in them. -/
theorem SessionState.Owned.regionsMapped {st : SessionState} (h : st.Owned cfg) :
    st.world.RegionsMapped cfg := by
  intro x r hr
  have hbound := (h.held x).sound.bounded r hr
  exact ⟨(h.held x).sound.tiled.region_pos r hr, by omega, (h.held x).mapped r hr⟩

theorem SessionState.Owned.servesInside {st : SessionState} (h : st.Owned cfg) (x : SubSessionId)
    (n : ℕ) : (st.world.subs x).ServesInside cfg n := by
  intro hnone
  unfold MemorySubSession.regionRequest at hnone
  split_ifs at hnone with hlarge hchunk
  obtain ⟨f, hf, hbest, hle⟩ := (h.held x).sound.smallestSufficent_spec hchunk
  obtain ⟨r, hr, hin⟩ := (h.held x).sound.tiled.piece_inside f (Or.inr (Or.inl hf))
  refine ⟨r, hr, ?_⟩
  rw [hbest]
  exact ⟨hin.1, by have := hin.2; dsimp only; omega⟩

end Sizes

/-- **When an allocation is as large as asked.**  `allocate(n)` throws or returns a block of
`sizeof(T) * n` bytes in one mapped region if and only if, where it passes its checks, the
product does not wrap and the free chunk that it takes lies in one region.  In a run that
keeps the books every free chunk does, and only the product matters. -/
theorem allocate_enough_iff (cfg : ManagerConfig)
    (hcfg : cfg.getMaxSmallAllocBytes ≤ cfg.getSingleSmallAllocBytes) (sizeofT n : ℕ)
    (hn : 0 < n) (t : ThreadId) (mmap : ℕ → Option ℕ) :
    (∀ w : World, w.RegionsMapped cfg → MmapFresh cfg w.mapped mmap →
      (w.AllocatesEnough cfg mmap t sizeofT n ↔
        ∀ x, w.current t = some x → w.Grants cfg mmap t x sizeofT (sizeofT * n % 2 ^ 64) →
          sizeofT * n < 2 ^ 64 ∧ (w.subs x).ServesInside cfg (sizeofT * n))) ∧
    ∀ start st : SessionState, start.Initial →
      Relation.ReflTransGen (SessionStep cfg (BooksKept cfg)) start st →
      MmapFresh cfg st.world.mapped mmap →
      (st.world.AllocatesEnough cfg mmap t sizeofT n ↔
        ∀ x, st.world.current t = some x →
          st.world.Grants cfg mmap t x sizeofT (sizeofT * n % 2 ^ 64) → sizeofT * n < 2 ^ 64) := by
  refine ⟨fun w hmapped hfresh => hmapped.allocatesEnough_iff hcfg hfresh hn.ne', ?_⟩
  intro start st hstart hrun hfresh
  have howned : st.Owned cfg := by
    clear hfresh
    induction hrun with
    | refl => exact hstart.owned
    | tail _ hstep ih => exact hstep.owned ih
  rw [howned.regionsMapped.allocatesEnough_iff hcfg hfresh hn.ne']
  constructor
  · intro h x hcur hgrants
    exact (h x hcur hgrants).1
  · intro h x hcur hgrants
    exact ⟨h x hcur hgrants, howned.servesInside x _⟩

/-- A session with the default sub-session current on thread 0. -/
def begunSession (ramLimitBytes totalLimitBytes : ℕ) : SessionState :=
  (blankSession ramLimitBytes totalLimitBytes).after onePageArenas [.call (.subBegin 0 0)]

theorem begunSession_reached {ramLimitBytes totalLimitBytes : ℕ} :
    Relation.ReflTransGen (SessionStep onePageArenas (BooksKept onePageArenas))
      (blankSession ramLimitBytes totalLimitBytes) (begunSession ramLimitBytes totalLimitBytes) :=
  SessionState.Performs.run [.call (.subBegin 0 0)] ⟨trivial, rfl, trivial⟩

/-- `2 ^ 61 + 1` elements of 8 bytes: the product wraps to 8 bytes, which are allocated. -/
theorem allocate_wraps :
    ∃ start st : SessionState, start.Initial ∧
      Relation.ReflTransGen (SessionStep onePageArenas (BooksKept onePageArenas)) start st ∧
      MmapFresh onePageArenas st.world.mapped (mmapAt 4096 65536) ∧
      (∃ w', st.world.allocatorAllocate onePageArenas (mmapAt 4096 65536) 0 8 (2 ^ 61 + 1) =
          .ok (65536, w') ∧
        (w'.subs 0).smallAllocs.entries = [(65536, 8)] ∧
        (w'.subs 0).allocs.entries = [(65536, 4096)]) ∧
      ¬ st.world.AllocatesEnough onePageArenas (mmapAt 4096 65536) 0 8 (2 ^ 61 + 1) := by
  refine ⟨_, begunSession (2 ^ 30) (2 ^ 30), blankSession_initial (by norm_num) (by norm_num),
    begunSession_reached, mmapAt_fresh ⟨?_, ?_, ?_, ?_⟩, ⟨_, rfl, by decide, by decide⟩, ?_⟩
  case refine_5 =>
    intro henough
    obtain ⟨x, hx, -, r, hr, hin, -⟩ := henough _ _ rfl
    obtain rfl : 0 = x := Option.some.inj hx
    obtain rfl : r = (65536, 4096) := List.mem_singleton.mp hr
    have hstop := hin.2
    revert hstop
    decide
  all_goals decide

/-- One element of 8 bytes. -/
theorem allocate_enough_iff_oneElement :
    (begunSession (2 ^ 30) (2 ^ 30)).world.AllocatesEnough onePageArenas (mmapAt 4096 65536) 0 8 1 := by
  refine ((allocate_enough_iff onePageArenas (by decide) 8 1 (by decide) 0 _).2 _ _
    (blankSession_initial (by norm_num) (by norm_num)) begunSession_reached
    (mmapAt_fresh ⟨?_, ?_, ?_, ?_⟩)).mpr fun _ _ _ => ?_
  all_goals decide

namespace World

/-- `allocator<T>::max_size`.  The second half of the guard compares the total limit with
itself, as the source does. -/
def allocatorMaxSize (w : World) (t : ThreadId) (sizeofT : ℕ) : Except Failure ℕ :=
  match w.current t with
  | none => .error .assertion
  | some _ => do
      dAssert (w.session.ramLimitBytes ≤ stdMaxSize sizeofT)
      dAssert (w.session.totalLimitBytes ≤ stdMaxSize sizeofT)
      if w.session.ramAllocatedBytes ≤ w.session.ramLimitBytes ∧
          w.session.totalLimitBytes ≤ w.session.totalLimitBytes then
        let maxBytes := subWrap 64 w.session.ramLimitBytes w.session.ramAllocatedBytes
        let maxTotalBytes := subWrap 64 w.session.totalLimitBytes w.session.totalAllocatedBytes
        return if maxTotalBytes < maxBytes then maxTotalBytes else maxBytes
      else
        return 0

/-- The subtractions of a call of `max_size` that returns, as minuend and subtrahend. -/
def maxSizeSubtractions (w : World) : List (ℕ × ℕ) :=
  if w.session.ramAllocatedBytes ≤ w.session.ramLimitBytes ∧
      w.session.totalLimitBytes ≤ w.session.totalLimitBytes then
    [(w.session.ramLimitBytes, w.session.ramAllocatedBytes),
      (w.session.totalLimitBytes, w.session.totalAllocatedBytes)]
  else
    []

/-- What `max_size` promises: as many elements as it answers fit under the limits of the
session, and it computes the answer without wrapping around. -/
structure MaxSizeAgrees (cfg : ManagerConfig) (w : World) (t : ThreadId) (sizeofT : ℕ) : Prop where
  fits : ∀ m, w.allocatorMaxSize t sizeofT = .ok m → ∀ mmap n, 1 ≤ n → n ≤ m →
    w.allocatorAllocate cfg mmap t sizeofT n ≠ .error .outOfSessionRamMemory ∧
      w.allocatorAllocate cfg mmap t sizeofT n ≠ .error .outOfSessionTotalMemory
  noWrap : ∀ m, w.allocatorMaxSize t sizeofT = .ok m →
    ∀ s ∈ w.maxSizeSubtractions, s.2 ≤ s.1

/-- The limits are too large for the assertions, the RAM is above its limit, or the total is not
and the answer is in elements of one byte or zero. -/
def MaxSizeRight (w : World) (sizeofT : ℕ) : Prop :=
  stdMaxSize sizeofT < w.session.ramLimitBytes ∨ stdMaxSize sizeofT < w.session.totalLimitBytes ∨
  w.session.ramLimitBytes < w.session.ramAllocatedBytes ∨
  w.session.totalAllocatedBytes ≤ w.session.totalLimitBytes ∧
    (sizeofT = 1 ∨ w.session.ramAllocatedBytes = w.session.ramLimitBytes ∨
      w.session.totalAllocatedBytes = w.session.totalLimitBytes)

end World

section MaxSize

variable {cfg : ManagerConfig} {w : World} {mmap : ℕ → Option ℕ} {t : ThreadId} {x : SubSessionId}
  {c : Scope} {sizeofT n : ℕ}

/-- `memory_sub_session::allocate` throws nothing but `bad_alloc`. -/
theorem Scope.allocate_error {e : Failure} (h : c.allocate cfg mmap n = .error e) :
    e = .badAlloc := by
  unfold Scope.allocate Scope.map at h
  dsimp only at h
  split_ifs at h
  · cases hmap : mmap (cfg.pageAligned n) with
    | none =>
        simp only [hmap, error_bind, Except.error.injEq] at h
        exact h.symm
    | some p => simp [hmap, pure, Except.pure] at h
  · cases hmap : mmap cfg.getSingleSmallAllocBytes with
    | none =>
        simp only [hmap, error_bind, Except.error.injEq] at h
        exact h.symm
    | some p => simp [hmap, pure, Except.pure] at h

/-- An unfrozen thread gets neither exception of the session exactly when both checks pass. -/
theorem World.limits_pass_iff (hn : n ≠ 0) (hcur : w.current t = some x)
    (hfrozen : (w.subs x).frozen t = some false)
    (hram : w.session.ramLimitBytes ≤ stdMaxSize sizeofT)
    (htotal : w.session.totalLimitBytes ≤ stdMaxSize sizeofT) :
    (w.allocatorAllocate cfg mmap t sizeofT n ≠ .error .outOfSessionRamMemory ∧
      w.allocatorAllocate cfg mmap t sizeofT n ≠ .error .outOfSessionTotalMemory) ↔
    addWrap 64 w.session.ramAllocatedBytes (sizeofT * n % 2 ^ 64) ≤ w.session.ramLimitBytes ∧
      addWrap 64 w.session.totalAllocatedBytes (sizeofT * n % 2 ^ 64)
        ≤ w.session.totalLimitBytes := by
  simp only [World.allocatorAllocate, if_neg hn, hcur, dAssert_of hfrozen, dAssert_of hram,
    dAssert_of htotal, ok_bind]
  split_ifs with hramOver htotalOver
  · exact iff_of_false (fun h => h.1 rfl) fun h => absurd h.1 (not_le.mpr hramOver)
  · exact iff_of_false (fun h => h.2 rfl) fun h => absurd h.2 (not_le.mpr htotalOver)
  · refine iff_of_true ?_ ⟨not_lt.mp hramOver, not_lt.mp htotalOver⟩
    cases halloc : (w.scope x).allocate cfg mmap (sizeofT * n % 2 ^ 64) with
    | error e =>
        obtain rfl := Scope.allocate_error halloc
        simp
    | ok res => simp [pure, Except.pure]

/-- Elements that fit under a limit as bytes do not make the sum of the check wrap around. -/
theorem addWrap_elements {limit allocated : ℕ} (hsize : 1 ≤ sizeofT)
    (hmax : limit ≤ World.stdMaxSize sizeofT) (hle : allocated ≤ limit)
    (hn : n ≤ limit - allocated) :
    addWrap 64 allocated (sizeofT * n % 2 ^ 64) = allocated + sizeofT * n := by
  have hlimit : sizeofT * limit ≤ 2 ^ 64 - 1 :=
    (Nat.mul_le_mul_left sizeofT hmax).trans (Nat.mul_div_le _ _)
  have hsum : allocated + sizeofT * n ≤ sizeofT * limit := by
    calc allocated + sizeofT * n ≤ sizeofT * allocated + sizeofT * n :=
          Nat.add_le_add_right (Nat.le_mul_of_pos_left allocated hsize) _
      _ = sizeofT * (allocated + n) := (Nat.mul_add _ _ _).symm
      _ ≤ sizeofT * limit := Nat.mul_le_mul_left sizeofT (by omega)
  rw [Nat.mod_eq_of_lt (by omega), addWrap_of_lt (by omega)]

/-- The answer of `max_size` where its assertions hold. -/
theorem World.allocatorMaxSize_eq (hcur : w.current t = some x)
    (hram : w.session.ramLimitBytes ≤ stdMaxSize sizeofT)
    (htotal : w.session.totalLimitBytes ≤ stdMaxSize sizeofT) :
    w.allocatorMaxSize t sizeofT = .ok
      (if w.session.ramAllocatedBytes ≤ w.session.ramLimitBytes then
        min (subWrap 64 w.session.ramLimitBytes w.session.ramAllocatedBytes)
          (subWrap 64 w.session.totalLimitBytes w.session.totalAllocatedBytes)
      else 0) := by
  simp only [World.allocatorMaxSize, hcur, dAssert_of hram, dAssert_of htotal, ok_bind, le_refl,
    and_true]
  split_ifs with hguard hless
  · rw [min_eq_right hless.le]
    rfl
  · rw [min_eq_left (not_lt.mp hless)]
    rfl
  · rfl

/-- A call of `max_size` that answers passed its assertions. -/
theorem World.allocatorMaxSize_ok {m : ℕ} (h : w.allocatorMaxSize t sizeofT = .ok m) :
    w.session.ramLimitBytes ≤ stdMaxSize sizeofT ∧
      w.session.totalLimitBytes ≤ stdMaxSize sizeofT := by
  unfold World.allocatorMaxSize at h
  split at h
  · cases h
  · obtain ⟨hram, h⟩ := dAssert_bind_ok h
    obtain ⟨htotal, -⟩ := dAssert_bind_ok h
    exact ⟨hram, htotal⟩

/-- Where no counter is above its limit the answer is the room in bytes, which is right in
elements of one byte or where there is none. -/
theorem World.fits_iff (hsize : 1 ≤ sizeofT) (hcur : w.current t = some x)
    (hfrozen : (w.subs x).frozen t = some false)
    (hram : w.session.ramLimitBytes ≤ stdMaxSize sizeofT)
    (htotal : w.session.totalLimitBytes ≤ stdMaxSize sizeofT)
    (hramLe : w.session.ramAllocatedBytes ≤ w.session.ramLimitBytes)
    (htotalLe : w.session.totalAllocatedBytes ≤ w.session.totalLimitBytes) :
    (∀ mmap n, 1 ≤ n →
      n ≤ min (w.session.ramLimitBytes - w.session.ramAllocatedBytes)
        (w.session.totalLimitBytes - w.session.totalAllocatedBytes) →
      w.allocatorAllocate cfg mmap t sizeofT n ≠ .error .outOfSessionRamMemory ∧
        w.allocatorAllocate cfg mmap t sizeofT n ≠ .error .outOfSessionTotalMemory) ↔
    sizeofT = 1 ∨ w.session.ramAllocatedBytes = w.session.ramLimitBytes ∨
      w.session.totalAllocatedBytes = w.session.totalLimitBytes := by
  set room := min (w.session.ramLimitBytes - w.session.ramAllocatedBytes)
    (w.session.totalLimitBytes - w.session.totalAllocatedBytes) with hroom
  have hpass : ∀ (mmap : ℕ → Option ℕ) (n : ℕ), 1 ≤ n → n ≤ room →
      ((w.allocatorAllocate cfg mmap t sizeofT n ≠ .error .outOfSessionRamMemory ∧
        w.allocatorAllocate cfg mmap t sizeofT n ≠ .error .outOfSessionTotalMemory) ↔
      sizeofT * n ≤ room) := by
    intro mmap n hn hle
    rw [World.limits_pass_iff (by omega) hcur hfrozen hram htotal,
      addWrap_elements hsize hram hramLe (by omega), addWrap_elements hsize htotal htotalLe (by omega)]
    omega
  constructor
  · intro h
    by_contra hnot
    push Not at hnot
    have hpos : 1 ≤ room := by omega
    have hle := (hpass (fun _ => none) room hpos le_rfl).mp (h _ room hpos le_rfl)
    have htwice : 2 * room ≤ sizeofT * room := Nat.mul_le_mul_right room (by omega)
    omega
  · rintro hone mmap n hn hle
    rw [hpass mmap n hn hle]
    rcases hone with rfl | hfull
    · omega
    · omega

end MaxSize

/-- **When `max_size` agrees with `allocate`.**  On an unfrozen thread, every number of elements
up to the answer of `max_size` passes the limits of the session, and the answer is computed
without wrapping around, if and only if `MaxSizeRight`. -/
theorem maxSize_agrees_iff (cfg : ManagerConfig) (w : World) (t : ThreadId) (x : SubSessionId)
    (sizeofT : ℕ) (hsize : 1 ≤ sizeofT) (hcur : w.current t = some x)
    (hfrozen : (w.subs x).frozen t = some false) :
    w.MaxSizeAgrees cfg t sizeofT ↔ w.MaxSizeRight sizeofT := by
  by_cases hmax : w.session.ramLimitBytes ≤ World.stdMaxSize sizeofT ∧
      w.session.totalLimitBytes ≤ World.stdMaxSize sizeofT
  · obtain ⟨hram, htotal⟩ := hmax
    have hanswer := World.allocatorMaxSize_eq hcur hram htotal
    unfold World.MaxSizeRight
    rw [or_iff_right (not_lt.mpr hram), or_iff_right (not_lt.mpr htotal)]
    by_cases hguard : w.session.ramAllocatedBytes ≤ w.session.ramLimitBytes
    · rw [if_pos hguard] at hanswer
      rw [or_iff_right (not_lt.mpr hguard)]
      have hsubtractions : (∀ s ∈ w.maxSizeSubtractions, s.2 ≤ s.1) ↔
          w.session.totalAllocatedBytes ≤ w.session.totalLimitBytes := by
        simp [World.maxSizeSubtractions, hguard]
      by_cases htotalLe : w.session.totalAllocatedBytes ≤ w.session.totalLimitBytes
      · have hsmall : World.stdMaxSize sizeofT < 2 ^ 64 :=
          lt_of_le_of_lt (Nat.div_le_self _ _) (by norm_num)
        rw [subWrap_of_le hguard (by omega), subWrap_of_le htotalLe (by omega)] at hanswer
        rw [and_iff_right htotalLe,
          ← World.fits_iff hsize hcur hfrozen hram htotal hguard htotalLe]
        constructor
        · intro h
          exact h.fits _ hanswer
        · intro h
          refine ⟨fun m hm => ?_, fun m hm => hsubtractions.mpr htotalLe⟩
          obtain rfl := Except.ok.inj (hanswer.symm.trans hm)
          exact h
      · exact iff_of_false (fun h => htotalLe (hsubtractions.mp (h.noWrap _ hanswer)))
          fun h => htotalLe h.1
    · -- The RAM is above its limit: the answer is zero.
      rw [if_neg hguard] at hanswer
      refine iff_of_true ⟨fun m hm mmap n hn hle => ?_, fun m hm s hs => ?_⟩
        (Or.inl (not_le.mp hguard))
      · obtain rfl := Except.ok.inj (hanswer.symm.trans hm)
        omega
      · simp [World.maxSizeSubtractions, hguard] at hs
  · -- A failed assertion: there is no answer.
    refine iff_of_true ⟨fun m hm => absurd (World.allocatorMaxSize_ok hm) hmax,
      fun m hm => absurd (World.allocatorMaxSize_ok hm) hmax⟩ ?_
    unfold World.MaxSizeRight
    omega

/-- A first small block, whose arena is one page. -/
def arenaOverTotal : List SessionOp :=
  [.call (.subBegin 0 0), .allocate (mmapAt 4096 65536) 0 1 100]

/-- Fresh limits of 16 bytes: `max_size` of a type of 4 bytes is 16, and `allocate(16)`
throws.  A total limit of 100 bytes below a first arena of one page: the second subtraction wraps
around, and `allocate(1)` throws. -/
theorem maxSize_disagrees :
    (∃ start st : SessionState, start.Initial ∧
      Relation.ReflTransGen (SessionStep onePageArenas (BooksKept onePageArenas)) start st ∧
      st.world.allocatorMaxSize 0 4 = .ok 16 ∧
      st.world.allocatorAllocate onePageArenas (mmapAt 4096 65536) 0 4 16 =
        .error .outOfSessionRamMemory ∧
      ¬ st.world.MaxSizeAgrees onePageArenas 0 4) ∧
    ∃ start st : SessionState, start.Initial ∧
      Relation.ReflTransGen (SessionStep onePageArenas (BooksKept onePageArenas)) start st ∧
      st.world.session.totalLimitBytes = 100 ∧ st.world.session.totalAllocatedBytes = 4096 ∧
      st.world.allocatorMaxSize 0 1 = .ok 5904 ∧
      st.world.allocatorAllocate onePageArenas (mmapAt 4096 65536) 0 1 1 =
        .error .outOfSessionTotalMemory ∧
      ¬ st.world.MaxSizeAgrees onePageArenas 0 1 := by
  constructor
  · refine ⟨_, begunSession 16 16, blankSession_initial (by norm_num) (by norm_num),
      begunSession_reached, rfl, rfl, fun h => ?_⟩
    exact (h.fits 16 rfl (mmapAt 4096 65536) 16 (by decide) le_rfl).1 rfl
  · refine ⟨blankSession 10000 100, _, blankSession_initial (by norm_num) (by norm_num),
      SessionState.Performs.run arenaOverTotal ?_, rfl, rfl, rfl, rfl, fun h => ?_⟩
    · refine ⟨trivial, by decide, ⟨mmapAt_fresh ⟨?_, ?_, ?_, ?_⟩, mmapAt_ne_null (by decide), ?_⟩,
        by decide, trivial⟩
      all_goals decide
    · exact (h.fits 5904 rfl (mmapAt 4096 65536) 1 le_rfl (by decide)).2 rfl

/-- Elements of one byte on a session with nothing allocated. -/
theorem maxSize_agrees_iff_bytes :
    (begunSession 4096 4096).world.MaxSizeAgrees onePageArenas 0 1 :=
  (maxSize_agrees_iff onePageArenas (begunSession 4096 4096).world 0 0 1 le_rfl rfl rfl).mpr
    (Or.inr (Or.inr (Or.inr ⟨Nat.zero_le _, Or.inl rfl⟩)))

end MemoryManager
end CoherentDB
