import CoherentDB.MemoryManager.FreezeCalls
import CoherentDB.MemoryManager.Ownership

/-!
# The session's map of regions

`memory_session::allocs` names the sub-session of every region of the session.
`add_alloc` enters a region; `remove_alloc` ends with the same `insert` where an `erase`
belongs, and `std::map::insert` leaves an entry alone that is there already.  So an
entry is never removed and never changed.

The map is exact as long as no region goes back to the kernel, whatever fresh regions
`mmap` answers with, and the first call that gives one back makes it wrong
(`regionMap_exact`).
-/

namespace CoherentDB
namespace MemoryManager

open Debug Containers MachineInt ArenaLayout Runs

/-- The map names for every recorded region the sub-session that has it, and nothing else. -/
def World.RegionMapExact (w : World) : Prop :=
  ∀ p x, (p, x) ∈ w.session.allocs ↔ ∃ bytes, (p, bytes) ∈ (w.subs x).allocs

/-- The regions that `mmap` answers with during the call are free; an address that was
unmapped before may come again. -/
def FreshAnswers (cfg : ManagerConfig) (w : World) : MemoryCall → Prop
  | .allocate mmap _ _ _ => MmapFresh cfg w.mapped mmap
  | _ => True

/-- The call gives no region back to the kernel. -/
def KeepsRegions (w : World) : MemoryCall → Prop
  | .deallocate t sizeofT p n =>
      n ≠ 0 → p ≠ 0 → ∀ x, w.current t = some x →
        ¬ (w.subs x).FreesRegion (p, sizeofT * n % 2 ^ 64)
  | _ => True

/-- The invariant of the runs that give no region back: the map is exact, the recorded regions
are mapped, and only the sub-sessions of the session are in use. -/
structure World.RegionsEntered (cfg : ManagerConfig) (w : World) : Prop where
  exact : w.RegionMapExact
  mapped : ∀ x, ∀ r ∈ (w.subs x).allocs, 0 < r.2 ∧ cfg.pages r.1 r.2 ⊆ w.mapped
  unused : ∀ x, x ∉ w.session.subSessions → ∀ r, r ∉ (w.subs x).allocs
  default : w.session.defaultSubSession ∈ w.session.subSessions
  current : ∀ t x, w.current t = some x → x ∈ w.session.subSessions

section Steps

variable {cfg : ManagerConfig} {w w' : World} {t : ThreadId} {x : SubSessionId} {c : Scope}

/-- A fresh region starts where no recorded one does. -/
theorem World.RegionsEntered.start_ne (h : w.RegionsEntered cfg) {p bytes : ℕ}
    (hfresh : Fresh cfg w.mapped p bytes) {r : Block} (hr : r ∈ (w.subs x).allocs) : r.1 ≠ p :=
  hfresh.start_ne (h.mapped x r hr).1 (h.mapped x r hr).2

/-- A call that keeps the recorded regions. -/
theorem World.RegionsEntered.of_same (h : w.RegionsEntered cfg)
    (hmap : w'.session.allocs = w.session.allocs)
    (hallocs : ∀ x, (w'.subs x).allocs = (w.subs x).allocs) (hmapped : w'.mapped = w.mapped)
    (hsubs : w.session.subSessions ⊆ w'.session.subSessions)
    (hdefault : w'.session.defaultSubSession = w.session.defaultSubSession)
    (hcurrent : ∀ t x, w'.current t = some x → x ∈ w'.session.subSessions) :
    w'.RegionsEntered cfg := by
  refine ⟨fun p x => ?_, fun x r hr => ?_, fun x hx r hr => ?_, ?_, hcurrent⟩
  · rw [hmap, hallocs]
    exact h.exact p x
  · rw [hallocs] at hr
    rw [hmapped]
    exact h.mapped x r hr
  · rw [hallocs] at hr
    exact h.unused x (fun hmem => hx (hsubs hmem)) r hr
  · rw [hdefault]
    exact hsubs h.default

theorem World.RegionsEntered.reflags (h : w.RegionsEntered cfg) (hreflags : w.Reflags t x w') :
    w'.RegionsEntered cfg := by
  obtain ⟨hmapped, hbooks⟩ := hreflags.sameBooks
  cases hreflags with
  | same => exact h
  | flip hflag ram =>
      exact h.of_same rfl (fun y => (hbooks y).allocs) hmapped subset_rfl rfl h.current

/-- `begin` makes a sub-session of the session the current one. -/
theorem World.RegionsEntered.subBegin (h : w.RegionsEntered cfg) (t : ThreadId)
    (hx : x ∈ w.session.subSessions) : (w.subBegin t x).RegionsEntered cfg := by
  obtain ⟨hmapped, hbooks⟩ := w.sameBooks_subBegin t x
  have hsession : (w.subBegin t x).session = w.session := World.subBegin_session
  refine h.of_same (by rw [hsession]) (fun y => (hbooks y).allocs) hmapped (by rw [hsession])
    (by rw [hsession]) fun t' y hy => ?_
  rw [hsession]
  rw [World.subBegin_current] at hy
  rcases eq_or_ne t' t with rfl | hne
  · rw [Function.update_self] at hy
    exact Option.some.inj hy ▸ hx
  · rw [Function.update_of_ne hne] at hy
    exact h.current t' y hy

/-- `add_alloc` enters a fresh region on both sides. -/
theorem World.RegionsEntered.added (h : w.RegionsEntered cfg) (hx : w.current t = some x)
    {p bytes : ℕ} (hfresh : Fresh cfg w.mapped p bytes)
    (hadded : Scope.Added cfg (w.scope x) c p bytes) : (w.put c).RegionsEntered cfg := by
  have hself : (w.put c).subs x = c.self := World.put_self hadded.this
  have hother : ∀ y, y ≠ x → (w.put c).subs y = w.subs y := fun y => World.put_other hadded.this
  have hmem : ∀ r, r ∈ c.self.allocs ↔ r = (p, bytes) ∨ r ∈ (w.subs x).allocs := by
    intro r
    rw [hadded.allocs]
    exact OrderedTable.mem_insert_of_fresh fun y hy => h.start_ne hfresh hy
  have hentered : ∀ e, e ∈ (w.put c).session.allocs ↔ e = (p, x) ∨ e ∈ w.session.allocs := by
    intro e
    rw [World.put, hadded.parent]
    refine OrderedTable.mem_insert_of_fresh fun y hy => ?_
    obtain ⟨bytes', hy'⟩ := (h.exact y.1 y.2).mp hy
    exact h.start_ne (r := (y.1, bytes')) hfresh hy'
  have hsubs : (w.put c).session.subSessions = w.session.subSessions := by
    rw [World.put, hadded.parent]
    rfl
  refine ⟨fun q y => ?_, fun y r hr => ?_, fun y hy r hr => ?_, ?_, fun t' y hy => ?_⟩
  · rw [hentered, h.exact]
    rcases eq_or_ne y x with rfl | hne
    · rw [hself]
      simp only [hmem, Prod.mk.injEq, and_true, exists_or, exists_and_left, exists_eq]
    · rw [hother y hne]
      simp [hne]
  · rw [World.put, hadded.mapped]
    rcases eq_or_ne y x with rfl | hne
    · rw [hself, hmem] at hr
      rcases hr with rfl | hr
      · exact ⟨hfresh.nonempty, Finset.subset_union_right⟩
      · obtain ⟨hpos, hsub⟩ := h.mapped y r hr
        exact ⟨hpos, hsub.trans Finset.subset_union_left⟩
    · rw [hother y hne] at hr
      obtain ⟨hpos, hsub⟩ := h.mapped y r hr
      exact ⟨hpos, hsub.trans Finset.subset_union_left⟩
  · rw [hsubs] at hy
    rcases eq_or_ne y x with rfl | hne
    · exact hy (h.current t y hx)
    · rw [hother y hne] at hr
      exact h.unused y hy r hr
  · rw [hsubs, World.put, hadded.parent]
    exact h.default
  · rw [hsubs]
    exact h.current t' y hy

/-- A call of the allocator that keeps the regions. -/
theorem World.RegionsEntered.kept (h : w.RegionsEntered cfg) (hkept : Scope.Kept (w.scope x) c) :
    (w.put c).RegionsEntered cfg := by
  have hsession : (w.put c).session = w.session := hkept.parent
  refine h.of_same (by rw [hsession]) ?_ hkept.mapped (by rw [hsession]) (by rw [hsession]) ?_
  · refine World.forall_put (fun y s => s.allocs = (w.subs y).allocs) hkept.this hkept.allocs ?_
    exact fun y _ => rfl
  · rw [hsession]
    exact h.current

/-- **The entry of a region outlives the region.** -/
theorem World.RegionMapExact.dropped (h : w.RegionMapExact) {r : Block} {pages : Finset ℕ}
    (hdropped : Scope.Dropped (w.scope x) c r pages) : ¬ (w.put c).RegionMapExact := by
  intro hexact
  have hentry : (r.1, x) ∈ w.session.allocs := (h r.1 x).mpr ⟨r.2, hdropped.recorded⟩
  have hstill : (r.1, x) ∈ (w.put c).session.allocs := by
    rw [World.put, hdropped.parent]
    exact OrderedTable.subset_insertEntry hentry
  have hself : (w.put c).subs x = c.self := World.put_self hdropped.this
  obtain ⟨bytes, hmem⟩ := (hexact r.1 x).mp hstill
  rw [hself, hdropped.allocs] at hmem
  exact (OrderedTable.mem_erase.mp hmem).2 rfl

/-- **One call keeps the map exact** if and only if it gives no region back. -/
theorem World.RegionsEntered.perform (h : w.RegionsEntered cfg) {f : MemoryCall}
    (hfresh : FreshAnswers cfg w f) (hstep : w.perform cfg f = some w') :
    (KeepsRegions w f → w'.RegionsEntered cfg) ∧ (w'.RegionMapExact → KeepsRegions w f) := by
  cases f with
  | subConstruct x =>
      refine ⟨fun _ => ?_, fun _ => trivial⟩
      simp only [World.perform] at hstep
      split_ifs at hstep with hx
      cases hstep
      refine h.of_same rfl (fun y => ?_) rfl (Finset.subset_insert _ _) rfl ?_
      · rcases eq_or_ne y x with rfl | hne
        · dsimp only
          rw [Function.update_self]
          exact (OrderedTable.eq_empty (h.unused y hx)).symm
        · dsimp only
          rw [Function.update_of_ne hne]
      · intro t y hy
        exact Finset.mem_insert_of_mem (h.current t y hy)
  | subBegin t x =>
      refine ⟨fun _ => ?_, fun _ => trivial⟩
      simp only [World.perform] at hstep
      split_ifs at hstep with hx
      cases hstep
      exact h.subBegin t hx
  | subFreeze t x =>
      refine ⟨fun _ => ?_, fun _ => trivial⟩
      simp only [World.perform] at hstep
      split_ifs at hstep
      exact h.reflags (World.subFreeze_reflags (toOption_eq_some.mp hstep))
  | subUnfreeze t x =>
      refine ⟨fun _ => ?_, fun _ => trivial⟩
      simp only [World.perform] at hstep
      split_ifs at hstep
      obtain ⟨answer, hok⟩ := map_snd_eq_ok.mp (toOption_eq_some.mp hstep)
      exact h.reflags (World.subUnfreeze_reflags hok)
  | allocate mmap t sizeofT n =>
      refine ⟨fun _ => ?_, fun _ => trivial⟩
      obtain ⟨p, hok⟩ := map_snd_eq_ok.mp (toOption_eq_some.mp hstep)
      obtain rfl | ⟨x, c, ⟨hcur, -⟩, halloc, rfl⟩ := World.allocatorAllocate_inv hok
      · exact h
      · rcases Scope.allocate_effect halloc with ⟨-, hkept⟩ | ⟨bytes, -, hmap, hadded⟩
        · exact h.kept hkept
        · exact h.added hcur (hfresh bytes p hmap) hadded
  | deallocate t sizeofT p n =>
      have hlt : sizeofT * n % 2 ^ 64 < 2 ^ 64 := Nat.mod_lt _ (Nat.two_pow_pos 64)
      have hok := toOption_eq_some.mp hstep
      by_cases hnull : n = 0 ∨ p = 0
      · rw [World.allocatorDeallocate, if_pos hnull] at hok
        cases hok
        refine ⟨fun _ => h, fun _ hn hp => ?_⟩
        exact absurd hnull (not_or.mpr ⟨hn, hp⟩)
      · obtain ⟨hn, hp⟩ := not_or.mp hnull
        obtain ⟨x, c, hcur, hfree, rfl⟩ := World.allocatorDeallocate_ok hn hp hok
        rcases Scope.deallocate_effect hfree with ⟨hfrees, hkept⟩ | ⟨hfrees, r, pages, hdropped⟩
        · refine ⟨fun _ => h.kept hkept, fun _ _ _ y hy => ?_⟩
          obtain rfl := Option.some.inj (hcur.symm.trans hy)
          exact hfrees hlt
        · refine ⟨fun hkeeps => ?_, fun hexact => absurd hexact (h.exact.dropped hdropped)⟩
          exact absurd (hfrees hlt) (hkeeps hn hp x hcur)

/-- A new session has no regions. -/
theorem SessionStart.construct_regionsEntered (start : SessionStart) :
    start.construct.RegionsEntered cfg := by
  have hworld : start.world.RegionsEntered cfg := by
    refine ⟨fun p x => ?_, fun x r hr => ?_, fun x _ r hr => ?_, ?_, fun t x hx => ?_⟩
    · simp [SessionStart.world, MemorySubSession.initial]
    · simp [SessionStart.world, MemorySubSession.initial] at hr
    · simp [SessionStart.world, MemorySubSession.initial] at hr
    · simp [SessionStart.world]
    · cases hx
  unfold SessionStart.construct
  cases start.autostart with
  | none => exact hworld
  | some t =>
      have hbegun : World.RegionsEntered cfg { start.world with
          session := { start.world.session with
            frozen := Function.update start.world.session.frozen t (some false)
            unfrozenThreadsCount := 1 } } :=
        hworld.of_same rfl (fun _ => rfl) rfl subset_rfl rfl hworld.current
      exact hbegun.subBegin t hworld.default

end Steps

/-- **The session's map of regions.**  In every run of calls that give no region back, with
any sub-sessions and any fresh answers of `mmap`, the map is exact; and a call that comes
next leaves it exact if and only if it gives no region back either. -/
theorem regionMap_exact (cfg : ManagerConfig) (start : SessionStart) {calls : List MemoryCall}
    {w : World}
    (hrun : Run (World.perform cfg) (fun w f => FreshAnswers cfg w f ∧ KeepsRegions w f)
      start.construct calls w) :
    w.RegionMapExact ∧ ∀ f w', FreshAnswers cfg w f → w.perform cfg f = some w' →
      (w'.RegionMapExact ↔ KeepsRegions w f) := by
  have hentered : w.RegionsEntered cfg := by
    refine hrun.invariant (P := fun _ w => w.RegionsEntered cfg)
      start.construct_regionsEntered ?_
    intro _ w w' f h hallowed hstep
    exact (h.perform hallowed.1 hstep).1 hallowed.2
  refine ⟨hentered.exact, fun f w' hfresh hstep => ?_⟩
  obtain ⟨hkeeps, hexact⟩ := hentered.perform hfresh hstep
  exact ⟨hexact, fun hallowed => (hkeeps hallowed).exact⟩

/-- The default sub-session allocates a page and gives it back, and the kernel hands the same
address to another sub-session. -/
def recycledPage : List MemoryCall :=
  [.subConstruct 1, .allocate (mmapAt 8192 65536) 0 1 8192, .deallocate 0 1 65536 8192,
    .subBegin 0 1, .allocate (mmapAt 8192 65536) 0 1 8192]

/-- The map still names the default sub-session for the region of the other one. -/
theorem regionMap_names_former_owner :
    ∃ calls w, Run (World.perform onePageArenas) (FreshAnswers onePageArenas)
        (SessionStart.construct ⟨2 ^ 30, 2 ^ 30, some 0⟩) calls w ∧
      (65536, 8192) ∈ (w.subs 1).allocs ∧ (65536, 0) ∈ w.session.allocs ∧
      ¬ w.RegionMapExact := by
  have hfollows : ∃ w, Follows (World.perform onePageArenas) (FreshAnswers onePageArenas)
        (SessionStart.construct ⟨2 ^ 30, 2 ^ 30, some 0⟩) recycledPage w ∧
      (65536, 8192) ∈ (w.subs 1).allocs ∧ (65536, 0) ∈ w.session.allocs ∧
      ∀ bytes, (65536, bytes) ∉ (w.subs 0).allocs := by
    refine ⟨_, ⟨trivial, _, rfl, mmapAt_fresh ⟨?_, ?_, ?_, ?_⟩, _, rfl, trivial, _, rfl, trivial, _,
      rfl, mmapAt_fresh ⟨?_, ?_, ?_, ?_⟩, _, rfl, rfl⟩, ?_⟩
    · decide
    · decide
    · decide
    · decide
    · decide
    · decide
    · decide
    · decide
    · exact ⟨by decide, by decide, fun bytes hmem => by cases hmem⟩
  obtain ⟨w, hfollows, howner, hentry, hformer⟩ := hfollows
  refine ⟨_, w, Run.start.follows recycledPage hfollows, howner, hentry, fun hexact => ?_⟩
  obtain ⟨bytes, hmem⟩ := (hexact 65536 0).mp hentry
  exact hformer bytes hmem

/-- Up to the first call that gives the page back the map is exact, and then no longer. -/
theorem regionMap_exact_recycledPage :
    ∃ w w' : World, w.RegionMapExact ∧
      w.perform onePageArenas (.deallocate 0 1 65536 8192) = some w' ∧ ¬ w'.RegionMapExact := by
  have hfollows : ∃ w, Follows (World.perform onePageArenas)
        (fun w f => FreshAnswers onePageArenas w f ∧ KeepsRegions w f)
        (SessionStart.construct ⟨2 ^ 30, 2 ^ 30, some 0⟩) (recycledPage.take 2) w ∧
      w.current 0 = some 0 ∧ (w.subs 0).isSmallAlloc 65536 = false ∧
      ∃ w', w.perform onePageArenas (.deallocate 0 1 65536 8192) = some w' := by
    refine ⟨_, ⟨⟨trivial, trivial⟩, _, rfl, ⟨mmapAt_fresh ⟨?_, ?_, ?_, ?_⟩, trivial⟩, _, rfl, rfl⟩,
      rfl, by decide, _, rfl⟩
    · decide
    · decide
    · decide
    · decide
  obtain ⟨w, hfollows, hcur, hlarge, w', hfree⟩ := hfollows
  obtain ⟨hexact, hnext⟩ := regionMap_exact onePageArenas _
    (Run.start.follows (recycledPage.take 2) hfollows)
  refine ⟨w, w', hexact, hfree, fun hexact' => ?_⟩
  have hkeeps := (hnext (.deallocate 0 1 65536 8192) w' trivial hfree).mp hexact'
  exact hkeeps (by decide) (by decide) 0 hcur (Or.inl hlarge)

end MemoryManager
end CoherentDB
