import Mathlib.Algebra.BigOperators.Group.Finset.Basic
import Mathlib.Algebra.Order.BigOperators.Group.Finset
import CoherentDB.Lib.FlagCount
import CoherentDB.MemoryManager.Session

/-!
# The counters of a session

`ram_allocated_bytes` is meant to be the sum of `allocated_bytes` over the
sub-sessions that are not completely frozen, `total_allocated_bytes` the sum over
all of them.  The results of this file need no promise of `mmap` and no
consistency of the chunk containers: they follow the regions and the counters
alone.

* `counters_exact`: the counters are exact, and no decrement passes zero, in
  every run in which no `deallocate` gives a region back while its sub-session is
  completely frozen; `ramCounter_wraps` is a run in which one does.
* `limits_kept`: the limits hold in every run in which a region of `allocate` fits
  under them whenever the requested bytes do; `limits_exceeded` is a run in which
  only the requested bytes fit.
-/

namespace CoherentDB
namespace MemoryManager

open Debug Containers MachineInt ArenaLayout

namespace MemorySubSession

/-- The bytes that a sub-session contributes to `ram_allocated_bytes`. -/
def ramBytes (s : MemorySubSession) : ℕ :=
  if s.unfrozenThreadsCount ≠ 0 then s.allocatedBytes else 0

theorem ramBytes_le (s : MemorySubSession) : s.ramBytes ≤ s.allocatedBytes := by
  unfold ramBytes
  split_ifs
  · exact le_rfl
  · exact Nat.zero_le _

/-- `unfrozen_threads_count` is the number of threads on which the flag is cleared; it is
`-1` until the first `begin`. -/
abbrev ThreadsCounted (s : MemorySubSession) : Prop :=
  FlagCount.Counts s.frozen s.unfrozenThreadsCount

end MemorySubSession

/-- The counters of the session are the sums they stand for. -/
structure World.CountersExact (w : World) : Prop where
  ram : w.session.ramAllocatedBytes =
    ∑ x ∈ w.session.subSessions with (w.subs x).unfrozenThreadsCount ≠ 0,
      (w.subs x).allocatedBytes
  total : w.session.totalAllocatedBytes = ∑ x ∈ w.session.subSessions, (w.subs x).allocatedBytes

/-- The invariant behind the exact counters. -/
structure World.Accounted (w : World) : Prop where
  ram : w.session.ramAllocatedBytes = ∑ x ∈ w.session.subSessions, (w.subs x).ramBytes
  total : w.session.totalAllocatedBytes = ∑ x ∈ w.session.subSessions, (w.subs x).allocatedBytes
  bounded : w.session.totalAllocatedBytes < 2 ^ 64
  recorded : ∀ x, (w.subs x).allocs.total Prod.snd ≤ (w.subs x).allocatedBytes
  threads : ∀ x, (w.subs x).ThreadsCounted
  current : ∀ t x, w.current t = some x → x ∈ w.session.subSessions
  default : w.session.defaultSubSession ∈ w.session.subSessions

namespace World

section Sums

variable {w w' : World} {x : SubSessionId}

/-- A sum over sub-sessions after one of them changed. -/
theorem sum_update (subs : SubSessionId → MemorySubSession) {members : Finset SubSessionId}
    (hx : x ∈ members) (s : MemorySubSession) (weight : MemorySubSession → ℕ) :
    ∑ y ∈ members, weight (Function.update subs x s y) + weight (subs x) =
      ∑ y ∈ members, weight (subs y) + weight s := by
  have hrest : ∑ y ∈ members.erase x, weight (Function.update subs x s y) =
      ∑ y ∈ members.erase x, weight (subs y) :=
    Finset.sum_congr rfl fun y hy => by rw [Function.update_of_ne (Finset.ne_of_mem_erase hy)]
  have hnew := Finset.add_sum_erase members (fun y => weight (Function.update subs x s y)) hx
  have hold := Finset.add_sum_erase members (fun y => weight (subs y)) hx
  simp only [Function.update_self] at hnew
  omega

theorem Accounted.countersExact (h : w.Accounted) : w.CountersExact where
  ram := by
    rw [h.ram, Finset.sum_filter]
    rfl
  total := h.total

theorem Accounted.ram_le_total (h : w.Accounted) :
    w.session.ramAllocatedBytes ≤ w.session.totalAllocatedBytes := by
  rw [h.ram, h.total]
  exact Finset.sum_le_sum fun y _ => (w.subs y).ramBytes_le

theorem Accounted.allocatedBytes_le (h : w.Accounted) (hx : x ∈ w.session.subSessions) :
    (w.subs x).allocatedBytes ≤ w.session.totalAllocatedBytes := by
  rw [h.total]
  exact Finset.single_le_sum (fun y _ => Nat.zero_le (w.subs y).allocatedBytes) hx

theorem Accounted.ramBytes_le (h : w.Accounted) (hx : x ∈ w.session.subSessions) :
    (w.subs x).ramBytes ≤ w.session.ramAllocatedBytes := by
  rw [h.ram]
  exact Finset.single_le_sum (fun y _ => Nat.zero_le (w.subs y).ramBytes) hx

/-- What a sub-session does not contribute to the first counter is missing from it. -/
theorem Accounted.ram_add_le (h : w.Accounted) (hx : x ∈ w.session.subSessions) :
    w.session.ramAllocatedBytes + (w.subs x).allocatedBytes ≤
      w.session.totalAllocatedBytes + (w.subs x).ramBytes := by
  have hram := Finset.add_sum_erase w.session.subSessions (fun y => (w.subs y).ramBytes) hx
  have htotal :=
    Finset.add_sum_erase w.session.subSessions (fun y => (w.subs y).allocatedBytes) hx
  have hrest : ∑ y ∈ w.session.subSessions.erase x, (w.subs y).ramBytes ≤
      ∑ y ∈ w.session.subSessions.erase x, (w.subs y).allocatedBytes :=
    Finset.sum_le_sum fun y _ => (w.subs y).ramBytes_le
  have := h.ram
  have := h.total
  omega

/-- **The invariant after one sub-session changed**: the counters moved by what the
sub-session moved. -/
theorem Accounted.of_update (h : w.Accounted) (hx : x ∈ w.session.subSessions)
    {s : MemorySubSession} (hsubs : w'.subs = Function.update w.subs x s)
    (hmembers : w'.session.subSessions = w.session.subSessions)
    (hdefault : w'.session.defaultSubSession = w.session.defaultSubSession)
    (hcurrent : ∀ t y, w'.current t = some y → y ∈ w.session.subSessions)
    (hram : w'.session.ramAllocatedBytes + (w.subs x).ramBytes =
      w.session.ramAllocatedBytes + s.ramBytes)
    (htotal : w'.session.totalAllocatedBytes + (w.subs x).allocatedBytes =
      w.session.totalAllocatedBytes + s.allocatedBytes)
    (hbounded : w'.session.totalAllocatedBytes < 2 ^ 64)
    (hrecorded : s.allocs.total Prod.snd ≤ s.allocatedBytes) (hthreads : s.ThreadsCounted) :
    w'.Accounted := by
  refine ⟨?_, ?_, hbounded, ?_, ?_, ?_, ?_⟩
  · have := sum_update w.subs hx s MemorySubSession.ramBytes
    have := h.ram
    rw [hmembers, hsubs]
    omega
  · have := sum_update w.subs hx s MemorySubSession.allocatedBytes
    have := h.total
    rw [hmembers, hsubs]
    omega
  · rw [hsubs]
    exact (Function.forall_update_iff w.subs fun _ s =>
      s.allocs.total Prod.snd ≤ s.allocatedBytes).mpr ⟨hrecorded, fun y _ => h.recorded y⟩
  · rw [hsubs]
    exact (Function.forall_update_iff w.subs fun _ s =>
      s.ThreadsCounted).mpr ⟨hthreads, fun y _ => h.threads y⟩
  · rw [hmembers]
    exact hcurrent
  · rw [hmembers, hdefault]
    exact h.default

end Sums

section Calls

variable {cfg : ManagerConfig} {w w' : World} {t : ThreadId} {x : SubSessionId}
  {sizeofT n p : ℕ} {c : Scope}

/-- A call that keeps the regions keeps the counters exact. -/
theorem Accounted.put_kept (h : w.Accounted) (hx : x ∈ w.session.subSessions)
    (hkept : Scope.Kept (w.scope x) c) : (w.put c).Accounted := by
  have hparent : (w.put c).session = w.session := hkept.parent
  have hbytes : c.self.allocatedBytes = (w.subs x).allocatedBytes := hkept.allocatedBytes
  have hcount : c.self.unfrozenThreadsCount = (w.subs x).unfrozenThreadsCount :=
    hkept.unfrozenThreadsCount
  have hallocs : c.self.allocs = (w.subs x).allocs := hkept.allocs
  refine h.of_update hx (s := c.self) ?_ (by rw [hparent]) (by rw [hparent])
    (fun t y => h.current t y) ?_ ?_ ?_ ?_ ?_
  · rw [put, hkept.this]
    rfl
  · rw [hparent, MemorySubSession.ramBytes, MemorySubSession.ramBytes, hbytes, hcount]
  · rw [hparent, hbytes]
  · rw [hparent]
    exact h.bounded
  · rw [hallocs, hbytes]
    exact h.recorded x
  · exact (h.threads x).congr hkept.frozen hcount

/-- A new region of a sub-session that is not frozen is counted exactly when the total
stays below `2 ^ 64`. -/
theorem Accounted.put_added (h : w.Accounted) (hx : x ∈ w.session.subSessions) {bytes : ℕ}
    (hactive : (w.subs x).unfrozenThreadsCount ≠ 0)
    (hfit : w.session.totalAllocatedBytes + bytes < 2 ^ 64)
    (hadded : Scope.Added cfg (w.scope x) c p bytes) :
    (w.put c).Accounted ∧
      (w.put c).session.ramAllocatedBytes = w.session.ramAllocatedBytes + bytes ∧
      (w.put c).session.totalAllocatedBytes = w.session.totalAllocatedBytes + bytes := by
  have hramTotal := h.ram_le_total
  have hown := h.allocatedBytes_le hx
  have hcount : c.self.unfrozenThreadsCount = (w.subs x).unfrozenThreadsCount :=
    hadded.unfrozenThreadsCount
  -- All three additions stay below the total, so none of them wraps.
  have hbytes : c.self.allocatedBytes = (w.subs x).allocatedBytes + bytes :=
    hadded.allocatedBytes.trans (addWrap_of_lt (by simp only [scope_self]; omega))
  have hram : (w.put c).session.ramAllocatedBytes = w.session.ramAllocatedBytes + bytes := by
    rw [put, hadded.parent]
    exact addWrap_of_lt (by simp only [scope_parent]; omega)
  have htotal : (w.put c).session.totalAllocatedBytes =
      w.session.totalAllocatedBytes + bytes := by
    rw [put, hadded.parent]
    exact addWrap_of_lt hfit
  refine ⟨h.of_update hx (s := c.self) ?_ ?_ ?_ (fun t y => h.current t y) ?_ ?_ ?_ ?_ ?_,
    hram, htotal⟩
  · rw [put, hadded.this]
    rfl
  · rw [put, hadded.parent]
    rfl
  · rw [put, hadded.parent]
    rfl
  · simp only [MemorySubSession.ramBytes, hcount, if_pos hactive]
    omega
  · omega
  · omega
  · have hinsert := (w.subs x).allocs.total_insert_le (p, bytes) Prod.snd
    have hold := h.recorded x
    have hallocs : c.self.allocs = (w.subs x).allocs.insert (p, bytes) := hadded.allocs
    rw [hallocs]
    omega
  · exact (h.threads x).congr hadded.frozen hcount

/-- The bytes of a recorded region are part of what its sub-session counts. -/
theorem Accounted.region_le (h : w.Accounted) {r : Block} (hr : r ∈ (w.subs x).allocs) :
    r.2 + ((w.subs x).allocs.erase r.1).total Prod.snd ≤ (w.subs x).allocatedBytes := by
  have := OrderedTable.total_erase Prod.snd hr
  have := h.recorded x
  omega

/-- A region dropped by a sub-session that is not completely frozen leaves both sums. -/
theorem Accounted.put_dropped (h : w.Accounted) (hx : x ∈ w.session.subSessions) {r : Block}
    {pages : Finset ℕ} (hactive : (w.subs x).unfrozenThreadsCount ≠ 0)
    (hdropped : Scope.Dropped (w.scope x) c r pages) :
    (w.put c).Accounted ∧
      (w.put c).session.ramAllocatedBytes + r.2 = w.session.ramAllocatedBytes ∧
      (w.put c).session.totalAllocatedBytes + r.2 = w.session.totalAllocatedBytes := by
  have hregion := h.region_le hdropped.recorded
  have hbounded := h.bounded
  have hramTotal := h.ram_le_total
  have hown := h.allocatedBytes_le hx
  have hcount : c.self.unfrozenThreadsCount = (w.subs x).unfrozenThreadsCount :=
    hdropped.unfrozenThreadsCount
  have hcounted : (w.subs x).ramBytes = (w.subs x).allocatedBytes := if_pos hactive
  have hownRam := h.ramBytes_le hx
  -- The region is part of each of the three counters, so no subtraction wraps.
  have hbytes : c.self.allocatedBytes = (w.subs x).allocatedBytes - r.2 :=
    hdropped.allocatedBytes.trans
      (subWrap_of_le (by simp only [scope_self]; omega) (by simp only [scope_self]; omega))
  have hram : (w.put c).session.ramAllocatedBytes = w.session.ramAllocatedBytes - r.2 := by
    rw [put, hdropped.parent]
    exact subWrap_of_le (by simp only [scope_parent]; omega) (by simp only [scope_parent]; omega)
  have htotal : (w.put c).session.totalAllocatedBytes =
      w.session.totalAllocatedBytes - r.2 := by
    rw [put, hdropped.parent]
    exact subWrap_of_le (by simp only [scope_parent]; omega) hbounded
  refine ⟨h.of_update hx (s := c.self) ?_ ?_ ?_ (fun t y => h.current t y) ?_ ?_ ?_ ?_ ?_,
    by omega, by omega⟩
  · rw [put, hdropped.this]
    rfl
  · rw [put, hdropped.parent]
    rfl
  · rw [put, hdropped.parent]
    rfl
  · have hnew : c.self.ramBytes = c.self.allocatedBytes := if_pos (hcount ▸ hactive)
    omega
  · omega
  · omega
  · have hallocs : c.self.allocs = (w.subs x).allocs.erase r.1 := hdropped.allocs
    rw [hallocs]
    omega
  · exact (h.threads x).congr hdropped.frozen hcount

/-- The limits and the counts of unfrozen threads are as before. -/
structure SameTerms (w w' : World) : Prop where
  ramLimit : w'.session.ramLimitBytes = w.session.ramLimitBytes
  totalLimit : w'.session.totalLimitBytes = w.session.totalLimitBytes
  count : ∀ y, (w'.subs y).unfrozenThreadsCount = (w.subs y).unfrozenThreadsCount

theorem SameTerms.refl (w : World) : SameTerms w w := ⟨rfl, rfl, fun _ => rfl⟩

theorem sameTerms_put (hthis : c.this = x)
    (hram : c.parent.ramLimitBytes = w.session.ramLimitBytes)
    (htotal : c.parent.totalLimitBytes = w.session.totalLimitBytes)
    (hcount : c.self.unfrozenThreadsCount = (w.subs x).unfrozenThreadsCount) :
    SameTerms w (w.put c) := by
  refine ⟨hram, htotal, fun y => ?_⟩
  simp only [put, hthis]
  rcases eq_or_ne y x with rfl | hne
  · rw [Function.update_self, hcount]
  · rw [Function.update_of_ne hne]

/-- A change of the thread-local pointers alone. -/
theorem Accounted.with_current (h : w.Accounted) {current : ThreadId → Option SubSessionId}
    (hcurrent : ∀ t y, current t = some y → y ∈ w.session.subSessions) :
    Accounted { w with current := current } :=
  ⟨h.ram, h.total, h.bounded, h.recorded, h.threads, hcurrent, h.default⟩

theorem Accounted.current_activate (h : w.Accounted) (hx : x ∈ w.session.subSessions)
    (t : ThreadId) : ∀ u y, (w.activate t x).current u = some y → y ∈ w.session.subSessions := by
  intro u y hu
  rcases eq_or_ne u t with rfl | hne
  · simp only [activate, Function.update_self, Option.some.injEq] at hu
    exact hu ▸ hx
  · simp only [activate, Function.update_of_ne hne] at hu
    exact h.current u y hu

theorem Accounted.activate (h : w.Accounted) (hx : x ∈ w.session.subSessions) (t : ThreadId) :
    (w.activate t x).Accounted :=
  h.with_current (h.current_activate hx t)

theorem Accounted.deactivate (h : w.Accounted) (t : ThreadId) :
    Accounted { w with current := Function.update w.current t none } := by
  refine h.with_current fun u y hu => ?_
  rcases eq_or_ne u t with rfl | hne
  · simp at hu
  · rw [Function.update_of_ne hne] at hu
    exact h.current u y hu

/-- A flag and a count change what the sub-session has in the first counter, and nothing else. -/
theorem Accounted.reflag (h : w.Accounted) (hx : x ∈ w.session.subSessions) {flag : Bool} {count : ℤ}
    {ram : ℕ} (hram : ram + (w.subs x).ramBytes =
      w.session.ramAllocatedBytes + if count ≠ 0 then (w.subs x).allocatedBytes else 0)
    (hthreads : MemorySubSession.ThreadsCounted { w.subs x with
      frozen := Function.update (w.subs x).frozen t (some flag)
      unfrozenThreadsCount := count }) : (w.reflag t x flag count ram).Accounted :=
  h.of_update hx rfl rfl rfl h.current hram rfl h.bounded (h.recorded x) hthreads

theorem Accounted.subBegin (h : w.Accounted) (hx : x ∈ w.session.subSessions) (t : ThreadId) :
    (w.subBegin t x).Accounted := by
  cases ht : (w.subs x).frozen t with
  | some flag =>
      rw [World.subBegin_again ht]
      exact h.activate hx t
  | none =>
      rw [World.subBegin_new ht]
      refine (h.activate hx t).reflag hx ?_ ((h.threads x).new ht)
      -- The thread is added to a count that stays zero, or was not zero.
      show w.session.ramAllocatedBytes + (w.subs x).ramBytes = _
      congr 1
      exact if_congr (not_congr (FlagCount.withNew_eq_zero_iff _)).symm rfl rfl

/-- **`freeze` takes the sub-session out of the first counter with its last thread**, and
the subtraction does not pass zero. -/
theorem Accounted.subFreeze (h : w.Accounted) (hx : x ∈ w.session.subSessions)
    (hcall : w.subFreeze t x = .ok w') :
    w'.Accounted ∧ w'.session.ramAllocatedBytes ≤ w.session.ramAllocatedBytes ∧
      w'.session.totalAllocatedBytes = w.session.totalAllocatedBytes := by
  rcases World.subFreeze_ok hcall with ⟨-, rfl⟩ | ⟨hflag, rfl⟩
  · exact ⟨h, le_rfl, rfl⟩
  · have hpos := (h.threads x).pos hflag
    have hcounted : (w.subs x).ramBytes = (w.subs x).allocatedBytes := if_pos hpos.ne'
    have hthreads : MemorySubSession.ThreadsCounted { w.subs x with
        frozen := Function.update (w.subs x).frozen t (some true)
        unfrozenThreadsCount := (w.subs x).unfrozenThreadsCount - 1 } :=
      (h.threads x).flip hflag
    by_cases hlast : (w.subs x).unfrozenThreadsCount - 1 = 0
    · -- The last unfrozen thread: the whole sub-session leaves the first counter.
      have hle := h.ramBytes_le hx
      have hsub : subWrap 64 w.session.ramAllocatedBytes (w.subs x).allocatedBytes =
          w.session.ramAllocatedBytes - (w.subs x).allocatedBytes :=
        subWrap_of_le (by omega) (h.ram_le_total.trans_lt h.bounded)
      rw [if_pos hlast, hsub]
      refine ⟨h.reflag hx ?_ hthreads, Nat.sub_le _ _, rfl⟩
      rw [if_neg (not_not.mpr hlast)]
      omega
    · -- Other threads keep it counted, so only the count of threads moves.
      rw [if_neg hlast]
      refine ⟨h.reflag hx ?_ hthreads, le_rfl, rfl⟩
      rw [if_pos hlast, hcounted]

theorem Accounted.subUnfreeze {answer : Bool} (h : w.Accounted)
    (hx : x ∈ w.session.subSessions) (hcall : w.subUnfreeze t x = .ok (answer, w')) :
    w'.Accounted := by
  rcases World.subUnfreeze_ok hcall with ⟨-, -, rfl⟩ | ⟨-, -, -, rfl⟩ | ⟨-, -, -, rfl⟩ |
    ⟨hflag, hzero, -, rfl⟩
  · exact h
  · exact h
  · exact h
  · -- The first thread back: its bytes were in the second counter only, which bounds the sum.
    have hnone : (w.subs x).ramBytes = 0 := if_neg (not_not.mpr hzero)
    have hle := h.ram_add_le hx
    have hbounded := h.bounded
    have hadd : addWrap 64 w.session.ramAllocatedBytes (w.subs x).allocatedBytes =
        w.session.ramAllocatedBytes + (w.subs x).allocatedBytes :=
      addWrap_of_lt (by omega)
    refine h.reflag hx ?_ ((h.threads x).flip hflag)
    rw [hadd, hnone, if_pos (by omega), Nat.add_zero]

/-- **Every switching, freezing or unfreezing call keeps the counters exact.** -/
theorem Accounted.call (h : w.Accounted) {f : SessionCall}
    (htarget : f.Targets w.session.subSessions) (hcall : w.call f = .ok w') : w'.Accounted := by
  cases f with
  | subBegin t x =>
      obtain rfl := Except.ok.inj hcall
      exact h.subBegin htarget t
  | subEnd t x =>
      obtain rfl := Except.ok.inj hcall
      unfold World.subEnd
      split_ifs
      · exact h.deactivate t
      · exact h
  | subSetCurrent t x =>
      obtain rfl := Except.ok.inj hcall
      exact h.activate htarget t
  | subFreeze t x => exact (h.subFreeze htarget hcall).1
  | subUnfreeze t x =>
      obtain ⟨answer, hok⟩ := map_snd_eq_ok.mp hcall
      exact h.subUnfreeze htarget hok
  | sessionBegin t =>
      obtain rfl := Except.ok.inj hcall
      cases ht : w.session.frozen t with
      | some flag =>
          simp only [World.sessionBegin, ht]
          exact h.subBegin h.default t
      | none =>
          simp only [World.sessionBegin, ht]
          refine Accounted.subBegin ?_ (by exact h.default) t
          exact ⟨h.ram, h.total, h.bounded, h.recorded, h.threads, h.current, h.default⟩
  | sessionEnd t =>
      obtain rfl := Except.ok.inj hcall
      exact h.deactivate t
  | setDefaultCurrent t =>
      obtain rfl := Except.ok.inj hcall
      exact h.activate h.default t

/-- `allocator<T>::allocate` keeps the counters exact while the total stays in `size_t`. -/
theorem Accounted.allocatorAllocate {mmap : ℕ → Option ℕ} (h : w.Accounted) (hn : n ≠ 0)
    (hcur : w.current t = some x)
    (hfit : ∀ bytes, (w.subs x).regionRequest cfg (sizeofT * n % 2 ^ 64) = some bytes →
      w.session.totalAllocatedBytes + bytes < 2 ^ 64)
    (halloc : w.allocatorAllocate cfg mmap t sizeofT n = .ok (p, w')) :
    w'.Accounted ∧
      ((w'.session.ramAllocatedBytes = w.session.ramAllocatedBytes ∧
        w'.session.totalAllocatedBytes = w.session.totalAllocatedBytes) ∨
      ∃ bytes, (w.subs x).regionRequest cfg (sizeofT * n % 2 ^ 64) = some bytes ∧
        w'.session.ramAllocatedBytes = w.session.ramAllocatedBytes + bytes ∧
        w'.session.totalAllocatedBytes = w.session.totalAllocatedBytes + bytes) ∧
      SameTerms w w' := by
  have hx := h.current t x hcur
  obtain ⟨hfrozen, -, -, -, -, c, hc, rfl⟩ := allocatorAllocate_ok hn hcur halloc
  have hactive := ((h.threads x).pos hfrozen).ne'
  rcases Scope.allocate_effect hc with ⟨-, hkept⟩ | ⟨bytes, hreq, -, hadded⟩
  · have hparent : c.parent = w.session := hkept.parent
    refine ⟨h.put_kept hx hkept, Or.inl ⟨?_, ?_⟩, ?_⟩
    · rw [put, hparent]
    · rw [put, hparent]
    · exact sameTerms_put hkept.this (by rw [hparent]) (by rw [hparent])
        hkept.unfrozenThreadsCount
  · obtain ⟨hnew, hram, htotal⟩ := h.put_added hx hactive (hfit bytes hreq) hadded
    refine ⟨hnew, Or.inr ⟨bytes, hreq, hram, htotal⟩, ?_⟩
    exact sameTerms_put hadded.this (by rw [hadded.parent]; rfl) (by rw [hadded.parent]; rfl)
      hadded.unfrozenThreadsCount

/-- `allocator<T>::deallocate` keeps the counters exact, and lowers them without passing
zero, unless it gives back a region of a completely frozen sub-session. -/
theorem Accounted.allocatorDeallocate (h : w.Accounted)
    (hthawed : ∀ y, w.current t = some y → (w.subs y).unfrozenThreadsCount = 0 →
      ¬ (w.subs y).FreesRegion (p, sizeofT * n % 2 ^ 64))
    (hfree : w.allocatorDeallocate cfg t sizeofT p n = .ok w') :
    w'.Accounted ∧ w'.session.ramAllocatedBytes ≤ w.session.ramAllocatedBytes ∧
      w'.session.totalAllocatedBytes ≤ w.session.totalAllocatedBytes ∧ SameTerms w w' := by
  by_cases hnull : n = 0 ∨ p = 0
  · rw [World.allocatorDeallocate, if_pos hnull] at hfree
    obtain rfl := Except.ok.inj hfree
    exact ⟨h, le_rfl, le_rfl, SameTerms.refl w⟩
  · obtain ⟨hn, hp⟩ := not_or.mp hnull
    obtain ⟨y, c, hcur, hc, rfl⟩ := allocatorDeallocate_ok hn hp hfree
    have hy := h.current t y hcur
    rcases Scope.deallocate_effect hc with ⟨-, hkept⟩ | ⟨hregion, r, pages, hdropped⟩
    · have hparent : c.parent = w.session := hkept.parent
      refine ⟨h.put_kept hy hkept, ?_, ?_, ?_⟩
      · rw [put, hparent]
      · rw [put, hparent]
      · exact sameTerms_put hkept.this (by rw [hparent]) (by rw [hparent])
          hkept.unfrozenThreadsCount
    · have hactive : (w.subs y).unfrozenThreadsCount ≠ 0 := fun hzero =>
        hthawed y hcur hzero (hregion (Nat.mod_lt _ (Nat.two_pow_pos 64)))
      obtain ⟨hnew, hram, htotal⟩ := h.put_dropped hy hactive hdropped
      refine ⟨hnew, by omega, by omega, ?_⟩
      exact sameTerms_put hdropped.this (by rw [hdropped.parent]; rfl)
        (by rw [hdropped.parent]; rfl) hdropped.unfrozenThreadsCount

end Calls

end World

/-- The calls that keep the counters exact: `allocate` leaves the total in `size_t`, and
`deallocate` gives no region back while its sub-session is completely frozen. -/
def CountersKept (cfg : ManagerConfig) (st : SessionState) : SessionOp → Prop
  | .allocate _ t sizeofT n =>
      ∀ x bytes, st.world.current t = some x →
        (st.world.subs x).regionRequest cfg (sizeofT * n % 2 ^ 64) = some bytes →
        st.world.session.totalAllocatedBytes + bytes < 2 ^ 64
  | .deallocate t sizeofT n _ p =>
      ∀ y, st.world.current t = some y → (st.world.subs y).unfrozenThreadsCount = 0 →
        ¬ (st.world.subs y).FreesRegion (p, sizeofT * n % 2 ^ 64)
  | .call _ => True

/-- No decrement that a call makes next passes zero: the counters do not grow. -/
structure SessionState.NoUnderflow (cfg : ManagerConfig) (st : SessionState) : Prop where
  deallocate : ∀ t sizeofT n x p w', CountersKept cfg st (.deallocate t sizeofT n x p) →
    st.world.allocatorDeallocate cfg t sizeofT p n = .ok w' →
    w'.session.ramAllocatedBytes ≤ st.world.session.ramAllocatedBytes ∧
      w'.session.totalAllocatedBytes ≤ st.world.session.totalAllocatedBytes
  freeze : ∀ t x w', x ∈ st.world.session.subSessions → st.world.subFreeze t x = .ok w' →
    w'.session.ramAllocatedBytes ≤ st.world.session.ramAllocatedBytes ∧
      w'.session.totalAllocatedBytes ≤ st.world.session.totalAllocatedBytes

section Runs

variable {cfg : ManagerConfig} {start st st' : SessionState}

theorem SessionState.Initial.accounted (h : st.Initial) : st.world.Accounted := by
  refine ⟨?_, ?_, ?_, fun x => ?_, fun x => ?_, fun t x hx => ?_, h.default⟩
  · rw [h.ram, eq_comm]
    exact Finset.sum_eq_zero fun x _ => by rw [h.subs x]; rfl
  · rw [h.total, eq_comm]
    exact Finset.sum_eq_zero fun x _ => by rw [h.subs x]; rfl
  · rw [h.total]
    norm_num
  · rw [h.subs x]
    exact le_rfl
  · rw [h.subs x]
    exact Or.inl ⟨rfl, fun _ => rfl⟩
  · rw [h.current t] at hx
    cases hx

/-- **One step keeps the counters exact.** -/
theorem SessionStep.accounted (h : st.world.Accounted)
    (hstep : SessionStep cfg (CountersKept cfg) st st') : st'.world.Accounted := by
  cases hstep with
  | allocate hok hn hsize hcur halloc =>
      exact (h.allocatorAllocate (fun hzero => by simp [hzero] at hn) hcur
        (fun bytes hreq => hok _ bytes hcur hreq) halloc).1
  | deallocate hok hlive hfree => exact (h.allocatorDeallocate hok hfree).1
  | call hok htarget hcall => exact h.call htarget hcall

/-- **The counters of a session are exact** in every state reached by steps that keep the
total in `size_t` and give no region of a completely frozen sub-session back, and no
decrement that follows passes zero. -/
theorem counters_exact (cfg : ManagerConfig) {start st : SessionState} (hstart : start.Initial)
    (hrun : Relation.ReflTransGen (SessionStep cfg (CountersKept cfg)) start st) :
    st.world.CountersExact ∧ st.NoUnderflow cfg := by
  have hinv : st.world.Accounted := by
    induction hrun with
    | refl => exact hstart.accounted
    | tail _ hstep ih => exact hstep.accounted ih
  refine ⟨hinv.countersExact, fun t sizeofT n x p w' hok hfree => ?_, fun t x w' hx hcall => ?_⟩
  · obtain ⟨-, hram, htotal, -⟩ := hinv.allocatorDeallocate hok hfree
    exact ⟨hram, htotal⟩
  · obtain ⟨-, hram, htotal⟩ := hinv.subFreeze hx hcall
    exact ⟨hram, htotal.le⟩

/-- A large block is freed while its sub-session is completely frozen: its bytes leave the
first counter a second time. -/
def freeWhileFrozen : List SessionOp :=
  [.call (.subBegin 0 0), .allocate (mmapAt 8192 65536) 0 1 5000, .call (.subFreeze 0 0),
    .deallocate 0 1 5000 0 65536]

/-- After `freeWhileFrozen` the first counter has wrapped. -/
theorem ramCounter_wraps :
    ∃ start st : SessionState, start.Initial ∧
      Relation.ReflTransGen (SessionStep onePageArenas (fun _ _ => True)) start st ∧
      ¬ st.world.CountersExact := by
  refine ⟨blankSession (2 ^ 30) (2 ^ 30), _, blankSession_initial (by norm_num) (by norm_num),
    SessionState.Performs.run freeWhileFrozen ?_, fun hexact => ?_⟩
  · refine ⟨trivial, ?_, trivial, ?_, trivial, ?_, trivial, ?_, trivial⟩ <;> decide
  · exact absurd hexact.ram (by decide)

/-- The law on the run that unfreezes the sub-session before it frees the block. -/
theorem counters_exact_thawed :
    ((blankSession (2 ^ 30) (2 ^ 30)).after onePageArenas
      [.call (.subBegin 0 0), .allocate (mmapAt 8192 65536) 0 1 5000, .call (.subFreeze 0 0),
        .call (.subUnfreeze 0 0), .deallocate 0 1 5000 0 65536]).world.CountersExact := by
  refine (counters_exact onePageArenas (blankSession_initial (by norm_num) (by norm_num))
    (SessionState.Performs.run _ ?_)).1
  refine ⟨trivial, by decide, ?_, by decide, trivial, by decide, trivial, by decide, ?_,
    by decide, trivial⟩
  · rintro x bytes hx hreq
    obtain rfl : 0 = x := Option.some.inj hx
    obtain rfl : 8192 = bytes := Option.some.inj hreq
    decide
  · rintro y hy hzero
    obtain rfl : 0 = y := Option.some.inj hy
    exact absurd hzero (by decide)

/-- As much more fits under both limits. -/
def MemorySession.Fits (s : MemorySession) (bytes : ℕ) : Prop :=
  s.ramAllocatedBytes + bytes ≤ s.ramLimitBytes ∧
    s.totalAllocatedBytes + bytes ≤ s.totalLimitBytes

/-- The calls of a run that never freezes.  A request that needs a new region is one whose
rounding, to whole pages or a whole arena, does not matter for the limits: if the bytes that it
asks for fit, the region does.  Their sum with the second counter stays in `size_t`. -/
def RoundingFits (cfg : ManagerConfig) (st : SessionState) : SessionOp → Prop
  | .allocate _ t sizeofT n =>
      ∀ x bytes, st.world.current t = some x →
        (st.world.subs x).regionRequest cfg (sizeofT * n % 2 ^ 64) = some bytes →
        st.world.session.totalAllocatedBytes + sizeofT * n % 2 ^ 64 < 2 ^ 64 ∧
          (st.world.session.Fits (sizeofT * n % 2 ^ 64) → st.world.session.Fits bytes)
  | .deallocate .. => True
  | .call (.subFreeze ..) | .call (.subUnfreeze ..) => False
  | .call _ => True

/-- The counters stay within the limits. -/
structure World.WithinLimits (w : World) : Prop where
  ram : w.session.ramAllocatedBytes ≤ w.session.ramLimitBytes
  total : w.session.totalAllocatedBytes ≤ w.session.totalLimitBytes

/-- The invariant of the runs that never freeze. -/
structure World.Limited (w : World) : Prop where
  accounted : w.Accounted
  unfrozen : ∀ x, (w.subs x).unfrozenThreadsCount ≠ 0
  within : w.WithinLimits
  totalLimit : w.session.totalLimitBytes < 2 ^ 64

theorem SessionState.Initial.limited (h : st.Initial) : st.world.Limited := by
  refine ⟨h.accounted, fun x => ?_, ⟨?_, ?_⟩, h.totalLimit⟩
  · rw [h.subs x]
    decide
  · rw [h.ram]
    exact Nat.zero_le _
  · rw [h.total]
    exact Nat.zero_le _

/-- `begin` of a thread freezes nothing. -/
theorem World.Limited.subBegin {w : World} (h : w.Limited) {x : SubSessionId}
    (hx : x ∈ w.session.subSessions) (t : ThreadId) : (w.subBegin t x).Limited := by
  have hacc := h.accounted.subBegin hx t
  cases ht : (w.subs x).frozen t with
  | some flag =>
      rw [World.subBegin_again ht] at hacc ⊢
      exact ⟨hacc, h.unfrozen, ⟨h.within.ram, h.within.total⟩, h.totalLimit⟩
  | none =>
      rw [World.subBegin_new ht] at hacc ⊢
      refine ⟨hacc, fun y => ?_, ⟨h.within.ram, h.within.total⟩, h.totalLimit⟩
      unfold World.reflag
      dsimp only
      rcases eq_or_ne y x with rfl | hne
      · rw [Function.update_self]
        exact mt (FlagCount.withNew_eq_zero_iff _).mp (h.unfrozen y)
      · rw [Function.update_of_ne hne]
        exact h.unfrozen y

theorem World.Limited.with_current {w : World} (h : w.Limited)
    {current : ThreadId → Option SubSessionId}
    (hacc : World.Accounted { w with current := current }) :
    World.Limited { w with current := current } :=
  ⟨hacc, h.unfrozen, ⟨h.within.ram, h.within.total⟩, h.totalLimit⟩

/-- A switching call keeps the invariant. -/
theorem World.Limited.call {w w' : World} (h : w.Limited) {f : SessionCall}
    (hfreeze : ∀ t x, f ≠ .subFreeze t x) (hunfreeze : ∀ t x, f ≠ .subUnfreeze t x)
    (htarget : f.Targets w.session.subSessions) (hcall : w.call f = .ok w') : w'.Limited := by
  have hacc := h.accounted.call htarget hcall
  cases f with
  | subBegin t x =>
      obtain rfl := Except.ok.inj hcall
      exact h.subBegin htarget t
  | subEnd t x =>
      obtain rfl := Except.ok.inj hcall
      unfold World.subEnd at hacc ⊢
      split_ifs at hacc ⊢
      · exact h.with_current hacc
      · exact h
  | subSetCurrent t x =>
      obtain rfl := Except.ok.inj hcall
      exact h.with_current hacc
  | subFreeze t x => exact absurd rfl (hfreeze t x)
  | subUnfreeze t x => exact absurd rfl (hunfreeze t x)
  | sessionBegin t =>
      obtain rfl := Except.ok.inj hcall
      cases ht : w.session.frozen t with
      | some flag =>
          simp only [World.sessionBegin, ht]
          exact h.subBegin h.accounted.default t
      | none =>
          -- The flag of the session itself enters no counter; the default sub-session begins.
          have hdefault := h.accounted.default
          simp only [World.sessionBegin, ht]
          refine World.Limited.subBegin ?_ (by exact hdefault) t
          have hold := h.accounted
          exact ⟨⟨hold.ram, hold.total, hold.bounded, hold.recorded, hold.threads, hold.current,
            hold.default⟩, h.unfrozen, ⟨h.within.ram, h.within.total⟩, h.totalLimit⟩
  | sessionEnd t =>
      obtain rfl := Except.ok.inj hcall
      exact h.with_current hacc
  | setDefaultCurrent t =>
      obtain rfl := Except.ok.inj hcall
      exact h.with_current hacc

/-- A request that has passed the checks of the limits asks for a region that fits as well. -/
theorem World.Limited.region_fits (h : st.world.Limited) {mmap : ℕ → Option ℕ} {t : ThreadId}
    {sizeofT n p : ℕ} {w' : World} (hok : RoundingFits cfg st (.allocate mmap t sizeofT n))
    (hn : n ≠ 0) (hcur : st.world.current t = some x)
    (halloc : st.world.allocatorAllocate cfg mmap t sizeofT n = .ok (p, w')) (bytes : ℕ)
    (hreq : (st.world.subs x).regionRequest cfg (sizeofT * n % 2 ^ 64) = some bytes) :
    st.world.session.Fits bytes := by
  obtain ⟨-, -, -, hram, htotal, -⟩ := World.allocatorAllocate_ok hn hcur halloc
  obtain ⟨hword, hround⟩ := hok _ bytes hcur hreq
  have hle := h.accounted.ram_le_total
  rw [addWrap_of_lt (by omega)] at hram
  rw [addWrap_of_lt hword] at htotal
  exact hround ⟨hram, htotal⟩

/-- **One step of a run that never freezes keeps the counters within the limits.** -/
theorem SessionStep.limited (h : st.world.Limited)
    (hstep : SessionStep cfg (RoundingFits cfg) st st') : st'.world.Limited := by
  have hlimit := h.totalLimit
  cases hstep with
  | @allocate w' mmap t sizeofT n p x hok hn hsize hcur halloc =>
      have hn' : n ≠ 0 := fun hzero => by simp [hzero] at hn
      have hfit := h.region_fits hok hn' hcur halloc
      obtain ⟨hacc, hmoved, hterms⟩ := h.accounted.allocatorAllocate hn' hcur
        (fun bytes hreq => (hfit bytes hreq).2.trans_lt hlimit) halloc
      refine ⟨hacc, fun y => ?_, ?_, ?_⟩
      · rw [hterms.count y]
        exact h.unfrozen y
      · have hram := h.within.ram
        have htotal := h.within.total
        rcases hmoved with ⟨hram', htotal'⟩ | ⟨bytes, hreq, hram', htotal'⟩
        · exact ⟨by rw [hram', hterms.ramLimit]; exact hram,
            by rw [htotal', hterms.totalLimit]; exact htotal⟩
        · obtain ⟨hfitRam, hfitTotal⟩ := hfit bytes hreq
          exact ⟨by rw [hram', hterms.ramLimit]; exact hfitRam,
            by rw [htotal', hterms.totalLimit]; exact hfitTotal⟩
      · rw [hterms.totalLimit]
        exact hlimit
  | deallocate hok hlive hfree =>
      obtain ⟨hacc, hram, htotal, hterms⟩ := h.accounted.allocatorDeallocate
        (fun y _ hzero => absurd hzero (h.unfrozen y)) hfree
      refine ⟨hacc, fun y => ?_, ⟨?_, ?_⟩, ?_⟩
      · rw [hterms.count y]
        exact h.unfrozen y
      · rw [hterms.ramLimit]
        exact hram.trans h.within.ram
      · rw [hterms.totalLimit]
        exact htotal.trans h.within.total
      · rw [hterms.totalLimit]
        exact hlimit
  | call hok htarget hcall =>
      refine h.call ?_ ?_ htarget hcall
      · rintro t x rfl
        exact hok
      · rintro t x rfl
        exact hok

/-- **The limits of a session hold** in every state of a run without freezes in which the rounding
of a request, to whole pages or a whole arena, never takes it over a limit that its bytes keep, and
no request wraps the second counter around. -/
theorem limits_kept (cfg : ManagerConfig) {start st : SessionState} (hstart : start.Initial)
    (hrun : Relation.ReflTransGen (SessionStep cfg (RoundingFits cfg)) start st) :
    st.world.WithinLimits := by
  have hinv : st.world.Limited := by
    induction hrun with
    | refl => exact hstart.limited
    | tail _ hstep ih => exact hstep.limited ih
  exact hinv.within

/-- A request that fits under the limit as it is, but not in whole pages. -/
theorem limits_exceeded :
    onePageArenas.getMaxSmallAllocBytes ≤ onePageArenas.getSingleSmallAllocBytes ∧
    ∃ start st : SessionState, start.Initial ∧
      Relation.ReflTransGen (SessionStep onePageArenas (fun _ _ => True)) start st ∧
      ¬ st.world.WithinLimits := by
  refine ⟨by decide, blankSession 10000 10000, _,
    blankSession_initial (by norm_num) (by norm_num), SessionState.Performs.run
      [.call (.subBegin 0 0), .allocate (mmapAt 12288 65536) 0 1 9000] ?_, fun hwithin => ?_⟩
  · refine ⟨trivial, ?_, trivial, ?_, trivial⟩ <;> decide
  · exact absurd hwithin.ram (by decide)

/-- The same request under a limit of three pages. -/
theorem limits_kept_threePages :
    ((blankSession 12288 12288).after onePageArenas
      [.call (.subBegin 0 0),
        .allocate (mmapAt 12288 65536) 0 1 9000]).world.WithinLimits := by
  refine limits_kept onePageArenas (blankSession_initial (by norm_num) (by norm_num))
    (SessionState.Performs.run _ ⟨trivial, by decide, ?_, by decide, trivial⟩)
  rintro x bytes hx hreq
  obtain rfl : 0 = x := Option.some.inj hx
  obtain rfl : 12288 = bytes := Option.some.inj hreq
  exact ⟨by decide, fun _ => ⟨by decide, by decide⟩⟩

end Runs

end MemoryManager
end CoherentDB
