import CoherentDB.MemoryManager.Admission

/-!
# Wake-ups of waiting calls

When the call at the front of `unfreeze_queue` may pass, it should not be asleep.  A
free of either resource notifies the front, and a call that comes to the front by its
own arrival has tested.  But a call also gets to the front when the one before it
passes or gives up, and then nobody notifies it: neither the end of `reserve_*_bytes`
nor that of `timed_reserve_*_bytes` does.

`PassesOn` says that no call may be left behind so: it compares the requests of the first two
calls with what is reserved before the step.  A step from a state where the front is awake
keeps it awake exactly if it is `PassesOn`.
-/

namespace CoherentDB
namespace MemoryManager
namespace Admission

open MachineInt Runs

/-- The first of the waiting calls is awake or notified, if its request fits. -/
def FrontAwake (s : Admission) : Prop :=
  ∀ w, s.waiting.head? = some w → s.manager.fits w.resource w.bytes → w.asleep = false

/-- A request fits beside another one that is granted before it. -/
def fitsBeside (m : Manager) (r : Resource) (bytes : ℕ) (next : Waiter) : Prop :=
  if next.resource = r then addWrap 64 (addWrap 64 (m.reserved r) bytes) next.bytes ≤ m.limit r
  else addWrap 64 (m.reserved next.resource) next.bytes ≤ m.limit next.resource

instance (m : Manager) (r : Resource) (bytes : ℕ) (next : Waiter) :
    Decidable (fitsBeside m r bytes next) :=
  inferInstanceAs (Decidable (if next.resource = r then _ ≤ _ else _ ≤ _))

/-- Where the first call is granted or times out, the second one is awake, or its request does not
fit beside the first one or alone; and no `try_reserve_*_bytes` wraps a counter so that the request
of a sleeping front fits beside it. -/
def PassesOn (s : Admission) : AdmissionStep → Prop
  | .test i => i = 0 → ∀ w ∈ s.waiting[0]?, s.manager.fits w.resource w.bytes →
      ∀ next ∈ s.waiting[1]?, next.asleep = true → ¬ fitsBeside s.manager w.resource w.bytes next
  | .timeOut i => i = 0 → ∀ next ∈ s.waiting[1]?, next.asleep = true →
      ¬ s.manager.fits next.resource next.bytes
  | .tryReserve r bytes => bytes ≤ s.manager.limit r → s.manager.fits r bytes →
      ∀ front ∈ s.waiting.head?, front.asleep = true → ¬ fitsBeside s.manager r bytes front
  | .reserve _ _ _ _ | .wake _ | .free _ _ => True

instance (s : Admission) : (action : AdmissionStep) → Decidable (s.PassesOn action)
  | .test i => inferInstanceAs (Decidable (i = 0 → ∀ w ∈ s.waiting[0]?,
      s.manager.fits w.resource w.bytes → ∀ next ∈ s.waiting[1]?, next.asleep = true →
        ¬ fitsBeside s.manager w.resource w.bytes next))
  | .timeOut i => inferInstanceAs (Decidable (i = 0 → ∀ next ∈ s.waiting[1]?,
      next.asleep = true → ¬ s.manager.fits next.resource next.bytes))
  | .tryReserve r bytes => inferInstanceAs (Decidable (bytes ≤ s.manager.limit r →
      s.manager.fits r bytes → ∀ front ∈ s.waiting.head?, front.asleep = true →
        ¬ fitsBeside s.manager r bytes front))
  | .reserve _ _ _ _ | .wake _ | .free _ _ => isTrue trivial

instance (s : Admission) : Decidable s.FrontAwake :=
  decidable_of_iff (∀ w ∈ s.waiting.head?, s.manager.fits w.resource w.bytes → w.asleep = false)
    Iff.rfl

section Steps

variable {s s' : Admission} {action : AdmissionStep} {reply : Reply}

/-- The counters after the grant say the same. -/
theorem fits_add (m : Manager) (r : Resource) (bytes : ℕ) (next : Waiter) :
    (m.add r bytes).fits next.resource next.bytes ↔ fitsBeside m r bytes next := by
  rw [Manager.fits, Manager.limit_add, Manager.add, Manager.reserved_setReserved, fitsBeside]
  split_ifs with hsame
  · rw [hsame]
  · rfl

/-- A step that leaves the front and the counters as they are. -/
theorem FrontAwake.of_same (h : s.FrontAwake)
    (hhead : s'.waiting.head? = s.waiting.head?)
    (hfits : ∀ r bytes, s'.manager.fits r bytes → s.manager.fits r bytes) : s'.FrontAwake := by
  intro w hw hfit
  exact h w (hhead ▸ hw) (hfits _ _ hfit)

/-- The call at the front has gone: the next one comes to the front as it is. -/
theorem frontAwake_iff_behind {w : Waiter} {rest : List Waiter} (hwaiting : s.waiting = w :: rest)
    (hrest : s'.waiting = rest) :
    s'.FrontAwake ↔ ∀ next, s.waiting[1]? = some next → next.asleep = true →
      ¬ s'.manager.fits next.resource next.bytes := by
  have hnext : s.waiting[1]? = s'.waiting.head? := by
    rw [hwaiting, hrest, List.getElem?_cons_succ, List.head?_eq_getElem?]
  rw [hnext]
  constructor
  · intro hfront next hhead hasleep hfit
    have hawake := hfront next hhead hfit
    rw [hasleep] at hawake
    cases hawake
  · intro hbehind next hhead hfit
    by_contra hasleep
    exact hbehind next hhead (by simpa using hasleep) hfit

/-- A call that comes to the queue sleeps behind another one, or does not fit. -/
theorem FrontAwake.queues (h : s.FrontAwake) {new : Waiter}
    (hblocked : s.waiting ≠ [] ∨ ¬ s.manager.fits new.resource new.bytes)
    (hwaiting : s'.waiting = s.waiting ++ [new])
    (hfits : ∀ r bytes, s'.manager.fits r bytes → s.manager.fits r bytes) : s'.FrontAwake := by
  cases hold : s.waiting with
  | nil =>
      intro w hw hfit
      rw [hwaiting, hold] at hw
      obtain rfl := Option.some.inj hw
      exact absurd (hfits _ _ hfit) (hblocked.resolve_left (not_not.mpr hold))
  | cons front rest =>
      refine h.of_same ?_ hfits
      rw [hwaiting, hold]
      rfl

/-- A call at place `i` falls asleep or wakes up; at the front it does not fit or is awake. -/
theorem FrontAwake.sets (h : s.FrontAwake) {i : ℕ} {w : Waiter}
    (hfront : i = 0 → s.manager.fits w.resource w.bytes → w.asleep = false)
    (hwaiting : s'.waiting = s.waiting.set i w) (hmanager : s'.manager = s.manager) :
    s'.FrontAwake := by
  intro v hv hfit
  rw [hwaiting, List.head?_eq_getElem?, List.getElem?_set] at hv
  rw [hmanager] at hfit
  split_ifs at hv with hzero hlt
  · obtain rfl := Option.some.inj hv
    exact hfront hzero hfit
  · exact h v (by rw [List.head?_eq_getElem?, hv]) hfit

/-- A free notifies the front. -/
theorem Queued.frontAwake_frees (h : s.Queued) (hwaiting : s'.waiting =
    s.waiting.map (notifyOne s.manager.unfreezeQueue.head?)) : s'.FrontAwake := by
  intro w hw _
  rw [hwaiting, List.head?_map] at hw
  obtain ⟨v, hv, rfl⟩ := Option.map_eq_some_iff.mp hw
  rw [List.head?_eq_getElem?] at hv
  rw [notifyOne, if_pos ((h.front_iff hv).mpr rfl)]

/-- **The front is awake after a step exactly if it was passed on to a call that is awake or whose
request does not fit.** -/
theorem FrontAwake.moves_iff (h : s.FrontAwake) (hqueued : s.Queued)
    (hmoves : s.Moves action reply s') : s'.FrontAwake ↔ s.PassesOn action := by
  cases hmoves with
  | throws => exact iff_of_true h trivial
  | tryThrows r bytes hlimit => exact iff_of_true h fun hle => absurd hle (not_le.mpr hlimit)
  | refuses r bytes hfits => exact iff_of_true h fun _ hfit => absurd hfit hfits
  | passes r condition bytes timed hempty =>
      refine iff_of_true ?_ trivial
      intro w hw
      rw [show s.waiting = [] from hempty] at hw
      cases hw
  | queues r condition bytes timed hlimit hblocked =>
      exact iff_of_true (h.queues hblocked rfl fun r _ => (Manager.fits_queue r).mp) trivial
  | wakes i w hi => exact iff_of_true (h.sets (fun _ _ => rfl) rfl rfl) trivial
  | sleeps i w hi hawake hblocked =>
      refine iff_of_true (h.sets (fun hzero hfit => ?_) rfl rfl) ?_
      · exact absurd hfit (hblocked.resolve_left (not_not.mpr hzero))
      · rintro rfl v hv hfit
        obtain rfl := Option.some.inj (hi.symm.trans hv)
        exact absurd hfit (hblocked.resolve_left (not_not.mpr rfl))
  | grants w rest hwaiting hawake hfits =>
      -- The front passes, and nobody notifies the call that is at the front now.
      rw [frontAwake_iff_behind hwaiting rfl]
      simp only [Manager.fits_queue, fits_add]
      constructor
      · intro hbehind _ v hv _
        rw [hwaiting] at hv
        obtain rfl := Option.some.inj hv
        exact hbehind
      · intro hpasses
        exact hpasses rfl w (by rw [hwaiting]; rfl) hfits
  | givesUp i w hi htimed =>
      cases i with
      | zero =>
          rw [← List.head?_eq_getElem?] at hi
          have hwaiting := List.eq_cons_of_mem_head? hi
          rw [frontAwake_iff_behind hwaiting (congrArg (List.eraseIdx · 0) hwaiting)]
          constructor
          · exact fun hbehind _ => hbehind
          · exact fun hpasses => hpasses rfl
      | succ i =>
          -- The call that gives up was not at the front, so the front is the same.
          refine iff_of_true (h.of_same ?_ fun _ _ => id) ?_
          · cases hwaiting : s.waiting with
            | nil => rfl
            | cons front rest => rfl
          · intro hzero
            cases hzero
  | bypasses r bytes hlimit hfits =>
      constructor
      · -- Only a sum that wraps around can make the request of the front fit.
        intro hfront _ _ front hhead hasleep hfit
        have hawake := hfront front hhead ((fits_add _ _ _ _).mpr hfit)
        rw [hasleep] at hawake
        cases hawake
      · intro hpasses front hhead hfit
        by_contra hasleep
        exact hpasses hlimit hfits front hhead (by simpa using hasleep) ((fits_add _ _ _ _).mp hfit)
  | frees r bytes => exact iff_of_true (hqueued.frontAwake_frees rfl) trivial

end Steps

/-- **No wake-up is lost** in every run in which waiting calls have different condition variables
and the front of the queue is always passed on to a call that is awake or whose request does not
fit; and from any state of such a run the next step loses one exactly if it does not pass the front
on so. -/
theorem front_stays_awake {ramLimitBytes totalLimitBytes : ℕ} {actions : List AdmissionStep}
    {s : Admission}
    (hrun : Run step (fun s action => s.OwnCondition action ∧ s.PassesOn action)
      (initial ramLimitBytes totalLimitBytes) actions s) :
    s.FrontAwake ∧ ∀ action s', s.OwnCondition action → s.step action = some s' →
      (s'.FrontAwake ↔ s.PassesOn action) := by
  have h : s.Queued ∧ s.FrontAwake := by
    refine hrun.invariant (P := fun _ s => s.Queued ∧ s.FrontAwake) ?_ ?_
    · refine ⟨⟨rfl, List.nodup_nil⟩, ?_⟩
      intro w hw
      cases hw
    · rintro _ s s' action ⟨hqueued, hfront⟩ ⟨hown, hpasses⟩ hstep
      obtain ⟨reply, hmoves⟩ := moves_of_step hqueued hown hstep
      exact ⟨hqueued.moves hown hmoves, (hfront.moves_iff hqueued hmoves).mpr hpasses⟩
  refine ⟨h.2, ?_⟩
  intro action s' hown hstep
  obtain ⟨reply, hmoves⟩ := moves_of_step h.1 hown hstep
  exact h.2.moves_iff h.1 hmoves

/-- The call behind the front wakes up before the front passes, and then passes too. -/
def wokenInTime : List AdmissionStep :=
  [.reserve .ram 1 10 false, .reserve .ram 2 5 false, .reserve .ram 3 5 true, .free .ram 10,
    .wake 1, .test 0, .test 0, .tryReserve .ram 1]

theorem front_stays_awake_wokenInTime :
    ∃ s, Run step (fun s action => s.OwnCondition action ∧ s.PassesOn action) (initial 10 20)
        wokenInTime s ∧ s.granted = [0, 1, 2] ∧ s.FrontAwake := by
  have hstart : Run step (fun s action => s.OwnCondition action ∧ s.PassesOn action)
      (initial 10 20) [] (initial 10 20) := .start
  have hrun := hstart.performAll wokenInTime rfl
  exact ⟨_, hrun, rfl, (front_stays_awake hrun).1⟩

/-- A grant of all the RAM is freed while two calls wait, each for half of it. -/
def twoHalves : List AdmissionStep :=
  [.reserve .ram 1 10 false, .reserve .ram 2 5 false, .reserve .ram 3 5 false, .free .ram 10,
    .test 0]

/-- The first of them passes, and the second sleeps on at the front although it fits. -/
theorem front_sleeps_on :
    ∃ s, Run step OwnCondition (initial 10 20) twoHalves s ∧
      s.waiting = [⟨2, 3, .ram, 5, false, true⟩] ∧ s.manager.reserved .ram = 5 ∧
      s.manager.fits .ram 5 ∧ ¬ s.FrontAwake :=
  ⟨_, Run.start.performAll twoHalves rfl, rfl, rfl, by decide, by decide⟩

end Admission
end MemoryManager
end CoherentDB
