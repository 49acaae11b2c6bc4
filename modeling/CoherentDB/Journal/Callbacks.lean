import CoherentDB.Journal.Shutdown

/-!
# Answering erase requests through their own callbacks

A callback job only has the owner and the handle of its request.  It calls the callback
of the request that is found under them when it is executed, which a later request for
the same owner and handle may have put there.

All requests are answered through their own callbacks if no request is written to the map
while a job with the same key is pending for a request with another callback
(`erase_answered_by_own_callback`).
-/

namespace CoherentDB
namespace Journal

open Debug Util Runs

/-- The journal thread does not overwrite what a pending job will look up, unless with a request
that has the same callback. -/
def KeepsPending {C : Type} (s : JournalState C) (action : JournalAction C) : Prop :=
  action = .write → ∀ req ∈ s.reqs.inHand, ∀ job ∈ s.cbWorkers.q ++ s.cbWorkers.inHand,
    job.key = req.key → job.origin.cb = req.cb

instance {C : Type} [DecidableEq C] (s : JournalState C) (action : JournalAction C) :
    Decidable (KeepsPending s action) :=
  inferInstanceAs (Decidable (action = .write → ∀ req ∈ s.reqs.inHand,
    ∀ job ∈ s.cbWorkers.q ++ s.cbWorkers.inHand, job.key = req.key → job.origin.cb = req.cb))

/-- Each pending job will find a request with its own callback, and each handled one did. -/
structure JournalState.OwnCallbacks {C : Type} (s : JournalState C) : Prop where
  pending : ∀ job ∈ s.cbWorkers.q ++ s.cbWorkers.inHand,
    ∃ req, s.eraseReqs job.key = some req ∧ req.cb = job.origin.cb
  answered : s.calls = s.cbWorkers.handled.map fun done => done.2.origin.success

section Steps

variable {C : Type} {s s' : JournalState C} {action : JournalAction C}

theorem JournalState.start_ownCallbacks : (JournalState.start : JournalState C).OwnCallbacks := by
  constructor
  · intro job hjob
    simp [JournalState.start, Pool.start, Pool.inHand, Worker.items] at hjob
  · rfl

/-- A job has the owner and the handle of its request. -/
theorem JournalState.Sound.key_origin (h : s.Sound) {job : EraseCbReq C}
    (hjob : job ∈ s.cbWorkers.pushed) : job.origin.key = job.key := by
  rw [h.scheduled] at hjob
  obtain ⟨req, -, rfl⟩ := List.mem_map.mp hjob
  rfl

theorem EraseReq.success_eq {req other : EraseReq C} (hkey : req.key = other.key)
    (hcb : req.cb = other.cb) : req.success = other.success := by
  obtain ⟨howner, hhandle⟩ := Prod.mk.inj hkey
  rw [EraseReq.success, EraseReq.success, hcb, howner, hhandle]

/-- A step of the callback workers that neither schedules nor finishes a job. -/
theorem JournalState.OwnCallbacks.stepCallbacks (h : s.OwnCallbacks)
    {action : PoolAction (EraseCbReq C)} {cbWorkers : Pool (EraseCbReq C)}
    (hmoves : s.cbWorkers.Moves action cbWorkers) (hscheduled : action.scheduled = [])
    (hreturns : s.cbWorkers.returns action = []) :
    JournalState.OwnCallbacks { s with cbWorkers := cbWorkers } := by
  constructor
  · intro job hjob
    rcases hmoves.mem_pending hjob with hold | hnew
    · exact h.pending job hold
    · rw [hscheduled] at hnew
      cases hnew
  · show s.calls = cbWorkers.handled.map fun done => done.2.origin.success
    rw [hmoves.handled_eq, hreturns, List.append_nil]
    exact h.answered

theorem JournalState.OwnCallbacks.write (h : s.OwnCallbacks) (hkeeps : KeepsPending s .write)
    {req : EraseReq C} (hi : s.reqs.workers[0]? = some (.handling req)) :
    JournalState.OwnCallbacks { s with
      written := some req
      eraseReqs := Function.update s.eraseReqs req.key (some req) } := by
  refine ⟨?_, h.answered⟩
  intro job hjob
  by_cases hkey : job.key = req.key
  · rw [hkey]
    exact ⟨req, Function.update_self _ _ _, (hkeeps rfl req (Pool.mem_inHand hi) job hjob hkey).symm⟩
  · obtain ⟨other, hother, hcb⟩ := h.pending job hjob
    exact ⟨other, (Function.update_of_ne hkey _ _).trans hother, hcb⟩

theorem JournalState.OwnCallbacks.schedule (h : s.OwnCallbacks) (hsound : s.Sound)
    {req : EraseReq C} {woken : Option ℕ} {reqs : Pool (EraseReq C)}
    {cbWorkers : Pool (EraseCbReq C)} (hwritten : s.written = some req)
    (hcallbacks : s.cbWorkers.Moves (.scheduleWork req.cbReq woken) cbWorkers) :
    JournalState.OwnCallbacks { s with
      reqs := reqs
      written := none
      cbWorkers := cbWorkers } := by
  constructor
  · intro job hjob
    rcases hcallbacks.mem_pending hjob with hold | hnew
    · exact h.pending job hold
    · -- The new job finds the request that has just been written.
      obtain rfl := List.mem_singleton.mp hnew
      exact ⟨req, hsound.written req hwritten, rfl⟩
  · show s.calls = cbWorkers.handled.map fun done => done.2.origin.success
    rw [hcallbacks.handled_eq]
    exact h.answered.trans (congrArg _ (List.append_nil _).symm)

theorem JournalState.OwnCallbacks.execute (h : s.OwnCallbacks) (hsound : s.Sound) {i : ℕ}
    {job : EraseCbReq C} {call : EraseSuccess C} {cbWorkers : Pool (EraseCbReq C)}
    (hi : s.cbWorkers.workers[i]? = some (.handling job)) (hcall : s.execute job = .ok call)
    (hcallbacks : s.cbWorkers.Moves (.advance i) cbWorkers) :
    JournalState.OwnCallbacks { s with cbWorkers := cbWorkers, calls := s.calls ++ [call] } := by
  obtain ⟨req, hfound, hkey, hexecute⟩ := hsound.execute hi
  obtain ⟨other, hother, hcb⟩ := h.pending job (List.mem_append_right _ (Pool.mem_inHand hi))
  obtain rfl := Option.some.inj (hfound.symm.trans hother)
  have hown : call = job.origin.success := by
    have horigin := hsound.key_origin (hsound.callbacks.mem_pushed hi)
    rw [← EraseReq.success_eq (hkey.trans horigin.symm) hcb]
    exact Except.ok.inj (hcall.symm.trans hexecute)
  constructor
  · intro pending hpending
    rcases hcallbacks.mem_pending hpending with hold | hnew
    · exact h.pending pending hold
    · cases hnew
  · show s.calls ++ [call] = cbWorkers.handled.map fun done => done.2.origin.success
    rw [hcallbacks.handled_eq, Pool.returns, hi, List.map_append, ← h.answered, hown]
    rfl

/-- **One step keeps the invariant**, if it does not overwrite what a pending job looks up. -/
theorem JournalState.OwnCallbacks.step (h : s.OwnCallbacks) (hsound : s.Sound)
    (hdrained : DrainedWhenClosed s action) (hkeeps : KeepsPending s action)
    (hmoves : s.Moves action s') : s'.OwnCallbacks := by
  have hnext := hsound.step hdrained hmoves
  cases hmoves with
  | erase | pop | wakeUp | closeReqs | joinThread | finish => exact ⟨h.pending, h.answered⟩
  | write req hi hwritten => exact h.write hkeeps hi
  | schedule req woken reqs cbWorkers hwritten hi hcallbacks hreqs =>
      exact h.schedule hsound hwritten hcallbacks
  | scheduleLate req woken _ hi hclosed =>
      exact absurd hclosed (hsound.open_of_handling hi)
  | take i cbWorkers hi hcallbacks =>
      refine h.stepCallbacks hcallbacks rfl ?_
      rw [Pool.returns, hi]
  | execute i job call cbWorkers hi hcall hcallbacks =>
      exact h.execute hsound hi hcall hcallbacks
  | executeFails => exact absurd hnext.running (by simp)
  | wakeUpWorker i cbWorkers hcallbacks => exact h.stepCallbacks hcallbacks rfl rfl
  | closeCallbacks cbWorkers hstop hcallbacks => exact h.stepCallbacks hcallbacks rfl rfl
  | joinWorker cbWorkers hcallbacks => exact h.stepCallbacks hcallbacks rfl rfl
  | clearWorkers cbWorkers hcallbacks => exact h.stepCallbacks hcallbacks rfl rfl

end Steps

/-- **Requests are answered through their own callbacks.**  In every run in which the journal
thread never overwrites what a pending job looks up, each call has been made through the callback
of the request that its job was scheduled for; once both queues are drained, the calls are exactly
those of all accepted requests, one for every call of `erase`. -/
theorem erase_answered_by_own_callback {C : Type} [DecidableEq C] {checked : Bool}
    {actions : List (JournalAction C)} {s : JournalState C}
    (hrun : Run (JournalState.step checked)
      (fun s action => DrainedWhenClosed s action ∧ KeepsPending s action) JournalState.start
      actions s) :
    s.reqs.pushed = actions.flatMap JournalAction.requested ∧
      (s.calls = s.cbWorkers.handled.map fun done => done.2.origin.success) ∧
      (s.Drained → s.calls.Perm (s.reqs.pushed.map EraseReq.success)) := by
  obtain ⟨-, hpushed⟩ := JournalState.Sound.run (hrun.mono fun _ _ => And.left)
  have hboth : s.Sound ∧ s.OwnCallbacks := by
    refine hrun.invariant (P := fun _ s => s.Sound ∧ s.OwnCallbacks)
      ⟨JournalState.start_sound, JournalState.start_ownCallbacks⟩ ?_
    rintro actions s s' action ⟨hsound, hown⟩ ⟨hdrained, hkeeps⟩ hstep
    have hmoves := JournalState.moves_of_step hstep
    exact ⟨hsound.step hdrained hmoves, hown.step hsound hdrained hkeeps hmoves⟩
  obtain ⟨hsound, hown⟩ := hboth
  refine ⟨hpushed, hown.answered, fun hdrained => ?_⟩
  have hjobs := (hsound.jobs_perm hdrained).map fun job => job.origin.success
  rw [List.map_map, List.map_map] at hjobs
  rw [hown.answered]
  exact hjobs

theorem JournalState.drained_of_nil {C : Type} {s : JournalState C}
    (hreqs : s.reqs.q ++ s.reqs.inHand = []) (hjobs : s.cbWorkers.q ++ s.cbWorkers.inHand = []) :
    s.Drained := by
  obtain ⟨hq, hthread⟩ := List.append_eq_nil_iff.mp hreqs
  obtain ⟨hjobs, hworkers⟩ := List.append_eq_nil_iff.mp hjobs
  exact ⟨hq, hthread, hjobs, hworkers⟩

/-- Another request of owner 1 for the handle 5, with the callback 200. -/
def secondRequest : EraseReq ℕ := ⟨1, 5, 200⟩

/-- The journal thread executes a request. -/
def executeRequest : List (JournalAction ℕ) := [.pop, .write, .schedule none]

/-- The second request is executed after the job of the first one. -/
def oneAfterTheOther : List (JournalAction ℕ) :=
  ([.erase oneRequest none, .erase secondRequest none] : List (JournalAction ℕ)) ++
    executeRequest ++ ([.worker 0, .worker 0] : List (JournalAction ℕ)) ++
    executeRequest ++ ([.worker 1, .worker 1] : List (JournalAction ℕ))

theorem erase_answered_by_own_callback_both :
    ∃ s, Run (JournalState.step true)
        (fun s action => DrainedWhenClosed s action ∧ KeepsPending s action) JournalState.start
        oneAfterTheOther s ∧
      s.calls.Perm [⟨100, 1, 5⟩, ⟨200, 1, 5⟩] := by
  have hdone : (performAll (JournalState.step true)
      (fun s action => DrainedWhenClosed s action ∧ KeepsPending s action) JournalState.start
      oneAfterTheOther).map
        (fun s => (s.reqs.q ++ s.reqs.inHand, s.cbWorkers.q ++ s.cbWorkers.inHand, s.reqs.pushed)) =
      some ([], [], [oneRequest, secondRequest]) := by decide
  obtain ⟨s, hperformed, hstate⟩ := Option.map_eq_some_iff.mp hdone
  simp only [Prod.mk.injEq] at hstate
  obtain ⟨hreqs, hjobs, hpushed⟩ := hstate
  have hrun := Run.start.performAll oneAfterTheOther hperformed
  obtain ⟨-, -, hanswered⟩ := erase_answered_by_own_callback hrun
  have hcalls := hanswered (JournalState.drained_of_nil hreqs hjobs)
  rw [hpushed] at hcalls
  exact ⟨s, hrun, hcalls⟩

/-- Both requests are executed before the callback workers get to their jobs: the second callback
is called twice and the first one never. -/
theorem erase_answered_by_other_callback :
    ∃ s, Run (JournalState.step true) anyAction JournalState.start
        ([.erase oneRequest none, .erase secondRequest none] ++ executeRequest ++ executeRequest ++
          [.worker 0, .worker 1, .worker 0, .worker 1]) s ∧
      s.Drained ∧ s.reqs.pushed = [oneRequest, secondRequest] ∧
      s.calls = [⟨200, 1, 5⟩, ⟨200, 1, 5⟩] := by
  -- The type of the lists is given: without it the elaboration of `++` takes seconds.
  have hdone : (performAll (JournalState.step true) anyAction JournalState.start
      (([.erase oneRequest none, .erase secondRequest none] : List (JournalAction ℕ)) ++
        executeRequest ++ executeRequest ++
        ([.worker 0, .worker 1, .worker 0, .worker 1] : List (JournalAction ℕ)))).map
        (fun s => (s.reqs.q ++ s.reqs.inHand, s.cbWorkers.q ++ s.cbWorkers.inHand, s.reqs.pushed,
          s.calls)) =
      some ([], [], [oneRequest, secondRequest], [⟨200, 1, 5⟩, ⟨200, 1, 5⟩]) := by decide
  obtain ⟨s, hperformed, hstate⟩ := Option.map_eq_some_iff.mp hdone
  simp only [Prod.mk.injEq] at hstate
  obtain ⟨hreqs, hjobs, hpushed, hcalls⟩ := hstate
  exact ⟨s, Run.start.performAll _ hperformed, JournalState.drained_of_nil hreqs hjobs, hpushed,
    hcalls⟩

end Journal
end CoherentDB
