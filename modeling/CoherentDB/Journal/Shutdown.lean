import CoherentDB.Journal.Journal

/-!
# Shutting the journal down

`~journal` closes the queue of the callback jobs before it joins the journal thread.  If
the thread still has requests then, it pushes their jobs to a closed queue: with
assertions the process is aborted, and without them the jobs may never be executed.

Nothing is lost if the journal thread is done with all requests when the destructor
comes to `cb_workers.stop` (`shutdown_loses_nothing`).
-/

namespace CoherentDB
namespace Journal

open Debug Util Runs

/-- The destructor closes the queue of the callback jobs only when no request waits and the
journal thread has none in its hands. -/
def DrainedWhenClosed {C : Type} (s : JournalState C) (action : JournalAction C) : Prop :=
  action = .closeCallbacks → s.reqs.q ++ s.reqs.inHand = []

instance {C : Type} [DecidableEq C] (s : JournalState C) (action : JournalAction C) :
    Decidable (DrainedWhenClosed s action) :=
  inferInstanceAs (Decidable (action = .closeCallbacks → s.reqs.q ++ s.reqs.inHand = []))

/-- The invariant of a journal whose queues are closed in a good moment. -/
structure JournalState.Sound {C : Type} (s : JournalState C) : Prop where
  running : s.aborted = false
  onTime : s.late = []
  reqs : s.reqs.Sound 1
  callbacks : s.cbWorkers.Sound 2
  scheduled : s.cbWorkers.pushed = (s.reqs.handled.map Prod.snd).map EraseReq.cbReq
  kept : ∀ key req, s.eraseReqs key = some req → req.key = key
  written : ∀ req, s.written = some req → s.eraseReqs req.key = some req
  found : ∀ job ∈ s.cbWorkers.pushed, ∃ req, s.eraseReqs job.key = some req
  called : s.calls.map EraseSuccess.key = s.cbWorkers.handled.map fun done => done.2.key
  drained : s.cbWorkers.noMoreData = true →
    s.reqs.noMoreData = true ∧ s.reqs.q ++ s.reqs.inHand = []
  returned : s.reqs.stopping = .returned → s.cbWorkers.stopping = .returned

section Steps

variable {C : Type} {s s' : JournalState C} {action : JournalAction C}

theorem JournalState.start_sound : (JournalState.start : JournalState C).Sound where
  running := rfl
  onTime := rfl
  reqs := Pool.start_sound 1
  callbacks := Pool.start_sound 2
  scheduled := rfl
  kept := by
    intro key req h
    cases h
  written := by
    intro req h
    cases h
  found := by
    intro job h
    cases h
  called := rfl
  drained := by
    intro h
    cases h
  returned := by
    intro h
    cases h

/-- A closed queue with nothing to do stays so. -/
theorem stays_drained {T : Type} {p p' : Pool T} {action : PoolAction T} (h : p.Moves action p')
    (hdrained : p.noMoreData = true ∧ p.q ++ p.inHand = []) :
    p'.noMoreData = true ∧ p'.q ++ p'.inHand = [] := by
  obtain ⟨hclosed, hempty⟩ := hdrained
  refine ⟨h.noMoreData_iff.mpr (Or.inl hclosed), ?_⟩
  rw [List.eq_nil_iff_forall_not_mem]
  intro item hmem
  rcases h.mem_pending hmem with hold | hnew
  · rw [hempty] at hold
    exact List.not_mem_nil hold
  · cases h with
    | pushToNone _ hopen | push _ _ hopen =>
        rw [hclosed] at hopen
        cases hopen
    | sleep | pop | exit | done | wakeUp | noMoreInput | join | clear =>
        exact List.not_mem_nil hnew

/-- A step of the queue of requests in which the journal thread does not return from a request. -/
theorem JournalState.Sound.stepReqs (h : s.Sound) {action : PoolAction (EraseReq C)}
    {reqs : Pool (EraseReq C)} (hmoves : s.reqs.Moves action reqs)
    (hreturns : s.reqs.returns action = [])
    (hclear : action = .clear → s.cbWorkers.stopping = .returned) :
    JournalState.Sound { s with reqs := reqs } := by
  have hhandled := hmoves.handled_eq
  rw [hreturns, List.append_nil] at hhandled
  refine ⟨h.running, h.onTime, h.reqs.step le_rfl hmoves, h.callbacks, ?_, h.kept, h.written,
    h.found, h.called, fun hclosed => stays_drained hmoves (h.drained hclosed), ?_⟩
  · rw [hhandled]
    exact h.scheduled
  · intro hreturned
    exact (hmoves.returned_iff.mp hreturned).elim h.returned hclear

/-- A step of the callback workers that schedules nothing. -/
theorem JournalState.Sound.stepCallbacks (h : s.Sound) {action : PoolAction (EraseCbReq C)}
    {cbWorkers : Pool (EraseCbReq C)} (hmoves : s.cbWorkers.Moves action cbWorkers)
    (hscheduled : action.scheduled = []) {calls : List (EraseSuccess C)}
    (hcalled : calls.map EraseSuccess.key = cbWorkers.handled.map fun done => done.2.key)
    (hclosing : action = .noMoreInput →
      s.reqs.noMoreData = true ∧ s.reqs.q ++ s.reqs.inHand = []) :
    JournalState.Sound { s with cbWorkers := cbWorkers, calls := calls } := by
  have hpushed := hmoves.pushed_eq
  rw [hscheduled, List.append_nil] at hpushed
  refine ⟨h.running, h.onTime, h.reqs, h.callbacks.step (by decide) hmoves, ?_, h.kept, h.written,
    ?_, hcalled, ?_, fun hret => hmoves.returned_iff.mpr (Or.inl (h.returned hret))⟩
  · rw [hpushed]
    exact h.scheduled
  · rw [hpushed]
    exact h.found
  · intro hclosed
    exact (hmoves.noMoreData_iff.mp hclosed).elim h.drained hclosing

/-- The handled jobs stay as they are when no worker returns from one. -/
theorem JournalState.Sound.called_of_returns (h : s.Sound) {action : PoolAction (EraseCbReq C)}
    {cbWorkers : Pool (EraseCbReq C)} (hmoves : s.cbWorkers.Moves action cbWorkers)
    (hreturns : s.cbWorkers.returns action = []) :
    s.calls.map EraseSuccess.key = cbWorkers.handled.map fun done => done.2.key := by
  rw [hmoves.handled_eq, hreturns, List.append_nil]
  exact h.called

theorem JournalState.execute_of_found {job : EraseCbReq C} {req : EraseReq C}
    (hfound : s.eraseReqs job.key = some req) (hkey : req.key = job.key) :
    s.execute job = .ok req.success := by
  have howner : req.owner = job.owner := congrArg Prod.fst hkey
  have hget : s.getMapVal (job.owner, job.handle) = .ok req := by
    rw [JournalState.getMapVal, show (job.owner, job.handle) = job.key from rfl, hfound]
  rw [JournalState.execute, hget, ok_bind, dAssert_of howner]
  rfl

/-- A job in the hands of a worker finds a request with its key. -/
theorem JournalState.Sound.execute (h : s.Sound) {i : ℕ} {job : EraseCbReq C}
    (hi : s.cbWorkers.workers[i]? = some (.handling job)) :
    ∃ req, s.eraseReqs job.key = some req ∧ req.key = job.key ∧
      s.execute job = .ok req.success := by
  obtain ⟨req, hfound⟩ := h.found job (h.callbacks.mem_pushed hi)
  have hkey := h.kept _ _ hfound
  exact ⟨req, hfound, hkey, JournalState.execute_of_found hfound hkey⟩

theorem JournalState.Sound.write (h : s.Sound) (req : EraseReq C) :
    JournalState.Sound { s with
      written := some req
      eraseReqs := Function.update s.eraseReqs req.key (some req) } := by
  refine ⟨h.running, h.onTime, h.reqs, h.callbacks, h.scheduled, ?_, ?_, ?_, h.called, h.drained,
    h.returned⟩
  · intro key other hother
    dsimp only at hother
    by_cases hkey : key = req.key
    · subst hkey
      rw [Function.update_self] at hother
      rw [← Option.some.inj hother]
    · rw [Function.update_of_ne hkey] at hother
      exact h.kept key other hother
  · intro other hother
    obtain rfl := Option.some.inj hother
    exact Function.update_self _ _ _
  · intro job hjob
    by_cases hkey : job.key = req.key
    · rw [hkey]
      exact ⟨req, Function.update_self _ _ _⟩
    · obtain ⟨other, hother⟩ := h.found job hjob
      exact ⟨other, (Function.update_of_ne hkey _ _).trans hother⟩

theorem JournalState.Sound.schedule (h : s.Sound) {req : EraseReq C} {woken : Option ℕ}
    {reqs : Pool (EraseReq C)} {cbWorkers : Pool (EraseCbReq C)}
    (hwritten : s.written = some req) (hi : s.reqs.workers[0]? = some (.handling req))
    (hcallbacks : s.cbWorkers.Moves (.scheduleWork req.cbReq woken) cbWorkers)
    (hreqs : s.reqs.Moves (.advance 0) reqs) :
    JournalState.Sound { s with reqs := reqs, written := none, cbWorkers := cbWorkers } := by
  have hpushed : cbWorkers.pushed = s.cbWorkers.pushed ++ [req.cbReq] := hcallbacks.pushed_eq
  have hhandled : reqs.handled = s.reqs.handled ++ [(0, req)] := by
    rw [hreqs.handled_eq, Pool.returns, hi]
  refine ⟨h.running, h.onTime, h.reqs.step le_rfl hreqs, h.callbacks.step (by decide) hcallbacks,
    ?_, h.kept, ?_, ?_, ?_, ?_, ?_⟩
  · rw [hpushed, hhandled, h.scheduled]
    simp
  · intro other hother
    cases hother
  · intro job hjob
    rw [hpushed] at hjob
    rcases List.mem_append.mp hjob with hold | hnew
    · exact h.found job hold
    · obtain rfl := List.mem_singleton.mp hnew
      exact ⟨req, h.written req hwritten⟩
  · exact h.called_of_returns hcallbacks rfl
  · intro hclosed
    rcases hcallbacks.noMoreData_iff.mp hclosed with hbefore | hclosing
    · exact stays_drained hreqs (h.drained hbefore)
    · cases hclosing
  · intro hreturned
    rcases hreqs.returned_iff.mp hreturned with hbefore | hclear
    · exact hcallbacks.returned_iff.mpr (Or.inl (h.returned hbefore))
    · cases hclear

/-- While the journal thread has a request in its hands the queue of the jobs is open. -/
theorem JournalState.Sound.open_of_handling (h : s.Sound) {i : ℕ} {req : EraseReq C}
    (hi : s.reqs.workers[i]? = some (.handling req)) : ¬ s.cbWorkers.noMoreData = true := by
  intro hclosed
  have hempty := (List.append_eq_nil_iff.mp (h.drained hclosed).2).2
  have hhand := Pool.mem_inHand hi
  rw [hempty] at hhand
  cases hhand

/-- The requests that are pushed are those of the calls of `erase`. -/
theorem JournalState.Sound.pushed_eq (h : s.Sound) (hmoves : s.Moves action s') :
    s'.reqs.pushed = s.reqs.pushed ++ action.requested := by
  cases hmoves with
  | erase req woken reqs hreqs => exact hreqs.pushed_eq
  | pop reqs hi hreqs | wakeUp reqs hreqs | closeReqs reqs hreqs | joinThread reqs hstopped hreqs
  | finish reqs hstopped hreqs => exact hreqs.pushed_eq
  | schedule req woken reqs cbWorkers hwritten hi hcallbacks hreqs => exact hreqs.pushed_eq
  | scheduleLate req woken _ hi hclosed => exact absurd hclosed (h.open_of_handling hi)
  | write | take | execute | executeFails | wakeUpWorker | closeCallbacks | joinWorker
  | clearWorkers => exact (List.append_nil _).symm

/-- **One step keeps the invariant**, if the queues are closed in a good moment. -/
theorem JournalState.Sound.step (h : s.Sound) (hdrained : DrainedWhenClosed s action)
    (hmoves : s.Moves action s') : s'.Sound := by
  cases hmoves with
  | erase req woken reqs hreqs => exact h.stepReqs hreqs rfl (by simp)
  | pop reqs hi hreqs =>
      refine h.stepReqs hreqs ?_ (by simp)
      rw [Pool.returns, hi]
  | wakeUp reqs hreqs => exact h.stepReqs hreqs rfl (by simp)
  | write req hi hwritten => exact h.write req
  | schedule req woken reqs cbWorkers hwritten hi hcallbacks hreqs =>
      exact h.schedule hwritten hi hcallbacks hreqs
  | scheduleLate req woken _ hi hclosed => exact absurd hclosed (h.open_of_handling hi)
  | take i cbWorkers hi hcallbacks =>
      refine h.stepCallbacks hcallbacks rfl (h.called_of_returns hcallbacks ?_) (by simp)
      rw [Pool.returns, hi]
  | execute i job call cbWorkers hi hcall hcallbacks =>
      obtain ⟨req, -, hkey, hexecute⟩ := h.execute hi
      obtain rfl := Except.ok.inj (hexecute.symm.trans hcall)
      refine h.stepCallbacks hcallbacks rfl ?_ (by simp)
      rw [hcallbacks.handled_eq, Pool.returns, hi, List.map_append, List.map_append, h.called]
      exact congrArg (_ ++ [·]) hkey
  | executeFails i job failure hi hcall =>
      obtain ⟨req, -, -, hexecute⟩ := h.execute hi
      rw [hexecute] at hcall
      cases hcall
  | wakeUpWorker i cbWorkers hcallbacks =>
      exact h.stepCallbacks hcallbacks rfl (h.called_of_returns hcallbacks rfl) (by simp)
  | closeReqs reqs hreqs => exact h.stepReqs hreqs rfl (by simp)
  | closeCallbacks cbWorkers hstop hcallbacks =>
      refine h.stepCallbacks hcallbacks rfl (h.called_of_returns hcallbacks rfl) fun _ => ?_
      refine ⟨?_, hdrained rfl⟩
      cases hstopping : s.reqs.stopping with
      | notCalled => exact absurd hstopping hstop
      | joining k => exact (h.reqs.joining k hstopping).1
      | returned => exact (h.reqs.returned hstopping).1
  | joinWorker cbWorkers hcallbacks =>
      exact h.stepCallbacks hcallbacks rfl (h.called_of_returns hcallbacks rfl) (by simp)
  | clearWorkers cbWorkers hcallbacks =>
      exact h.stepCallbacks hcallbacks rfl (h.called_of_returns hcallbacks rfl) (by simp)
  | joinThread reqs hstopped hreqs => exact h.stepReqs hreqs rfl (by simp)
  | finish reqs hstopped hreqs => exact h.stepReqs hreqs rfl fun _ => hstopped

end Steps

section Runs

variable {C : Type} {checked : Bool} {actions : List (JournalAction C)} {s : JournalState C}

theorem JournalState.Sound.run [DecidableEq C]
    (hrun : Run (JournalState.step checked) DrainedWhenClosed JournalState.start actions s) :
    s.Sound ∧ s.reqs.pushed = actions.flatMap JournalAction.requested := by
  refine hrun.invariant (P := fun actions s =>
    s.Sound ∧ s.reqs.pushed = actions.flatMap JournalAction.requested)
    ⟨JournalState.start_sound, rfl⟩ ?_
  rintro actions s s' action ⟨h, hpushed⟩ hdrained hstep
  have hmoves := JournalState.moves_of_step hstep
  refine ⟨h.step hdrained hmoves, ?_⟩
  rw [h.pushed_eq hmoves, hpushed, List.flatMap_append, List.flatMap_singleton]

/-- Both queues are empty and nobody has anything in hand. -/
structure JournalState.Drained (s : JournalState C) : Prop where
  reqs : s.reqs.q = []
  thread : s.reqs.inHand = []
  jobs : s.cbWorkers.q = []
  workers : s.cbWorkers.inHand = []

/-- A drained journal has executed exactly the jobs of all requests. -/
theorem JournalState.Sound.jobs_perm (h : s.Sound) (hdrained : s.Drained) :
    (s.cbWorkers.handled.map Prod.snd).Perm (s.reqs.pushed.map EraseReq.cbReq) := by
  have hjobs := h.callbacks.handled_perm hdrained.jobs hdrained.workers
  have hreqs := h.reqs.handled_perm hdrained.reqs hdrained.thread
  rw [h.scheduled] at hjobs
  exact hjobs.trans (hreqs.map EraseReq.cbReq)

/-- When `~journal` has returned, the journal is drained. -/
theorem JournalState.Sound.drained_of_returned (h : s.Sound)
    (hreturned : s.reqs.stopping = .returned) : s.Drained := by
  obtain ⟨-, hreqs, hthread⟩ := h.reqs.returned hreturned
  obtain ⟨-, hjobs, hworkers⟩ := h.callbacks.returned (h.returned hreturned)
  constructor
  · exact hreqs
  · rw [Pool.inHand, hthread, List.flatMap_nil]
  · exact hjobs
  · rw [Pool.inHand, hworkers, List.flatMap_nil]

/-- **A shutdown that loses nothing.**  In every run in which the journal thread is done with all
requests when `~journal` closes the queue of the callback jobs, no job is pushed to the closed
queue and nothing aborts; and when `~journal` has returned, the job of each accepted request, one
for every call of `erase`, has been executed exactly once and has called a callback with the
request's owner and handle. -/
theorem shutdown_loses_nothing [DecidableEq C]
    (hrun : Run (JournalState.step checked) DrainedWhenClosed JournalState.start actions s) :
    s.reqs.pushed = actions.flatMap JournalAction.requested ∧ s.late = [] ∧ s.aborted = false ∧
      (s.reqs.stopping = .returned →
        (s.cbWorkers.handled.map Prod.snd).Perm (s.reqs.pushed.map EraseReq.cbReq) ∧
          (s.calls.map EraseSuccess.key).Perm (s.reqs.pushed.map EraseReq.key) ∧
          s.reqs.q = [] ∧ s.cbWorkers.q = []) := by
  obtain ⟨h, hpushed⟩ := JournalState.Sound.run hrun
  refine ⟨hpushed, h.onTime, h.running, fun hreturned => ?_⟩
  have hdrained := h.drained_of_returned hreturned
  have hjobs := h.jobs_perm hdrained
  refine ⟨hjobs, ?_, hdrained.reqs, hdrained.jobs⟩
  have hkeys := hjobs.map EraseCbReq.key
  rw [List.map_map, List.map_map] at hkeys
  rw [h.called]
  exact hkeys

end Runs

/-- A request of owner 1 for the handle 5, with the callback 100. -/
def oneRequest : EraseReq ℕ := ⟨1, 5, 100⟩

/-- The request is executed and answered before the destructor starts. -/
def orderlyShutdown : List (JournalAction ℕ) :=
  [.erase oneRequest none, .pop, .write, .worker 1, .schedule (some 1), .worker 1, .worker 1, .pop,
    .closeReqs, .closeCallbacks, .worker 0, .worker 1, .joinWorker, .joinWorker, .clearWorkers,
    .pop, .joinThread, .finish]

theorem shutdown_loses_nothing_oneRequest :
    ∃ s, Run (JournalState.step true) DrainedWhenClosed JournalState.start orderlyShutdown s ∧
      s.reqs.stopping = .returned ∧ s.calls = [⟨100, 1, 5⟩] ∧
      (s.cbWorkers.handled.map Prod.snd).Perm (s.reqs.pushed.map EraseReq.cbReq) := by
  have hdone : (performAll (JournalState.step true) DrainedWhenClosed JournalState.start
      orderlyShutdown).map (fun s => (s.reqs.stopping, s.calls)) =
      some (.returned, [⟨100, 1, 5⟩]) := by decide
  obtain ⟨s, hperformed, hstate⟩ := Option.map_eq_some_iff.mp hdone
  obtain ⟨hreturned, hcalls⟩ := Prod.mk.inj hstate
  have hrun := Run.start.performAll orderlyShutdown hperformed
  obtain ⟨-, -, -, hanswered⟩ := shutdown_loses_nothing hrun
  exact ⟨s, hrun, hreturned, hcalls, (hanswered hreturned).1⟩

/-- The destructor stops the callback workers before the journal thread has popped the request. -/
def hastyShutdown : List (JournalAction ℕ) :=
  [.erase oneRequest none, .closeReqs, .closeCallbacks, .worker 0, .worker 1, .joinWorker,
    .joinWorker, .clearWorkers, .pop, .write, .schedule none]

/-- The job is pushed to the closed queue.  With assertions the process is aborted there; without
them the destructor returns and the callback of the accepted request has not been called. -/
theorem shutdown_loses_callback :
    (∃ s, Run (JournalState.step true) anyAction JournalState.start hastyShutdown s ∧
        s.late = [oneRequest.cbReq] ∧ s.aborted = true) ∧
      ∃ s, Run (JournalState.step false) anyAction JournalState.start
          (hastyShutdown ++ [.pop, .joinThread, .finish]) s ∧
        s.late = [oneRequest.cbReq] ∧ s.reqs.stopping = .returned ∧
        s.reqs.pushed = [oneRequest] ∧ s.calls = [] := by
  have haborted : (performAll (JournalState.step true) anyAction JournalState.start
      hastyShutdown).map (fun s => (s.late, s.aborted)) =
      some ([oneRequest.cbReq], true) := by decide
  have hlost : (performAll (JournalState.step false) anyAction JournalState.start
      (hastyShutdown ++ [.pop, .joinThread, .finish])).map
        (fun s => (s.late, s.reqs.stopping, s.reqs.pushed, s.calls)) =
      some ([oneRequest.cbReq], .returned, [oneRequest], []) := by decide
  constructor
  · obtain ⟨s, hperformed, hstate⟩ := Option.map_eq_some_iff.mp haborted
    obtain ⟨hlate, habort⟩ := Prod.mk.inj hstate
    exact ⟨s, Run.start.performAll _ hperformed, hlate, habort⟩
  · obtain ⟨s, hperformed, hstate⟩ := Option.map_eq_some_iff.mp hlost
    simp only [Prod.mk.injEq] at hstate
    exact ⟨s, Run.start.performAll _ hperformed, hstate⟩

end Journal
end CoherentDB
