import CoherentDB.Util.WorkerPool

/-!
# `journal`: erase requests and their callbacks

`journal::erase` pushes a request to `reqs`.  The journal thread pops it and executes it:
it notes the request in `erase_reqs` under its owner and handle, and schedules a callback
job with the two numbers.  A callback worker looks the request up and calls its callback.

`reqs` with the journal thread is a `Pool` with one worker, since the thread runs the
loop of `worker`, and `cb_workers` is a `Pool` with two.  The write to the map and the
`push` of the job are two steps of the journal thread.  The lookup and the call that it
decides on are one step of a callback worker.

The destructor closes `reqs`, stops `cb_workers` and joins the journal thread, in this
order.  So the queue of the callback jobs may be closed while the journal thread still
has requests.
-/

namespace CoherentDB
namespace Journal

open Debug Util Runs

/-- `owner_id_t` and `handle_t`: the key of the maps. -/
abbrev Key := UInt32 × UInt32

/-- `erase_req`; `C` are the callbacks. -/
structure EraseReq (C : Type) where
  owner : UInt32
  handle : UInt32
  cb : C
  deriving DecidableEq

def EraseReq.key {C : Type} (req : EraseReq C) : Key := (req.owner, req.handle)

/-- `erase_cb_req`.  The journal does not know the `origin`, the request that the job was
scheduled for. -/
structure EraseCbReq (C : Type) where
  owner : UInt32
  handle : UInt32
  origin : EraseReq C
  deriving DecidableEq

def EraseCbReq.key {C : Type} (job : EraseCbReq C) : Key := (job.owner, job.handle)

/-- The job that `erase_req::execute` schedules. -/
def EraseReq.cbReq {C : Type} (req : EraseReq C) : EraseCbReq C := ⟨req.owner, req.handle, req⟩

/-- A call of `erase_cb::erase_success`. -/
structure EraseSuccess (C : Type) where
  cb : C
  owner : UInt32
  handle : UInt32
  deriving DecidableEq

def EraseSuccess.key {C : Type} (call : EraseSuccess C) : Key := (call.owner, call.handle)

/-- The call that a request should get. -/
def EraseReq.success {C : Type} (req : EraseReq C) : EraseSuccess C :=
  ⟨req.cb, req.owner, req.handle⟩

/-- A `journal`.  `written` is the request that the journal thread has noted in the map and not
scheduled a job for; `calls` and `late` are histories: the calls of callbacks, and the jobs that
were pushed to the closed queue. -/
structure JournalState (C : Type) where
  reqs : Pool (EraseReq C)
  written : Option (EraseReq C)
  eraseReqs : Key → Option (EraseReq C)
  cbWorkers : Pool (EraseCbReq C)
  calls : List (EraseSuccess C)
  late : List (EraseCbReq C)
  aborted : Bool

/-- One step. -/
inductive JournalAction (C : Type)
  /-- `journal::erase`, which notifies the journal thread if it is asleep. -/
  | erase (req : EraseReq C) (woken : Option ℕ)
  /-- The journal thread in `reqs.pop`. -/
  | pop
  /-- A spurious wake-up of the journal thread. -/
  | wakeUp
  /-- `erase_req::execute` writes to the map. -/
  | write
  /-- `erase_req::execute` calls `schedule_work` and returns. -/
  | schedule (woken : Option ℕ)
  /-- Callback worker `i` in `pop`, or in `handle`. -/
  | worker (i : ℕ)
  /-- A spurious wake-up of callback worker `i`. -/
  | wakeUpWorker (i : ℕ)
  /-- `~journal` calls `reqs.no_more_input`. -/
  | closeReqs
  /-- `cb_workers.stop` calls `no_more_input`. -/
  | closeCallbacks
  /-- `cb_workers.stop` has joined a worker. -/
  | joinWorker
  /-- `cb_workers.stop` clears the workers and returns. -/
  | clearWorkers
  /-- `j_thread->join` returns. -/
  | joinThread
  /-- `~journal` deletes the thread and returns. -/
  | finish
  deriving DecidableEq

/-- The request of a call of `erase`. -/
def JournalAction.requested {C : Type} : JournalAction C → List (EraseReq C)
  | .erase req _ => [req]
  | _ => []

namespace JournalState

variable {C : Type}

/-- A `journal` right after its constructor. -/
def start : JournalState C := ⟨Pool.start 1, none, fun _ => none, Pool.start 2, [], [], false⟩

variable (s : JournalState C)

/-- `get_map_val` for `erase_reqs`. -/
def getMapVal (key : Key) : Except Failure (EraseReq C) :=
  match s.eraseReqs key with
  | some req => .ok req
  | none => .error .assertion

/-- `erase_cb_req::execute`, up to the call that it makes. -/
def execute (job : EraseCbReq C) : Except Failure (EraseSuccess C) := do
  let req ← s.getMapVal (job.owner, job.handle)
  dAssert (req.owner = job.owner)
  return ⟨req.cb, req.owner, req.handle⟩

/-- The journal thread in `erase_req::execute`, before the write to the map. -/
def write : Worker (EraseReq C) → Option (JournalState C)
  | .handling req =>
      if s.written.isNone then
        some { s with
          written := some req
          eraseReqs := Function.update s.eraseReqs req.key (some req) }
      else none
  | .awake | .asleep | .finished => none

/-- `sync_queue::push` of a job, where assertions are compiled in or not. -/
def push (checked : Bool) (job : EraseCbReq C) : Except Failure (Pool (EraseCbReq C)) :=
  if checked then s.cbWorkers.push job
  else .ok { s.cbWorkers with
    q := s.cbWorkers.q ++ [job]
    pushed := s.cbWorkers.pushed ++ [job] }

/-- The rest of `erase_req::execute` after the write to the map. -/
def schedule (checked : Bool) (req : EraseReq C) (woken : Option ℕ) : Option (JournalState C) :=
  let late := if s.cbWorkers.noMoreData then s.late ++ [req.cbReq] else s.late
  match s.push checked req.cbReq with
  | .error _ => some { s with late := late, aborted := true }
  | .ok cbWorkers => do
      let cbWorkers ← cbWorkers.notifyOne woken
      let reqs ← s.reqs.step (.advance 0)
      some { s with reqs := reqs, written := none, cbWorkers := cbWorkers, late := late }

/-- A callback worker that has nothing in its hands takes its next step in `pop`; one with a job
executes it and returns from `handle`. -/
def work (i : ℕ) : Worker (EraseCbReq C) → Option (JournalState C)
  | .handling job =>
      match s.execute job with
      | .error _ => some { s with aborted := true }
      | .ok call => do
          let cbWorkers ← s.cbWorkers.step (.advance i)
          some { s with cbWorkers := cbWorkers, calls := s.calls ++ [call] }
  | .awake => (s.cbWorkers.step (.advance i)).map fun cbWorkers => { s with cbWorkers := cbWorkers }
  | .asleep | .finished => none

/-- A step of the `reqs` queue or the journal thread in it. -/
def stepReqs (action : PoolAction (EraseReq C)) : Option (JournalState C) :=
  (s.reqs.step action).map fun reqs => { s with reqs := reqs }

/-- A step of `cb_workers`. -/
def stepCallbacks (action : PoolAction (EraseCbReq C)) : Option (JournalState C) :=
  (s.cbWorkers.step action).map fun cbWorkers => { s with cbWorkers := cbWorkers }

/-- One step of a process that has not been aborted. -/
def next [DecidableEq C] (checked : Bool) : JournalAction C → Option (JournalState C)
  | .erase req woken => s.stepReqs (.scheduleWork req woken)
  | .pop => if s.reqs.workers[0]? = some .awake then s.stepReqs (.advance 0) else none
  | .wakeUp => s.stepReqs (.wakeUp 0)
  | .write => s.reqs.workers[0]?.bind s.write
  | .schedule woken => do
      let req ← s.written
      if s.reqs.workers[0]? = some (.handling req) then s.schedule checked req woken else none
  | .worker i => s.cbWorkers.workers[i]?.bind (s.work i)
  | .wakeUpWorker i => s.stepCallbacks (.wakeUp i)
  | .closeReqs => s.stepReqs .noMoreInput
  -- The destructor comes to each of its steps after the one before.
  | .closeCallbacks =>
      if s.reqs.stopping = .notCalled then none else s.stepCallbacks .noMoreInput
  | .joinWorker => s.stepCallbacks .join
  | .clearWorkers => s.stepCallbacks .clear
  | .joinThread => if s.cbWorkers.stopping = .returned then s.stepReqs .join else none
  | .finish => if s.cbWorkers.stopping = .returned then s.stepReqs .clear else none

/-- One step; none where the action is not possible. -/
def step [DecidableEq C] (checked : Bool) (s : JournalState C) (action : JournalAction C) :
    Option (JournalState C) :=
  if s.aborted then none else s.next checked action

end JournalState

/-- All that a step can do.  What happens with a job that is pushed to the closed queue is left
open. -/
inductive JournalState.Moves {C : Type} (s : JournalState C) : JournalAction C → JournalState C → Prop
  | erase (req : EraseReq C) (woken : Option ℕ) (reqs : Pool (EraseReq C))
      (hreqs : s.reqs.Moves (.scheduleWork req woken) reqs) :
      Moves s (.erase req woken) { s with reqs := reqs }
  | pop (reqs : Pool (EraseReq C)) (hi : s.reqs.workers[0]? = some .awake)
      (hreqs : s.reqs.Moves (.advance 0) reqs) : Moves s .pop { s with reqs := reqs }
  | wakeUp (reqs : Pool (EraseReq C)) (hreqs : s.reqs.Moves (.wakeUp 0) reqs) :
      Moves s .wakeUp { s with reqs := reqs }
  | write (req : EraseReq C) (hi : s.reqs.workers[0]? = some (.handling req))
      (hwritten : s.written = none) :
      Moves s .write
        { s with
          written := some req
          eraseReqs := Function.update s.eraseReqs req.key (some req) }
  | schedule (req : EraseReq C) (woken : Option ℕ) (reqs : Pool (EraseReq C))
      (cbWorkers : Pool (EraseCbReq C)) (hwritten : s.written = some req)
      (hi : s.reqs.workers[0]? = some (.handling req))
      (hcallbacks : s.cbWorkers.Moves (.scheduleWork req.cbReq woken) cbWorkers)
      (hreqs : s.reqs.Moves (.advance 0) reqs) :
      Moves s (.schedule woken) { s with reqs := reqs, written := none, cbWorkers := cbWorkers }
  | scheduleLate (req : EraseReq C) (woken : Option ℕ) (s' : JournalState C)
      (hi : s.reqs.workers[0]? = some (.handling req)) (hclosed : s.cbWorkers.noMoreData = true) :
      Moves s (.schedule woken) s'
  | take (i : ℕ) (cbWorkers : Pool (EraseCbReq C)) (hi : s.cbWorkers.workers[i]? = some .awake)
      (hcallbacks : s.cbWorkers.Moves (.advance i) cbWorkers) :
      Moves s (.worker i) { s with cbWorkers := cbWorkers }
  | execute (i : ℕ) (job : EraseCbReq C) (call : EraseSuccess C)
      (cbWorkers : Pool (EraseCbReq C)) (hi : s.cbWorkers.workers[i]? = some (.handling job))
      (hcall : s.execute job = .ok call) (hcallbacks : s.cbWorkers.Moves (.advance i) cbWorkers) :
      Moves s (.worker i) { s with cbWorkers := cbWorkers, calls := s.calls ++ [call] }
  | executeFails (i : ℕ) (job : EraseCbReq C) (failure : Failure)
      (hi : s.cbWorkers.workers[i]? = some (.handling job))
      (hcall : s.execute job = .error failure) : Moves s (.worker i) { s with aborted := true }
  | wakeUpWorker (i : ℕ) (cbWorkers : Pool (EraseCbReq C))
      (hcallbacks : s.cbWorkers.Moves (.wakeUp i) cbWorkers) :
      Moves s (.wakeUpWorker i) { s with cbWorkers := cbWorkers }
  | closeReqs (reqs : Pool (EraseReq C)) (hreqs : s.reqs.Moves .noMoreInput reqs) :
      Moves s .closeReqs { s with reqs := reqs }
  | closeCallbacks (cbWorkers : Pool (EraseCbReq C)) (hstop : s.reqs.stopping ≠ .notCalled)
      (hcallbacks : s.cbWorkers.Moves .noMoreInput cbWorkers) :
      Moves s .closeCallbacks { s with cbWorkers := cbWorkers }
  | joinWorker (cbWorkers : Pool (EraseCbReq C)) (hcallbacks : s.cbWorkers.Moves .join cbWorkers) :
      Moves s .joinWorker { s with cbWorkers := cbWorkers }
  | clearWorkers (cbWorkers : Pool (EraseCbReq C))
      (hcallbacks : s.cbWorkers.Moves .clear cbWorkers) :
      Moves s .clearWorkers { s with cbWorkers := cbWorkers }
  | joinThread (reqs : Pool (EraseReq C)) (hstopped : s.cbWorkers.stopping = .returned)
      (hreqs : s.reqs.Moves .join reqs) : Moves s .joinThread { s with reqs := reqs }
  | finish (reqs : Pool (EraseReq C)) (hstopped : s.cbWorkers.stopping = .returned)
      (hreqs : s.reqs.Moves .clear reqs) : Moves s .finish { s with reqs := reqs }

section Steps

variable {C : Type} {checked : Bool} {s s' : JournalState C} {action : JournalAction C}

theorem JournalState.stepReqs_eq_some {action : PoolAction (EraseReq C)}
    (h : s.stepReqs action = some s') :
    ∃ reqs, s.reqs.Moves action reqs ∧ s' = { s with reqs := reqs } := by
  obtain ⟨reqs, hstep, rfl⟩ := Option.map_eq_some_iff.mp h
  exact ⟨reqs, Pool.moves_of_step hstep, rfl⟩

theorem JournalState.stepCallbacks_eq_some {action : PoolAction (EraseCbReq C)}
    (h : s.stepCallbacks action = some s') :
    ∃ cbWorkers, s.cbWorkers.Moves action cbWorkers ∧ s' = { s with cbWorkers := cbWorkers } := by
  obtain ⟨cbWorkers, hstep, rfl⟩ := Option.map_eq_some_iff.mp h
  exact ⟨cbWorkers, Pool.moves_of_step hstep, rfl⟩

/-- The queue is open: then `push` does the same with and without assertions. -/
theorem JournalState.push_of_open (hopen : s.cbWorkers.noMoreData = false) (job : EraseCbReq C) :
    s.push checked job = s.cbWorkers.push job := by
  rw [JournalState.push]
  split_ifs with hchecked
  · rfl
  · rw [Pool.push, dAssert_of hopen]
    rfl

theorem JournalState.moves_of_schedule {req : EraseReq C} {woken : Option ℕ}
    (hwritten : s.written = some req) (hi : s.reqs.workers[0]? = some (.handling req))
    (h : s.schedule checked req woken = some s') : s.Moves (.schedule woken) s' := by
  by_cases hclosed : s.cbWorkers.noMoreData = true
  · exact .scheduleLate req woken s' hi hclosed
  · have hopen : s.cbWorkers.noMoreData = false := Bool.eq_false_iff.mpr hclosed
    simp only [JournalState.schedule, JournalState.push_of_open hopen] at h
    cases hpush : s.cbWorkers.push req.cbReq with
    | error failure =>
        rw [Pool.push, dAssert_of hopen] at hpush
        cases hpush
    | ok pushed =>
        rw [hpush] at h
        obtain ⟨cbWorkers, hnotify, h⟩ := Option.bind_eq_some_iff.mp h
        obtain ⟨reqs, hreqs, h⟩ := Option.bind_eq_some_iff.mp h
        have hstep : s.cbWorkers.step (.scheduleWork req.cbReq woken) = some cbWorkers := by
          rw [Pool.step, hpush]
          exact hnotify
        obtain rfl := Option.some.inj h
        rw [if_neg hclosed]
        exact .schedule req woken reqs cbWorkers hwritten hi (Pool.moves_of_step hstep)
          (Pool.moves_of_step hreqs)

theorem JournalState.moves_of_work {i : ℕ} {w : Worker (EraseCbReq C)}
    (hi : s.cbWorkers.workers[i]? = some w) (h : s.work i w = some s') :
    s.Moves (.worker i) s' := by
  cases w with
  | awake =>
      obtain ⟨cbWorkers, hmoves, rfl⟩ := JournalState.stepCallbacks_eq_some h
      exact .take i cbWorkers hi hmoves
  | handling job =>
      simp only [JournalState.work] at h
      cases hcall : s.execute job with
      | error failure =>
          rw [hcall] at h
          obtain rfl := Option.some.inj h
          exact .executeFails i job failure hi hcall
      | ok call =>
          rw [hcall] at h
          obtain ⟨cbWorkers, hstep, h⟩ := Option.bind_eq_some_iff.mp h
          obtain rfl := Option.some.inj h
          exact .execute i job call cbWorkers hi hcall (Pool.moves_of_step hstep)
  | asleep | finished => cases h

theorem JournalState.moves_of_step [DecidableEq C] (hstep : s.step checked action = some s') :
    s.Moves action s' := by
  rw [JournalState.step] at hstep
  split_ifs at hstep
  cases action with
  | erase req woken =>
      obtain ⟨reqs, hmoves, rfl⟩ := JournalState.stepReqs_eq_some hstep
      exact .erase req woken reqs hmoves
  | pop =>
      simp only [JournalState.next] at hstep
      split_ifs at hstep with hi
      obtain ⟨reqs, hmoves, rfl⟩ := JournalState.stepReqs_eq_some hstep
      exact .pop reqs hi hmoves
  | wakeUp =>
      obtain ⟨reqs, hmoves, rfl⟩ := JournalState.stepReqs_eq_some hstep
      exact .wakeUp reqs hmoves
  | write =>
      obtain ⟨w, hi, hwrite⟩ := Option.bind_eq_some_iff.mp hstep
      cases w with
      | handling req =>
          simp only [JournalState.write] at hwrite
          split_ifs at hwrite with hwritten
          obtain rfl := Option.some.inj hwrite
          exact .write req hi (Option.isNone_iff_eq_none.mp hwritten)
      | awake | asleep | finished => cases hwrite
  | schedule woken =>
      obtain ⟨req, hwritten, hnext⟩ := Option.bind_eq_some_iff.mp hstep
      split_ifs at hnext with hi
      exact JournalState.moves_of_schedule hwritten hi hnext
  | worker i =>
      obtain ⟨w, hi, hwork⟩ := Option.bind_eq_some_iff.mp hstep
      exact JournalState.moves_of_work hi hwork
  | wakeUpWorker i =>
      obtain ⟨cbWorkers, hmoves, rfl⟩ := JournalState.stepCallbacks_eq_some hstep
      exact .wakeUpWorker i cbWorkers hmoves
  | closeReqs =>
      obtain ⟨reqs, hmoves, rfl⟩ := JournalState.stepReqs_eq_some hstep
      exact .closeReqs reqs hmoves
  | closeCallbacks =>
      simp only [JournalState.next] at hstep
      split_ifs at hstep with hstop
      obtain ⟨cbWorkers, hmoves, rfl⟩ := JournalState.stepCallbacks_eq_some hstep
      exact .closeCallbacks cbWorkers hstop hmoves
  | joinWorker =>
      obtain ⟨cbWorkers, hmoves, rfl⟩ := JournalState.stepCallbacks_eq_some hstep
      exact .joinWorker cbWorkers hmoves
  | clearWorkers =>
      obtain ⟨cbWorkers, hmoves, rfl⟩ := JournalState.stepCallbacks_eq_some hstep
      exact .clearWorkers cbWorkers hmoves
  | joinThread =>
      simp only [JournalState.next] at hstep
      split_ifs at hstep with hstopped
      obtain ⟨reqs, hmoves, rfl⟩ := JournalState.stepReqs_eq_some hstep
      exact .joinThread reqs hstopped hmoves
  | finish =>
      simp only [JournalState.next] at hstep
      split_ifs at hstep with hstopped
      obtain ⟨reqs, hmoves, rfl⟩ := JournalState.stepReqs_eq_some hstep
      exact .finish reqs hstopped hmoves

end Steps

end Journal
end CoherentDB
