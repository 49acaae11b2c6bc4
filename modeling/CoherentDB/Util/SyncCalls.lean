import CoherentDB.Util.Completion
import CoherentDB.Util.WorkerPool

/-!
# Calls that wait for a worker

`sync_journal_wrapper` and `sync_file` make synchronous calls out of asynchronous ones in the same
way.  A call has a `completion` and a callback on its stack; it schedules a request on a worker
pool and waits.  A worker executes the request and then calls the callback, which stores the
result and completes the call.

A `Service` says what the requests do to what the workers share.  Calls are numbered, and a
request is the number of its call.  A step is a step of the pool or of the completion of a call,
or what a worker does with a request before the callback calls `complete`.

The history of a run has the calls, what the workers executed and the returns, in their order.
So the calls are linearizable when the history of every call is its `life`, where the request is
executed between the call and the return, and what was executed is `Legal` one after the other.
-/

namespace CoherentDB
namespace Util

open ListRange Runs

/-- What a thread does with a request, up to the call of `complete`. -/
inductive Effect (S R : Type)
  /-- It does not end in this way. -/
  | impossible
  /-- An assertion fails and aborts the process. -/
  | aborts
  | done (shared : S) (res : R)

/-- The requests on a state: O are the operations, R their results, and C what a thread does not
choose itself. -/
structure Service (O R S C : Type) where
  start : S
  /-- The operation is no request: its caller executes it while nobody else uses the service. -/
  direct : O → Bool
  /-- What the callers promise. -/
  Proper : O → Prop
  /-- The thread is a worker or, with no number, the caller. -/
  exec : S → Option ℕ → O → C → Effect S R

variable {O R S C : Type}

/-- The operations are possible one after the other with these results, and leave this state. -/
inductive Service.Legal (service : Service O R S C) : List (O × R) → S → Prop
  | start : Legal service [] service.start
  | exec {effects : List (O × R)} {shared shared' : S} {thread : Option ℕ} {op : O} {c : C}
      {res : R} (h : Legal service effects shared) (hproper : service.Proper op)
      (hexec : service.exec shared thread op c = .done shared' res) :
      Legal service (effects ++ [(op, res)]) shared'

/-- The users of the completion of a call. -/
inductive Party
  | caller
  | worker
  deriving DecidableEq

/-- A call with its completion and the result that the callback stores. -/
structure SyncCall (O R : Type) where
  op : O
  cmpl : ThreadCompletion Party
  res : Option R

namespace SyncCall

/-- A call that has scheduled its request and comes to `wait`. -/
def new (op : O) : SyncCall O R :=
  ⟨op, ThreadCompletion.start.setPlace .caller .testing, none⟩

variable (call : SyncCall O R)

/-- The callback has stored the result, and comes to `complete`. -/
def completing (res : R) : SyncCall O R :=
  { call with cmpl := call.cmpl.setPlace .worker .completing, res := some res }

def setCmpl (cmpl : ThreadCompletion Party) : SyncCall O R := { call with cmpl := cmpl }

def Returned : Prop := call.cmpl.places .caller = .outside

instance : Decidable call.Returned :=
  inferInstanceAs (Decidable (call.cmpl.places .caller = .outside))

end SyncCall

inductive SyncEvent (O R : Type)
  | invoked (i : ℕ) (op : O)
  | executed (i : ℕ) (op : O) (res : R)
  | returned (i : ℕ)
  | direct (op : O) (res : R)

namespace SyncEvent

def call? : SyncEvent O R → Option ℕ
  | .invoked i _ | .executed i _ _ | .returned i => some i
  | .direct _ _ => none

/-- What has been done to the state. -/
def effect? : SyncEvent O R → Option (O × R)
  | .executed _ op res | .direct op res => some (op, res)
  | .invoked _ _ | .returned _ => none

def executed? : SyncEvent O R → Option ℕ
  | .executed i _ _ => some i
  | .invoked _ _ | .returned _ | .direct _ _ => none

/-- The event is one of call `i`. -/
def about (i : ℕ) (e : SyncEvent O R) : Bool := decide (e.call? = some i)

end SyncEvent

/-- The events of a call, in their order. -/
def SyncCall.life (call : SyncCall O R) (i : ℕ) : List (SyncEvent O R) :=
  .invoked i call.op :: (call.res.toList.map (.executed i call.op) ++
    if call.Returned then [.returned i] else [])

/-- A service with its workers and the calls that have been made. -/
structure SyncSystem (O R S : Type) where
  shared : S
  pool : Pool ℕ
  calls : List (SyncCall O R)
  history : List (SyncEvent O R)
  aborted : Bool

inductive SyncAction (O C : Type)
  /-- A call, up to the end of `schedule_work`. -/
  | call (op : O) (woken : Option ℕ)
  /-- Worker `w` in `pop`, or returning from `handle`. -/
  | worker (w : ℕ)
  /-- A spurious wake-up of worker `w`. -/
  | wakeUpWorker (w : ℕ)
  /-- Worker `w` in `handle`, up to the completion. -/
  | execute (w : ℕ) (c : C)
  /-- A step of the completion of call `i`. -/
  | completion (i : ℕ) (action : CompletionAction Party)
  | direct (op : O) (c : C)
  /-- A step of `stop`. -/
  | stop (action : PoolAction ℕ)

/-- The steps that the two parties take after their calls of `wait` and `complete`. -/
def completionStep : CompletionAction Party → Bool
  | .test .caller | .wakeUp .caller | .set .worker | .notify .worker => true
  | .test .worker | .wakeUp .worker | .set .caller | .notify .caller => false
  | .wait _ | .complete _ | .reset => false

/-- The actions of `stop`. -/
def stopStep : PoolAction ℕ → Bool
  | .noMoreInput | .join | .clear => true
  | .scheduleWork _ _ | .advance _ | .wakeUp _ => false

/-- The return of the caller, where the step is one. -/
def returnEvents (i : ℕ) (action : CompletionAction Party) (cmpl : ThreadCompletion Party) :
    List (SyncEvent O R) :=
  if action = .test .caller ∧ cmpl.places .caller = .outside then [.returned i] else []

namespace SyncSystem

/-- The service right after its `n` workers have been started. -/
def start (service : Service O R S C) (n : ℕ) : SyncSystem O R S :=
  ⟨service.start, Pool.start n, [], [], false⟩

variable (service : Service O R S C) (s : SyncSystem O R S)

/-- A worker with a request that has not been executed. -/
def execute (w : ℕ) (c : C) : Worker ℕ → Option (SyncSystem O R S)
  | .handling i =>
      s.calls[i]?.bind fun call =>
        match call.res, service.exec s.shared (some w) call.op c with
        | none, .done shared res =>
            some { s with
              shared := shared
              calls := s.calls.set i (call.completing res)
              history := s.history ++ [.executed i call.op res] }
        | none, .aborts => some { s with aborted := true }
        | none, .impossible | some _, _ => none
  | .awake | .asleep | .finished => none

/-- A worker in `pop`, or after the callback. -/
def work (w : ℕ) : Worker ℕ → Option (SyncSystem O R S)
  | .awake => (s.pool.step (.advance w)).map fun pool => { s with pool := pool }
  | .handling i =>
      s.calls[i]?.bind fun call =>
        if call.res.isSome = true ∧ call.cmpl.places .worker = .outside then
          (s.pool.step (.advance w)).map fun pool => { s with pool := pool }
        else none
  | .asleep | .finished => none

/-- An operation in the thread of its caller. -/
def executeDirect (op : O) (c : C) : Option (SyncSystem O R S) :=
  match service.exec s.shared none op c with
  | .done shared res =>
      some { s with shared := shared, history := s.history ++ [.direct op res] }
  | .aborts => some { s with aborted := true }
  | .impossible => none

/-- One step of a process that has not been aborted. -/
def next : SyncAction O C → Option (SyncSystem O R S)
  | .call op woken =>
      if service.direct op then none
      else
        (s.pool.step (.scheduleWork s.calls.length woken)).map fun pool =>
          { s with
            pool := pool
            calls := s.calls ++ [.new op]
            history := s.history ++ [.invoked s.calls.length op] }
  | .worker w => s.pool.workers[w]?.bind (s.work w)
  | .wakeUpWorker w => (s.pool.step (.wakeUp w)).map fun pool => { s with pool := pool }
  | .execute w c => s.pool.workers[w]?.bind (s.execute service w c)
  | .completion i action =>
      if completionStep action then
        s.calls[i]?.bind fun call =>
          (call.cmpl.step action).map fun cmpl =>
            { s with
              calls := s.calls.set i (call.setCmpl cmpl)
              history := s.history ++ returnEvents i action cmpl }
      else none
  | .direct op c => if service.direct op then s.executeDirect service op c else none
  | .stop action =>
      if stopStep action then (s.pool.step action).map fun pool => { s with pool := pool }
      else none

/-- One step; none where the action is not possible. -/
def step (action : SyncAction O C) : Option (SyncSystem O R S) :=
  if s.aborted then none else s.next service action

/-- The callers keep their promises, and direct operations run while nobody else uses the
service. -/
def Allowed : SyncAction O C → Prop
  | .call op _ => service.Proper op
  | .direct op _ => service.Proper op ∧ ∀ call ∈ s.calls, call.Returned
  | .worker _ | .wakeUpWorker _ | .execute _ _ | .completion _ _ | .stop _ => True

end SyncSystem

/-! ### What a step can do -/

/-- Why an action aborts the process. -/
inductive SyncSystem.Fails (service : Service O R S C) (s : SyncSystem O R S) :
    SyncAction O C → Prop
  | request (i w : ℕ) (call : SyncCall O R) (c : C)
      (hw : s.pool.workers[w]? = some (.handling i)) (hcall : s.calls[i]? = some call)
      (hres : call.res = none) (hexec : service.exec s.shared (some w) call.op c = .aborts) :
      Fails service s (.execute w c)
  | direct (op : O) (c : C) (hdirect : service.direct op = true) (hproper : service.Proper op)
      (hexec : service.exec s.shared none op c = .aborts) : Fails service s (.direct op c)

/-- All that a step can do. -/
inductive SyncSystem.Moves (service : Service O R S C) (s : SyncSystem O R S) :
    SyncAction O C → SyncSystem O R S → Prop
  | call (op : O) (woken : Option ℕ) (pool : Pool ℕ) (hproper : service.Proper op)
      (hrequest : service.direct op = false)
      (hpool : s.pool.Moves (.scheduleWork s.calls.length woken) pool) :
      Moves service s (.call op woken)
        { s with
          pool := pool
          calls := s.calls ++ [.new op]
          history := s.history ++ [.invoked s.calls.length op] }
  | take (w : ℕ) (pool : Pool ℕ) (hw : s.pool.workers[w]? = some .awake)
      (hpool : s.pool.Moves (.advance w) pool) : Moves service s (.worker w) { s with pool := pool }
  | leave (w i : ℕ) (call : SyncCall O R) (pool : Pool ℕ)
      (hw : s.pool.workers[w]? = some (.handling i)) (hcall : s.calls[i]? = some call)
      (hres : call.res.isSome = true) (hplace : call.cmpl.places .worker = .outside)
      (hpool : s.pool.Moves (.advance w) pool) : Moves service s (.worker w) { s with pool := pool }
  | wakeUp (w : ℕ) (pool : Pool ℕ) (hpool : s.pool.Moves (.wakeUp w) pool) :
      Moves service s (.wakeUpWorker w) { s with pool := pool }
  | execute (w i : ℕ) (call : SyncCall O R) (c : C) (shared : S) (res : R)
      (hw : s.pool.workers[w]? = some (.handling i)) (hcall : s.calls[i]? = some call)
      (hres : call.res = none)
      (hexec : service.exec s.shared (some w) call.op c = .done shared res) :
      Moves service s (.execute w c)
        { s with
          shared := shared
          calls := s.calls.set i (call.completing res)
          history := s.history ++ [.executed i call.op res] }
  | completion (i : ℕ) (call : SyncCall O R) (action : CompletionAction Party)
      (cmpl : ThreadCompletion Party) (haction : completionStep action = true)
      (hcall : s.calls[i]? = some call) (hcmpl : call.cmpl.Moves action cmpl) :
      Moves service s (.completion i action)
        { s with
          calls := s.calls.set i (call.setCmpl cmpl)
          history := s.history ++ returnEvents i action cmpl }
  | direct (op : O) (c : C) (shared : S) (res : R) (hproper : service.Proper op)
      (hexec : service.exec s.shared none op c = .done shared res) :
      Moves service s (.direct op c)
        { s with shared := shared, history := s.history ++ [.direct op res] }
  | stop (action : PoolAction ℕ) (pool : Pool ℕ) (haction : stopStep action = true)
      (hpool : s.pool.Moves action pool) : Moves service s (.stop action) { s with pool := pool }
  | aborts (action : SyncAction O C) (hfails : s.Fails service action) :
      Moves service s action { s with aborted := true }

section Steps

variable {service : Service O R S C} {s s' : SyncSystem O R S} {action : SyncAction O C}

theorem SyncSystem.moves_of_execute {w i : ℕ} {c : C}
    (hw : s.pool.workers[w]? = some (.handling i))
    (h : s.execute service w c (.handling i) = some s') : s.Moves service (.execute w c) s' := by
  obtain ⟨call, hcall, h⟩ := Option.bind_eq_some_iff.mp h
  cases hres : call.res with
  | some res =>
      rw [hres] at h
      cases h
  | none =>
      rw [hres] at h
      cases hexec : service.exec s.shared (some w) call.op c with
      | impossible =>
          rw [hexec] at h
          cases h
      | aborts =>
          rw [hexec] at h
          obtain rfl := Option.some.inj h
          exact .aborts _ (.request i w call c hw hcall hres hexec)
      | done shared res =>
          rw [hexec] at h
          obtain rfl := Option.some.inj h
          exact .execute w i call c shared res hw hcall hres hexec

theorem SyncSystem.moves_of_work {w : ℕ} {worker : Worker ℕ}
    (hw : s.pool.workers[w]? = some worker) (h : s.work w worker = some s') :
    s.Moves service (.worker w) s' := by
  cases worker with
  | awake =>
      obtain ⟨pool, hpool, rfl⟩ := Option.map_eq_some_iff.mp h
      exact .take w pool hw (Pool.moves_of_step hpool)
  | handling i =>
      obtain ⟨call, hcall, h⟩ := Option.bind_eq_some_iff.mp h
      obtain ⟨⟨hres, hplace⟩, h⟩ := Option.ite_none_right_eq_some.mp h
      obtain ⟨pool, hpool, rfl⟩ := Option.map_eq_some_iff.mp h
      exact .leave w i call pool hw hcall hres hplace (Pool.moves_of_step hpool)
  | asleep | finished => cases h

theorem SyncSystem.moves_of_step (hallowed : s.Allowed service action)
    (hstep : s.step service action = some s') : s.Moves service action s' := by
  rw [SyncSystem.step] at hstep
  split_ifs at hstep
  cases action with
  | call op woken =>
      obtain ⟨hrequest, hstep⟩ := Option.ite_none_left_eq_some.mp hstep
      obtain ⟨pool, hpool, rfl⟩ := Option.map_eq_some_iff.mp hstep
      exact .call op woken pool hallowed (Bool.eq_false_iff.mpr hrequest)
        (Pool.moves_of_step hpool)
  | worker w =>
      obtain ⟨worker, hw, hwork⟩ := Option.bind_eq_some_iff.mp hstep
      exact SyncSystem.moves_of_work hw hwork
  | wakeUpWorker w =>
      obtain ⟨pool, hpool, rfl⟩ := Option.map_eq_some_iff.mp hstep
      exact .wakeUp w pool (Pool.moves_of_step hpool)
  | execute w c =>
      obtain ⟨worker, hw, hexecute⟩ := Option.bind_eq_some_iff.mp hstep
      cases worker with
      | handling i => exact SyncSystem.moves_of_execute hw hexecute
      | awake | asleep | finished => cases hexecute
  | completion i action =>
      obtain ⟨haction, hstep⟩ := Option.ite_none_right_eq_some.mp hstep
      obtain ⟨call, hcall, hstep⟩ := Option.bind_eq_some_iff.mp hstep
      obtain ⟨cmpl, hcmpl, rfl⟩ := Option.map_eq_some_iff.mp hstep
      exact .completion i call action cmpl haction hcall (ThreadCompletion.moves_of_step hcmpl)
  | direct op c =>
      obtain ⟨hdirect, hstep⟩ := Option.ite_none_right_eq_some.mp hstep
      rw [SyncSystem.executeDirect] at hstep
      cases hexec : service.exec s.shared none op c with
      | impossible =>
          rw [hexec] at hstep
          cases hstep
      | aborts =>
          rw [hexec] at hstep
          obtain rfl := Option.some.inj hstep
          exact .aborts _ (.direct op c hdirect hallowed.1 hexec)
      | done shared res =>
          rw [hexec] at hstep
          obtain rfl := Option.some.inj hstep
          exact .direct op c shared res hallowed.1 hexec
  | stop action =>
      obtain ⟨haction, hstep⟩ := Option.ite_none_right_eq_some.mp hstep
      obtain ⟨pool, hpool, rfl⟩ := Option.map_eq_some_iff.mp hstep
      exact .stop action pool haction (Pool.moves_of_step hpool)

end Steps

end Util
end CoherentDB
