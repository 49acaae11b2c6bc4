import CoherentDB.Lib.ListRange
import CoherentDB.Lib.Runs

/-!
# `queue` and `thread_pool`

`queue::push` leaves its critical section before it notifies, so that a worker can find the
element, or find the queue empty again, before the notification comes.  A step here is one
critical section, one notification, one return of a task or one request of `interrupt`; between
two steps of a thread any other thread may take its own.

A task may schedule further tasks while it runs (`defer`), and what is left of it after a step
is again a task.  `taken` is a history: the tasks that `pop` has returned, with the worker.

Each worker keeps the pool in `my_thread_pool`, a `thread_specific_ptr` with the default cleanup:
a worker that follows a request to end deletes the pool that all of them use.  No step comes after
that one.

`tasks_in_order` says that tasks are started once each and in the order in which they were
scheduled, and that no wake-up is lost as long as no worker has ended.
-/

namespace CoherentDB
namespace NetServer

open ListRange

variable {T : Type}

/-- Where a worker is in `worker_thread_body`. -/
inductive WorkerPlace (T : Type)
  /-- About to come to `interruption_point`. -/
  | loop
  /-- In `pop`, about to lock the queue, for the first time or after a wake-up. -/
  | popping
  /-- In `condition.wait` with no notification for it. -/
  | waiting
  /-- In `condition.wait`, woken by a request to end. -/
  | interruptedWait
  | running (task : T)
  | ended
  deriving DecidableEq

/-- A thread of the pool; `interrupted` is the request to end that it has not followed. -/
structure WorkerThread (T : Type) where
  place : WorkerPlace T
  interrupted : Bool
  deriving DecidableEq

/-- A `thread_pool` with its `task_queue`.  `notifying` counts the calls of `push` that have
left their critical section and have not notified; `deleted` says that a worker has ended. -/
structure ThreadPool (T : Type) where
  threadsNum : ℤ
  container : List T
  notifying : ℕ
  workers : List (WorkerThread T)
  taken : List (ℕ × T)
  deleted : Bool
  deriving DecidableEq

/-- One step of the system. -/
inductive ThreadPoolAction (T : Type)
  | run
  /-- `interrupt` comes to the worker `i`. -/
  | interrupt (i : ℕ)
  /-- The critical section of the `push` of `schedule`, from any thread. -/
  | schedule (task : T)
  /-- `notify_one` reaches the worker `woken`, if any waits. -/
  | notify (woken : Option ℕ)
  /-- The worker `i` takes its next step. -/
  | advance (i : ℕ)
  /-- The task of the worker `i` does a step after which `task` is left of it. -/
  | goOn (i : ℕ) (task : T)
  /-- The task of the worker `i` comes to an interruption point of its own. -/
  | unwind (i : ℕ)
  /-- A spurious wake-up of the worker `i`. -/
  | wakeUp (i : ℕ)
  deriving DecidableEq

/-- The tasks that an action schedules. -/
def ThreadPoolAction.scheduled : ThreadPoolAction T → List T
  | .schedule task => [task]
  | .run | .interrupt _ | .notify _ | .advance _ | .goOn _ _ | .unwind _ | .wakeUp _ => []

def WorkerPlace.isWaiting : WorkerPlace T → Bool
  | .waiting => true
  | .loop | .popping | .interruptedWait | .running _ | .ended => false

namespace ThreadPool

/-- The constructor. -/
def constructed (poolSize : ℤ) : ThreadPool T := ⟨poolSize, [], 0, [], [], false⟩

variable (p : ThreadPool T)

def setWorker (i : ℕ) (w : WorkerThread T) : ThreadPool T :=
  { p with workers := p.workers.set i w }

/-- The worker `i` ends, and its cleanup deletes the pool. -/
def endWorker (i : ℕ) : ThreadPool T := { p.setWorker i ⟨.ended, false⟩ with deleted := true }

/-- `thread_pool::run`. -/
def run : ThreadPool T :=
  { p with workers := p.workers ++ List.replicate p.threadsNum.toNat ⟨.loop, false⟩ }

/-- A request to end; it wakes a thread that waits. -/
def interrupt (i : ℕ) (w : WorkerThread T) : ThreadPool T :=
  p.setWorker i ⟨if w.place.isWaiting then .interruptedWait else w.place, true⟩

/-- `condition.notify_one`; none where it cannot reach this worker. -/
def notifyOne : Option ℕ → Option (ThreadPool T)
  | none => if p.workers.any fun w => w.place.isWaiting then none else some p
  | some i =>
      match p.workers[i]? with
      | some ⟨.waiting, interrupted⟩ => some (p.setWorker i ⟨.popping, interrupted⟩)
      | _ => none

/-- The next step of the worker `i`; none where it has to wait for another thread. -/
def advance (i : ℕ) (w : WorkerThread T) : Option (ThreadPool T) :=
  match w.place with
  | .loop =>
      some (if w.interrupted then p.endWorker i else p.setWorker i { w with place := .popping })
  | .popping =>
      match p.container with
      | task :: rest =>
          some { p with
            container := rest
            workers := p.workers.set i { w with place := .running task }
            taken := p.taken ++ [(i, task)] }
      -- `wait` looks for a request to end before it blocks.
      | [] =>
          some (if w.interrupted then p.endWorker i else p.setWorker i { w with place := .waiting })
  | .interruptedWait => some (p.endWorker i)
  | .running _ => some (p.setWorker i { w with place := .loop })
  | .waiting | .ended => none

/-- One step of a pool that has not been deleted; none where the action is not possible. -/
def next : ThreadPoolAction T → Option (ThreadPool T)
  | .run => some p.run
  | .interrupt i => p.workers[i]?.map (p.interrupt i)
  | .schedule task =>
      some { p with container := p.container ++ [task], notifying := p.notifying + 1 }
  | .notify woken =>
      match p.notifying with
      | 0 => none
      | notifying + 1 => notifyOne { p with notifying := notifying } woken
  | .advance i => p.workers[i]?.bind (p.advance i)
  | .goOn i task =>
      match p.workers[i]? with
      | some ⟨.running _, interrupted⟩ => some (p.setWorker i ⟨.running task, interrupted⟩)
      | _ => none
  | .unwind i =>
      match p.workers[i]? with
      | some ⟨.running _, true⟩ => some (p.endWorker i)
      | _ => none
  | .wakeUp i =>
      match p.workers[i]? with
      | some ⟨.waiting, interrupted⟩ => some (p.setWorker i ⟨.popping, interrupted⟩)
      | _ => none

/-- One step. -/
def step (action : ThreadPoolAction T) : Option (ThreadPool T) :=
  if p.deleted then none else p.next action

end ThreadPool

/-- A `join_point`.  Nobody joins so often that the `int` of the counter would overflow. -/
structure JoinPoint (T : Type) where
  counter : ℤ
  callback : T
  deriving DecidableEq

/-- The critical section of `join` and of `lazy_join`, with the callback if it is its turn: the
first runs it in the section, the second defers it there. -/
def JoinPoint.join (j : JoinPoint T) : JoinPoint T × Option T :=
  let joined := { j with counter := j.counter - 1 }
  (joined, if joined.counter = 0 then some j.callback else none)

/-- The task that a worker has taken and not returned from. -/
def WorkerPlace.tasks : WorkerPlace T → List T
  | .running task => [task]
  | .loop | .popping | .waiting | .interruptedWait | .ended => []

/-- A worker that is going to look into the queue counts once. -/
def WorkerPlace.looks : WorkerPlace T → ℕ
  | .popping => 1
  | .loop | .waiting | .interruptedWait | .running _ | .ended => 0

/-- The tasks that workers are running. -/
def ThreadPool.inHand (p : ThreadPool T) : List T := p.workers.flatMap fun w => w.place.tasks

/-- The number of workers that are going to look into the queue. -/
def ThreadPool.looking (p : ThreadPool T) : ℕ := (p.workers.map fun w => w.place.looks).sum

/-- The tasks that are in the queue or running. -/
def ThreadPool.tasks (p : ThreadPool T) : Multiset T := ↑(p.container ++ p.inHand)

/-- All that a step can do. -/
inductive ThreadPool.Moves (p : ThreadPool T) : ThreadPoolAction T → ThreadPool T → Prop
  | run : Moves p .run p.run
  | schedule (task : T) :
      Moves p (.schedule task)
        { p with container := p.container ++ [task], notifying := p.notifying + 1 }
  | notifyNone (n : ℕ) (hn : p.notifying = n + 1)
      (hnone : ∀ w ∈ p.workers, w.place.isWaiting = false) :
      Moves p (.notify none) { p with notifying := n }
  | notify (n i : ℕ) (hn : p.notifying = n + 1) (w : WorkerThread T)
      (hi : p.workers[i]? = some w) (hplace : w.place = .waiting) :
      Moves p (.notify (some i))
        { p with notifying := n, workers := p.workers.set i { w with place := .popping } }
  | take (i : ℕ) (w : WorkerThread T) (task : T) (rest : List T)
      (hi : p.workers[i]? = some w) (hplace : w.place = .popping)
      (hqueue : p.container = task :: rest) :
      Moves p (.advance i)
        { p with
          container := rest
          workers := p.workers.set i { w with place := .running task }
          taken := p.taken ++ [(i, task)] }
  | wait (i : ℕ) (w : WorkerThread T) (hi : p.workers[i]? = some w) (hplace : w.place = .popping)
      (hempty : p.container = []) : Moves p (.advance i) (p.setWorker i { w with place := .waiting })
  | goOn (i : ℕ) (w : WorkerThread T) (old task : T) (hi : p.workers[i]? = some w)
      (hplace : w.place = .running old) :
      Moves p (.goOn i task) (p.setWorker i { w with place := .running task })
  | returns (i : ℕ) (w : WorkerThread T) (task : T) (hi : p.workers[i]? = some w)
      (hplace : w.place = .running task) :
      Moves p (.advance i) (p.setWorker i { w with place := .loop })
  | unwind (i : ℕ) (w : WorkerThread T) (task : T) (hi : p.workers[i]? = some w)
      (hplace : w.place = .running task) : Moves p (.unwind i) (p.endWorker i)
  | ends (i : ℕ) (w : WorkerThread T) (hi : p.workers[i]? = some w) (htasks : w.place.tasks = [])
      (hlooks : w.place.looks = 0 ∨ p.container = []) : Moves p (.advance i) (p.endWorker i)
  /-- A step that changes neither the queue nor what the worker runs.  It leaves the queue to
  the other workers only if it is empty. -/
  | other (action : ThreadPoolAction T) (i : ℕ) (w w' : WorkerThread T)
      (hscheduled : action.scheduled = []) (hi : p.workers[i]? = some w)
      (htasks : w'.place.tasks = w.place.tasks) (hwait : w'.place.isWaiting = false)
      (hlooks : w.place.looks ≤ w'.place.looks ∨ p.container = []) :
      Moves p action (p.setWorker i w')

section Moves

variable {p p' : ThreadPool T} {action : ThreadPoolAction T} {i : ℕ} {w : WorkerThread T}

/-- A request to end leaves a running task and a place in `pop` as they are. -/
theorem ThreadPool.moves_interrupt (hi : p.workers[i]? = some w) :
    p.Moves (.interrupt i) (p.interrupt i w) := by
  obtain ⟨place, interrupted⟩ := w
  cases place with
  | waiting => exact .other _ i _ _ rfl hi rfl rfl (.inl le_rfl)
  | loop | popping | interruptedWait | running | ended =>
      exact .other _ i _ _ rfl hi rfl rfl (.inl le_rfl)

theorem ThreadPool.moves_advance (hi : p.workers[i]? = some w)
    (hstep : p.advance i w = some p') : p.Moves (.advance i) p' := by
  obtain ⟨place, interrupted⟩ := w
  cases place with
  | loop =>
      obtain rfl := Option.some.inj hstep
      cases interrupted with
      | true => exact .ends i _ hi rfl (.inl rfl)
      | false => exact .other _ i _ _ rfl hi rfl rfl (.inl (Nat.zero_le 1))
  | popping =>
      rw [ThreadPool.advance] at hstep
      cases hqueue : p.container with
      | cons task rest =>
          rw [hqueue] at hstep
          obtain rfl := Option.some.inj hstep
          exact .take i _ task rest hi rfl hqueue
      | nil =>
          rw [hqueue] at hstep
          obtain rfl := Option.some.inj hstep
          cases interrupted with
          | true => exact .ends i _ hi rfl (.inr hqueue)
          | false => exact .wait i _ hi rfl hqueue
  | waiting => cases hstep
  | interruptedWait =>
      obtain rfl := Option.some.inj hstep
      exact .ends i _ hi rfl (.inl rfl)
  | running task =>
      obtain rfl := Option.some.inj hstep
      exact .returns i _ task hi rfl
  | ended => cases hstep

theorem ThreadPool.step_eq_some :
    p.step action = some p' ↔ p.deleted = false ∧ p.next action = some p' := by
  rw [ThreadPool.step, Option.ite_none_left_eq_some, Bool.not_eq_true]

theorem ThreadPool.moves_notify {woken : Option ℕ} (hstep : p.next (.notify woken) = some p') :
    p.Moves (.notify woken) p' := by
  rw [ThreadPool.next] at hstep
  cases hn : p.notifying with
  | zero =>
      rw [hn] at hstep
      cases hstep
  | succ n =>
      rw [hn] at hstep
      cases woken with
      | none =>
          simp only [ThreadPool.notifyOne] at hstep
          split_ifs at hstep with hany
          obtain rfl := Option.some.inj hstep
          refine .notifyNone n hn fun w hw => ?_
          by_contra hwaits
          exact hany (List.any_eq_true.mpr ⟨w, hw, Bool.eq_true_of_not_eq_false hwaits⟩)
      | some i =>
          simp only [ThreadPool.notifyOne] at hstep
          split at hstep
          · rename_i interrupted hi
            obtain rfl := Option.some.inj hstep
            exact .notify n i hn _ hi rfl
          · cases hstep

theorem ThreadPool.moves_of_step (hstep : p.step action = some p') : p.Moves action p' := by
  obtain ⟨-, hstep⟩ := ThreadPool.step_eq_some.mp hstep
  cases action with
  | run =>
      obtain rfl := Option.some.inj hstep
      exact .run
  | interrupt i =>
      obtain ⟨w, hi, rfl⟩ := Option.map_eq_some_iff.mp hstep
      exact ThreadPool.moves_interrupt hi
  | schedule task =>
      obtain rfl := Option.some.inj hstep
      exact .schedule task
  | notify woken => exact ThreadPool.moves_notify hstep
  | advance i =>
      obtain ⟨w, hi, hadvance⟩ := Option.bind_eq_some_iff.mp hstep
      exact ThreadPool.moves_advance hi hadvance
  | goOn i task =>
      rw [ThreadPool.next] at hstep
      split at hstep
      · rename_i old interrupted hi
        obtain rfl := Option.some.inj hstep
        exact .goOn i _ old task hi rfl
      · cases hstep
  | unwind i =>
      rw [ThreadPool.next] at hstep
      split at hstep
      · rename_i task hi
        obtain rfl := Option.some.inj hstep
        exact .unwind i _ task hi rfl
      · cases hstep
  | wakeUp i =>
      rw [ThreadPool.next] at hstep
      split at hstep
      · rename_i interrupted hi
        obtain rfl := Option.some.inj hstep
        exact .other _ i _ _ rfl hi rfl rfl (.inl (Nat.zero_le 1))
      · cases hstep

/-! ### No wake-up is lost -/

/-- While a worker waits, every task in the queue has a worker that is going to look for it or
a `push` that is going to notify. -/
def ThreadPool.Served (p : ThreadPool T) : Prop :=
  (∃ w ∈ p.workers, w.place.isWaiting = true) → p.container.length ≤ p.notifying + p.looking

/-- Where nobody new waits, a worker that waits now has waited before. -/
theorem waiting_of_set {w' : WorkerThread T} (hwait : w'.place.isWaiting = false)
    (h : ∃ v ∈ p.workers.set i w', v.place.isWaiting = true) :
    ∃ v ∈ p.workers, v.place.isWaiting = true := by
  obtain ⟨v, hv, hwaits⟩ := h
  rcases List.mem_or_eq_of_mem_set hv with hold | rfl
  · exact ⟨v, hold, hwaits⟩
  · rw [hwait] at hwaits
    cases hwaits

theorem looking_setWorker (hi : p.workers[i]? = some w) (w' : WorkerThread T) :
    (p.setWorker i w').looking + w.place.looks = p.looking + w'.place.looks :=
  sum_map_set (fun w : WorkerThread T => w.place.looks) hi w'

/-- A worker goes on without a step on the queue. -/
theorem ThreadPool.Served.setWorker (h : p.Served) (hi : p.workers[i]? = some w)
    {w' : WorkerThread T} (hwait : w'.place.isWaiting = false)
    (hlooks : w.place.looks ≤ w'.place.looks ∨ p.container = []) : (p.setWorker i w').Served := by
  intro hwaits
  have hbefore := h (waiting_of_set hwait hwaits)
  have hlooking := looking_setWorker hi w'
  show p.container.length ≤ p.notifying + (p.setWorker i w').looking
  rcases hlooks with hle | hempty
  · omega
  · rw [hempty]
    exact Nat.zero_le _

theorem ThreadPool.Served.moves (h : p.Served) (hmoves : p.Moves action p') : p'.Served := by
  cases hmoves with
  | run =>
      intro hwaits
      have hold : ∃ w ∈ p.workers, w.place.isWaiting = true := by
        obtain ⟨w, hw, hwaiting⟩ := hwaits
        rcases List.mem_append.mp hw with hmem | hnew
        · exact ⟨w, hmem, hwaiting⟩
        · rw [List.eq_of_mem_replicate hnew] at hwaiting
          cases hwaiting
      have hlooking : p.run.looking = p.looking := by
        simp [ThreadPool.looking, ThreadPool.run, WorkerPlace.looks]
      rw [hlooking]
      exact h hold
  | schedule task =>
      intro hwaits
      have hbefore := h hwaits
      show (p.container ++ [task]).length ≤ p.notifying + 1 + p.looking
      rw [List.length_append, List.length_singleton]
      omega
  | notifyNone n hn hnone =>
      rintro ⟨w, hw, hwaits⟩
      rw [hnone w hw] at hwaits
      cases hwaits
  | notify n i hn w hi hplace =>
      intro _
      -- The notification is gone, and the worker that it has reached looks into the queue.
      have hbefore := h ⟨w, List.mem_of_getElem? hi, by rw [hplace]; rfl⟩
      have hlooking : _ = p.looking + 1 := looking_setWorker hi { w with place := .popping }
      have hzero : w.place.looks = 0 := by
        rw [hplace]
        rfl
      show p.container.length ≤ n + (p.setWorker i { w with place := .popping }).looking
      omega
  | take i w task rest hi hplace hqueue =>
      intro hwaits
      have hbefore := h (waiting_of_set rfl hwaits)
      have hlooking : _ = p.looking := looking_setWorker hi { w with place := .running task }
      have hone : w.place.looks = 1 := by
        rw [hplace]
        rfl
      show rest.length ≤ p.notifying + (p.setWorker i { w with place := .running task }).looking
      rw [hqueue, List.length_cons] at hbefore
      omega
  | wait i w hi hplace hempty =>
      intro _
      show p.container.length ≤ _
      rw [hempty]
      exact Nat.zero_le _
  | goOn i w old task hi hplace => exact h.setWorker hi rfl (.inl (by rw [hplace]; exact le_rfl))
  | returns i w task hi hplace => exact h.setWorker hi rfl (.inl (by rw [hplace]; exact le_rfl))
  | unwind i w task hi hplace =>
      show (p.setWorker i ⟨.ended, false⟩).Served
      exact h.setWorker hi rfl (.inl (by rw [hplace]; exact le_rfl))
  | ends i w hi htasks hlooks =>
      show (p.setWorker i ⟨.ended, false⟩).Served
      exact h.setWorker hi rfl (hlooks.imp_left Eq.le)
  | other _ i w w' _ hi _ hwait hlooks => exact h.setWorker hi hwait hlooks

/-! ### Tasks are started in order -/

/-- The tasks that were started and those in the queue are the scheduled ones, in order. -/
theorem ThreadPool.Moves.order (hmoves : p.Moves action p') :
    p'.taken.map Prod.snd ++ p'.container =
      p.taken.map Prod.snd ++ p.container ++ action.scheduled := by
  cases hmoves with
  | schedule task => exact (List.append_assoc _ _ _).symm
  | take i w task rest hi hplace hqueue =>
      show (p.taken ++ [(i, task)]).map Prod.snd ++ rest = _
      rw [hqueue, List.map_append, List.map_singleton, List.append_assoc, List.singleton_append,
        ThreadPoolAction.scheduled, List.append_nil]
  | other _ i w w' hscheduled hi htasks hwait hlooks =>
      rw [hscheduled, List.append_nil]
      rfl
  | run | notifyNone | notify | wait | goOn | returns | unwind | ends =>
      exact (List.append_nil _).symm

/-! ### The tasks that are left -/

theorem tasks_schedule (p : ThreadPool T) (task : T) (n : ℕ) :
    ThreadPool.tasks { p with container := p.container ++ [task], notifying := n } =
      task ::ₘ p.tasks := by
  show ((p.container ++ [task] ++ p.inHand : List T) : Multiset T) = _
  rw [ThreadPool.tasks, Multiset.cons_coe, Multiset.coe_eq_coe, List.append_assoc]
  exact List.perm_middle

/-- Replacing a worker replaces what it runs. -/
theorem tasks_setWorker (hi : p.workers[i]? = some w) (w' : WorkerThread T) :
    (p.setWorker i w').tasks + ↑w.place.tasks = p.tasks + ↑w'.place.tasks := by
  have hperm := flatMap_splice_perm (fun w : WorkerThread T => w.place.tasks) hi w'
  rw [splice_singleton hi] at hperm
  show ((p.container ++ (p.workers.set i w').flatMap _ : List T) : Multiset T) + _ =
    ↑(p.container ++ p.inHand) + _
  rw [Multiset.coe_add, Multiset.coe_add, Multiset.coe_eq_coe, List.append_assoc,
    List.append_assoc]
  exact hperm.append_left _

/-- What a task leaves of itself takes its place. -/
theorem tasks_goOn {old task : T} {interrupted : Bool}
    (hi : p.workers[i]? = some ⟨.running old, interrupted⟩)
    (hstep : p.step (.goOn i task) = some p') : p'.tasks + {old} = p.tasks + {task} := by
  obtain ⟨-, hstep⟩ := ThreadPool.step_eq_some.mp hstep
  rw [ThreadPool.next, hi] at hstep
  obtain rfl := Option.some.inj hstep
  exact tasks_setWorker hi _

/-- A task that returns is gone. -/
theorem tasks_returns {task : T} {interrupted : Bool}
    (hi : p.workers[i]? = some ⟨.running task, interrupted⟩)
    (hstep : p.step (.advance i) = some p') : p'.tasks + {task} = p.tasks := by
  obtain ⟨-, hstep⟩ := ThreadPool.step_eq_some.mp hstep
  rw [ThreadPool.next, hi] at hstep
  obtain rfl := Option.some.inj hstep
  exact (tasks_setWorker hi _).trans (add_zero _)

/-- Only a new task, a step of a task and its return change the tasks that are left. -/
theorem ThreadPool.Moves.tasks_eq (hmoves : p.Moves action p') (hscheduled : action.scheduled = [])
    (hruns : ∀ i w task, p.workers[i]? = some w → w.place = .running task →
      action ≠ .advance i ∧ action ≠ .unwind i ∧ ∀ task', action ≠ .goOn i task') :
    p'.tasks = p.tasks := by
  have hset : ∀ i w w', p.workers[i]? = some w → w'.place.tasks = w.place.tasks →
      (p.setWorker i w').tasks = p.tasks := by
    intro i w w' hi htasks
    have hnew := tasks_setWorker hi w'
    rw [htasks] at hnew
    exact add_right_cancel hnew
  cases hmoves with
  | run =>
      have hnew : (List.replicate p.threadsNum.toNat (⟨.loop, false⟩ : WorkerThread T)).flatMap
          (fun w => w.place.tasks) = [] := by
        rw [List.flatMap_eq_nil_iff]
        intro w hw
        rw [List.eq_of_mem_replicate hw]
        rfl
      rw [ThreadPool.tasks, ThreadPool.inHand, ThreadPool.run, List.flatMap_append, hnew,
        List.append_nil]
      rfl
  | schedule task => cases hscheduled
  | notifyNone n hn hnone => rfl
  | notify n i hn w hi hplace => exact hset i w { w with place := .popping } hi (by rw [hplace]; rfl)
  | take i w task rest hi hplace hqueue =>
      have hnew := tasks_setWorker hi { w with place := .running task }
      rw [hplace] at hnew
      -- The task goes from the front of the queue into the hands of the worker.
      have hcontainer : (p.setWorker i { w with place := .running task }).tasks =
          task ::ₘ ThreadPool.tasks { p with
            container := rest
            workers := p.workers.set i { w with place := .running task }
            taken := p.taken ++ [(i, task)] } := by
        show ((p.container ++ _ : List T) : Multiset T) = _
        rw [hqueue]
        rfl
      have hzero : ((WorkerPlace.popping : WorkerPlace T).tasks : Multiset T) = 0 := rfl
      rw [hcontainer, hzero, add_zero, add_comm] at hnew
      exact (Multiset.cons_inj_right task).mp hnew
  | wait i w hi hplace hempty => exact hset i w _ hi (by rw [hplace]; rfl)
  | goOn i w old task hi hplace => exact absurd rfl ((hruns i w old hi hplace).2.2 task)
  | returns i w task hi hplace => exact absurd rfl (hruns i w task hi hplace).1
  | unwind i w task hi hplace => exact absurd rfl (hruns i w task hi hplace).2.1
  | ends i w hi htasks hlooks => exact hset i w ⟨.ended, false⟩ hi htasks.symm
  | other _ i w w' _ hi htasks _ _ => exact hset i w w' hi htasks

/-- Nobody is going to take a step without a new call or a spurious wake-up. -/
def ThreadPool.Resting (p : ThreadPool T) : Prop :=
  p.notifying = 0 ∧ ∀ w ∈ p.workers, w.place = .waiting ∨ w.place = .ended

/-- In a pool at rest nobody looks into the queue. -/
theorem ThreadPool.Resting.looking_eq_zero (h : p.Resting) : p.looking = 0 := by
  apply List.sum_eq_zero
  intro n hn
  obtain ⟨w, hw, rfl⟩ := List.mem_map.mp hn
  rcases h.2 w hw with hplace | hplace
  · rw [hplace]
    rfl
  · rw [hplace]
    rfl

theorem ThreadPool.Resting.inHand_eq_nil (h : p.Resting) : p.inHand = [] := by
  rw [ThreadPool.inHand, List.flatMap_eq_nil_iff]
  intro w hw
  rcases h.2 w hw with hplace | hplace
  · rw [hplace]
    rfl
  · rw [hplace]
    rfl

/-- A pool at rest in which somebody still waits has an empty queue. -/
theorem ThreadPool.Served.empty_of_resting (h : p.Served) (hrests : p.Resting)
    (hwaits : ∃ w ∈ p.workers, w.place.isWaiting = true) : p.container = [] := by
  have hle := h hwaits
  rw [hrests.1, hrests.looking_eq_zero] at hle
  exact List.length_eq_zero_iff.mp (Nat.le_zero.mp hle)

theorem ThreadPool.served_constructed (poolSize : ℤ) :
    (ThreadPool.constructed poolSize : ThreadPool T).Served := by
  rintro ⟨w, hw, -⟩
  cases hw

end Moves

/-- In every run of a pool, with any number of workers, calls of `run` and requests to end:
tasks are started once each and in the order in which they were scheduled.  As long as no worker has
ended, which deletes the pool: while a worker waits, every task in the queue has a worker on its way
to it or a notification to come; and a pool at rest in which a worker waits has started all that
was scheduled. -/
theorem tasks_in_order (poolSize : ℤ) (actions : List (ThreadPoolAction T)) (p : ThreadPool T)
    (hrun : Runs.Run ThreadPool.step Runs.anyAction (.constructed poolSize) actions p) :
    p.taken.map Prod.snd ++ p.container = actions.flatMap ThreadPoolAction.scheduled ∧
      (p.deleted = false → p.Served ∧
        (p.Resting → (∃ w ∈ p.workers, w.place.isWaiting = true) →
          p.taken.map Prod.snd = actions.flatMap ThreadPoolAction.scheduled)) := by
  have hinvariant : p.taken.map Prod.snd ++ p.container =
      actions.flatMap ThreadPoolAction.scheduled ∧ p.Served := by
    refine hrun.invariant (P := fun actions p => p.taken.map Prod.snd ++ p.container =
      actions.flatMap ThreadPoolAction.scheduled ∧ p.Served) ?_ ?_
    · exact ⟨rfl, ThreadPool.served_constructed poolSize⟩
    · rintro actions p p' action ⟨horder, hserved⟩ - hstep
      have hmoves := ThreadPool.moves_of_step hstep
      refine ⟨?_, hserved.moves hmoves⟩
      rw [hmoves.order, horder, List.flatMap_append, List.flatMap_singleton]
  obtain ⟨horder, hserved⟩ := hinvariant
  refine ⟨horder, fun _ => ⟨hserved, ?_⟩⟩
  intro hrests hwaits
  rw [hserved.empty_of_resting hrests hwaits, List.append_nil] at horder
  exact horder

/-- Two workers, of which the first takes both tasks before the second `push` has notified. -/
def lateNotification : List (ThreadPoolAction ℕ) :=
  [.run, .advance 0, .advance 1, .advance 1, .schedule 7, .advance 0, .schedule 8, .notify (some 1),
    .advance 0, .advance 0, .advance 0, .advance 0, .advance 0, .advance 0, .advance 1,
    .notify (some 0), .advance 0]

theorem tasks_in_order_lateNotification :
    ∃ p : ThreadPool ℕ,
      Runs.Run ThreadPool.step Runs.anyAction (.constructed 2) lateNotification p ∧
        p.Resting ∧ p.taken.map Prod.snd = [7, 8] := by
  obtain ⟨p, hperformed⟩ : ∃ p : ThreadPool ℕ, Runs.performAll ThreadPool.step Runs.anyAction
      (.constructed 2) lateNotification = some p := ⟨_, rfl⟩
  have hrun := Runs.Run.performAll .start lateNotification hperformed
  obtain rfl := Option.some.inj hperformed
  have hstarted := ((tasks_in_order 2 lateNotification _ hrun).2 rfl).2
  refine ⟨_, hrun, ⟨rfl, ?_⟩, hstarted ⟨rfl, ?_⟩ ?_⟩
  · decide
  · decide
  · decide

end NetServer
end CoherentDB
