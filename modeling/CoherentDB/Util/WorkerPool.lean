import CoherentDB.Lib.ListRange
import CoherentDB.Lib.Runs
import CoherentDB.Util.Misc

/-!
# `sync_queue` and `worker_pool`

Any thread may call `schedule_work`, and every worker pops and handles items until
`pop` gives it none.  A step here is one critical section of the queue's mutex, one
return from `handle`, one wake-up, or one `join` of `stop`; between two steps of a
thread any other thread may take its own.

`cond.wait` is the state `asleep`.  A notification takes a worker to `awake`, from where
it locks again and tests the loop's condition; so does a spurious wake-up.  Which of the
sleepers `notify_one` reaches is part of the action.

`pushed`, `left` and `handled` are histories: the items passed to `push`, those that
`pop` returned, and those whose `handle` has returned, with the worker.
-/

namespace CoherentDB
namespace Util

open Debug ListRange Runs

variable {T : Type}

/-- Where a worker is. -/
inductive Worker (T : Type)
  /-- About to lock the queue in `pop`, for the first time or after a wake-up. -/
  | awake
  /-- In `cond.wait` with no notification for it. -/
  | asleep
  /-- `pop` has returned an item and `handle` has not returned. -/
  | handling (item : T)
  /-- `operator()` has returned. -/
  | finished
  deriving DecidableEq

/-- Where `stop` is. -/
inductive Stopping
  | notCalled
  /-- The first `k` workers have been joined. -/
  | joining (k : ℕ)
  | returned
  deriving DecidableEq

/-- A `worker_pool` with its `sync_queue`. -/
structure Pool (T : Type) where
  q : List T
  noMoreData : Bool
  workers : List (Worker T)
  stopping : Stopping
  pushed : List T
  left : List T
  handled : List (ℕ × T)
  deriving DecidableEq

/-- One step of the system. -/
inductive PoolAction (T : Type)
  /-- `schedule_work`; `notify_one` reaches the worker `woken`, if any is asleep. -/
  | scheduleWork (item : T) (woken : Option ℕ)
  /-- Worker `i` takes its next step. -/
  | advance (i : ℕ)
  /-- A spurious wake-up of worker `i`. -/
  | wakeUp (i : ℕ)
  /-- `stop` calls `no_more_input`. -/
  | noMoreInput
  /-- `join` returns for the next worker. -/
  | join
  /-- `stop` clears the workers and returns. -/
  | clear
  deriving DecidableEq

/-- The worker after a notification. -/
def Worker.notified : Worker T → Worker T
  | .asleep => .awake
  | .awake => .awake
  | .handling item => .handling item
  | .finished => .finished

def Worker.isAsleep : Worker T → Bool
  | .asleep => true
  | .awake | .handling _ | .finished => false

/-- The item that a worker has taken and not done with. -/
def Worker.items : Worker T → List T
  | .handling item => [item]
  | .awake | .asleep | .finished => []

namespace Pool

/-- A pool right after its constructor and `start(num_workers)`. -/
def start (numWorkers : ℕ) : Pool T :=
  ⟨[], false, List.replicate numWorkers .awake, .notCalled, [], [], []⟩

variable (p : Pool T)

/-- `cond.notify_one`; none where it cannot reach this worker. -/
def notifyOne : Option ℕ → Option (Pool T)
  | none => if p.workers.any Worker.isAsleep then none else some p
  | some i =>
      match p.workers[i]? with
      | some .asleep => some { p with workers := splice p.workers i [.awake] }
      | _ => none

/-- `sync_queue::push` up to the notification. -/
def push (item : T) : Except Failure (Pool T) := do
  dAssert (p.noMoreData = false)
  return { p with q := p.q ++ [item], pushed := p.pushed ++ [item] }

/-- The next step of worker `i`; none where it has to wait for another thread. -/
def advance (i : ℕ) : Worker T → Option (Pool T)
  | .awake =>
      match p.q, p.noMoreData with
      -- The loop of `pop`: wait while there is no item and more may come.
      | [], false => some { p with workers := splice p.workers i [.asleep] }
      | item :: rest, _ =>
          some { p with
            q := rest
            workers := splice p.workers i [.handling item]
            left := p.left ++ [item] }
      -- `pop` returns nothing, and `operator()` ends.
      | [], true => some { p with workers := splice p.workers i [.finished] }
  | .handling item =>
      some { p with
        workers := splice p.workers i [.awake]
        handled := p.handled ++ [(i, item)] }
  | .asleep | .finished => none

/-- `sync_queue::no_more_input`, which notifies all. -/
def noMoreInput : Pool T :=
  { p with
    noMoreData := true
    workers := p.workers.map Worker.notified
    stopping := .joining 0 }

/-- One step; none where the action is not possible. -/
def step : PoolAction T → Option (Pool T)
  | .scheduleWork item woken => (p.push item).toOption.bind fun p => p.notifyOne woken
  | .advance i => p.workers[i]?.bind (p.advance i)
  | .wakeUp i =>
      match p.workers[i]? with
      | some .asleep => some { p with workers := splice p.workers i [.awake] }
      | _ => none
  | .noMoreInput =>
      match p.stopping with
      | .notCalled => some p.noMoreInput
      | _ => none
  | .join =>
      match p.stopping with
      | .joining k =>
          match p.workers[k]? with
          -- `join` blocks until the thread has ended.
          | some .finished => some { p with stopping := .joining (k + 1) }
          | _ => none
      | _ => none
  | .clear =>
      match p.stopping with
      | .joining k =>
          if k = p.workers.length then some { p with workers := [], stopping := .returned }
          else none
      | _ => none

/-- The items in the workers' hands. -/
def inHand : List T := p.workers.flatMap Worker.items

end Pool

/-- All that a step can do. -/
inductive Pool.Moves (p : Pool T) : PoolAction T → Pool T → Prop
  | pushToNone (item : T) (hopen : p.noMoreData = false)
      (hnone : ∀ w ∈ p.workers, w ≠ .asleep) :
      Moves p (.scheduleWork item none)
        { p with q := p.q ++ [item], pushed := p.pushed ++ [item] }
  | push (item : T) (i : ℕ) (hopen : p.noMoreData = false)
      (hi : p.workers[i]? = some .asleep) :
      Moves p (.scheduleWork item (some i))
        { p with
          q := p.q ++ [item]
          pushed := p.pushed ++ [item]
          workers := splice p.workers i [.awake] }
  | sleep (i : ℕ) (hi : p.workers[i]? = some .awake) (hempty : p.q = [])
      (hopen : p.noMoreData = false) :
      Moves p (.advance i) { p with workers := splice p.workers i [.asleep] }
  | pop (i : ℕ) (item : T) (rest : List T) (hi : p.workers[i]? = some .awake)
      (hq : p.q = item :: rest) :
      Moves p (.advance i)
        { p with
          q := rest
          workers := splice p.workers i [.handling item]
          left := p.left ++ [item] }
  | exit (i : ℕ) (hi : p.workers[i]? = some .awake) (hempty : p.q = [])
      (hclosed : p.noMoreData = true) :
      Moves p (.advance i) { p with workers := splice p.workers i [.finished] }
  | done (i : ℕ) (item : T) (hi : p.workers[i]? = some (.handling item)) :
      Moves p (.advance i)
        { p with
          workers := splice p.workers i [.awake]
          handled := p.handled ++ [(i, item)] }
  | wakeUp (i : ℕ) (hi : p.workers[i]? = some .asleep) :
      Moves p (.wakeUp i) { p with workers := splice p.workers i [.awake] }
  | noMoreInput (hstop : p.stopping = .notCalled) : Moves p .noMoreInput p.noMoreInput
  | join (k : ℕ) (hstop : p.stopping = .joining k) (hk : p.workers[k]? = some .finished) :
      Moves p .join { p with stopping := .joining (k + 1) }
  | clear (hstop : p.stopping = .joining p.workers.length) :
      Moves p .clear { p with workers := [], stopping := .returned }

theorem Pool.moves_of_step {p p' : Pool T} {action : PoolAction T}
    (hstep : p.step action = some p') : p.Moves action p' := by
  cases action with
  | scheduleWork item woken =>
      simp only [Pool.step] at hstep
      obtain ⟨p₁, hpush, hnotify⟩ := Option.bind_eq_some_iff.mp hstep
      obtain ⟨hopen, hpush⟩ := toOption_dAssert_bind hpush
      obtain rfl := Option.some.inj hpush
      cases woken with
      | none =>
          simp only [Pool.notifyOne] at hnotify
          split_ifs at hnotify with hany
          obtain rfl := Option.some.inj hnotify
          refine .pushToNone item hopen fun w hw hasleep => ?_
          subst hasleep
          exact hany (List.any_eq_true.mpr ⟨_, hw, rfl⟩)
      | some i =>
          simp only [Pool.notifyOne] at hnotify
          split at hnotify
          · obtain rfl := Option.some.inj hnotify
            exact .push item i hopen ‹_›
          · cases hnotify
  | advance i =>
      obtain ⟨w, hi, hadvance⟩ := Option.bind_eq_some_iff.mp hstep
      cases w with
      | awake =>
          simp only [Pool.advance] at hadvance
          split at hadvance
          · obtain rfl := Option.some.inj hadvance
            exact .sleep i hi ‹_› ‹_›
          · obtain rfl := Option.some.inj hadvance
            exact .pop i _ _ hi ‹_›
          · obtain rfl := Option.some.inj hadvance
            exact .exit i hi ‹_› ‹_›
      | asleep => cases hadvance
      | handling item =>
          obtain rfl := Option.some.inj hadvance
          exact .done i item hi
      | finished => cases hadvance
  | wakeUp i =>
      simp only [Pool.step] at hstep
      split at hstep
      · obtain rfl := Option.some.inj hstep
        exact .wakeUp i ‹_›
      · cases hstep
  | noMoreInput =>
      simp only [Pool.step] at hstep
      split at hstep
      · obtain rfl := Option.some.inj hstep
        exact .noMoreInput ‹_›
      · cases hstep
  | join =>
      simp only [Pool.step] at hstep
      split at hstep
      · split at hstep
        · obtain rfl := Option.some.inj hstep
          exact .join _ ‹_› ‹_›
        · cases hstep
      · cases hstep
  | clear =>
      simp only [Pool.step] at hstep
      split at hstep
      · split_ifs at hstep with hall
        obtain rfl := Option.some.inj hstep
        exact .clear (hall ▸ ‹_›)
      · cases hstep

/-- The invariant of a pool that was started with `n` workers. -/
structure Pool.Sound (p : Pool T) (n : ℕ) : Prop where
  order : p.left ++ p.q = p.pushed
  once : (p.handled.map Prod.snd ++ p.inHand).Perm p.left
  closed : p.noMoreData = true → ∀ w ∈ p.workers, w ≠ .asleep
  finished : Worker.finished ∈ p.workers → p.noMoreData = true ∧ p.q = []
  served : p.q ≠ [] → ∃ w ∈ p.workers, w ≠ .asleep
  size : p.stopping ≠ .returned → p.workers.length = n
  joining : ∀ k, p.stopping = .joining k → p.noMoreData = true ∧
    ∀ j < k, p.workers[j]? = some .finished
  returned : p.stopping = .returned → p.noMoreData = true ∧ p.q = [] ∧ p.workers = []

section Steps

variable {p p' : Pool T} {n i : ℕ} {a b w : Worker T} {action : PoolAction T}

theorem eq_or_mem_of_mem_splice {l : List (Worker T)} (hw : w ∈ splice l i [b]) :
    w = b ∨ w ∈ l :=
  (ListRange.mem_splice hw).imp_left List.mem_singleton.mp

theorem new_mem_splice {l : List (Worker T)} (hi : l[i]? = some a) : b ∈ splice l i [b] := by
  obtain ⟨hlt, -⟩ := List.getElem?_eq_some_iff.mp hi
  rw [splice_singleton hi]
  exact List.mem_set hlt b

/-- The workers that `stop` has joined are not those that take steps. -/
theorem Pool.Sound.joined_splice (h : p.Sound n) (hi : p.workers[i]? = some a)
    (ha : a ≠ .finished) (b : Worker T) {k : ℕ} (hk : p.stopping = .joining k) :
    p.noMoreData = true ∧ ∀ j < k, (splice p.workers i [b])[j]? = some .finished := by
  obtain ⟨hclosed, hjoined⟩ := h.joining k hk
  refine ⟨hclosed, fun j hj => ?_⟩
  have hne : i ≠ j := by
    rintro rfl
    exact ha (Option.some.inj (hi.symm.trans (hjoined i hj)))
  rw [splice_singleton hi, List.getElem?_set_ne hne]
  exact hjoined j hj

/-- A pool with a worker has not returned from `stop`. -/
theorem Pool.Sound.not_returned (h : p.Sound n) (hi : p.workers[i]? = some a) :
    p.stopping ≠ .returned := by
  intro hreturned
  obtain ⟨-, -, hnone⟩ := h.returned hreturned
  rw [hnone] at hi
  cases hi

theorem Pool.Sound.size_splice (h : p.Sound n) (hi : p.workers[i]? = some a) (b : Worker T) :
    (splice p.workers i [b]).length = n := by
  rw [splice_singleton hi, List.length_set]
  exact h.size (h.not_returned hi)

/-- With a closed queue nobody is asleep, also after a step that puts no worker to sleep. -/
theorem Pool.Sound.closed_splice (h : p.Sound n) (hb : b ≠ .asleep) (hclosed : p.noMoreData = true) :
    ∀ w ∈ splice p.workers i [b], w ≠ .asleep := by
  intro w hw
  rcases eq_or_mem_of_mem_splice hw with rfl | hold
  · exact hb
  · exact h.closed hclosed w hold

/-- A worker that has nothing in its hands goes on with nothing in its hands, and the
queue stays as it is. -/
theorem Pool.Sound.change (h : p.Sound n) (hi : p.workers[i]? = some a) (ha : a ≠ .finished)
    (hempty : a.items = []) (hb : b.items = [])
    (hasleep : b = .asleep → p.q = [] ∧ p.noMoreData = false)
    (hfinished : b = .finished → p.q = [] ∧ p.noMoreData = true) :
    Pool.Sound { p with workers := splice p.workers i [b] } n := by
  have hhand : ((splice p.workers i [b]).flatMap Worker.items).Perm p.inHand := by
    have hperm := flatMap_splice_perm Worker.items hi b
    rw [hempty, hb, List.append_nil, List.append_nil] at hperm
    exact hperm
  refine ⟨h.order, (hhand.append_left _).trans h.once, ?_, ?_, ?_, fun _ => h.size_splice hi b,
    fun k hk => h.joined_splice hi ha b hk, fun hret => absurd hret (h.not_returned hi)⟩
  · intro hclosed
    refine h.closed_splice (fun heq => ?_) hclosed
    rw [(hasleep heq).2] at hclosed
    cases hclosed
  · intro hmem
    rcases eq_or_mem_of_mem_splice hmem with heq | hold
    · exact (hfinished heq.symm).symm
    · exact h.finished hold
  · intro hq
    refine ⟨b, new_mem_splice hi, fun heq => hq (hasleep heq).1⟩

/-- A push makes sure that somebody is awake. -/
theorem Pool.Sound.push (h : p.Sound n) (hn : 1 ≤ n) (item : T) (hopen : p.noMoreData = false)
    (hawake : ∀ m, p.workers.length = m → 1 ≤ m → ∃ w ∈ p.workers, w ≠ .asleep) :
    Pool.Sound { p with q := p.q ++ [item], pushed := p.pushed ++ [item] } n := by
  have hstop : p.stopping ≠ .returned := by
    intro hret
    rw [(h.returned hret).1] at hopen
    cases hopen
  refine ⟨?_, h.once, h.closed, ?_, fun _ => hawake n (h.size hstop) hn, h.size, h.joining,
    fun hret => absurd hret hstop⟩
  · show p.left ++ (p.q ++ [item]) = p.pushed ++ [item]
    rw [← List.append_assoc, h.order]
  · intro hmem
    rw [(h.finished hmem).1] at hopen
    cases hopen

theorem Pool.Sound.pop (h : p.Sound n) (item : T) (rest : List T)
    (hi : p.workers[i]? = some .awake) (hq : p.q = item :: rest) :
    Pool.Sound { p with
      q := rest
      workers := splice p.workers i [.handling item]
      left := p.left ++ [item] } n := by
  -- The item moves from the queue into the hands of the worker.
  have hhand := flatMap_splice_perm Worker.items hi (.handling item)
  rw [show Worker.items (.awake : Worker T) = [] from rfl, List.append_nil] at hhand
  refine ⟨?_, ?_, ?_, ?_, ?_, fun _ => h.size_splice hi _,
    fun k hk => h.joined_splice hi (by simp) _ hk, fun hret => absurd hret (h.not_returned hi)⟩
  · show p.left ++ [item] ++ rest = p.pushed
    rw [List.append_assoc, List.singleton_append, ← hq, h.order]
  · refine (hhand.append_left _).trans ?_
    rw [← List.append_assoc]
    exact h.once.append_right _
  · exact h.closed_splice (by simp)
  · intro hmem
    rcases eq_or_mem_of_mem_splice hmem with heq | hold
    · cases heq
    · -- A worker exits only when the queue is empty.
      have hempty := (h.finished hold).2
      rw [hq] at hempty
      cases hempty
  · exact fun _ => ⟨.handling item, new_mem_splice hi, by simp⟩

theorem Pool.Sound.done (h : p.Sound n) (item : T)
    (hi : p.workers[i]? = some (.handling item)) :
    Pool.Sound { p with
      workers := splice p.workers i [.awake]
      handled := p.handled ++ [(i, item)] } n := by
  have hhand := flatMap_splice_perm Worker.items hi .awake
  rw [show Worker.items (.awake : Worker T) = [] from rfl, List.append_nil] at hhand
  refine ⟨h.order, ?_, ?_, ?_, ?_, fun _ => h.size_splice hi _,
    fun k hk => h.joined_splice hi (by simp) _ hk, fun hret => absurd hret (h.not_returned hi)⟩
  · -- The item moves from the worker's hands to the handled ones.
    refine List.Perm.trans ?_ h.once
    show ((p.handled ++ [(i, item)]).map Prod.snd ++ _).Perm _
    rw [List.map_append, List.append_assoc]
    exact (List.perm_append_comm.trans hhand).append_left _
  · exact h.closed_splice (by simp)
  · intro hmem
    rcases eq_or_mem_of_mem_splice hmem with heq | hold
    · cases heq
    · exact h.finished hold
  · exact fun _ => ⟨.awake, new_mem_splice hi, by simp⟩

theorem Worker.items_notified (w : Worker T) : w.notified.items = w.items := by
  cases w <;> rfl

theorem Pool.Sound.noMoreInput (h : p.Sound n) (hstop : p.stopping = .notCalled) :
    p.noMoreInput.Sound n := by
  have hlive : p.stopping ≠ .returned := by
    rw [hstop]
    decide
  have hhand : p.noMoreInput.inHand = p.inHand := by
    show (p.workers.map Worker.notified).flatMap Worker.items = p.workers.flatMap Worker.items
    rw [List.flatMap_map]
    simp only [Worker.items_notified]
  have hawake : ∀ w ∈ p.workers.map Worker.notified, w ≠ .asleep := by
    intro w hw
    obtain ⟨v, -, rfl⟩ := List.mem_map.mp hw
    cases v <;> simp [Worker.notified]
  refine ⟨h.order, ?_, fun _ => hawake, ?_, ?_, ?_, ?_, ?_⟩
  · rw [hhand]
    exact h.once
  · intro hmem
    obtain ⟨v, hv, heq⟩ := List.mem_map.mp hmem
    cases v with
    | finished => exact ⟨rfl, (h.finished hv).2⟩
    | awake | asleep | handling item => cases heq
  · intro hq
    obtain ⟨w, hw, -⟩ := h.served hq
    exact ⟨w.notified, List.mem_map_of_mem hw, hawake _ (List.mem_map_of_mem hw)⟩
  · intro _
    show (p.workers.map Worker.notified).length = n
    rw [List.length_map]
    exact h.size hlive
  · intro k hk
    cases hk
    exact ⟨rfl, fun j hj => absurd hj (Nat.not_lt_zero j)⟩
  · intro hret
    cases hret

theorem Pool.Sound.clear (h : p.Sound n) (hn : 1 ≤ n)
    (hstop : p.stopping = .joining p.workers.length) :
    Pool.Sound { p with workers := [], stopping := .returned } n := by
  obtain ⟨hclosed, hjoined⟩ := h.joining _ hstop
  have hsize : p.workers.length = n := h.size (by rw [hstop]; simp)
  have hall : ∀ w ∈ p.workers, w = .finished := by
    intro w hw
    obtain ⟨j, hj, rfl⟩ := List.mem_iff_getElem.mp hw
    have hfin := hjoined j hj
    rw [List.getElem?_eq_getElem hj] at hfin
    exact Option.some.inj hfin
  -- The first worker has exited, which it does from an empty queue only.
  have hempty : p.q = [] := by
    have hfirst := hjoined 0 (by omega)
    exact (h.finished (List.mem_of_getElem? hfirst)).2
  have hhand : p.inHand = [] := by
    rw [Pool.inHand, List.flatMap_eq_nil_iff]
    intro w hw
    rw [hall w hw]
    rfl
  refine ⟨h.order, ?_, ?_, ?_, fun hq => absurd hempty hq, fun hne => absurd rfl hne, ?_,
    fun _ => ⟨hclosed, hempty, rfl⟩⟩
  · have honce := h.once
    rw [hhand] at honce
    exact honce
  · intro _ w hw
    cases hw
  · intro hmem
    cases hmem
  · intro k hk
    cases hk

/-- **One step keeps the invariant.** -/
theorem Pool.Sound.step (h : p.Sound n) (hn : 1 ≤ n) (hmoves : p.Moves action p') :
    p'.Sound n := by
  cases hmoves with
  | pushToNone item hopen hnone =>
      refine h.push hn item hopen fun m hm hpos => ?_
      -- The notification reached nobody because nobody is asleep.
      obtain ⟨w, hw⟩ := List.exists_mem_of_length_pos (l := p.workers) (by omega)
      exact ⟨w, hw, hnone w hw⟩
  | push item i hopen hi =>
      have hwoken := h.change hi (by simp) rfl (b := .awake) rfl (by simp) (by simp)
      exact hwoken.push hn item hopen fun m _ _ => ⟨.awake, new_mem_splice hi, by simp⟩
  | sleep i hi hempty hopen =>
      exact h.change hi (by simp) rfl rfl (fun _ => ⟨hempty, hopen⟩) (by simp)
  | pop i item rest hi hq => exact h.pop item rest hi hq
  | exit i hi hempty hclosed =>
      exact h.change hi (by simp) rfl rfl (by simp) (fun _ => ⟨hempty, hclosed⟩)
  | done i item hi => exact h.done item hi
  | wakeUp i hi => exact h.change hi (by simp) rfl rfl (by simp) (by simp)
  | noMoreInput hstop => exact h.noMoreInput hstop
  | join k hstop hk =>
      obtain ⟨hclosed, hjoined⟩ := h.joining k hstop
      refine ⟨h.order, h.once, h.closed, h.finished, h.served, fun _ => h.size (h.not_returned hk),
        ?_, fun hret => by cases hret⟩
      intro m hm
      cases hm
      refine ⟨hclosed, fun j hj => ?_⟩
      rcases Nat.lt_succ_iff_lt_or_eq.mp hj with hlt | rfl
      · exact hjoined j hlt
      · exact hk
  | clear hstop => exact h.clear hn hstop

theorem Pool.start_sound (n : ℕ) : (Pool.start n : Pool T).Sound n := by
  refine ⟨rfl, ?_, ?_, ?_, ?_, ?_, ?_, ?_⟩
  · have hnone : (Pool.start n : Pool T).inHand = [] := by
      rw [Pool.inHand, List.flatMap_eq_nil_iff]
      intro w hw
      rw [List.eq_of_mem_replicate hw]
      rfl
    rw [hnone]
    exact List.Perm.nil
  · intro hclosed
    cases hclosed
  · intro hmem
    cases List.eq_of_mem_replicate hmem
  · intro hq
    exact absurd rfl hq
  · intro _
    exact List.length_replicate
  · intro k hk
    cases hk
  · intro hret
    cases hret

end Steps

section Histories

/-- What a step adds to `pushed`. -/
def PoolAction.scheduled : PoolAction T → List T
  | .scheduleWork item _ => [item]
  | .advance _ | .wakeUp _ | .noMoreInput | .join | .clear => []

/-- What a step adds to `handled`. -/
def Pool.returns (p : Pool T) : PoolAction T → List (ℕ × T)
  | .advance i =>
      match p.workers[i]? with
      | some (.handling item) => [(i, item)]
      | _ => []
  | .scheduleWork _ _ | .wakeUp _ | .noMoreInput | .join | .clear => []

variable {p p' : Pool T} {action : PoolAction T}

theorem Pool.Moves.pushed_eq (h : p.Moves action p') : p'.pushed = p.pushed ++ action.scheduled := by
  cases h with
  | pushToNone | push => rfl
  | sleep | pop | exit | done | wakeUp | noMoreInput | join | clear =>
      exact (List.append_nil _).symm

theorem Pool.Moves.handled_eq (h : p.Moves action p') :
    p'.handled = p.handled ++ p.returns action := by
  cases h with
  | sleep i hi | exit i hi | pop i item rest hi =>
      rw [Pool.returns, hi]
      exact (List.append_nil _).symm
  | done i item hi =>
      rw [Pool.returns, hi]
  | pushToNone | push | wakeUp | noMoreInput | join | clear =>
      exact (List.append_nil _).symm

theorem Pool.Moves.noMoreData_iff (h : p.Moves action p') :
    p'.noMoreData = true ↔ p.noMoreData = true ∨ action = .noMoreInput := by
  cases h with
  | noMoreInput => simp [Pool.noMoreInput]
  | pushToNone | push | sleep | pop | exit | done | wakeUp | join | clear => simp

theorem Pool.Moves.returned_iff (h : p.Moves action p') :
    p'.stopping = .returned ↔ p.stopping = .returned ∨ action = .clear := by
  cases h with
  | noMoreInput hstop => simp [Pool.noMoreInput, hstop]
  | join k hstop => simp [hstop]
  | clear => simp
  | pushToNone | push | sleep | pop | exit | done | wakeUp => simp

theorem mem_flatMap_items_splice {l : List (Worker T)} {i : ℕ} {w : Worker T} {item : T}
    (h : item ∈ (splice l i [w]).flatMap Worker.items) :
    item ∈ w.items ∨ item ∈ l.flatMap Worker.items := by
  obtain ⟨v, hv, hitem⟩ := List.mem_flatMap.mp h
  obtain rfl | hold := eq_or_mem_of_mem_splice hv
  · exact Or.inl hitem
  · exact Or.inr (List.mem_flatMap.mpr ⟨v, hold, hitem⟩)

/-- An item that waits or is in the hands of a worker did so before the step, or was scheduled by
it. -/
theorem Pool.Moves.mem_pending (h : p.Moves action p') {item : T}
    (hmem : item ∈ p'.q ++ p'.inHand) :
    item ∈ p.q ++ p.inHand ∨ item ∈ action.scheduled := by
  rw [List.mem_append] at hmem ⊢
  cases h with
  | pushToNone new =>
      rcases hmem with hq | hhand
      · exact (List.mem_append.mp hq).imp_left Or.inl
      · exact Or.inl (Or.inr hhand)
  | push new i =>
      rcases hmem with hq | hhand
      · exact (List.mem_append.mp hq).imp_left Or.inl
      · exact Or.inl (Or.inr ((mem_flatMap_items_splice hhand).resolve_left List.not_mem_nil))
  | sleep i | exit i | wakeUp i =>
      refine Or.inl (hmem.imp_right fun hhand => ?_)
      exact (mem_flatMap_items_splice hhand).resolve_left List.not_mem_nil
  | pop i next rest hi hq =>
      rw [hq]
      rcases hmem with hrest | hhand
      · exact Or.inl (Or.inl (List.mem_cons_of_mem next hrest))
      · rcases mem_flatMap_items_splice hhand with hnext | hold
        · obtain rfl := List.mem_singleton.mp hnext
          exact Or.inl (Or.inl List.mem_cons_self)
        · exact Or.inl (Or.inr hold)
  | done i returned =>
      refine Or.inl (hmem.imp_right fun hhand => ?_)
      exact (mem_flatMap_items_splice hhand).resolve_left List.not_mem_nil
  | noMoreInput =>
      refine Or.inl (hmem.imp_right fun hhand => ?_)
      obtain ⟨w, hw, hitem⟩ := List.mem_flatMap.mp hhand
      obtain ⟨v, hv, rfl⟩ := List.mem_map.mp hw
      rw [Worker.items_notified] at hitem
      exact List.mem_flatMap.mpr ⟨v, hv, hitem⟩
  | join => exact Or.inl hmem
  | clear => exact Or.inl (hmem.imp_right fun hhand => absurd hhand List.not_mem_nil)

theorem Pool.mem_inHand {i : ℕ} {item : T} (hi : p.workers[i]? = some (.handling item)) :
    item ∈ p.inHand :=
  List.mem_flatMap.mpr ⟨_, List.mem_of_getElem? hi, List.mem_singleton_self item⟩

/-- What a worker has in its hands was pushed before. -/
theorem Pool.Sound.mem_pushed {n i : ℕ} {item : T} (h : p.Sound n)
    (hi : p.workers[i]? = some (.handling item)) : item ∈ p.pushed := by
  rw [← h.order]
  exact List.mem_append_left _ (h.once.mem_iff.mp (List.mem_append_right _ (Pool.mem_inHand hi)))

/-- Nothing waits and nobody has anything in hand: everything has been handled. -/
theorem Pool.Sound.handled_perm {n : ℕ} (h : p.Sound n) (hempty : p.q = []) (hhand : p.inHand = []) :
    (p.handled.map Prod.snd).Perm p.pushed := by
  have honce := h.once
  rw [hhand, List.append_nil] at honce
  rw [← h.order, hempty, List.append_nil]
  exact honce

end Histories

/-- **Every scheduled item is handled exactly once.**  The items of the calls of `schedule_work`
are pushed and leave the queue in their order, each of them is in the hands of one worker or was
handled by one; workers exit only from a closed, empty queue; when `stop` has returned, all items
have been handled; and while there is something to do, some worker that has not exited is not
asleep. -/
theorem pool_handles_exactly_once {n : ℕ} (hn : 1 ≤ n) {actions : List (PoolAction T)}
    {p : Pool T} (hrun : Run Pool.step anyAction (Pool.start n) actions p) :
    p.pushed = actions.flatMap PoolAction.scheduled ∧
      p.left ++ p.q = p.pushed ∧ (p.handled.map Prod.snd ++ p.inHand).Perm p.left ∧
      (Worker.finished ∈ p.workers → p.noMoreData = true ∧ p.q = []) ∧
      (p.stopping = .returned →
        (p.handled.map Prod.snd).Perm p.pushed ∧ p.q = [] ∧ p.noMoreData = true) ∧
      (p.q ≠ [] → ∃ w ∈ p.workers, w ≠ .finished ∧ w ≠ .asleep) ∧
      (p.noMoreData = true → ∀ w ∈ p.workers, w ≠ .asleep) := by
  obtain ⟨h, hpushed⟩ : p.Sound n ∧ p.pushed = actions.flatMap PoolAction.scheduled := by
    -- The invariant of a single step, carried along the run.
    refine hrun.invariant
      (P := fun actions p => p.Sound n ∧ p.pushed = actions.flatMap PoolAction.scheduled)
      ⟨Pool.start_sound n, rfl⟩ ?_
    rintro actions s s' action ⟨h, hpushed⟩ - hstep
    have hmoves := Pool.moves_of_step hstep
    refine ⟨h.step hn hmoves, ?_⟩
    rw [hmoves.pushed_eq, hpushed, List.flatMap_append, List.flatMap_singleton]
  refine ⟨hpushed, h.order, h.once, h.finished, fun hret => ?_, fun hq => ?_, h.closed⟩
  · obtain ⟨hclosed, hempty, hnone⟩ := h.returned hret
    have hhand : p.inHand = [] := by
      rw [Pool.inHand, hnone, List.flatMap_nil]
    exact ⟨h.handled_perm hempty hhand, hempty, hclosed⟩
  · obtain ⟨w, hw, hawake⟩ := h.served hq
    refine ⟨w, hw, ?_, hawake⟩
    rintro rfl
    exact hq (h.finished hw).2

/-- One worker sleeps while the other takes both items, and `stop` waits for them. -/
def twoItems : List (PoolAction ℕ) :=
  [.advance 0, .advance 1, .scheduleWork 5 (some 1), .wakeUp 0, .scheduleWork 6 none, .advance 1,
    .advance 1, .advance 1, .advance 0, .noMoreInput, .advance 1, .advance 1, .advance 0, .join,
    .join, .clear]

theorem pool_handles_exactly_once_twoItems :
    ∃ p, Run Pool.step anyAction (Pool.start 2 : Pool ℕ) twoItems p ∧ p.stopping = .returned ∧
      p.handled = [(1, 5), (1, 6)] ∧
      (p.handled.map Prod.snd).Perm (twoItems.flatMap PoolAction.scheduled) := by
  have hdone : performAll Pool.step anyAction (Pool.start 2 : Pool ℕ) twoItems =
      some ⟨[], true, [], .returned, [5, 6], [5, 6], [(1, 5), (1, 6)]⟩ := by decide
  have hrun := Run.start.performAll twoItems hdone
  obtain ⟨hpushed, -, -, -, hstopped, -, -⟩ := pool_handles_exactly_once (by decide) hrun
  exact ⟨_, hrun, rfl, rfl, hpushed ▸ (hstopped rfl).1⟩

end Util
end CoherentDB
