import CoherentDB.Util.WorkerPool

/-!
# `worker_pool` over several cycles

`start` adds workers and `stop` joins and clears them, so a pool can be started again.
Its queue stays: `no_more_input` sets `no_more_data`, and nothing resets it.

A state has the pool with the histories of the cycle under way, and the histories of the
cycles whose `stop` has returned.  A `schedule_work` whose assertion fails is a step here,
which ends the process.  No assertion fails in a run exactly if it schedules nothing after
its first `stop` (`pool_reuse_iff`).
-/

namespace CoherentDB
namespace Util

open Debug Runs

variable {T : Type}

/-- What was scheduled and what was handled between a `start` and the return of the next
`stop`. -/
structure Cycle (T : Type) where
  pushed : List T
  handled : List (ℕ × T)
  deriving DecidableEq

/-- A pool with the cycles that have ended; `aborted` if an assertion of `schedule_work` has
failed. -/
structure ReusedPool (T : Type) where
  pool : Pool T
  cycles : List (Cycle T)
  aborted : Bool
  deriving DecidableEq

/-- A `start`, or one step within a cycle. -/
inductive ReuseAction (T : Type)
  | start (numWorkers : ℕ)
  | within (action : PoolAction T)
  deriving DecidableEq

/-- The items that an action schedules. -/
def ReuseAction.scheduled : ReuseAction T → List T
  | .start _ => []
  | .within action => action.scheduled

namespace ReusedPool

/-- After the constructor, without workers. -/
def constructed : ReusedPool T := ⟨⟨[], false, [], .returned, [], [], []⟩, [], false⟩

variable (s : ReusedPool T)

/-- `worker_pool::start`. -/
def start (numWorkers : ℕ) : ReusedPool T :=
  { s with
    pool := { s.pool with
      workers := s.pool.workers ++ List.replicate numWorkers .awake
      stopping := .notCalled } }

/-- The histories of a cycle go to the list when its `stop` returns. -/
def endCycle : ReusedPool T where
  pool := { s.pool with pushed := [], left := [], handled := [] }
  cycles := s.cycles ++ [⟨s.pool.pushed, s.pool.handled⟩]
  aborted := s.aborted

/-- A step of the pool that passes its assertion. -/
def stepWithin (action : PoolAction T) : Option (ReusedPool T) :=
  (s.pool.step action).map fun pool =>
    match action with
    | .clear => endCycle { s with pool := pool }
    | .scheduleWork _ _ | .advance _ | .wakeUp _ | .noMoreInput | .join => { s with pool := pool }

/-- One step; none where the action is not possible. -/
def step : ReuseAction T → Option (ReusedPool T)
  | .start numWorkers => if s.aborted then none else some (s.start numWorkers)
  | .within (.scheduleWork item woken) =>
      if s.aborted then none
      else
        match s.pool.push item with
        | .ok _ => s.stepWithin (.scheduleWork item woken)
        | .error _ => some { s with aborted := true }
  | .within action => if s.aborted then none else s.stepWithin action

/-- The calls come in cycles: a `start` with a worker at least when no cycle is under way, and
`schedule_work` between a `start` and the next `stop`. -/
def InCycles (s : ReusedPool T) : ReuseAction T → Prop
  | .start numWorkers => 1 ≤ numWorkers ∧ s.pool.stopping = .returned
  | .within (.scheduleWork _ _) => s.pool.stopping = .notCalled
  | .within _ => True

instance : (action : ReuseAction T) → Decidable (s.InCycles action)
  | .start numWorkers =>
      inferInstanceAs (Decidable (1 ≤ numWorkers ∧ s.pool.stopping = .returned))
  | .within (.scheduleWork _ _) => inferInstanceAs (Decidable (s.pool.stopping = .notCalled))
  | .within (.advance _) | .within (.wakeUp _) | .within .noMoreInput | .within .join
  | .within .clear => isTrue trivial

end ReusedPool

/-- All that a step can do. -/
inductive ReusedPool.Moves (s : ReusedPool T) : ReuseAction T → ReusedPool T → Prop
  | start (numWorkers : ℕ) : Moves s (.start numWorkers) (s.start numWorkers)
  | fails (item : T) (woken : Option ℕ) (hclosed : s.pool.noMoreData = true) :
      Moves s (.within (.scheduleWork item woken)) { s with aborted := true }
  | within (action : PoolAction T) (pool : Pool T) (hclear : action ≠ .clear)
      (hmoves : s.pool.Moves action pool) :
      Moves s (.within action) { s with pool := pool }
  | clear (pool : Pool T) (hmoves : s.pool.Moves .clear pool) :
      Moves s (.within .clear) (ReusedPool.endCycle { s with pool := pool })

section Steps

variable {s s' : ReusedPool T} {action : ReuseAction T} {n : ℕ}

theorem ReusedPool.stepWithin_moves {action : PoolAction T}
    (hstep : s.stepWithin action = some s') : s.Moves (.within action) s' := by
  obtain ⟨pool, hpool, rfl⟩ := Option.map_eq_some_iff.mp hstep
  have hmoves := Pool.moves_of_step hpool
  cases action with
  | clear => exact .clear pool hmoves
  | scheduleWork | advance | wakeUp | noMoreInput | join =>
      exact .within _ pool (by simp) hmoves

theorem Pool.push_eq_error {p : Pool T} {item : T} {failure : Failure}
    (h : p.push item = .error failure) : p.noMoreData = true := by
  by_contra hopen
  rw [Pool.push, dAssert_of (Bool.eq_false_of_not_eq_true hopen)] at h
  cases h

theorem ReusedPool.moves_of_step (hstep : s.step action = some s') :
    s.aborted = false ∧ s.Moves action s' := by
  have haborted : s.aborted = false := by
    by_contra habort
    have htrue : s.aborted = true := Bool.eq_true_of_not_eq_false habort
    cases action with
    | start numWorkers => simp [ReusedPool.step, htrue] at hstep
    | within action => cases action <;> simp [ReusedPool.step, htrue] at hstep
  refine ⟨haborted, ?_⟩
  cases action with
  | start numWorkers =>
      simp only [ReusedPool.step, haborted, Bool.false_eq_true, if_false] at hstep
      obtain rfl := Option.some.inj hstep
      exact .start numWorkers
  | within action =>
      cases action with
      | scheduleWork item woken =>
          simp only [ReusedPool.step, haborted, Bool.false_eq_true, if_false] at hstep
          cases hpush : s.pool.push item with
          | error failure =>
              rw [hpush] at hstep
              obtain rfl := Option.some.inj hstep
              exact .fails item woken (Pool.push_eq_error hpush)
          | ok pool =>
              rw [hpush] at hstep
              exact ReusedPool.stepWithin_moves hstep
      | advance | wakeUp | noMoreInput | join | clear =>
          simp only [ReusedPool.step, haborted, Bool.false_eq_true, if_false] at hstep
          exact ReusedPool.stepWithin_moves hstep

/-- Between two cycles, and before the first, there are neither workers nor items. -/
def Pool.Idle (p : Pool T) : Prop :=
  p.q = [] ∧ p.workers = [] ∧ p.pushed = [] ∧ p.left = [] ∧ p.handled = []

/-- The invariant of a pool over its cycles: within a cycle it is that of one cycle, and every
cycle that has ended has handled its items. -/
structure ReusedPool.Sound (s : ReusedPool T) : Prop where
  idle : s.pool.stopping = .returned → s.pool.Idle
  within : s.pool.stopping ≠ .returned → ∃ n, 1 ≤ n ∧ s.pool.Sound n
  ended : ∀ cycle ∈ s.cycles, (cycle.handled.map Prod.snd).Perm cycle.pushed

/-- A started pool satisfies the invariant of a cycle, whether or not its queue is closed. -/
theorem ReusedPool.start_pool_sound (hidle : s.pool.Idle) (n : ℕ) : (s.start n).pool.Sound n := by
  obtain ⟨hq, hworkers, hpushed, hleft, hhandled⟩ := hidle
  have hall : ∀ w ∈ (s.start n).pool.workers, w = .awake := by
    intro w hw
    have hmem : w ∈ s.pool.workers ++ List.replicate n .awake := hw
    rw [hworkers, List.nil_append] at hmem
    exact List.eq_of_mem_replicate hmem
  have hnone : (s.start n).pool.inHand = [] := by
    rw [Pool.inHand, List.flatMap_eq_nil_iff]
    intro w hw
    rw [hall w hw]
    rfl
  refine ⟨?_, ?_, fun _ w hw => ?_, fun hmem => ?_, fun hne => ?_, fun _ => ?_, fun k hk => ?_,
    fun hret => ?_⟩
  · show s.pool.left ++ s.pool.q = s.pool.pushed
    rw [hq, hleft, hpushed]
    rfl
  · rw [hnone]
    show (s.pool.handled.map Prod.snd ++ []).Perm s.pool.left
    rw [hhandled, hleft]
    exact List.Perm.nil
  · rw [hall w hw]
    simp
  · cases hall _ hmem
  · exact absurd hq hne
  · show (s.pool.workers ++ List.replicate n Worker.awake).length = n
    rw [hworkers, List.nil_append, List.length_replicate]
  · cases hk
  · cases hret

/-- An idle pool can only be started. -/
theorem ReusedPool.Sound.not_returned_of_moves (h : s.Sound) {action : PoolAction T} {pool : Pool T}
    (hallowed : s.InCycles (.within action)) (hmoves : s.pool.Moves action pool) :
    s.pool.stopping ≠ .returned := by
  intro hreturned
  obtain ⟨-, hworkers, -⟩ := h.idle hreturned
  cases hmoves with
  | pushToNone | push =>
      rw [ReusedPool.InCycles, hreturned] at hallowed
      cases hallowed
  | sleep i hi | pop i _ _ hi | exit i hi | done i _ hi | wakeUp i hi =>
      rw [hworkers] at hi
      cases hi
  | noMoreInput hstop | join _ hstop | clear hstop =>
      rw [hreturned] at hstop
      cases hstop

/-- **One step keeps the invariant.** -/
theorem ReusedPool.Sound.step (h : s.Sound) (hallowed : s.InCycles action)
    (hmoves : s.Moves action s') : s'.Sound := by
  cases hmoves with
  | start n =>
      obtain ⟨hn, hreturned⟩ := hallowed
      refine ⟨fun hret => ?_, fun _ => ⟨n, hn, ?_⟩, h.ended⟩
      · cases hret
      · exact ReusedPool.start_pool_sound (h.idle hreturned) n
  | fails item woken hclosed => exact ⟨h.idle, h.within, h.ended⟩
  | within action pool hclear hmoves =>
      have hlive := h.not_returned_of_moves hallowed hmoves
      obtain ⟨n, hn, hsound⟩ := h.within hlive
      refine ⟨fun hret => ?_, fun _ => ⟨n, hn, hsound.step hn hmoves⟩, h.ended⟩
      exact absurd ((hmoves.returned_iff.mp hret).resolve_right hclear) hlive
  | clear pool hmoves =>
      obtain ⟨n, hn, hsound⟩ := h.within (h.not_returned_of_moves hallowed hmoves)
      have hcycle : pool.Sound n := hsound.step hn hmoves
      have hreturned : pool.stopping = .returned := hmoves.returned_iff.mpr (Or.inr rfl)
      obtain ⟨-, hempty, hworkers⟩ := hcycle.returned hreturned
      refine ⟨fun _ => ⟨hempty, hworkers, rfl, rfl, rfl⟩, fun hne => absurd hreturned hne, ?_⟩
      intro cycle hmem
      rcases List.mem_append.mp hmem with hold | hnew
      · exact h.ended cycle hold
      · obtain rfl := List.mem_singleton.mp hnew
        refine hcycle.handled_perm hempty ?_
        rw [Pool.inHand, hworkers, List.flatMap_nil]

/-- While `stop` waits for its workers, one of them or `stop` itself can take a step. -/
theorem Pool.Sound.can_step {p : Pool T} (h : p.Sound n) {k : ℕ} (hstop : p.stopping = .joining k) :
    ∃ action, action.scheduled = [] ∧ (p.step action).isSome = true := by
  obtain ⟨hclosed, hjoined⟩ := h.joining k hstop
  have hle : k ≤ p.workers.length := by
    by_contra hlt
    have hlast := hjoined p.workers.length (by omega)
    rw [List.getElem?_eq_none le_rfl] at hlast
    cases hlast
  rcases hle.eq_or_lt with rfl | hlt
  · exact ⟨.clear, rfl, by simp [Pool.step, hstop]⟩
  · -- The worker that `stop` waits for is not asleep, since the queue is closed.
    have hworker := List.getElem?_eq_getElem hlt
    have hawake := h.closed hclosed _ (List.getElem_mem hlt)
    cases hstate : p.workers[k] with
    | awake =>
        rw [hstate] at hworker
        refine ⟨.advance k, rfl, ?_⟩
        simp only [Pool.step, hworker, Option.bind_some, Pool.advance, hclosed]
        cases p.q with
        | nil => rfl
        | cons item rest => rfl
    | asleep => exact absurd hstate hawake
    | handling item =>
        rw [hstate] at hworker
        exact ⟨.advance k, rfl, by simp [Pool.step, hworker, Pool.advance]⟩
    | finished =>
        rw [hstate] at hworker
        exact ⟨.join, rfl, by simp [Pool.step, hstop, hworker]⟩

/-- The same for a pool over its cycles. -/
theorem ReusedPool.Sound.can_step (h : s.Sound) (haborted : s.aborted = false) {k : ℕ}
    (hstop : s.pool.stopping = .joining k) :
    ∃ action, s.InCycles action ∧ (s.step action).isSome = true := by
  obtain ⟨n, -, hsound⟩ := h.within (by rw [hstop]; simp)
  obtain ⟨action, hscheduled, hsome⟩ := hsound.can_step hstop
  refine ⟨.within action, ?_, ?_⟩
  · cases action with
    | scheduleWork item woken => cases hscheduled
    | advance | wakeUp | noMoreInput | join | clear => trivial
  · cases action with
    | scheduleWork item woken => cases hscheduled
    | advance | wakeUp | noMoreInput | join | clear =>
        simpa [ReusedPool.step, haborted, ReusedPool.stepWithin] using hsome

end Steps

/-- Nothing is scheduled after a `stop`, be it in the same cycle or in a later one. -/
def NothingAfterStop (actions : List (ReuseAction T)) : Prop :=
  actions.Pairwise fun earlier later => earlier = .within .noMoreInput → later.scheduled = []

/-- What a run of several cycles has recorded. -/
structure ReusedPool.Recorded (s : ReusedPool T) (actions : List (ReuseAction T)) : Prop where
  closed : s.pool.noMoreData = true ↔ .within .noMoreInput ∈ actions
  aborted : s.aborted = false ↔ NothingAfterStop actions
  pushed : s.aborted = false →
    s.cycles.flatMap Cycle.pushed ++ s.pool.pushed = actions.flatMap ReuseAction.scheduled

section Histories

variable {s s' : ReusedPool T} {action : ReuseAction T} {actions : List (ReuseAction T)}

/-- A run goes on with nothing scheduled after a `stop` if its next action schedules nothing or
there has been no `stop`. -/
theorem nothingAfterStop_concat :
    NothingAfterStop (actions ++ [action]) ↔
      NothingAfterStop actions ∧ (.within .noMoreInput ∈ actions → action.scheduled = []) := by
  rw [NothingAfterStop, List.pairwise_append]
  constructor
  · rintro ⟨hbefore, -, hlast⟩
    exact ⟨hbefore, fun hmem => hlast _ hmem action (List.mem_singleton_self action) rfl⟩
  · rintro ⟨hbefore, hlast⟩
    refine ⟨hbefore, List.pairwise_singleton _ _, ?_⟩
    rintro earlier hmem later hlater rfl
    obtain rfl := List.mem_singleton.mp hlater
    exact hlast hmem

theorem ReusedPool.Moves.noMoreData_iff (h : s.Moves action s') :
    s'.pool.noMoreData = true ↔ s.pool.noMoreData = true ∨ action = .within .noMoreInput := by
  cases h with
  | start | fails => simp [ReusedPool.start]
  | within action pool hclear hmoves => simp [hmoves.noMoreData_iff]
  | clear pool hmoves => simpa [ReusedPool.endCycle] using hmoves.noMoreData_iff

/-- A step aborts exactly if it schedules an item into a closed queue. -/
theorem ReusedPool.Moves.aborted_iff (h : s.Moves action s') (haborted : s.aborted = false) :
    s'.aborted = false ↔ (s.pool.noMoreData = true → action.scheduled = []) := by
  cases h with
  | start => exact ⟨fun _ _ => rfl, fun _ => haborted⟩
  | fails item woken hclosed => simp [hclosed, ReuseAction.scheduled, PoolAction.scheduled]
  | within action pool hclear hmoves =>
      refine ⟨fun _ hclosed => ?_, fun _ => haborted⟩
      cases hmoves with
      | pushToNone item hopen | push item i hopen =>
          rw [hclosed] at hopen
          cases hopen
      | sleep | pop | exit | done | wakeUp | noMoreInput | join | clear => rfl
  | clear pool hmoves => exact ⟨fun _ _ => rfl, fun _ => haborted⟩

/-- A step that does not abort adds what it schedules to the cycle under way. -/
theorem ReusedPool.Moves.pushed_eq (h : s.Moves action s') (haborted : s'.aborted = false) :
    s'.cycles.flatMap Cycle.pushed ++ s'.pool.pushed =
      s.cycles.flatMap Cycle.pushed ++ s.pool.pushed ++ action.scheduled := by
  cases h with
  | start => exact (List.append_nil _).symm
  | fails => cases haborted
  | within action pool hclear hmoves =>
      rw [List.append_assoc]
      exact congrArg _ hmoves.pushed_eq
  | clear pool hmoves =>
      have hsame : pool.pushed = s.pool.pushed := by
        rw [hmoves.pushed_eq]
        exact List.append_nil _
      simp [ReusedPool.endCycle, hsame, ReuseAction.scheduled, PoolAction.scheduled]

theorem ReusedPool.Recorded.step (h : s.Recorded actions) (haborted : s.aborted = false)
    (hmoves : s.Moves action s') : s'.Recorded (actions ++ [action]) := by
  refine ⟨?_, ?_, fun hnext => ?_⟩
  · rw [hmoves.noMoreData_iff, h.closed, List.mem_append, List.mem_singleton, eq_comm]
  · rw [hmoves.aborted_iff haborted, nothingAfterStop_concat, h.closed]
    exact ⟨fun hnone => ⟨h.aborted.mp haborted, hnone⟩, fun hboth => hboth.2⟩
  · rw [hmoves.pushed_eq hnext, h.pushed haborted, List.flatMap_append, List.flatMap_singleton]

end Histories

/-- **When a pool can be reused.**  In every run of `start`, `schedule_work` and `stop` in cycles,
each cycle has handled each of its items exactly once when its `stop` has returned, the cycles
have all that was scheduled, and a `stop` under way can go on.  No assertion of `schedule_work`
fails exactly if nothing is scheduled after the first `stop`. -/
theorem pool_reuse_iff {actions : List (ReuseAction T)} {s : ReusedPool T}
    (hrun : Run ReusedPool.step ReusedPool.InCycles ReusedPool.constructed actions s) :
    (∀ cycle ∈ s.cycles, (cycle.handled.map Prod.snd).Perm cycle.pushed) ∧
      (s.aborted = false →
        s.cycles.flatMap Cycle.pushed ++ s.pool.pushed = actions.flatMap ReuseAction.scheduled) ∧
      (s.aborted = false → ∀ k, s.pool.stopping = .joining k →
        ∃ action, s.InCycles action ∧ (s.step action).isSome = true) ∧
      (s.aborted = false ↔ NothingAfterStop actions) := by
  have hboth : s.Sound ∧ s.Recorded actions := by
    refine hrun.invariant (P := fun actions s => s.Sound ∧ s.Recorded actions) ?_ ?_
    · refine ⟨⟨fun _ => ⟨rfl, rfl, rfl, rfl, rfl⟩, fun hne => absurd rfl hne, ?_⟩, ?_, ?_, ?_⟩
      · intro cycle hmem
        cases hmem
      · simp [ReusedPool.constructed]
      · simp [ReusedPool.constructed, NothingAfterStop]
      · exact fun _ => rfl
    · intro actions s s' action h hallowed hstep
      obtain ⟨haborted, hmoves⟩ := ReusedPool.moves_of_step hstep
      exact ⟨h.1.step hallowed hmoves, h.2.step haborted hmoves⟩
  obtain ⟨hsound, hrecorded⟩ := hboth
  exact ⟨hsound.ended, hrecorded.pushed, fun haborted k hstop => hsound.can_step haborted hstop,
    hrecorded.aborted⟩

/-- A cycle of one worker that handles the item 5, or nothing. -/
def oneCycle (work : Bool) : List (ReuseAction ℕ) :=
  ([.start 1] : List (ReuseAction ℕ)) ++
    ((if work then [.within (.scheduleWork 5 none), .within (.advance 0), .within (.advance 0)]
      else []) : List (ReuseAction ℕ)) ++
    ([.within .noMoreInput, .within (.advance 0), .within .join, .within .clear] :
      List (ReuseAction ℕ))

/-- A pool that works in its first cycle and is started twice more. -/
theorem pool_reuse_iff_idle_cycles :
    ∃ s, Run ReusedPool.step ReusedPool.InCycles ReusedPool.constructed
        (oneCycle true ++ oneCycle false ++ oneCycle false) s ∧
      s.cycles = [⟨[5], [(0, 5)]⟩, ⟨[], []⟩, ⟨[], []⟩] ∧ s.aborted = false := by
  have hdone : performAll ReusedPool.step ReusedPool.InCycles ReusedPool.constructed
      (oneCycle true ++ oneCycle false ++ oneCycle false) =
      some ⟨⟨[], true, [], .returned, [], [], []⟩, [⟨[5], [(0, 5)]⟩, ⟨[], []⟩, ⟨[], []⟩],
        false⟩ := by decide
  have hrun := Run.start.performAll _ hdone
  obtain ⟨-, -, -, hiff⟩ := pool_reuse_iff hrun
  refine ⟨_, hrun, rfl, hiff.mpr ?_⟩
  simp [NothingAfterStop, oneCycle, ReuseAction.scheduled, PoolAction.scheduled]

/-- A pool that was started, stopped and started again aborts at the first `schedule_work`. -/
theorem schedule_after_restart_aborts :
    ∃ s, Run ReusedPool.step ReusedPool.InCycles (ReusedPool.constructed : ReusedPool ℕ)
        (oneCycle false ++ [.start 1, .within (.scheduleWork 5 none)]) s ∧
      s.aborted = true := by
  have hdone : performAll ReusedPool.step ReusedPool.InCycles ReusedPool.constructed
      (oneCycle false ++ [.start 1, .within (.scheduleWork 5 none)]) =
      some ⟨⟨[], true, [.awake], .notCalled, [], [], []⟩, [⟨[], []⟩], true⟩ := by decide
  exact ⟨_, Run.start.performAll _ hdone, rfl⟩

end Util
end CoherentDB
