import CoherentDB.Lib.ListRange
import CoherentDB.Lib.Runs
import CoherentDB.MemoryManager.Manager

/-!
# Admission to the reserved memory

Any number of threads call the functions of `memory_manager`.  Its mutex is held
through a whole call, but for the waits, so a step is a call up to its first wait or
its end, or the part of a waiting call from one wait to the next.  A waiting call is
asleep until its condition variable is notified, or wakes up without; then it tests
again.  A timed call may give up instead.

`Admission` keeps the waiting calls in the order of arrival, and numbers of calls to
tell who was granted and who timed out.  `Moves` lists all that a step can do while
waiting calls use different condition variables.
-/

namespace CoherentDB
namespace MemoryManager

open MachineInt ListRange Runs

/-- A call that stands in `unfreeze_queue`. -/
structure Waiter where
  /-- The number of the call, in the order of arrival. -/
  call : ℕ
  condition : ConditionVariable
  resource : Resource
  bytes : ℕ
  timed : Bool
  /-- The call sleeps and its condition variable has not been notified. -/
  asleep : Bool
  deriving DecidableEq

/-- How a step ends for the thread that takes it. -/
inductive Reply
  | granted
  | waiting
  | refused
  | threw (what : String)
  | freed
  deriving DecidableEq

/-- The manager, its waiting calls, and what its callers remember. -/
structure Admission where
  manager : Manager
  waiting : List Waiter
  /-- What has been granted and not been freed. -/
  grants : List (Resource × ℕ)
  /-- The number of calls that came to the queue. -/
  arrivals : ℕ
  /-- The calls that were granted after they came to the queue, in this order. -/
  granted : List ℕ
  timedOut : List ℕ

inductive AdmissionStep
  /-- `reserve_*_bytes` or `timed_reserve_*_bytes` is called. -/
  | reserve (r : Resource) (condition : ConditionVariable) (bytes : ℕ) (timed : Bool)
  /-- The waiting call with number `i` in the queue wakes up without being notified. -/
  | wake (i : ℕ)
  /-- A waiting call that is awake tests again. -/
  | test (i : ℕ)
  /-- The wait of a timed call has timed out. -/
  | timeOut (i : ℕ)
  | tryReserve (r : Resource) (bytes : ℕ)
  | free (r : Resource) (bytes : ℕ)
  deriving DecidableEq

namespace Admission

/-- The manager before its first call. -/
def initial (ramLimitBytes totalLimitBytes : ℕ) : Admission :=
  ⟨Manager.new ramLimitBytes totalLimitBytes, [], [], 0, [], []⟩

variable (s : Admission)

/-- The call at place `i` of the queue tests whether it may pass. -/
def test (i : ℕ) (w : Waiter) : Reply × Admission :=
  match s.manager.test w.resource w.condition w.bytes with
  | some m => (.granted,
      { s with
        manager := m
        waiting := s.waiting.eraseIdx i
        grants := (w.resource, w.bytes) :: s.grants
        granted := s.granted ++ [w.call] })
  | none => (.waiting, { s with waiting := s.waiting.set i { w with asleep := true } })

/-- `notify_one` on a condition variable. -/
def notifyOne (condition : Option ConditionVariable) (w : Waiter) : Waiter :=
  if condition = some w.condition then { w with asleep := false } else w

/-- One step with its reply; none where it is not possible. -/
def perform : AdmissionStep → Option (Reply × Admission)
  | .reserve r condition bytes timed =>
      match s.manager.reserve r condition bytes with
      | .error what => some (.threw what, s)
      | .ok m =>
          let w : Waiter := ⟨s.arrivals, condition, r, bytes, timed, false⟩
          let s' := { s with
            manager := m
            waiting := s.waiting ++ [w]
            arrivals := s.arrivals + 1 }
          -- The mutex is not released before the first test.
          some (s'.test s.waiting.length w)
  | .wake i => s.waiting[i]?.map fun w =>
      (.waiting, { s with waiting := s.waiting.set i { w with asleep := false } })
  | .test i => s.waiting[i]?.bind fun w => if w.asleep then none else some (s.test i w)
  | .timeOut i => s.waiting[i]?.bind fun w =>
      if w.timed then some (.refused,
        { s with
          manager := s.manager.timeOut w.condition
          waiting := s.waiting.eraseIdx i
          timedOut := w.call :: s.timedOut })
      else none
  | .tryReserve r bytes =>
      match s.manager.tryReserve r bytes with
      | .error what => some (.threw what, s)
      | .ok none => some (.refused, s)
      | .ok (some m) => some (.granted, { s with manager := m, grants := (r, bytes) :: s.grants })
  | .free r bytes => some (.freed,
      { s with
        manager := s.manager.free r bytes
        waiting := s.waiting.map (notifyOne s.manager.unfreezeQueue.head?)
        grants := s.grants.erase (r, bytes) })

/-- One step. -/
def step (action : AdmissionStep) : Option Admission := (s.perform action).map Prod.snd

/-- A call that comes to the queue has a condition variable of its own, and asks for a value of
`size_t`. -/
def OwnCondition : AdmissionStep → Prop
  | .reserve _ condition bytes _ => condition ∉ s.waiting.map Waiter.condition ∧ bytes < 2 ^ 64
  | .tryReserve _ bytes => bytes < 2 ^ 64
  | .wake _ | .test _ | .timeOut _ | .free _ _ => True

instance : (action : AdmissionStep) → Decidable (s.OwnCondition action)
  | .reserve _ condition bytes _ =>
      inferInstanceAs (Decidable (condition ∉ s.waiting.map Waiter.condition ∧ bytes < 2 ^ 64))
  | .tryReserve _ bytes => inferInstanceAs (Decidable (bytes < 2 ^ 64))
  | .wake _ | .test _ | .timeOut _ | .free _ _ => isTrue trivial

/-- `unfreeze_queue` holds the condition variables of the waiting calls, all different. -/
structure Queued : Prop where
  queue : s.manager.unfreezeQueue = s.waiting.map Waiter.condition
  distinct : (s.waiting.map Waiter.condition).Nodup

/-- All that a step can do, with its reply. -/
inductive Moves : AdmissionStep → Reply → Admission → Prop
  | throws (r : Resource) (condition : ConditionVariable) (bytes : ℕ) (timed : Bool)
      (hlimit : s.manager.limit r < bytes) :
      Moves (.reserve r condition bytes timed) (.threw r.what) s
  | passes (r : Resource) (condition : ConditionVariable) (bytes : ℕ) (timed : Bool)
      (hempty : s.waiting = []) (hlimit : bytes ≤ s.manager.limit r)
      (hfits : s.manager.fits r bytes) :
      Moves (.reserve r condition bytes timed) .granted
        { s with
          manager := s.manager.add r bytes
          grants := (r, bytes) :: s.grants
          arrivals := s.arrivals + 1
          granted := s.granted ++ [s.arrivals] }
  | queues (r : Resource) (condition : ConditionVariable) (bytes : ℕ) (timed : Bool)
      (hlimit : bytes ≤ s.manager.limit r)
      (hblocked : s.waiting ≠ [] ∨ ¬ s.manager.fits r bytes) :
      Moves (.reserve r condition bytes timed) .waiting
        { s with
          manager := { s.manager with unfreezeQueue := s.manager.unfreezeQueue ++ [condition] }
          waiting := s.waiting ++ [⟨s.arrivals, condition, r, bytes, timed, true⟩]
          arrivals := s.arrivals + 1 }
  | wakes (i : ℕ) (w : Waiter) (hi : s.waiting[i]? = some w) :
      Moves (.wake i) .waiting { s with waiting := s.waiting.set i { w with asleep := false } }
  | grants (w : Waiter) (rest : List Waiter) (hwaiting : s.waiting = w :: rest)
      (hawake : w.asleep = false) (hfits : s.manager.fits w.resource w.bytes) :
      Moves (.test 0) .granted
        { s with
          manager := { s.manager.add w.resource w.bytes with
            unfreezeQueue := s.manager.unfreezeQueue.tail }
          waiting := rest
          grants := (w.resource, w.bytes) :: s.grants
          granted := s.granted ++ [w.call] }
  | sleeps (i : ℕ) (w : Waiter) (hi : s.waiting[i]? = some w) (hawake : w.asleep = false)
      (hblocked : i ≠ 0 ∨ ¬ s.manager.fits w.resource w.bytes) :
      Moves (.test i) .waiting { s with waiting := s.waiting.set i { w with asleep := true } }
  | givesUp (i : ℕ) (w : Waiter) (hi : s.waiting[i]? = some w) (htimed : w.timed = true) :
      Moves (.timeOut i) .refused
        { s with
          manager := s.manager.timeOut w.condition
          waiting := s.waiting.eraseIdx i
          timedOut := w.call :: s.timedOut }
  | tryThrows (r : Resource) (bytes : ℕ) (hlimit : s.manager.limit r < bytes) :
      Moves (.tryReserve r bytes) (.threw r.what) s
  | refuses (r : Resource) (bytes : ℕ) (hfits : ¬ s.manager.fits r bytes) :
      Moves (.tryReserve r bytes) .refused s
  | bypasses (r : Resource) (bytes : ℕ) (hlimit : bytes ≤ s.manager.limit r)
      (hfits : s.manager.fits r bytes) :
      Moves (.tryReserve r bytes) .granted
        { s with manager := s.manager.add r bytes, grants := (r, bytes) :: s.grants }
  | frees (r : Resource) (bytes : ℕ) : Moves (.free r bytes) .freed
      { s with
        manager := s.manager.free r bytes
        waiting := s.waiting.map (notifyOne s.manager.unfreezeQueue.head?)
        grants := s.grants.erase (r, bytes) }

variable {s} {s' : Admission} {action : AdmissionStep} {reply : Reply}

/-- The front of the queue is the first of the waiting calls. -/
theorem Queued.front_iff (h : s.Queued) {i : ℕ} {w : Waiter} (hi : s.waiting[i]? = some w) :
    s.manager.unfreezeQueue.head? = some w.condition ↔ i = 0 := by
  rw [h.queue, List.head?_eq_getElem?]
  have hcondition : (s.waiting.map Waiter.condition)[i]? = some w.condition := by
    rw [List.getElem?_map, hi]
    rfl
  constructor
  · intro hfront
    obtain ⟨hzero, hat⟩ := List.getElem?_eq_some_iff.mp hfront
    obtain ⟨hlt, hati⟩ := List.getElem?_eq_some_iff.mp hcondition
    exact ((List.Nodup.getElem_inj_iff h.distinct).mp (hati.trans hat.symm))
  · rintro rfl
    exact hcondition

theorem moves_of_reserve {r : Resource} {condition : ConditionVariable} {bytes : ℕ} {timed : Bool}
    (h : s.Queued) (hown : condition ∉ s.waiting.map Waiter.condition)
    (hperform : s.perform (.reserve r condition bytes timed) = some (reply, s')) :
    s.Moves (.reserve r condition bytes timed) reply s' := by
  simp only [perform] at hperform
  cases hreserve : s.manager.reserve r condition bytes with
  | error what =>
      rw [hreserve] at hperform
      cases hperform
      unfold Manager.reserve at hreserve
      split_ifs at hreserve with hlimit
      cases hreserve
      exact .throws r condition bytes timed hlimit
  | ok m =>
      obtain ⟨hlimit, rfl⟩ := Manager.reserve_ok hreserve
      rw [hreserve] at hperform
      simp only [test] at hperform
      -- The new call is at the front exactly if no other call waits.
      have hfront : (s.manager.unfreezeQueue ++ [condition]).head? = some condition ↔
          s.waiting = [] := by
        rw [h.queue]
        cases hwaiting : s.waiting with
        | nil => simp
        | cons w rest =>
            rw [hwaiting] at hown
            simp only [List.map_cons, List.mem_cons, not_or] at hown
            simp [Ne.symm hown.1]
      cases htest : Manager.test _ r condition bytes with
      | some m =>
          rw [htest] at hperform
          obtain ⟨hat, hfits, rfl⟩ := Manager.test_some htest
          have hempty := hfront.mp hat
          have hqueue : s.manager.unfreezeQueue = [] := by
            rw [h.queue, hempty]
            rfl
          cases hperform
          rw [Manager.add_queue, Manager.queue_self (by simp [hqueue]),
            List.eraseIdx_append_of_length_le le_rfl]
          simp only [Nat.sub_self, List.eraseIdx_cons_zero, List.append_nil]
          exact .passes r condition bytes timed hempty hlimit (Manager.fits_queue r |>.mp hfits)
      | none =>
          rw [htest] at hperform
          have hblocked := Manager.test_none htest
          rw [Manager.fits_queue] at hblocked
          cases hperform
          rw [List.set_append_right _ _ le_rfl]
          simp only [Nat.sub_self, List.set_cons_zero]
          exact .queues r condition bytes timed hlimit (hblocked.imp_left (mt hfront.mpr))

/-- Every step is one of `Moves`. -/
theorem moves_of_perform (h : s.Queued) (hown : s.OwnCondition action)
    (hperform : s.perform action = some (reply, s')) : s.Moves action reply s' := by
  cases action with
  | reserve r condition bytes timed => exact moves_of_reserve h hown.1 hperform
  | wake i =>
      obtain ⟨w, hi, heq⟩ := Option.map_eq_some_iff.mp hperform
      cases heq
      exact .wakes i w hi
  | test i =>
      obtain ⟨w, hi, heq⟩ := Option.bind_eq_some_iff.mp hperform
      split_ifs at heq with hasleep
      have hawake : w.asleep = false := by simpa using hasleep
      simp only [test] at heq
      cases htest : s.manager.test w.resource w.condition w.bytes with
      | some m =>
          obtain ⟨hfront, hfits, rfl⟩ := Manager.test_some htest
          obtain rfl := (h.front_iff hi).mp hfront
          obtain ⟨rest, hwaiting⟩ : ∃ rest, s.waiting = w :: rest := by
            rw [← List.head?_eq_getElem?] at hi
            exact ⟨_, List.eq_cons_of_mem_head? hi⟩
          rw [htest] at heq
          cases heq
          rw [hwaiting, List.eraseIdx_cons_zero]
          exact .grants w rest hwaiting hawake hfits
      | none =>
          have hblocked := Manager.test_none htest
          rw [Ne, h.front_iff hi] at hblocked
          rw [htest] at heq
          cases heq
          exact .sleeps i w hi hawake hblocked
  | timeOut i =>
      obtain ⟨w, hi, heq⟩ := Option.bind_eq_some_iff.mp hperform
      split_ifs at heq with htimed
      cases heq
      exact .givesUp i w hi htimed
  | tryReserve r bytes =>
      simp only [perform] at hperform
      cases htry : s.manager.tryReserve r bytes with
      | error what =>
          rw [htry] at hperform
          cases hperform
          unfold Manager.tryReserve at htry
          split_ifs at htry with hlimit
          cases htry
          exact .tryThrows r bytes hlimit
      | ok result =>
          obtain ⟨hlimit, ⟨rfl, hfits⟩ | ⟨rfl, hfits⟩⟩ := Manager.tryReserve_ok htry
          · rw [htry] at hperform
            cases hperform
            exact .refuses r bytes hfits
          · rw [htry] at hperform
            cases hperform
            exact .bypasses r bytes hlimit hfits
  | free r bytes =>
      cases hperform
      exact .frees r bytes

/-- A step is a reply and a move. -/
theorem moves_of_step (h : s.Queued) (hown : s.OwnCondition action)
    (hstep : s.step action = some s') : ∃ reply, s.Moves action reply s' := by
  obtain ⟨⟨reply, s''⟩, hperform, rfl⟩ := Option.map_eq_some_iff.mp hstep
  exact ⟨reply, moves_of_perform h hown hperform⟩

theorem map_notifyOne {β : Type} {f : Waiter → β} (condition : Option ConditionVariable)
    (hf : ∀ w, f { w with asleep := false } = f w) (l : List Waiter) :
    (l.map (notifyOne condition)).map f = l.map f := by
  rw [List.map_map]
  apply List.map_congr_left
  intro w _
  show f (notifyOne condition w) = f w
  unfold notifyOne
  split_ifs
  · exact hf w
  · rfl

/-- **`unfreeze_queue` has one entry for each waiting call**, in the order of arrival, after every
step. -/
theorem Queued.moves (h : s.Queued) (hown : s.OwnCondition action)
    (hmoves : s.Moves action reply s') : s'.Queued := by
  have hqueue := h.queue
  have hdistinct := h.distinct
  cases hmoves with
  | throws | tryThrows | refuses => exact h
  | passes r condition bytes timed hempty =>
      exact ⟨Manager.unfreezeQueue_add.trans hqueue, hdistinct⟩
  | queues r condition bytes timed =>
      constructor
      · show s.manager.unfreezeQueue ++ [condition] = _
        rw [hqueue, List.map_append]
        rfl
      · show (List.map _ (s.waiting ++ [_])).Nodup
        rw [List.map_append, List.nodup_append_comm]
        exact List.nodup_cons.mpr ⟨hown.1, hdistinct⟩
  | wakes i w hi =>
      have hsame := map_set_of_eq hi (show { w with asleep := false }.condition = w.condition from rfl)
      exact ⟨hqueue.trans hsame.symm, hsame ▸ hdistinct⟩
  | sleeps i w hi =>
      have hsame := map_set_of_eq hi (show { w with asleep := true }.condition = w.condition from rfl)
      exact ⟨hqueue.trans hsame.symm, hsame ▸ hdistinct⟩
  | grants w rest hwaiting =>
      rw [hwaiting, List.map_cons] at hqueue hdistinct
      exact ⟨congrArg List.tail hqueue, hdistinct.tail⟩
  | givesUp i w hi =>
      -- `std::find` stops at the first entry, which is the own one since no other call has it.
      have hnodup : ([] ++ s.waiting.map Waiter.condition).Nodup := hdistinct
      have herase : (s.waiting.map Waiter.condition).erase w.condition =
          (s.waiting.eraseIdx i).map Waiter.condition := erase_map_of_nodup hi hnodup
      constructor
      · show s.manager.unfreezeQueue.erase w.condition = (s.waiting.eraseIdx i).map _
        rw [hqueue, herase]
      · show ((s.waiting.eraseIdx i).map Waiter.condition).Nodup
        rw [← herase]
        exact hdistinct.erase _
  | bypasses r bytes => exact ⟨Manager.unfreezeQueue_add.trans hqueue, hdistinct⟩
  | frees r bytes =>
      have hsame : (s.waiting.map (notifyOne s.manager.unfreezeQueue.head?)).map Waiter.condition =
          s.waiting.map Waiter.condition := map_notifyOne _ (fun _ => rfl) _
      exact ⟨Manager.unfreezeQueue_free.trans (hqueue.trans hsame.symm), hsame ▸ hdistinct⟩

/-- The calls that came to the queue and have not timed out were granted in the order of arrival,
and the waiting ones come next. -/
structure InTurn (s : Admission) : Prop where
  calls : s.granted ++ s.waiting.map Waiter.call =
    (List.range s.arrivals).filter fun call => call ∉ s.timedOut
  past : ∀ call ∈ s.timedOut, call < s.arrivals

/-- One more arrival. -/
theorem InTurn.arrive (h : s.InTurn) :
    s.granted ++ s.waiting.map Waiter.call ++ [s.arrivals] =
      (List.range (s.arrivals + 1)).filter fun call => call ∉ s.timedOut := by
  have hnew : s.arrivals ∉ s.timedOut := fun hmem => absurd (h.past _ hmem) (lt_irrefl _)
  rw [List.range_succ, List.filter_append, ← h.calls]
  simp [hnew]

theorem InTurn.moves (h : s.InTurn) (hmoves : s.Moves action reply s') : s'.InTurn := by
  have hpast : ∀ call ∈ s.timedOut, call < s.arrivals + 1 :=
    fun call hcall => (h.past call hcall).trans (Nat.lt_succ_self _)
  cases hmoves with
  | throws | tryThrows | refuses | bypasses => exact ⟨h.calls, h.past⟩
  | passes r condition bytes timed hempty =>
      -- Nobody waits, so the call that arrives is the next one to be granted.
      have harrive := h.arrive
      rw [hempty, List.map_nil, List.append_nil] at harrive
      refine ⟨?_, hpast⟩
      show s.granted ++ [s.arrivals] ++ s.waiting.map Waiter.call = _
      rw [hempty, List.map_nil, List.append_nil]
      exact harrive
  | queues r condition bytes timed =>
      have harrive := h.arrive
      rw [List.append_assoc] at harrive
      refine ⟨?_, hpast⟩
      show s.granted ++ (s.waiting ++ [_]).map Waiter.call = _
      rw [List.map_append]
      exact harrive
  | wakes i w hi =>
      have hsame := map_set_of_eq hi (show { w with asleep := false }.call = w.call from rfl)
      exact ⟨(congrArg (s.granted ++ ·) hsame).trans h.calls, h.past⟩
  | sleeps i w hi =>
      have hsame := map_set_of_eq hi (show { w with asleep := true }.call = w.call from rfl)
      exact ⟨(congrArg (s.granted ++ ·) hsame).trans h.calls, h.past⟩
  | grants w rest hwaiting =>
      have hcalls := h.calls
      rw [hwaiting, List.map_cons, ← List.singleton_append, ← List.append_assoc] at hcalls
      exact ⟨hcalls, h.past⟩
  | givesUp i w hi =>
      -- The calls are numbered in the order of arrival, so leaving one out keeps their order.
      have hnodup : (s.granted ++ s.waiting.map Waiter.call).Nodup := by
        rw [h.calls]
        exact List.nodup_range.filter _
      have hmember : w.call ∈ s.granted ++ s.waiting.map Waiter.call :=
        List.mem_append_right _ (List.mem_map_of_mem (List.mem_of_getElem? hi))
      constructor
      · show s.granted ++ (s.waiting.eraseIdx i).map Waiter.call = _
        rw [← erase_map_of_nodup hi hnodup, hnodup.erase_eq_filter, h.calls, List.filter_filter]
        apply List.filter_congr
        intro call _
        rw [Bool.eq_iff_iff]
        simp [List.mem_cons]
      · intro call hcall
        rcases List.mem_cons.mp hcall with rfl | hold
        · rw [h.calls] at hmember
          exact List.mem_range.mp (List.mem_of_mem_filter hmember)
        · exact h.past call hold
  | frees r bytes =>
      have hsame : (s.waiting.map (notifyOne s.manager.unfreezeQueue.head?)).map Waiter.call =
          s.waiting.map Waiter.call := map_notifyOne _ (fun _ => rfl) _
      exact ⟨(congrArg (s.granted ++ ·) hsame).trans h.calls, h.past⟩

/-- The sum of the grants of one resource. -/
def outstanding (s : Admission) (r : Resource) : ℕ :=
  ((s.grants.filter fun grant => grant.1 = r).map Prod.snd).sum

/-- The counters are the sums of the grants, and below the limits. -/
structure Counted (s : Admission) : Prop where
  exact : ∀ r, s.manager.reserved r = s.outstanding r
  bounded : ∀ r, s.manager.reserved r ≤ s.manager.limit r
  small : ∀ r, s.manager.limit r < 2 ^ 63

/-- A free gives back a grant that was not freed before, with its own amount. -/
def FreesGrant (s : Admission) : AdmissionStep → Prop
  | .free r bytes => (r, bytes) ∈ s.grants
  | .reserve _ _ _ _ | .wake _ | .test _ | .timeOut _ | .tryReserve _ _ => True

instance (s : Admission) : (action : AdmissionStep) → Decidable (s.FreesGrant action)
  | .free r bytes => inferInstanceAs (Decidable ((r, bytes) ∈ s.grants))
  | .reserve _ _ _ _ | .wake _ | .test _ | .timeOut _ | .tryReserve _ _ => isTrue trivial

/-- A step that leaves the grants, the counters and the limits as they are. -/
theorem Counted.of_same (h : s.Counted) (hgrants : s'.grants = s.grants)
    (hreserved : ∀ r, s'.manager.reserved r = s.manager.reserved r)
    (hlimits : ∀ r, s'.manager.limit r = s.manager.limit r) : s'.Counted := by
  refine ⟨?_, ?_, ?_⟩
  · intro r
    rw [hreserved, h.exact, outstanding, outstanding, hgrants]
  · intro r
    rw [hreserved, hlimits]
    exact h.bounded r
  · intro r
    rw [hlimits]
    exact h.small r

/-- A grant that fits keeps the counters exact. -/
theorem Counted.add (h : s.Counted) {r : Resource} {bytes : ℕ} (hlimit : bytes ≤ s.manager.limit r)
    (hfits : s.manager.fits r bytes) (hgrants : s'.grants = (r, bytes) :: s.grants)
    (hreserved : ∀ other, s'.manager.reserved other = (s.manager.add r bytes).reserved other)
    (hlimits : ∀ other, s'.manager.limit other = s.manager.limit other) : s'.Counted := by
  -- Both are at most the limit, so limits below half of the range exclude a wrap.
  have hsum : s.manager.reserved r + bytes < 2 ^ 64 := by
    have hbounded := h.bounded r
    have hsmall := h.small r
    omega
  have hle : s.manager.reserved r + bytes ≤ s.manager.limit r := by
    unfold Manager.fits at hfits
    rwa [addWrap_of_lt hsum] at hfits
  refine ⟨?_, ?_, ?_⟩
  · intro other
    rw [hreserved, Manager.reserved_add hsum, h.exact, outstanding, outstanding, hgrants,
      List.filter_cons]
    by_cases hsame : r = other
    · subst hsame
      simp [Nat.add_comm]
    · simp [hsame, Ne.symm hsame]
  · intro other
    rw [hreserved, Manager.reserved_add hsum, hlimits]
    split_ifs with hsame
    · rw [hsame]
      exact hle
    · exact h.bounded other
  · intro other
    rw [hlimits]
    exact h.small other

/-- What is granted is at least as much as any one grant, and the rest is left when it is
freed. -/
theorem outstanding_erase {grants : List (Resource × ℕ)} {r : Resource} {bytes : ℕ}
    (hmem : (r, bytes) ∈ grants) (other : Resource) :
    ((grants.filter fun grant => grant.1 = other).map Prod.snd).sum =
      (((grants.erase (r, bytes)).filter fun grant => grant.1 = other).map Prod.snd).sum +
        if other = r then bytes else 0 := by
  have hperm := (List.perm_cons_erase hmem).filter fun grant => decide (grant.1 = other)
  rw [(hperm.map Prod.snd).sum_eq, List.filter_cons]
  by_cases hsame : r = other
  · subst hsame
    simp [Nat.add_comm]
  · simp [hsame, Ne.symm hsame]

/-- Every waiting call asks for no more than the limit. -/
def Asked (s : Admission) : Prop := ∀ w ∈ s.waiting, w.bytes ≤ s.manager.limit w.resource

theorem Asked.moves (h : s.Asked) (hmoves : s.Moves action reply s') : s'.Asked := by
  cases hmoves with
  | throws | tryThrows | refuses => exact h
  | passes r condition bytes timed =>
      intro w hw
      rw [Manager.limit_add]
      exact h w hw
  | bypasses r bytes =>
      intro w hw
      rw [Manager.limit_add]
      exact h w hw
  | queues r condition bytes timed hlimit =>
      intro w hw
      rw [Manager.limit_queue]
      rcases List.mem_append.mp hw with hold | hnew
      · exact h w hold
      · rw [List.mem_singleton.mp hnew]
        exact hlimit
  | wakes i v hi | sleeps i v hi =>
      intro w hw
      rcases List.mem_or_eq_of_mem_set hw with hold | rfl
      · exact h w hold
      · exact h v (List.mem_of_getElem? hi)
  | grants v rest hwaiting =>
      intro w hw
      rw [Manager.limit_queue, Manager.limit_add]
      exact h w (hwaiting ▸ List.mem_cons_of_mem v hw)
  | givesUp i v hi =>
      intro w hw
      exact h w (List.mem_of_mem_eraseIdx hw)
  | frees r bytes =>
      intro w hw
      obtain ⟨v, hv, rfl⟩ := List.mem_map.mp hw
      have hasked := h v hv
      rw [Manager.limit_free, notifyOne]
      split_ifs
      · exact hasked
      · exact hasked

theorem Counted.moves (h : s.Counted) (hasked : s.Asked) (hfrees : s.FreesGrant action)
    (hmoves : s.Moves action reply s') : s'.Counted := by
  cases hmoves with
  | throws | tryThrows | refuses | wakes | sleeps => exact ⟨h.exact, h.bounded, h.small⟩
  | passes r condition bytes timed hempty hlimit hfits =>
      exact h.add hlimit hfits rfl (fun _ => rfl) Manager.limit_add
  | bypasses r bytes hlimit hfits =>
      exact h.add hlimit hfits rfl (fun _ => rfl) Manager.limit_add
  | queues r condition bytes timed =>
      exact h.of_same rfl (fun _ => Manager.reserved_queue _) fun _ => Manager.limit_queue _
  | givesUp i w hi =>
      exact h.of_same rfl (fun _ => Manager.reserved_queue _) fun _ => Manager.limit_queue _
  | grants w rest hwaiting hawake hfits =>
      have hlimit := hasked w (hwaiting ▸ List.mem_cons_self)
      exact h.add hlimit hfits rfl (fun _ => Manager.reserved_queue _) fun other =>
        (Manager.limit_queue other).trans (Manager.limit_add other)
  | frees r bytes =>
      have hsum := outstanding_erase hfrees
      have hle : bytes ≤ s.manager.reserved r := by
        rw [h.exact, outstanding, hsum, if_pos rfl]
        exact Nat.le_add_left _ _
      have hlt : s.manager.reserved r < 2 ^ 64 := by
        have hbounded := h.bounded r
        have hsmall := h.small r
        omega
      have hreserved := Manager.reserved_free hle hlt
      refine ⟨?_, ?_, ?_⟩
      · intro other
        show (s.manager.free r bytes).reserved other = _
        rw [hreserved, h.exact, outstanding, outstanding, hsum]
        exact Nat.add_sub_cancel _ _
      · intro other
        show (s.manager.free r bytes).reserved other ≤ (s.manager.free r bytes).limit other
        rw [hreserved, Manager.limit_free]
        exact (Nat.sub_le _ _).trans (h.bounded other)
      · intro other
        show (s.manager.free r bytes).limit other < 2 ^ 63
        rw [Manager.limit_free]
        exact h.small other

/-- The condition variable of the call that takes a step, where it has one. -/
def own (s : Admission) : AdmissionStep → Option ConditionVariable
  | .reserve _ condition _ _ => some condition
  | .wake i | .test i | .timeOut i => s.waiting[i]?.map Waiter.condition
  | .tryReserve _ _ | .free _ _ => none

/-- A step that neither grants nor frees leaves the counters alone. -/
theorem Moves.reserved_eq (hmoves : s.Moves action reply s') (hgranted : reply ≠ .granted)
    (hfreed : reply ≠ .freed) (r : Resource) : s'.manager.reserved r = s.manager.reserved r := by
  cases hmoves with
  | throws | tryThrows | refuses | wakes | sleeps => rfl
  | queues | givesUp => exact Manager.reserved_queue r
  | passes | grants | bypasses => exact absurd rfl hgranted
  | frees => exact absurd rfl hfreed

theorem Moves.limit_eq (hmoves : s.Moves action reply s') (r : Resource) :
    s'.manager.limit r = s.manager.limit r := by
  cases hmoves with
  | throws | tryThrows | refuses | wakes | sleeps => rfl
  | queues | givesUp => exact Manager.limit_queue r
  | passes | bypasses => exact Manager.limit_add r
  | grants => exact (Manager.limit_queue r).trans (Manager.limit_add r)
  | frees => exact Manager.limit_free r

/-- A call that ends without a grant has no entry in the queue. -/
theorem Moves.not_queued (hmoves : s.Moves action reply s') (h : s.Queued)
    (hown : s.OwnCondition action) (hgranted : reply ≠ .granted) (hfreed : reply ≠ .freed)
    (hwaiting : reply ≠ .waiting) :
    ∀ condition ∈ s.own action, condition ∉ s'.manager.unfreezeQueue := by
  cases hmoves with
  | throws r condition bytes timed =>
      intro other hother
      obtain rfl := Option.some.inj hother
      rw [h.queue]
      exact hown.1
  | tryThrows | refuses =>
      intro other hother
      cases hother
  | givesUp i w hi =>
      intro other hother
      simp only [own, hi, Option.map_some] at hother
      obtain rfl := Option.some.inj hother
      have hnodup := h.distinct
      rw [← h.queue] at hnodup
      exact hnodup.not_mem_erase
  | passes | grants | bypasses => exact absurd rfl hgranted
  | queues | wakes | sleeps => exact absurd rfl hwaiting
  | frees => exact absurd rfl hfreed

/-- The four invariants of a run, and its limits. -/
structure Controlled (ramLimitBytes totalLimitBytes : ℕ) (s : Admission) : Prop where
  queued : s.Queued
  inTurn : s.InTurn
  counted : s.Counted
  asked : s.Asked
  limits : ∀ r, s.manager.limit r = (Manager.new ramLimitBytes totalLimitBytes).limit r

theorem controlled_of_run {ramLimitBytes totalLimitBytes : ℕ} (hram : ramLimitBytes < 2 ^ 63)
    (htotal : totalLimitBytes < 2 ^ 63) {actions : List AdmissionStep}
    (hrun : Run step (fun s action => s.OwnCondition action ∧ s.FreesGrant action)
      (initial ramLimitBytes totalLimitBytes) actions s) :
    Controlled ramLimitBytes totalLimitBytes s := by
  refine hrun.invariant (P := fun _ s => Controlled ramLimitBytes totalLimitBytes s) ?_ ?_
  · refine ⟨⟨rfl, List.nodup_nil⟩, ⟨rfl, by simp [initial]⟩, ⟨?_, ?_, ?_⟩, by simp [Asked, initial],
      fun _ => rfl⟩
    · intro r
      cases r <;> rfl
    · intro r
      cases r <;> exact Nat.zero_le _
    · intro r
      cases r with
      | ram => exact hram
      | total => exact htotal
  · rintro _ s s' action h ⟨hown, hfrees⟩ hstep
    obtain ⟨reply, hmoves⟩ := moves_of_step h.queued hown hstep
    exact ⟨h.queued.moves hown hmoves, h.inTurn.moves hmoves,
      h.counted.moves h.asked hfrees hmoves, h.asked.moves hmoves,
      fun r => (hmoves.limit_eq r).trans (h.limits r)⟩

/-- **Admission control.**  With limits below `2 ^ 63`, for any number of threads and every
interleaving with spurious wake-ups and time-outs: the counters are the sums of what is granted
and not freed, and no more than the limits; the queue holds the waiting calls in the order of
arrival; those that do not time out are granted in that order; and a call that ends without a
grant changes no counter and leaves no entry. -/
theorem admission_controlled {ramLimitBytes totalLimitBytes : ℕ} (hram : ramLimitBytes < 2 ^ 63)
    (htotal : totalLimitBytes < 2 ^ 63) {actions : List AdmissionStep} {s : Admission}
    (hrun : Run step (fun s action => s.OwnCondition action ∧ s.FreesGrant action)
      (initial ramLimitBytes totalLimitBytes) actions s) :
    (∀ r, s.manager.reserved r = s.outstanding r ∧
      s.outstanding r ≤ (Manager.new ramLimitBytes totalLimitBytes).limit r) ∧
    s.manager.unfreezeQueue = s.waiting.map Waiter.condition ∧
    s.granted ++ s.waiting.map Waiter.call =
      (List.range s.arrivals).filter (fun call => call ∉ s.timedOut) ∧
    ∀ action reply s', s.OwnCondition action → s.perform action = some (reply, s') →
      reply ≠ .granted → reply ≠ .freed →
        (∀ r, s'.manager.reserved r = s.manager.reserved r) ∧
        (reply ≠ .waiting → ∀ condition ∈ s.own action, condition ∉ s'.manager.unfreezeQueue) := by
  have h := controlled_of_run hram htotal hrun
  refine ⟨?_, h.queued.queue, h.inTurn.calls, ?_⟩
  · intro r
    rw [← h.limits, ← h.counted.exact]
    exact ⟨rfl, h.counted.bounded r⟩
  · intro action reply s' hown hperform hgranted hfreed
    have hmoves := moves_of_perform h.queued hown hperform
    exact ⟨hmoves.reserved_eq hgranted hfreed, hmoves.not_queued h.queued hown hgranted hfreed⟩

/-- Two calls come behind a grant; the first gives up, the second is notified and passes.  A call
of `try_reserve_total_bytes` overtakes both. -/
def overtaken : List AdmissionStep :=
  [.reserve .ram 1 6 false, .reserve .ram 2 5 true, .reserve .ram 3 4 false, .tryReserve .total 20,
    .wake 1, .test 1, .timeOut 0, .free .ram 6, .test 0]

theorem admission_controlled_overtaken :
    ∃ s, Run step (fun s action => s.OwnCondition action ∧ s.FreesGrant action) (initial 10 20)
        overtaken s ∧
      s.grants = [(.ram, 4), (.total, 20)] ∧ s.granted = [0, 2] ∧ s.timedOut = [1] ∧
      (∀ r, s.manager.reserved r = s.outstanding r ∧ s.outstanding r ≤ (Manager.new 10 20).limit r) ∧
      s.manager.unfreezeQueue = s.waiting.map Waiter.condition := by
  have hstart : Run step (fun s action => s.OwnCondition action ∧ s.FreesGrant action)
      (initial 10 20) [] (initial 10 20) := .start
  have hrun := hstart.performAll overtaken rfl
  obtain ⟨hcounters, hqueue, -⟩ := admission_controlled (by decide) (by decide) hrun
  exact ⟨_, hrun, rfl, rfl, rfl, hcounters, hqueue⟩

end Admission

end MemoryManager
end CoherentDB
