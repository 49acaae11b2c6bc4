import CoherentDB.Util.SyncCalls

/-!
# The histories of synchronous calls

In every allowed run of a service with any number of workers, the history of each call is its
`life` and the effects are `Legal` (`SyncSystem.Sound`).  A request is in the queue, in the hands
of one worker or handled, and the result of its call is there once it has been executed.  The
completion lies on the stack of the call, so that nobody may use it after the return.

At rest all calls have returned, and a single worker executes the requests in the order of the
calls.
-/

namespace CoherentDB
namespace Util

open ListRange Runs

/-! ### The pool -/

section Pool

variable {T : Type} {p p' : Pool T} {n w : ℕ} {action : PoolAction T}

/-- A worker that changes what it does, but not what it has in its hands. -/
theorem Pool.inHand_splice {a b : Worker T} (hw : p.workers[w]? = some a) (h : b.items = a.items) :
    (splice p.workers w [b]).flatMap Worker.items = p.inHand := by
  obtain ⟨before, after, hl, -, hsplice⟩ := exists_split hw
  rw [hsplice, Pool.inHand, hl]
  simp only [List.flatMap_append, List.flatMap_cons, h, List.flatMap_nil, List.append_nil,
    List.append_assoc]

theorem Pool.Sound.keeps (hsound : p.Sound n) (h : p.Moves action p')
    (hnot : ∀ w, action ≠ .advance w) :
    p'.inHand = p.inHand ∧ p'.handled = p.handled ∧ p'.left = p.left ∧
      p'.q = p.q ++ action.scheduled := by
  cases h with
  | pushToNone item => exact ⟨rfl, rfl, rfl, rfl⟩
  | push item i hopen hi => exact ⟨Pool.inHand_splice hi rfl, rfl, rfl, rfl⟩
  | sleep i | pop i | exit i | done i => exact absurd rfl (hnot i)
  | wakeUp i hi => exact ⟨Pool.inHand_splice hi rfl, rfl, rfl, (List.append_nil _).symm⟩
  | noMoreInput =>
      refine ⟨?_, rfl, rfl, (List.append_nil _).symm⟩
      show (p.workers.map Worker.notified).flatMap Worker.items = p.inHand
      rw [List.flatMap_map]
      simp only [Worker.items_notified, Pool.inHand]
  | join => exact ⟨rfl, rfl, rfl, (List.append_nil _).symm⟩
  | clear hstop =>
      refine ⟨(List.flatMap_eq_nil_iff.mpr fun worker hworker => ?_).symm, rfl, rfl,
        (List.append_nil _).symm⟩
      -- All workers have been joined.
      obtain ⟨j, hj, rfl⟩ := List.mem_iff_getElem.mp hworker
      obtain ⟨-, hjoined⟩ := hsound.joining _ hstop
      have hfinished := hjoined j hj
      rw [List.getElem?_eq_getElem hj] at hfinished
      rw [Option.some.inj hfinished]
      rfl

/-- An awake worker finds nothing or takes the first item. -/
theorem Pool.Moves.takes (h : p.Moves (.advance w) p') (hw : p.workers[w]? = some .awake) :
    p'.handled = p.handled ∧
      (p'.inHand = p.inHand ∧ p'.left = p.left ∧ p'.q = p.q ∨
        ∃ item, p'.inHand.Perm (item :: p.inHand) ∧ p'.left = p.left ++ [item] ∧
          p.q = item :: p'.q) := by
  cases h with
  | sleep => exact ⟨rfl, .inl ⟨Pool.inHand_splice hw rfl, rfl, rfl⟩⟩
  | exit => exact ⟨rfl, .inl ⟨Pool.inHand_splice hw rfl, rfl, rfl⟩⟩
  | pop _ item rest _ hq =>
      refine ⟨rfl, .inr ⟨item, ?_, rfl, hq⟩⟩
      have hperm := flatMap_splice_perm Worker.items hw (.handling item)
      rw [show Worker.items (.awake : Worker T) = [] from rfl, List.append_nil] at hperm
      exact hperm.trans List.perm_append_comm
  | done _ item hdone =>
      rw [hw] at hdone
      cases hdone

/-- A worker that returns from `handle`. -/
theorem Pool.Moves.leaves {item : T} (h : p.Moves (.advance w) p')
    (hw : p.workers[w]? = some (.handling item)) :
    (item :: p'.inHand).Perm p.inHand ∧ p'.handled = p.handled ++ [(w, item)] ∧
      p'.left = p.left ∧ p'.q = p.q := by
  cases h with
  | sleep _ hawake | exit _ hawake | pop _ _ _ hawake =>
      rw [hw] at hawake
      cases hawake
  | done _ returned hdone =>
      have hsame := Option.some.inj (hw.symm.trans hdone)
      obtain rfl := Worker.handling.inj hsame
      refine ⟨?_, rfl, rfl, rfl⟩
      have hperm := flatMap_splice_perm Worker.items hw .awake
      rw [show Worker.items (.awake : Worker T) = [] from rfl, List.append_nil] at hperm
      exact List.perm_append_comm.trans hperm

/-- The only worker has all that is in hand. -/
theorem Pool.Sound.inHand_of_single (hsound : p.Sound 1) {worker : Worker T}
    (hw : p.workers[w]? = some worker) : p.inHand = worker.items := by
  obtain ⟨only, honly⟩ := List.length_eq_one_iff.mp (hsound.size (hsound.not_returned hw))
  have hmem := List.mem_of_getElem? hw
  rw [honly, List.mem_singleton] at hmem
  rw [Pool.inHand, honly, hmem, List.flatMap_cons, List.flatMap_nil, List.append_nil]

end Pool

/-! ### One call -/

section Call

variable {O R : Type}

/-- How far the worker is with a request. -/
inductive SyncCall.Phase (call : SyncCall O R) : Prop
  | waiting (hplace : call.cmpl.places .worker = .outside) (hset : call.cmpl.completed = false)
      (hres : call.res = none)
  | completing (hplace : call.cmpl.places .worker = .completing)
      (hset : call.cmpl.completed = false) (hres : call.res ≠ none)
  | notifying (hplace : call.cmpl.places .worker = .notifying)
      (hset : call.cmpl.completed = true) (hres : call.res ≠ none)
  | completed (hplace : call.cmpl.places .worker = .outside)
      (hset : call.cmpl.completed = true) (hres : call.res ≠ none)

structure SyncCall.Sound (call : SyncCall O R) : Prop where
  cmpl : call.cmpl.Sound
  phase : call.Phase
  caller : call.cmpl.places .caller ≠ .completing ∧ call.cmpl.places .caller ≠ .notifying
  returned : call.Returned →
    call.cmpl.completed = true ∧ call.cmpl.places .worker = .outside

variable {call : SyncCall O R} {i : ℕ}

theorem SyncCall.new_sound (op : O) : (SyncCall.new op : SyncCall O R).Sound := by
  constructor
  case cmpl => exact ThreadCompletion.Sound.start.setPlace (by decide) (by decide) nofun
  case phase => exact .waiting rfl rfl rfl
  case caller =>
    show CompletionPlace.testing ≠ .completing ∧ CompletionPlace.testing ≠ .notifying
    decide
  case returned => exact nofun

theorem SyncCall.Sound.waiting (h : call.Sound) (hres : call.res = none) :
    call.cmpl.places .worker = .outside ∧ call.cmpl.completed = false := by
  cases h.phase with
  | waiting hplace hset => exact ⟨hplace, hset⟩
  | completing _ _ hsome | notifying _ _ hsome | completed _ _ hsome => exact absurd hres hsome

theorem SyncCall.Sound.not_returned (h : call.Sound) (hset : call.cmpl.completed = false) :
    ¬ call.Returned := by
  intro hreturned
  exact absurd ((h.returned hreturned).1.symm.trans hset) nofun

/-- The places after a step of one party. -/
theorem SyncCall.Sound.completing (h : call.Sound) (hres : call.res = none) (res : R) :
    (call.completing res).Sound := by
  obtain ⟨hplace, hset⟩ := h.waiting hres
  have hcaller : (call.completing res).cmpl.places .caller = call.cmpl.places .caller :=
    ThreadCompletion.places_setPlace_of_ne _ (by decide) _
  have hworker : (call.completing res).cmpl.places .worker = .completing :=
    ThreadCompletion.places_setPlace_self _ _ _
  constructor
  case cmpl => exact h.cmpl.setPlace (by rw [hplace]; decide) (by decide) nofun
  case phase => exact .completing hworker hset nofun
  case caller =>
    rw [hcaller]
    exact h.caller
  case returned =>
    intro hreturned
    exact absurd (hcaller.symm.trans hreturned) (h.not_returned hset)

/-- The events that a call has when its request is executed. -/
theorem SyncCall.Sound.life_completing (h : call.Sound) (hres : call.res = none) (res : R) :
    (call.completing res).life i = call.life i ++ [.executed i call.op res] := by
  obtain ⟨-, hset⟩ := h.waiting hres
  have hafter : ¬ (call.completing res).Returned := (h.completing hres res).not_returned hset
  rw [SyncCall.life, SyncCall.life, if_neg hafter, if_neg (h.not_returned hset), hres]
  rfl

theorem SyncCall.life_setCmpl {cmpl : ThreadCompletion Party}
    (hsame : (call.setCmpl cmpl).Returned ↔ call.Returned) :
    (call.setCmpl cmpl).life i = call.life i := by
  rw [SyncCall.life, SyncCall.life]
  simp only [hsame]
  rfl

/-- A step of the caller in `wait` that does not return. -/
theorem SyncCall.Sound.waits {place : CompletionPlace} (h : call.Sound)
    (hsound : (call.cmpl.setPlace .caller place).Sound)
    (hplace : place = .testing ∨ place = .asleep)
    (hbefore : call.cmpl.places .caller ≠ .outside) :
    (call.setCmpl (call.cmpl.setPlace .caller place)).Sound ∧
      (call.setCmpl (call.cmpl.setPlace .caller place)).life i = call.life i := by
  have hcaller : (call.cmpl.setPlace .caller place).places .caller = place :=
    ThreadCompletion.places_setPlace_self _ _ _
  have hworker : (call.cmpl.setPlace .caller place).places .worker = call.cmpl.places .worker :=
    ThreadCompletion.places_setPlace_of_ne _ (by decide) _
  have hafter : ¬ (call.setCmpl (call.cmpl.setPlace .caller place)).Returned := by
    show (call.cmpl.setPlace .caller place).places .caller ≠ .outside
    rw [hcaller]
    rcases hplace with rfl | rfl <;> decide
  refine ⟨⟨hsound, ?_, ?_, fun hreturned => absurd hreturned hafter⟩,
    SyncCall.life_setCmpl (iff_of_false hafter hbefore)⟩
  · cases h.phase with
    | waiting hout hset hres => exact .waiting (hworker.trans hout) hset hres
    | completing hout hset hres => exact .completing (hworker.trans hout) hset hres
    | notifying hout hset hres => exact .notifying (hworker.trans hout) hset hres
    | completed hout hset hres => exact .completed (hworker.trans hout) hset hres
  · show (call.cmpl.setPlace .caller place).places .caller ≠ _ ∧ _
    rw [SyncCall.setCmpl, hcaller]
    rcases hplace with rfl | rfl <;> decide

/-- The caller returns from `wait`, when the worker has left the completion. -/
theorem SyncCall.Sound.returns (h : call.Sound)
    (hsound : (call.cmpl.setPlace .caller .outside).Sound)
    (hfree : call.cmpl.mutex = none) (hset : call.cmpl.completed = true)
    (hbefore : call.cmpl.places .caller ≠ .outside) :
    (call.setCmpl (call.cmpl.setPlace .caller .outside)).Sound ∧
      (call.setCmpl (call.cmpl.setPlace .caller .outside)).life i =
        call.life i ++ [.returned i] := by
  have hcaller : (call.cmpl.setPlace .caller .outside).places .caller = .outside :=
    ThreadCompletion.places_setPlace_self _ _ _
  have hworker : (call.cmpl.setPlace .caller .outside).places .worker = call.cmpl.places .worker :=
    ThreadCompletion.places_setPlace_of_ne _ (by decide) _
  obtain ⟨hout, hres⟩ : call.cmpl.places .worker = .outside ∧ call.res ≠ none := by
    cases h.phase with
    | waiting _ hunset | completing _ hunset => exact absurd (hset.symm.trans hunset) nofun
    | notifying hplace =>
        have hheld := (h.cmpl.mutex .worker).mpr hplace
        exact absurd (hfree.symm.trans hheld) nofun
    | completed hplace _ hres => exact ⟨hplace, hres⟩
  have hlast : (call.setCmpl (call.cmpl.setPlace .caller .outside)).cmpl.places .worker = .outside :=
    hworker.trans hout
  refine ⟨⟨hsound, .completed hlast hset hres, ?_, fun _ => ⟨hset, hlast⟩⟩, ?_⟩
  · rw [SyncCall.setCmpl, hcaller]
    decide
  · have hafter : (call.setCmpl (call.cmpl.setPlace .caller .outside)).Returned := hcaller
    have hnot : ¬ call.Returned := hbefore
    rw [SyncCall.life, SyncCall.life, if_pos hafter, if_neg hnot, List.append_nil]
    rfl

/-- A step of the worker in `complete`, with its place after it. -/
theorem SyncCall.Sound.completes {cmpl : ThreadCompletion Party} (h : call.Sound)
    (hsound : cmpl.Sound) (hres : call.res ≠ none) (hset : cmpl.completed = true)
    (hworker : cmpl.places .worker = .notifying ∨
      cmpl.places .worker = .outside)
    (hcaller : cmpl.places .caller ≠ .completing ∧ cmpl.places .caller ≠ .notifying)
    (hbusy : call.cmpl.places .worker ≠ .outside)
    (hsame : cmpl.places .caller = .outside ↔ call.cmpl.places .caller = .outside) :
    (call.setCmpl cmpl).Sound ∧ (call.setCmpl cmpl).life i = call.life i := by
  refine ⟨⟨hsound, ?_, hcaller, fun hreturned => ?_⟩, SyncCall.life_setCmpl hsame⟩
  · rcases hworker with hplace | hplace
    · exact .notifying hplace hset hres
    · exact .completed hplace hset hres
  · exact absurd (h.returned (hsame.mp hreturned)).2 hbusy

/-- A step of the completion of a call. -/
theorem SyncCall.Sound.step {action : CompletionAction Party} {cmpl : ThreadCompletion Party}
    (h : call.Sound) (haction : completionStep action = true)
    (hcmpl : call.cmpl.Moves action cmpl) :
    (call.setCmpl cmpl).Sound ∧
      (call.setCmpl cmpl).life i = call.life i ++ returnEvents i action cmpl := by
  have hsound := h.cmpl.step hcmpl
  cases hcmpl with
  | wait t | complete t | reset => cases haction
  | returns t ht hfree hset =>
      cases t with
      | worker => cases haction
      | caller =>
          rw [returnEvents, if_pos ⟨rfl, ThreadCompletion.places_setPlace_self _ _ _⟩]
          exact h.returns hsound hfree hset (by rw [ht]; decide)
  | sleep t ht =>
      cases t with
      | worker => cases haction
      | caller =>
          rw [returnEvents, if_neg, List.append_nil]
          · exact h.waits hsound (.inr rfl) (by rw [ht]; decide)
          · rw [ThreadCompletion.places_setPlace_self]
            decide
  | wakeUp t ht =>
      cases t with
      | worker => cases haction
      | caller =>
          rw [returnEvents, if_neg (by rintro ⟨heq, -⟩; cases heq), List.append_nil]
          exact h.waits hsound (.inl rfl) (by rw [ht]; decide)
  | set t ht =>
      cases t with
      | caller => cases haction
      | worker =>
          have hres : call.res ≠ none := by
            cases h.phase with
            | completing _ _ hres | notifying _ _ hres | completed _ _ hres => exact hres
            | waiting hplace => exact absurd (ht.symm.trans hplace) nofun
          have hcaller : (call.cmpl.setCompleted .worker).places .caller =
              call.cmpl.places .caller :=
            ThreadCompletion.places_setCompleted_of_ne _ (by decide)
          rw [returnEvents, if_neg (by rintro ⟨heq, -⟩; cases heq), List.append_nil]
          refine h.completes hsound hres rfl
            (.inl (ThreadCompletion.places_setCompleted_self _ _)) ?_ (by rw [ht]; decide) ?_
          · rw [hcaller]
            exact h.caller
          · rw [hcaller]
  | notify t ht =>
      cases t with
      | caller => cases haction
      | worker =>
          obtain ⟨hres, hset⟩ : call.res ≠ none ∧ call.cmpl.completed = true := by
            cases h.phase with
            | notifying _ hset hres => exact ⟨hres, hset⟩
            | waiting hplace | completing hplace | completed hplace =>
                exact absurd (ht.symm.trans hplace) nofun
          have hcaller : (call.cmpl.notifyAll .worker).places .caller =
              (call.cmpl.places .caller).notified :=
            ThreadCompletion.places_notifyAll_of_ne _ (by decide)
          rw [returnEvents, if_neg (by rintro ⟨heq, -⟩; cases heq), List.append_nil]
          refine h.completes hsound hres hset
            (.inr (ThreadCompletion.places_notifyAll_self _ _)) ?_ (by rw [ht]; decide) ?_
          · rw [hcaller, Ne, Ne, ThreadCompletion.notified_eq_completing,
              ThreadCompletion.notified_eq_notifying]
            exact h.caller
          · rw [hcaller, ThreadCompletion.notified_eq_outside]

/-- A worker outside of a completion only comes in with the next request. -/
theorem completionStep_outside {action : CompletionAction Party}
    {cmpl cmpl' : ThreadCompletion Party} (haction : completionStep action = true)
    (hcmpl : cmpl.Moves action cmpl') (hout : cmpl.places .worker = .outside) :
    cmpl'.places .worker = .outside := by
  cases hcmpl with
  | wait t | complete t | reset => cases haction
  | returns t ht | sleep t ht | wakeUp t ht =>
      cases t with
      | worker => cases haction
      | caller => exact (ThreadCompletion.places_setPlace_of_ne _ (by decide) _).trans hout
  | set t ht | notify t ht =>
      cases t with
      | caller => cases haction
      | worker => exact absurd (ht.symm.trans hout) nofun

end Call

/-! ### All calls -/

section System

variable {O R S C : Type}

/-- The result of a call, once its request has been executed. -/
def SyncSystem.result? (s : SyncSystem O R S) (i : ℕ) : Option R := s.calls[i]?.bind SyncCall.res

/-- The invariant of allowed runs with `n` workers. -/
structure SyncSystem.Sound (service : Service O R S C) (n : ℕ) (s : SyncSystem O R S) : Prop where
  pool : s.pool.Sound n
  pushed : s.pool.pushed = List.range s.calls.length
  legal : service.Legal (s.history.filterMap SyncEvent.effect?) s.shared
  proper : ∀ call ∈ s.calls, service.Proper call.op
  requests : ∀ call ∈ s.calls, service.direct call.op = false
  calls : ∀ (i : ℕ) (call : SyncCall O R), s.calls[i]? = some call →
    call.Sound ∧ s.history.filter (SyncEvent.about i) = call.life i
  known : ∀ e ∈ s.history, ∀ i, e.call? = some i → i < s.calls.length
  queued : ∀ i ∈ s.pool.q, s.result? i = none
  handled : ∀ i ∈ s.pool.handled.map Prod.snd, s.result? i ≠ none
  busy : ∀ (i : ℕ) (call : SyncCall O R), s.calls[i]? = some call →
    call.cmpl.places .worker ≠ .outside → i ∈ s.pool.inHand

variable {service : Service O R S C} {n : ℕ} {s s' : SyncSystem O R S} {i : ℕ}
  {call : SyncCall O R}

/-- `stop` makes no request and is no worker. -/
theorem stopStep_quiet {action : PoolAction ℕ} (haction : stopStep action = true) :
    action.scheduled = [] ∧ ∀ w, action ≠ .advance w := by
  cases action with
  | noMoreInput | join | clear => exact ⟨rfl, nofun⟩
  | scheduleWork | advance | wakeUp => cases haction

theorem SyncSystem.Sound.start (service : Service O R S C) (n : ℕ) :
    (SyncSystem.start service n).Sound service n := by
  constructor
  case pool => exact Pool.start_sound n
  case pushed => rfl
  case legal => exact .start
  case proper => exact fun call hcall => absurd hcall List.not_mem_nil
  case requests => exact fun call hcall => absurd hcall List.not_mem_nil
  case calls => exact nofun
  case known => exact fun e he => absurd he List.not_mem_nil
  case queued => exact fun i hi => absurd hi List.not_mem_nil
  case handled => exact fun i hi => absurd hi List.not_mem_nil
  case busy => exact nofun

/-- A request is handled, in the hands of a worker or in the queue. -/
theorem SyncSystem.Sound.places (h : s.Sound service n) :
    (s.pool.handled.map Prod.snd ++ s.pool.inHand ++ s.pool.q).Perm
      (List.range s.calls.length) := by
  rw [← h.pushed, ← h.pool.order]
  exact h.pool.once.append_right _

theorem SyncSystem.result?_of_get (hcall : s.calls[i]? = some call) : s.result? i = call.res := by
  rw [SyncSystem.result?, hcall, Option.bind_some]

/-- A step of the pool that makes no new request. -/
theorem SyncSystem.Sound.setPool (h : s.Sound service n) {pool : Pool ℕ} (hpool : pool.Sound n)
    (hpushed : pool.pushed = s.pool.pushed) (hq : ∀ i ∈ pool.q, i ∈ s.pool.q)
    (hhandled : ∀ i ∈ pool.handled.map Prod.snd, s.result? i ≠ none)
    (hbusy : ∀ (i : ℕ) (call : SyncCall O R), s.calls[i]? = some call →
      call.cmpl.places .worker ≠ .outside → i ∈ pool.inHand) :
    SyncSystem.Sound service n { s with pool := pool } where
  pool := hpool
  pushed := hpushed.trans h.pushed
  legal := h.legal
  proper := h.proper
  requests := h.requests
  calls := h.calls
  known := h.known
  queued := fun i hi => h.queued i (hq i hi)
  handled := hhandled
  busy := hbusy

theorem SyncSystem.Sound.poolStep (h : s.Sound service n) (hn : 1 ≤ n)
    {action : PoolAction ℕ} {pool : Pool ℕ} (haction : action.scheduled = [])
    (hnot : ∀ w, action ≠ .advance w) (hpool : s.pool.Moves action pool) :
    SyncSystem.Sound service n { s with pool := pool } := by
  obtain ⟨hhand, hhandled, -, hq⟩ := h.pool.keeps hpool hnot
  rw [haction, List.append_nil] at hq
  refine h.setPool (h.pool.step hn hpool) ?_ ?_ ?_ ?_
  · rw [hpool.pushed_eq, haction, List.append_nil]
  · rw [hq]
    exact fun i hi => hi
  · rw [hhandled]
    exact h.handled
  · rw [hhand]
    exact h.busy

theorem SyncSystem.Sound.wakeUp (h : s.Sound service n) (hn : 1 ≤ n) {w : ℕ} {pool : Pool ℕ}
    (hpool : s.pool.Moves (.wakeUp w) pool) :
    SyncSystem.Sound service n { s with pool := pool } := by
  refine h.poolStep hn rfl (fun v heq => ?_) hpool
  cases heq

theorem SyncSystem.Sound.stop (h : s.Sound service n) (hn : 1 ≤ n) {action : PoolAction ℕ}
    {pool : Pool ℕ} (haction : stopStep action = true) (hpool : s.pool.Moves action pool) :
    SyncSystem.Sound service n { s with pool := pool } := by
  obtain ⟨hscheduled, hnot⟩ := stopStep_quiet haction
  exact h.poolStep hn hscheduled hnot hpool

theorem SyncSystem.Sound.take (h : s.Sound service n) (hn : 1 ≤ n) {w : ℕ} {pool : Pool ℕ}
    (hw : s.pool.workers[w]? = some .awake) (hpool : s.pool.Moves (.advance w) pool) :
    SyncSystem.Sound service n { s with pool := pool } := by
  obtain ⟨hhandled, hcases⟩ := hpool.takes hw
  have hpushed : pool.pushed = s.pool.pushed := by
    rw [hpool.pushed_eq, PoolAction.scheduled, List.append_nil]
  have hall : ∀ i ∈ pool.handled.map Prod.snd, s.result? i ≠ none := by
    rw [hhandled]
    exact h.handled
  rcases hcases with ⟨hhand, -, hq⟩ | ⟨item, hhand, -, hq⟩
  · refine h.setPool (h.pool.step hn hpool) hpushed ?_ hall ?_
    · rw [hq]
      exact fun i hi => hi
    · rw [hhand]
      exact h.busy
  · refine h.setPool (h.pool.step hn hpool) hpushed ?_ hall ?_
    · rw [hq]
      exact fun i hi => List.mem_cons_of_mem item hi
    · intro i call hcall hplace
      exact hhand.mem_iff.mpr (List.mem_cons_of_mem item (h.busy i call hcall hplace))

theorem SyncSystem.Sound.leave (h : s.Sound service n) (hn : 1 ≤ n) {w : ℕ} {pool : Pool ℕ}
    (hw : s.pool.workers[w]? = some (.handling i)) (hcall : s.calls[i]? = some call)
    (hres : call.res.isSome = true) (hplace : call.cmpl.places .worker = .outside)
    (hpool : s.pool.Moves (.advance w) pool) :
    SyncSystem.Sound service n { s with pool := pool } := by
  obtain ⟨hhand, hhandled, -, hq⟩ := hpool.leaves hw
  refine h.setPool (h.pool.step hn hpool) ?_ ?_ ?_ ?_
  · rw [hpool.pushed_eq, PoolAction.scheduled, List.append_nil]
  · rw [hq]
    exact fun j hj => hj
  · intro j hj
    rw [hhandled, List.map_append, List.mem_append] at hj
    rcases hj with hold | hnew
    · exact h.handled j hold
    · obtain rfl := List.mem_singleton.mp hnew
      rw [SyncSystem.result?_of_get hcall]
      exact Option.isSome_iff_ne_none.mp hres
  · intro j other hother hbusy
    rcases List.mem_cons.mp (hhand.mem_iff.mpr (h.busy j other hother hbusy)) with rfl | hstill
    · -- The worker has left the completion of the call that it returns from.
      rw [hcall] at hother
      obtain rfl := Option.some.inj hother
      exact absurd hplace hbusy
    · exact hstill

theorem SyncSystem.Sound.newCall (h : s.Sound service n) (hn : 1 ≤ n) {op : O}
    {woken : Option ℕ} {pool : Pool ℕ} (hproper : service.Proper op)
    (hrequest : service.direct op = false)
    (hpool : s.pool.Moves (.scheduleWork s.calls.length woken) pool) :
    SyncSystem.Sound service n
      { s with
        pool := pool
        calls := s.calls ++ [.new op]
        history := s.history ++ [.invoked s.calls.length op] } := by
  obtain ⟨hhand, hhandled, -, hq⟩ := h.pool.keeps hpool nofun
  -- What is new is the last call.
  have hget : ∀ (j : ℕ) (other : SyncCall O R), (s.calls ++ [.new op])[j]? = some other →
      s.calls[j]? = some other ∨ j = s.calls.length ∧ other = .new op := by
    intro j other hother
    rw [List.getElem?_append] at hother
    split_ifs at hother with hlt
    · exact .inl hother
    · obtain ⟨hlast, hnew⟩ := List.getElem?_eq_some_iff.mp hother
      rw [List.length_singleton] at hlast
      rw [List.getElem_singleton] at hnew
      exact .inr ⟨by omega, hnew.symm⟩
  have hresult : ∀ j, (s.calls ++ [SyncCall.new op])[j]?.bind SyncCall.res = s.result? j := by
    intro j
    rw [List.getElem?_append, SyncSystem.result?]
    split_ifs with hlt
    · rfl
    · rw [List.getElem?_eq_none (not_lt.mp hlt)]
      cases hj : j - s.calls.length with
      | zero => rfl
      | succ k => rfl
  constructor
  case pool => exact h.pool.step hn hpool
  case pushed =>
    show pool.pushed = List.range (s.calls ++ [SyncCall.new op]).length
    rw [hpool.pushed_eq, h.pushed, PoolAction.scheduled, List.length_append,
      List.length_singleton, List.range_succ]
  case legal =>
    rw [List.filterMap_append]
    exact (List.append_nil _).symm ▸ h.legal
  case proper =>
    intro other hother
    rcases List.mem_append.mp hother with hold | hnew
    · exact h.proper other hold
    · obtain rfl := List.mem_singleton.mp hnew
      exact hproper
  case requests =>
    intro other hother
    rcases List.mem_append.mp hother with hold | hnew
    · exact h.requests other hold
    · obtain rfl := List.mem_singleton.mp hnew
      exact hrequest
  case calls =>
    intro j other hother
    rw [List.filter_append]
    rcases hget j other hother with hold | ⟨rfl, rfl⟩
    · obtain ⟨hsound, hlife⟩ := h.calls j other hold
      obtain ⟨hlt, -⟩ := List.getElem?_eq_some_iff.mp hold
      refine ⟨hsound, ?_⟩
      have hother : SyncEvent.about j (.invoked s.calls.length op : SyncEvent O R) = false :=
        decide_eq_false fun heq => absurd (Option.some.inj heq) (by omega)
      rw [hlife, List.filter_cons, hother]
      exact List.append_nil _
    · refine ⟨SyncCall.new_sound op, ?_⟩
      have hnone : s.history.filter (SyncEvent.about s.calls.length) = [] := by
        rw [List.filter_eq_nil_iff]
        intro e he habout
        exact absurd (h.known e he _ (of_decide_eq_true habout)) (lt_irrefl _)
      have hsame : SyncEvent.about s.calls.length
          (.invoked s.calls.length op : SyncEvent O R) = true :=
        decide_eq_true rfl
      rw [hnone, List.filter_cons, if_pos hsame]
      rfl
  case known =>
    intro e he j hj
    rw [List.length_append, List.length_singleton]
    rcases List.mem_append.mp he with hold | hnew
    · have hlt := h.known e hold j hj
      omega
    · obtain rfl := List.mem_singleton.mp hnew
      obtain rfl := Option.some.inj hj
      omega
  case queued =>
    intro j hj
    rw [SyncSystem.result?, hresult]
    rw [hq, List.mem_append] at hj
    rcases hj with hold | hnew
    · exact h.queued j hold
    · obtain rfl := List.mem_singleton.mp hnew
      rw [SyncSystem.result?, List.getElem?_eq_none le_rfl]
      rfl
  case handled =>
    intro j hj
    rw [SyncSystem.result?, hresult]
    rw [hhandled] at hj
    exact h.handled j hj
  case busy =>
    intro j other hother hbusy
    show j ∈ pool.inHand
    rw [hhand]
    rcases hget j other hother with hold | ⟨-, rfl⟩
    · exact h.busy j other hold hbusy
    · exact absurd rfl hbusy

/-- The history of a call after an event of call `i`. -/
theorem SyncSystem.filter_append_events {events : List (SyncEvent O R)} (history : List _)
    (hevents : ∀ e ∈ events, e.call? = some i) (j : ℕ) :
    (history ++ events).filter (SyncEvent.about j) =
      history.filter (SyncEvent.about j) ++ if i = j then events else [] := by
  rw [List.filter_append]
  congr 1
  split_ifs with hij
  · subst hij
    exact List.filter_eq_self.mpr fun e he => decide_eq_true (hevents e he)
  · refine List.filter_eq_nil_iff.mpr fun e he habout => hij ?_
    exact Option.some.inj ((hevents e he).symm.trans (of_decide_eq_true habout))

/-- A step that changes one call and has its events. -/
theorem SyncSystem.Sound.setCall (h : s.Sound service n) (hcall : s.calls[i]? = some call)
    {call' : SyncCall O R} {events : List (SyncEvent O R)} {shared : S}
    (hevents : ∀ e ∈ events, e.call? = some i)
    (hlegal : service.Legal ((s.history ++ events).filterMap SyncEvent.effect?) shared)
    (hop : call'.op = call.op) (hsound : call'.Sound) (hlife : call'.life i = call.life i ++ events)
    (hqueued : i ∈ s.pool.q → call'.res = none) (hres : call.res ≠ none → call'.res ≠ none)
    (hbusy : call'.cmpl.places .worker ≠ .outside → i ∈ s.pool.inHand) :
    SyncSystem.Sound service n
      { s with shared := shared, calls := s.calls.set i call', history := s.history ++ events } := by
  have hlength : (s.calls.set i call').length = s.calls.length := List.length_set
  obtain ⟨hlt, -⟩ := List.getElem?_eq_some_iff.mp hcall
  have hget : ∀ j, (s.calls.set i call')[j]? = if i = j then some call' else s.calls[j]? := by
    intro j
    by_cases hij : i = j
    · subst hij
      rw [List.getElem?_set_self hlt, if_pos rfl]
    · rw [List.getElem?_set_ne hij, if_neg hij]
  constructor
  case pool => exact h.pool
  case pushed =>
    rw [hlength]
    exact h.pushed
  case legal => exact hlegal
  case proper =>
    intro other hother
    rcases List.mem_or_eq_of_mem_set hother with hold | rfl
    · exact h.proper other hold
    · rw [hop]
      exact h.proper call (List.mem_of_getElem? hcall)
  case requests =>
    intro other hother
    rcases List.mem_or_eq_of_mem_set hother with hold | rfl
    · exact h.requests other hold
    · rw [hop]
      exact h.requests call (List.mem_of_getElem? hcall)
  case calls =>
    intro j other hother
    rw [hget] at hother
    rw [SyncSystem.filter_append_events s.history hevents j]
    split_ifs at hother ⊢ with hij
    · subst hij
      obtain rfl := Option.some.inj hother
      rw [(h.calls i call hcall).2, hlife]
      exact ⟨hsound, rfl⟩
    · obtain ⟨hold, hfilter⟩ := h.calls j other hother
      exact ⟨hold, (List.append_nil _).trans hfilter⟩
  case known =>
    intro e he j hj
    rw [hlength]
    rcases List.mem_append.mp he with hold | hnew
    · exact h.known e hold j hj
    · obtain rfl := Option.some.inj ((hevents e hnew).symm.trans hj)
      exact hlt
  case queued =>
    intro j hj
    rw [SyncSystem.result?, hget]
    split_ifs with hij
    · subst hij
      exact hqueued hj
    · exact h.queued j hj
  case handled =>
    intro j hj
    have hold := h.handled j hj
    rw [SyncSystem.result?, hget]
    split_ifs with hij
    · subst hij
      rw [SyncSystem.result?_of_get hcall] at hold
      exact hres hold
    · exact hold
  case busy =>
    intro j other hother hplace
    rw [hget] at hother
    split_ifs at hother with hij
    · subst hij
      obtain rfl := Option.some.inj hother
      exact hbusy hplace
    · exact h.busy j other hother hplace

/-- A worker executes the request in its hands, up to the completion. -/
theorem SyncSystem.Sound.execute (h : s.Sound service n) {w : ℕ} {c : C} {shared : S} {res : R}
    (hw : s.pool.workers[w]? = some (.handling i)) (hcall : s.calls[i]? = some call)
    (hres : call.res = none)
    (hexec : service.exec s.shared (some w) call.op c = .done shared res) :
    SyncSystem.Sound service n
      { s with
        shared := shared
        calls := s.calls.set i (call.completing res)
        history := s.history ++ [.executed i call.op res] } := by
  have hhand : i ∈ s.pool.inHand := Pool.mem_inHand hw
  obtain ⟨hsound, -⟩ := h.calls i call hcall
  refine h.setCall hcall ?_ ?_ rfl (hsound.completing hres res)
    (hsound.life_completing hres res) ?_ (fun _ => nofun) fun _ => hhand
  · intro e he
    obtain rfl := List.mem_singleton.mp he
    rfl
  · rw [List.filterMap_append]
    exact .exec h.legal (h.proper call (List.mem_of_getElem? hcall)) hexec
  · intro hq
    -- A request in the hands of a worker is no longer in the queue.
    have hnodup := h.places.nodup_iff.mpr List.nodup_range
    exact absurd rfl ((List.nodup_append.mp hnodup).2.2 i (List.mem_append_right _ hhand) i hq)

theorem SyncSystem.Sound.completion (h : s.Sound service n) {action : CompletionAction Party}
    {cmpl : ThreadCompletion Party} (haction : completionStep action = true)
    (hcall : s.calls[i]? = some call) (hcmpl : call.cmpl.Moves action cmpl) :
    SyncSystem.Sound service n
      { s with
        calls := s.calls.set i (call.setCmpl cmpl)
        history := s.history ++ returnEvents i action cmpl } := by
  obtain ⟨hsound, -⟩ := h.calls i call hcall
  obtain ⟨hafter, hlife⟩ := hsound.step (i := i) haction hcmpl
  have hevents : ∀ e ∈ (returnEvents i action cmpl : List (SyncEvent O R)), e = .returned i := by
    intro e he
    rw [returnEvents] at he
    split_ifs at he
    · exact List.mem_singleton.mp he
    · exact absurd he List.not_mem_nil
  refine h.setCall hcall ?_ ?_ rfl hafter hlife ?_ (fun hres => hres) fun hbusy => ?_
  · intro e he
    rw [hevents e he]
    rfl
  · rw [List.filterMap_append]
    have hnone : (returnEvents i action cmpl : List (SyncEvent O R)).filterMap
        SyncEvent.effect? = [] := by
      refine List.filterMap_eq_nil_iff.mpr fun e he => ?_
      rw [hevents e he]
      rfl
    rw [hnone, List.append_nil]
    exact h.legal
  · intro hq
    have hnone := h.queued i hq
    rw [SyncSystem.result?_of_get hcall] at hnone
    exact hnone
  · refine h.busy i call hcall fun hout => hbusy ?_
    exact completionStep_outside haction hcmpl hout

theorem SyncSystem.Sound.direct (h : s.Sound service n) {op : O} {c : C} {shared : S} {res : R}
    (hproper : service.Proper op) (hexec : service.exec s.shared none op c = .done shared res) :
    SyncSystem.Sound service n
      { s with shared := shared, history := s.history ++ [.direct op res] } := by
  constructor
  case pool => exact h.pool
  case pushed => exact h.pushed
  case legal =>
    rw [List.filterMap_append]
    exact .exec h.legal hproper hexec
  case proper => exact h.proper
  case requests => exact h.requests
  case calls =>
    intro j other hother
    rw [List.filter_append]
    obtain ⟨hsound, hlife⟩ := h.calls j other hother
    exact ⟨hsound, (List.append_nil _).trans hlife⟩
  case known =>
    intro e he j hj
    rcases List.mem_append.mp he with hold | hnew
    · exact h.known e hold j hj
    · obtain rfl := List.mem_singleton.mp hnew
      cases hj
  case queued => exact h.queued
  case handled => exact h.handled
  case busy => exact h.busy

/-- **One step keeps the invariant.** -/
theorem SyncSystem.Sound.step {action : SyncAction O C} (h : s.Sound service n) (hn : 1 ≤ n)
    (hmoves : s.Moves service action s') : s'.Sound service n := by
  cases hmoves with
  | call op woken pool hproper hrequest hpool => exact h.newCall hn hproper hrequest hpool
  | take w pool hw hpool => exact h.take hn hw hpool
  | leave w i call pool hw hcall hres hplace hpool =>
      exact h.leave hn hw hcall hres hplace hpool
  | wakeUp w pool hpool => exact h.wakeUp hn hpool
  | execute w i call c shared res hw hcall hres hexec => exact h.execute hw hcall hres hexec
  | completion i call action cmpl haction hcall hcmpl => exact h.completion haction hcall hcmpl
  | direct op c shared res hproper hexec => exact h.direct hproper hexec
  | stop action pool haction hpool => exact h.stop hn haction hpool
  | aborts action hfails =>
      exact ⟨h.pool, h.pushed, h.legal, h.proper, h.requests, h.calls, h.known, h.queued, h.handled,
        h.busy⟩

/-- A process is only aborted by a step that fails. -/
theorem SyncSystem.Moves.fails {action : SyncAction O C} (hmoves : s.Moves service action s')
    (hgoing : s.aborted = false) (haborted : s'.aborted = true) : s'.Fails service action := by
  cases hmoves with
  | aborts action hfails =>
      cases hfails with
      | request i w call c hw hcall hres hexec => exact .request i w call c hw hcall hres hexec
      | direct op c hdirect hproper hexec => exact .direct op c hdirect hproper hexec
  | call | take | leave | wakeUp | execute | completion | direct | stop =>
      exact absurd (hgoing.symm.trans haborted) nofun

end System

/-! ### At rest -/

section Rest

variable {O R S C : Type} {service : Service O R S C} {n : ℕ} {s : SyncSystem O R S} {i : ℕ}
  {call : SyncCall O R}

/-- No call that is under way can take a step. -/
structure SyncSystem.Resting (service : Service O R S C) (s : SyncSystem O R S) : Prop where
  worker : ∀ w, s.step service (.worker w) = none
  execute : ∀ w c, s.step service (.execute w c) = none
  completion : ∀ i t, s.step service (.completion i (.test t)) = none ∧
    s.step service (.completion i (.set t)) = none ∧
    s.step service (.completion i (.notify t)) = none

theorem SyncSystem.step_of_going (hgoing : s.aborted = false) (action : SyncAction O C) :
    s.step service action = s.next service action := by
  rw [SyncSystem.step, hgoing]
  rfl

theorem SyncCall.Sound.worker (h : call.Sound) :
    call.cmpl.places .worker ≠ .testing ∧ call.cmpl.places .worker ≠ .asleep := by
  cases h.phase with
  | waiting hplace | completing hplace | notifying hplace | completed hplace =>
      rw [hplace]
      decide

/-- The completion of a call is at rest with the system. -/
theorem SyncSystem.Resting.cmpl (hrests : s.Resting service) (h : s.Sound service n)
    (hgoing : s.aborted = false) (hcall : s.calls[i]? = some call) : call.cmpl.Resting := by
  obtain ⟨hsound, -⟩ := h.calls i call hcall
  have hstuck : ∀ action, completionStep action = true →
      s.step service (.completion i action) = none → call.cmpl.step action = none := by
    intro action haction hnone
    rw [SyncSystem.step_of_going hgoing, SyncSystem.next, if_pos haction, hcall,
      Option.bind_some, Option.map_eq_none_iff] at hnone
    exact hnone
  intro t
  obtain ⟨htest, hset, hnotify⟩ := hrests.completion i t
  cases t with
  | caller =>
      exact ⟨hstuck _ rfl htest, if_neg fun h => hsound.caller.1 h.1, if_neg hsound.caller.2⟩
  | worker =>
      exact ⟨if_neg fun h => hsound.worker.1 h.1, hstuck _ rfl hset, hstuck _ rfl hnotify⟩

/-- At rest no worker has a request in its hands. -/
theorem SyncSystem.Resting.inHand_eq_nil (hrests : s.Resting service) (h : s.Sound service n)
    (hgoing : s.aborted = false)
    (hpossible : ∀ w op, service.Proper op → ∃ c, service.exec s.shared (some w) op c ≠ .impossible) :
    s.pool.inHand = [] := by
  rw [List.eq_nil_iff_forall_not_mem]
  intro i hi
  obtain ⟨worker, hworker, hitem⟩ := List.mem_flatMap.mp hi
  obtain rfl : worker = .handling i := by
    cases worker with
    | handling j => rw [List.mem_singleton.mp hitem]
    | awake | asleep | finished => exact absurd hitem List.not_mem_nil
  obtain ⟨w, hw⟩ := List.getElem?_of_mem hworker
  have hlt : i < s.calls.length :=
    List.mem_range.mp (h.places.mem_iff.mp (List.mem_append_left _ (List.mem_append_right _ hi)))
  have hcall : s.calls[i]? = some s.calls[i] := List.getElem?_eq_getElem hlt
  obtain ⟨hsound, -⟩ := h.calls i _ hcall
  cases hres : s.calls[i].res with
  | none =>
      obtain ⟨c, hc⟩ := hpossible w s.calls[i].op (h.proper _ (List.mem_of_getElem? hcall))
      have hnone := hrests.execute w c
      rw [SyncSystem.step_of_going hgoing, SyncSystem.next, hw, Option.bind_some,
        SyncSystem.execute, hcall, Option.bind_some, hres] at hnone
      cases hexec : service.exec s.shared (some w) s.calls[i].op c with
      | impossible => exact hc hexec
      | aborts | done =>
          rw [hexec] at hnone
          cases hnone
  | some res =>
      -- The callback has completed the call, and the worker can return.
      have hout : s.calls[i].cmpl.places .worker = .outside :=
        (hsound.cmpl.rests (hrests.cmpl h hgoing hcall) .worker).resolve_right
          fun hasleep => hsound.worker.2 hasleep.1
      have hnone := hrests.worker w
      have hsome : s.calls[i].res.isSome = true := by
        rw [hres]
        rfl
      rw [SyncSystem.step_of_going hgoing, SyncSystem.next, hw, Option.bind_some,
        SyncSystem.work, hcall, Option.bind_some, if_pos ⟨hsome, hout⟩,
        Option.map_eq_none_iff, Pool.step, hw] at hnone
      cases hnone

/-- At rest the queue is empty. -/
theorem SyncSystem.Resting.queue_eq_nil (hrests : s.Resting service) (h : s.Sound service n)
    (hgoing : s.aborted = false) (hhand : s.pool.inHand = []) : s.pool.q = [] := by
  by_contra hq
  obtain ⟨worker, hworker, hawake⟩ := h.pool.served hq
  obtain ⟨w, hw⟩ := List.getElem?_of_mem hworker
  cases worker with
  | awake =>
      have hnone := hrests.worker w
      rw [SyncSystem.step_of_going hgoing, SyncSystem.next, hw, Option.bind_some,
        SyncSystem.work, Option.map_eq_none_iff, Pool.step, hw, Option.bind_some,
        Pool.advance] at hnone
      split at hnone <;> cases hnone
  | asleep => exact hawake rfl
  | handling i => exact absurd (hhand ▸ Pool.mem_inHand hw) List.not_mem_nil
  | finished => exact hq (h.pool.finished hworker).2

/-- **At rest every call has returned**, where every request can be executed. -/
theorem SyncSystem.Resting.returned (hrests : s.Resting service) (h : s.Sound service n)
    (hgoing : s.aborted = false)
    (hpossible : ∀ w op, service.Proper op → ∃ c, service.exec s.shared (some w) op c ≠ .impossible) :
    ∀ call ∈ s.calls, call.Returned := by
  intro call hmem
  obtain ⟨i, hcall⟩ := List.getElem?_of_mem hmem
  obtain ⟨hsound, -⟩ := h.calls i call hcall
  obtain ⟨hlt, -⟩ := List.getElem?_eq_some_iff.mp hcall
  have hhand := hrests.inHand_eq_nil h hgoing hpossible
  have hplaces := h.places
  rw [hhand, hrests.queue_eq_nil h hgoing hhand, List.append_nil, List.append_nil] at hplaces
  have hres := h.handled i (hplaces.mem_iff.mpr (List.mem_range.mpr hlt))
  rw [SyncSystem.result?_of_get hcall] at hres
  have hset : call.cmpl.completed = true := by
    cases hsound.phase with
    | waiting _ _ hnone => exact absurd hnone hres
    | completing hplace =>
        have hbusy := h.busy i call hcall (by rw [hplace]; decide)
        exact absurd (hhand ▸ hbusy) List.not_mem_nil
    | notifying _ hset | completed _ hset => exact hset
  refine (hsound.cmpl.rests (hrests.cmpl h hgoing hcall) .caller).resolve_right ?_
  rintro ⟨-, hunset⟩
  exact absurd (hunset.symm.trans hset) nofun

end Rest

/-! ### The order of a single worker -/

section Order

variable {O R S C : Type} {service : Service O R S C} {s s' : SyncSystem O R S}

/-- The requests in hand that have not been executed. -/
def SyncSystem.unexecuted (s : SyncSystem O R S) : List ℕ :=
  s.pool.inHand.filter fun i => (s.result? i).isNone

/-- The requests were executed as they left the queue, but for one that is in hand. -/
def SyncSystem.InOrder (s : SyncSystem O R S) : Prop :=
  s.history.filterMap SyncEvent.executed? ++ s.unexecuted = s.pool.left

/-- A step that executes nothing. -/
theorem SyncSystem.InOrder.keep (h : s.InOrder)
    (hhistory : s'.history.filterMap SyncEvent.executed? = s.history.filterMap SyncEvent.executed?)
    (hunexecuted : s'.unexecuted = s.unexecuted) (hleft : s'.pool.left = s.pool.left) :
    s'.InOrder := by
  rw [SyncSystem.InOrder, hhistory, hunexecuted, hleft]
  exact h

theorem SyncSystem.unexecuted_of_handling {i w : ℕ} {call : SyncCall O R}
    (hsound : s.Sound service 1) (hw : s.pool.workers[w]? = some (.handling i))
    (hcall : s.calls[i]? = some call) :
    s.unexecuted = if call.res = none then [i] else [] := by
  rw [SyncSystem.unexecuted, hsound.pool.inHand_of_single hw]
  show List.filter _ [i] = _
  rw [List.filter_cons, List.filter_nil, SyncSystem.result?_of_get hcall]
  cases call.res <;> rfl

theorem SyncSystem.InOrder.newCall (h : s.InOrder) (hsound : s.Sound service 1) {op : O}
    {woken : Option ℕ} {pool : Pool ℕ}
    (hpool : s.pool.Moves (.scheduleWork s.calls.length woken) pool) :
    SyncSystem.InOrder
      { s with
        pool := pool
        calls := s.calls ++ [.new op]
        history := s.history ++ [.invoked s.calls.length op] } := by
  obtain ⟨hhand, -, hleft, -⟩ := hsound.pool.keeps hpool nofun
  refine h.keep ?_ ?_ hleft
  · rw [List.filterMap_append]
    exact List.append_nil _
  · rw [SyncSystem.unexecuted, SyncSystem.unexecuted, hhand]
    refine List.filter_congr fun i hi => ?_
    have hlt : i < s.calls.length :=
      List.mem_range.mp
        (hsound.places.mem_iff.mp (List.mem_append_left _ (List.mem_append_right _ hi)))
    rw [SyncSystem.result?, SyncSystem.result?, List.getElem?_append_left hlt]

theorem SyncSystem.InOrder.take (h : s.InOrder) (hsound : s.Sound service 1) {w : ℕ}
    {pool : Pool ℕ} (hw : s.pool.workers[w]? = some .awake)
    (hpool : s.pool.Moves (.advance w) pool) : SyncSystem.InOrder { s with pool := pool } := by
  have hnone : s.pool.inHand = [] := hsound.pool.inHand_of_single hw
  obtain ⟨-, ⟨hhand, hleft, -⟩ | ⟨item, hhand, hleft, hq⟩⟩ := hpool.takes hw
  · refine h.keep rfl ?_ hleft
    rw [SyncSystem.unexecuted, SyncSystem.unexecuted, hhand]
    rfl
  · -- The request that has left the queue is now the one in hand.
    rw [hnone, List.perm_singleton] at hhand
    have hqueued : s.result? item = none := hsound.queued item (by rw [hq]; exact List.mem_cons_self)
    rw [SyncSystem.InOrder, SyncSystem.unexecuted, hnone, List.filter_nil, List.append_nil] at h
    show _ ++ pool.inHand.filter (fun i => (s.result? i).isNone) = pool.left
    rw [h, hhand, hleft, List.filter_cons, hqueued]
    rfl

theorem SyncSystem.InOrder.leave (h : s.InOrder) (hsound : s.Sound service 1) {w i : ℕ}
    {call : SyncCall O R} {pool : Pool ℕ} (hw : s.pool.workers[w]? = some (.handling i))
    (hcall : s.calls[i]? = some call) (hres : call.res.isSome = true)
    (hpool : s.pool.Moves (.advance w) pool) : SyncSystem.InOrder { s with pool := pool } := by
  obtain ⟨hhand, -, hleft, -⟩ := hpool.leaves hw
  refine h.keep rfl ?_ hleft
  rw [SyncSystem.unexecuted_of_handling hsound hw hcall,
    if_neg (Option.isSome_iff_ne_none.mp hres)]
  rw [hsound.pool.inHand_of_single hw] at hhand
  have hnone : pool.inHand = [] := by
    have hlength := hhand.length_eq
    rw [List.length_cons, Worker.items, List.length_singleton] at hlength
    exact List.length_eq_zero_iff.mp (by omega)
  show pool.inHand.filter _ = []
  rw [hnone, List.filter_nil]

theorem SyncSystem.InOrder.execute (h : s.InOrder) (hsound : s.Sound service 1) {w i : ℕ}
    {call : SyncCall O R} {shared : S} {res : R}
    (hw : s.pool.workers[w]? = some (.handling i)) (hcall : s.calls[i]? = some call)
    (hres : call.res = none) :
    SyncSystem.InOrder
      { s with
        shared := shared
        calls := s.calls.set i (call.completing res)
        history := s.history ++ [.executed i call.op res] } := by
  obtain ⟨hlt, -⟩ := List.getElem?_eq_some_iff.mp hcall
  rw [SyncSystem.InOrder, SyncSystem.unexecuted_of_handling hsound hw hcall, if_pos hres] at h
  have hafter : SyncSystem.unexecuted
      { s with
        shared := shared
        calls := s.calls.set i (call.completing res)
        history := s.history ++ [.executed i call.op res] } = [] := by
    rw [SyncSystem.unexecuted, hsound.pool.inHand_of_single hw]
    show List.filter _ [i] = _
    rw [List.filter_cons, SyncSystem.result?, List.getElem?_set_self hlt]
    rfl
  rw [SyncSystem.InOrder, hafter, List.append_nil, List.filterMap_append]
  exact h

theorem SyncSystem.InOrder.completion (h : s.InOrder) {i : ℕ} {call : SyncCall O R}
    {action : CompletionAction Party} {cmpl : ThreadCompletion Party}
    (hcall : s.calls[i]? = some call) :
    SyncSystem.InOrder
      { s with
        calls := s.calls.set i (call.setCmpl cmpl)
        history := s.history ++ returnEvents i action cmpl } := by
  refine h.keep ?_ ?_ rfl
  · have hnone : (returnEvents i action cmpl : List (SyncEvent O R)).filterMap
        SyncEvent.executed? = [] := by
      rw [returnEvents]
      split_ifs <;> rfl
    rw [List.filterMap_append, hnone, List.append_nil]
  · rw [SyncSystem.unexecuted, SyncSystem.unexecuted]
    refine List.filter_congr fun j _ => ?_
    have hresult : (s.calls.set i (call.setCmpl cmpl))[j]?.bind SyncCall.res = s.result? j := by
      by_cases hij : i = j
      · subst hij
        obtain ⟨hlt, -⟩ := List.getElem?_eq_some_iff.mp hcall
        rw [List.getElem?_set_self hlt, SyncSystem.result?_of_get hcall]
        rfl
      · rw [List.getElem?_set_ne hij]
        rfl
    rw [SyncSystem.result?, hresult]

/-- A step of the pool that is no worker's. -/
theorem SyncSystem.InOrder.poolStep (h : s.InOrder) (hsound : s.Sound service 1)
    {action : PoolAction ℕ} {pool : Pool ℕ} (hnot : ∀ w, action ≠ .advance w)
    (hpool : s.pool.Moves action pool) : SyncSystem.InOrder { s with pool := pool } := by
  obtain ⟨hhand, -, hleft, -⟩ := hsound.pool.keeps hpool hnot
  refine h.keep rfl ?_ hleft
  rw [SyncSystem.unexecuted, SyncSystem.unexecuted, hhand]
  rfl

theorem SyncSystem.InOrder.step {action : SyncAction O C} (h : s.InOrder)
    (hsound : s.Sound service 1) (hmoves : s.Moves service action s') : s'.InOrder := by
  cases hmoves with
  | call op woken pool hproper hrequest hpool => exact h.newCall hsound hpool
  | take w pool hw hpool => exact h.take hsound hw hpool
  | leave w i call pool hw hcall hres hplace hpool => exact h.leave hsound hw hcall hres hpool
  | wakeUp w pool hpool =>
      refine h.poolStep hsound (fun v heq => ?_) hpool
      cases heq
  | execute w i call c shared res hw hcall hres hexec => exact h.execute hsound hw hcall hres
  | completion i call action cmpl haction hcall hcmpl => exact h.completion hcall
  | direct op c shared res =>
      refine h.keep ?_ rfl rfl
      rw [List.filterMap_append]
      exact List.append_nil _
  | stop action pool haction hpool => exact h.poolStep hsound (stopStep_quiet haction).2 hpool
  | aborts => exact h

end Order

end Util
end CoherentDB
