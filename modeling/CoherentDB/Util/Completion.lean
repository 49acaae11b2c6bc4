import CoherentDB.Lib.Runs

/-!
# `completion`

`wait` locks the mutex and tests `completed`, and sleeps in `cond_var.wait` as long as it is not
set.  `complete` sets it and notifies all waiters, both with the mutex.  `reset` clears it without
the mutex, so that it may come between the two.

A step is what one thread does between two points where another may act: the call of a function,
a test, which keeps the mutex to itself, the assignment and the notification of `complete`, a
`reset`, or a wake-up that nothing has notified.  T are the threads.
-/

namespace CoherentDB
namespace Util

open Runs

/-- Where a thread is. -/
inductive CompletionPlace
  | outside
  /-- In `wait`, about to lock the mutex, for the first time or after a wake-up. -/
  | testing
  /-- In `cond_var.wait`. -/
  | asleep
  /-- In `complete`, about to lock the mutex. -/
  | completing
  /-- In `complete`, with the mutex and before the notification. -/
  | notifying
  deriving DecidableEq

/-- The place after a notification. -/
def CompletionPlace.notified : CompletionPlace → CompletionPlace
  | .asleep => .testing
  | .outside => .outside
  | .testing => .testing
  | .completing => .completing
  | .notifying => .notifying

/-- A `completion` with the places of the threads that use it. -/
structure ThreadCompletion (T : Type) where
  completed : Bool
  mutex : Option T
  places : T → CompletionPlace

inductive CompletionAction (T : Type)
  /-- The call of `wait`. -/
  | wait (t : T)
  /-- `wait` locks, tests, and returns or goes to sleep. -/
  | test (t : T)
  /-- A spurious wake-up. -/
  | wakeUp (t : T)
  /-- The call of `complete`. -/
  | complete (t : T)
  /-- `complete` locks and sets `completed`. -/
  | set (t : T)
  /-- `complete` notifies all and returns. -/
  | notify (t : T)
  | reset
  deriving DecidableEq

variable {T : Type}

namespace ThreadCompletion

/-- The constructor. -/
def start : ThreadCompletion T := ⟨false, none, fun _ => .outside⟩

variable [DecidableEq T] (s : ThreadCompletion T)

def setPlace (t : T) (place : CompletionPlace) : ThreadCompletion T :=
  { s with places := Function.update s.places t place }

theorem places_setPlace_self (t : T) (place : CompletionPlace) :
    (s.setPlace t place).places t = place :=
  Function.update_self ..

theorem places_setPlace_of_ne {t u : T} (hu : u ≠ t) (place : CompletionPlace) :
    (s.setPlace t place).places u = s.places u :=
  Function.update_of_ne hu ..

/-- The assignment of `complete`, which has locked the mutex. -/
def setCompleted (t : T) : ThreadCompletion T :=
  { s.setPlace t .notifying with completed := true, mutex := some t }

theorem places_setCompleted_self (t : T) : (s.setCompleted t).places t = .notifying :=
  Function.update_self ..

theorem places_setCompleted_of_ne {t u : T} (hu : u ≠ t) :
    (s.setCompleted t).places u = s.places u :=
  Function.update_of_ne hu ..

/-- The notification and the return of `complete`. -/
def notifyAll (t : T) : ThreadCompletion T :=
  { s with
    mutex := none
    places := Function.update (CompletionPlace.notified ∘ s.places) t .outside }

theorem places_notifyAll_self (t : T) : (s.notifyAll t).places t = .outside := by
  show Function.update (CompletionPlace.notified ∘ s.places) t .outside t = .outside
  rw [Function.update_self]

theorem places_notifyAll_of_ne {t u : T} (hu : u ≠ t) :
    (s.notifyAll t).places u = (s.places u).notified := by
  show Function.update (CompletionPlace.notified ∘ s.places) t .outside u = _
  rw [Function.update_of_ne hu, Function.comp_apply]

/-- One step; none where the action is not possible. -/
def step : CompletionAction T → Option (ThreadCompletion T)
  | .wait t => if s.places t = .outside then some (s.setPlace t .testing) else none
  | .test t =>
      if s.places t = .testing ∧ s.mutex = none then
        some (s.setPlace t (if s.completed then .outside else .asleep))
      else none
  | .wakeUp t => if s.places t = .asleep then some (s.setPlace t .testing) else none
  | .complete t => if s.places t = .outside then some (s.setPlace t .completing) else none
  | .set t =>
      if s.places t = .completing ∧ s.mutex = none then some (s.setCompleted t) else none
  | .notify t => if s.places t = .notifying then some (s.notifyAll t) else none
  | .reset => some { s with completed := false }

/-- All that a step can do. -/
inductive Moves (s : ThreadCompletion T) : CompletionAction T → ThreadCompletion T → Prop
  | wait (t : T) (ht : s.places t = .outside) : Moves s (.wait t) (s.setPlace t .testing)
  | returns (t : T) (ht : s.places t = .testing) (hfree : s.mutex = none)
      (hset : s.completed = true) : Moves s (.test t) (s.setPlace t .outside)
  | sleep (t : T) (ht : s.places t = .testing) (hfree : s.mutex = none)
      (hunset : s.completed = false) : Moves s (.test t) (s.setPlace t .asleep)
  | wakeUp (t : T) (ht : s.places t = .asleep) : Moves s (.wakeUp t) (s.setPlace t .testing)
  | complete (t : T) (ht : s.places t = .outside) :
      Moves s (.complete t) (s.setPlace t .completing)
  | set (t : T) (ht : s.places t = .completing) (hfree : s.mutex = none) :
      Moves s (.set t) (s.setCompleted t)
  | notify (t : T) (ht : s.places t = .notifying) : Moves s (.notify t) (s.notifyAll t)
  | reset : Moves s .reset { s with completed := false }

variable {s} {s' : ThreadCompletion T} {action : CompletionAction T}

theorem moves_of_step (hstep : s.step action = some s') : s.Moves action s' := by
  cases action with
  | wait t =>
      obtain ⟨ht, hs'⟩ := Option.ite_none_right_eq_some.mp hstep
      obtain rfl := Option.some.inj hs'
      exact .wait t ht
  | test t =>
      obtain ⟨⟨ht, hfree⟩, hs'⟩ := Option.ite_none_right_eq_some.mp hstep
      obtain rfl := Option.some.inj hs'
      cases hset : s.completed with
      | true => exact .returns t ht hfree hset
      | false => exact .sleep t ht hfree hset
  | wakeUp t =>
      obtain ⟨ht, hs'⟩ := Option.ite_none_right_eq_some.mp hstep
      obtain rfl := Option.some.inj hs'
      exact .wakeUp t ht
  | complete t =>
      obtain ⟨ht, hs'⟩ := Option.ite_none_right_eq_some.mp hstep
      obtain rfl := Option.some.inj hs'
      exact .complete t ht
  | set t =>
      obtain ⟨⟨ht, hfree⟩, hs'⟩ := Option.ite_none_right_eq_some.mp hstep
      obtain rfl := Option.some.inj hs'
      exact .set t ht hfree
  | notify t =>
      obtain ⟨ht, hs'⟩ := Option.ite_none_right_eq_some.mp hstep
      obtain rfl := Option.some.inj hs'
      exact .notify t ht
  | reset =>
      obtain rfl := Option.some.inj hstep
      exact .reset

@[simp] theorem notified_eq_outside {place : CompletionPlace} :
    place.notified = .outside ↔ place = .outside := by
  cases place <;> decide

@[simp] theorem notified_eq_completing {place : CompletionPlace} :
    place.notified = .completing ↔ place = .completing := by
  cases place <;> decide

@[simp] theorem notified_eq_notifying {place : CompletionPlace} :
    place.notified = .notifying ↔ place = .notifying := by
  cases place <;> decide

theorem notified_ne_asleep (place : CompletionPlace) : place.notified ≠ .asleep := by
  cases place <;> decide

/-- The invariant of all runs. -/
structure Sound (s : ThreadCompletion T) : Prop where
  /-- Between two steps only a thread that is about to notify has the mutex. -/
  mutex : ∀ t, s.mutex = some t ↔ s.places t = .notifying
  /-- Nobody sleeps through a completion: a notification is still to come. -/
  awaited : ∀ t, s.places t = .asleep → s.completed = false ∨ s.mutex ≠ none

omit [DecidableEq T] in
theorem Sound.start : (start : ThreadCompletion T).Sound := by
  constructor
  · intro t
    exact ⟨nofun, nofun⟩
  · intro t
    exact nofun

/-- A step of one thread that leaves the mutex alone. -/
theorem Sound.setPlace (h : s.Sound) {t : T} {place : CompletionPlace}
    (hbefore : s.places t ≠ .notifying) (hafter : place ≠ .notifying)
    (hasleep : place = .asleep → s.completed = false) : (s.setPlace t place).Sound := by
  constructor
  · intro u
    show s.mutex = some u ↔ (s.setPlace t place).places u = .notifying
    by_cases hu : u = t
    · subst hu
      rw [places_setPlace_self, h.mutex]
      exact iff_of_false hbefore hafter
    · rw [places_setPlace_of_ne s hu, h.mutex]
  · intro u hsleeps
    show s.completed = false ∨ s.mutex ≠ none
    by_cases hu : u = t
    · subst hu
      rw [places_setPlace_self] at hsleeps
      exact .inl (hasleep hsleeps)
    · rw [places_setPlace_of_ne s hu] at hsleeps
      exact h.awaited u hsleeps

theorem Sound.step (h : s.Sound) (hmoves : s.Moves action s') : s'.Sound := by
  cases hmoves with
  | wait t ht => exact h.setPlace (by rw [ht]; decide) (by decide) nofun
  | returns t ht => exact h.setPlace (by rw [ht]; decide) (by decide) nofun
  | sleep t ht hfree hunset => exact h.setPlace (by rw [ht]; decide) (by decide) fun _ => hunset
  | wakeUp t ht => exact h.setPlace (by rw [ht]; decide) (by decide) nofun
  | complete t ht => exact h.setPlace (by rw [ht]; decide) (by decide) nofun
  | set t ht hfree =>
      constructor
      · intro u
        by_cases hu : u = t
        · subst hu
          rw [places_setCompleted_self]
          exact iff_of_true rfl rfl
        · rw [places_setCompleted_of_ne s hu, ← h.mutex, hfree]
          exact iff_of_false (fun heq => hu (Option.some.inj heq).symm) nofun
      · intro u _
        exact .inr nofun
  | notify t ht =>
      have hheld : s.mutex = some t := (h.mutex t).mpr ht
      constructor
      · intro u
        refine iff_of_false nofun ?_
        by_cases hu : u = t
        · subst hu
          rw [places_notifyAll_self]
          decide
        · rw [places_notifyAll_of_ne s hu, notified_eq_notifying, ← h.mutex, hheld]
          exact fun heq => hu (Option.some.inj heq).symm
      · intro u hu
        refine absurd hu ?_
        by_cases htu : u = t
        · subst htu
          rw [places_notifyAll_self]
          decide
        · rw [places_notifyAll_of_ne s htu]
          exact notified_ne_asleep _
  | reset => exact ⟨h.mutex, fun _ _ => .inl rfl⟩

/-- No thread in the middle of a call can take a step. -/
def Resting (s : ThreadCompletion T) : Prop :=
  ∀ t, s.step (.test t) = none ∧ s.step (.set t) = none ∧ s.step (.notify t) = none

theorem Sound.rests (h : s.Sound) (hrests : s.Resting) (t : T) :
    s.places t = .outside ∨ s.places t = .asleep ∧ s.completed = false := by
  have hnotify : ∀ u, s.places u ≠ .notifying := by
    intro u hu
    have hstuck := (hrests u).2.2
    rw [ThreadCompletion.step, if_pos hu] at hstuck
    cases hstuck
  have hfree : s.mutex = none := by
    cases hmutex : s.mutex with
    | none => rfl
    | some u => exact absurd ((h.mutex u).mp hmutex) (hnotify u)
  obtain ⟨htest, hset, -⟩ := hrests t
  cases hplace : s.places t with
  | outside => exact .inl rfl
  | testing =>
      rw [ThreadCompletion.step, if_pos ⟨hplace, hfree⟩] at htest
      cases htest
  | asleep => exact .inr ⟨rfl, (h.awaited t hplace).resolve_right fun hheld => hheld hfree⟩
  | completing =>
      rw [ThreadCompletion.step, if_pos ⟨hplace, hfree⟩] at hset
      cases hset
  | notifying => exact absurd hplace (hnotify t)

/-- `completed` is set by one of the actions, and not reset after it. -/
def SetLast (actions : List (CompletionAction T)) : Prop :=
  ∃ before t after, actions = before ++ .set t :: after ∧ .reset ∉ after

omit [DecidableEq T] in
theorem setLast_append {actions : List (CompletionAction T)} :
    SetLast (actions ++ [action]) ↔
      (∃ t, action = .set t) ∨ SetLast actions ∧ action ≠ .reset := by
  constructor
  · rintro ⟨before, t, after, heq, hafter⟩
    rcases List.eq_nil_or_concat after with rfl | ⟨front, last, rfl⟩
    · obtain ⟨-, hlast⟩ := List.append_inj' heq rfl
      exact .inl ⟨t, List.singleton_inj.mp hlast⟩
    · rw [List.concat_eq_append, ← List.cons_append, ← List.append_assoc] at heq
      obtain ⟨hfront, hlast⟩ := List.append_inj' heq rfl
      obtain rfl := List.singleton_inj.mp hlast
      rw [List.concat_eq_append, List.mem_append, not_or, List.mem_singleton] at hafter
      exact .inr ⟨⟨before, t, front, hfront, hafter.1⟩, Ne.symm hafter.2⟩
  · rintro (⟨t, rfl⟩ | ⟨⟨before, t, after, rfl, hafter⟩, hne⟩)
    · exact ⟨actions, t, [], rfl, List.not_mem_nil⟩
    · refine ⟨before, t, after ++ [action], by rw [List.append_assoc, List.cons_append], ?_⟩
      rw [List.mem_append, not_or, List.mem_singleton]
      exact ⟨hafter, hne.symm⟩

/-- The step and the histories of `completed`. -/
theorem Moves.completed_iff (h : s.Moves action s') :
    s'.completed = true ↔ (∃ t, action = .set t) ∨ s.completed = true ∧ action ≠ .reset := by
  cases h with
  | set t => exact iff_of_true rfl (.inl ⟨t, rfl⟩)
  | reset => exact iff_of_false nofun fun h => h.elim nofun fun h => h.2 rfl
  | wait | returns | sleep | wakeUp | complete | notify =>
      constructor
      · intro hset
        exact .inr ⟨hset, nofun⟩
      · rintro (⟨t, heq⟩ | ⟨hset, -⟩)
        · cases heq
        · exact hset

end ThreadCompletion

/-- **No waiter sleeps through a completion**, in any run and with `reset` at any moment.  While a
thread sleeps, `completed` is clear or a notification is still to come, so that at rest the
threads in `wait` sleep and `completed` is clear; and it is set exactly if there was a `complete`
and no `reset` after it. -/
theorem completion_wakes_waiters [DecidableEq T] {actions : List (CompletionAction T)}
    {s : ThreadCompletion T} (hrun : Run ThreadCompletion.step anyAction .start actions s) :
    (∀ t, s.places t = .asleep → s.completed = false ∨ ∃ u, s.places u = .notifying) ∧
      (s.Resting → ∀ t, s.places t = .outside ∨ s.places t = .asleep ∧ s.completed = false) ∧
      (s.completed = true ↔ ThreadCompletion.SetLast actions) := by
  have h : s.Sound ∧ (s.completed = true ↔ ThreadCompletion.SetLast actions) := by
    refine hrun.invariant (P := fun actions s =>
      s.Sound ∧ (s.completed = true ↔ ThreadCompletion.SetLast actions)) ?_ ?_
    · refine ⟨.start, iff_of_false nofun ?_⟩
      rintro ⟨before, t, after, heq, -⟩
      exact absurd heq.symm (List.append_ne_nil_of_right_ne_nil before (List.cons_ne_nil _ _))
    · rintro actions s s' action ⟨hsound, hset⟩ - hstep
      have hmoves := ThreadCompletion.moves_of_step hstep
      refine ⟨hsound.step hmoves, ?_⟩
      rw [hmoves.completed_iff, hset, ThreadCompletion.setLast_append]
  obtain ⟨hsound, hset⟩ := h
  refine ⟨fun t ht => ?_, hsound.rests, hset⟩
  refine (hsound.awaited t ht).imp_right fun hheld => ?_
  obtain ⟨u, hu⟩ := Option.ne_none_iff_exists'.mp hheld
  exact ⟨u, (hsound.mutex u).mp hu⟩

/-- A `reset` comes between the assignment and the notification of `complete`: the waiter wakes
up and sleeps again. -/
theorem completion_wakes_waiters_reset : ∃ s : ThreadCompletion Bool,
    Run ThreadCompletion.step anyAction .start
      [.wait true, .test true, .complete false, .set false, .reset, .notify false, .test true] s ∧
    s.places true = .asleep ∧ s.completed = false := by
  have hrun : Run ThreadCompletion.step anyAction (.start : ThreadCompletion Bool) _ _ :=
    (Run.start : Run ThreadCompletion.step anyAction (.start : ThreadCompletion Bool) [] _).follows
      [.wait true, .test true, .complete false, .set false, .reset, .notify false, .test true]
      ⟨trivial, _, rfl, trivial, _, rfl, trivial, _, rfl, trivial, _, rfl, trivial, _, rfl,
        trivial, _, rfl, trivial, _, rfl, rfl⟩
  refine ⟨_, hrun, ?_⟩
  refine ((completion_wakes_waiters hrun).2.1 ?_ true).resolve_left (by decide)
  intro t
  cases t <;> exact ⟨rfl, rfl, rfl⟩

end Util
end CoherentDB
