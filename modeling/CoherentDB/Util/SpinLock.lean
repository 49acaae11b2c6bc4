import CoherentDB.Debug.Asserts
import CoherentDB.Lib.Runs
import CoherentDB.Lib.Token

/-!
# `spin_mutex` and its guards

`util/thread.h` has two builds of the spin lock, one on the compiler's compare-and-swap and one
on the `xchg` instruction.  Both keep one word, which the guards of any number of threads
(`scoped_lock`, `scoped_try_lock`) read and write in atomic steps.  A guard sets its own
`locked` after the step on the word, so a call of a guard is several steps, between which the
other threads go on.

`spin_mutex_excludes` is mutual exclusion over every interleaving, and that the assertions of
the implementation hold; `builds_agree` says that the two builds have the same runs.
-/

namespace CoherentDB
namespace Util

open Debug Runs Token

/-- `SPIN_IMPL`. -/
abbrev SpinImpl := Int32

/-- `SPIN_IMPL_LOCKED`. -/
def spinImplLocked : SpinImpl := 187

/-- `SPIN_IMPL_UNLOCKED`. -/
def spinImplUnlocked : SpinImpl := 245

theorem spinImplLocked_ne_unlocked : spinImplLocked ≠ spinImplUnlocked := by decide

/-- `__sync_bool_compare_and_swap`: the word that is left, and whether it was swapped. -/
def syncBoolCompareAndSwap (lock old new : SpinImpl) : SpinImpl × Bool :=
  if lock = old then (new, true) else (lock, false)

/-- `EXCHANGE`: the word and the register that are left. -/
def exchange (lock locker : SpinImpl) : SpinImpl × SpinImpl := (locker, lock)

/-- The functions of one build on the word.  Each is one atomic access of the word with the
assertion on what it has read; the loop of `SPIN_IMPL_LOCK` is taken pass by pass, and the
boolean tells whether the pass is its last one. -/
structure SpinBuild where
  lockPass : SpinImpl → Except String (SpinImpl × Bool)
  unlock : SpinImpl → Except String SpinImpl
  trylock : SpinImpl → SpinImpl × Bool

/-- `TAS_IMPL_GNU_BUILTIN`. -/
def gnuBuiltin : SpinBuild where
  lockPass lock := .ok (syncBoolCompareAndSwap lock spinImplUnlocked spinImplLocked)
  unlock lock := do
    let res := syncBoolCompareAndSwap lock spinImplLocked spinImplUnlocked
    dAssertElse "Spin lock implementation problem" (res.2 = true)
    pure res.1
  trylock lock := syncBoolCompareAndSwap lock spinImplUnlocked spinImplLocked

/-- `TAS_IMPL_ASM_i386` and `TAS_IMPL_ASM_amd64`.  The loop is left unless `locker` is
`SPIN_IMPL_LOCKED`, so every pass puts that value into the word. -/
def asmXchg : SpinBuild where
  lockPass lock := do
    let res := exchange lock spinImplLocked
    if res.2 = spinImplLocked then pure (res.1, false)
    else
      dAssertElse ("lock corruption: locker=" ++ toString res.2.toInt) (res.2 = spinImplUnlocked)
      pure (res.1, true)
  unlock lock := .ok (exchange lock spinImplUnlocked).1
  trylock lock :=
    let res := exchange lock spinImplLocked
    (res.1, decide (res.2 = spinImplUnlocked))

/-- Where a guard is: out of its calls, or at the next step of one.  The steps that `lock`,
`try_lock` and `unlock` do before and after the access of the word are separate places. -/
inductive GuardCall
  | gone
  | ready
  | locking
  | lockReturned
  | trying
  | tryReturned (res : Bool)
  | unlocking
  | unlockReturned
  | destroying
  deriving DecidableEq

/-- A `scoped_lock_base` object. -/
structure Guard where
  locked : Bool
  call : GuardCall
  deriving DecidableEq

/-- A guard that has not been constructed. -/
def Guard.none : Guard := ⟨false, .gone⟩

/-- The calls of a guard, and the next step of the one that is under way. -/
inductive GuardAction
  | construct
  | lock
  | tryLock
  | unlock
  | destroy
  | advance
  deriving DecidableEq

/-- One step of a guard on the word; none where the guard is elsewhere. -/
def Guard.step (build : SpinBuild) (lock : SpinImpl) (g : Guard) :
    GuardAction → Option (Except String (SpinImpl × Guard))
  | .construct => if g.call = .gone then some (.ok (lock, ⟨false, .ready⟩)) else .none
  | .lock =>
      if g.call = .ready then
        some do
          dAssertElse "Trying to acquire a locked lock" (g.locked = false)
          pure (lock, { g with call := .locking })
      else .none
  | .tryLock =>
      if g.call = .ready then
        some do
          dAssertElse "Trying to acquire an already locked lock" (g.locked = false)
          pure (lock, { g with call := .trying })
      else .none
  | .unlock =>
      if g.call = .ready then
        some do
          dAssertElse "Trying to unlock an already unlocked lock." (g.locked = true)
          pure (lock, { g with call := .unlocking })
      else .none
  | .destroy =>
      if g.call = .ready then
        some (.ok (lock, { g with call := if g.locked then .destroying else .gone }))
      else .none
  | .advance =>
      match g.call with
      | .gone | .ready => .none
      | .locking =>
          some do
            let (lock', last) ← build.lockPass lock
            pure (lock', { g with call := if last then .lockReturned else .locking })
      | .lockReturned => some (.ok (lock, ⟨true, .ready⟩))
      | .trying =>
          let (lock', res) := build.trylock lock
          some (.ok (lock', { g with call := .tryReturned res }))
      | .tryReturned res => some (.ok (lock, ⟨res, .ready⟩))
      | .unlocking =>
          some do
            let lock' ← build.unlock lock
            pure (lock', { g with call := .unlockReturned })
      | .unlockReturned => some (.ok (lock, ⟨false, .ready⟩))
      | .destroying =>
          some do
            let lock' ← build.unlock lock
            pure (lock', { g with call := .gone })

/-- The guard is between the step that took the lock and the one that gives it back. -/
def Guard.Holds (g : Guard) : Prop :=
  match g.call with
  | .ready => g.locked = true
  | .lockReturned | .unlocking | .destroying => True
  | .tryReturned res => res = true
  | .gone | .locking | .trying | .unlockReturned => False

/-- The two builds. -/
inductive TasImpl
  | gnuBuiltin
  | asmXchg
  deriving DecidableEq

/-- The functions that a build has. -/
def TasImpl.build : TasImpl → SpinBuild
  | .gnuBuiltin => Util.gnuBuiltin
  | .asmXchg => Util.asmXchg

/-- A `spin_mutex` and the guards that refer to it, `ι` of them.  `aborted` is the text of the
assertion that has ended the process. -/
structure SpinMutex (ι : Type) where
  lockImpl : SpinImpl
  guards : ι → Guard
  aborted : Option String

section Mutex

variable {ι : Type} [DecidableEq ι]

/-- `spin_mutex()`, before any guard is there. -/
def SpinMutex.constructed : SpinMutex ι := ⟨spinImplUnlocked, fun _ => Guard.none, none⟩

/-- One step of the guard `i`. -/
def SpinMutex.step (impl : TasImpl) (s : SpinMutex ι) : ι × GuardAction → Option (SpinMutex ι)
  | (i, action) =>
      if s.aborted = none then
        ((s.guards i).step impl.build s.lockImpl action).map fun res =>
          match res with
          | .ok (lock', guard) => ⟨lock', Function.update s.guards i guard, none⟩
          | .error message => { s with aborted := some message }
      else none

end Mutex

/-! ### What a build does on the word -/

/-- What the word can be. -/
def IsSpinWord (lock : SpinImpl) : Prop := lock = spinImplLocked ∨ lock = spinImplUnlocked

section Builds

variable (impl : TasImpl)

theorem lockPass_unlocked :
    impl.build.lockPass spinImplUnlocked = .ok (spinImplLocked, true) := by
  cases impl with
  | gnuBuiltin => rfl
  | asmXchg => rfl

theorem lockPass_locked : impl.build.lockPass spinImplLocked = .ok (spinImplLocked, false) := by
  cases impl with
  | gnuBuiltin => rfl
  | asmXchg => rfl

theorem unlock_locked : impl.build.unlock spinImplLocked = .ok spinImplUnlocked := by
  cases impl with
  | gnuBuiltin => rfl
  | asmXchg => rfl

theorem trylock_unlocked : impl.build.trylock spinImplUnlocked = (spinImplLocked, true) := by
  cases impl with
  | gnuBuiltin => rfl
  | asmXchg => rfl

theorem trylock_locked : impl.build.trylock spinImplLocked = (spinImplLocked, false) := by
  cases impl with
  | gnuBuiltin => rfl
  | asmXchg => rfl

end Builds

/-! ### One step of a guard -/

/-- The assertions of a guard that a wrong order of calls makes fail. -/
def callOrderMessages : List String :=
  ["Trying to acquire a locked lock", "Trying to acquire an already locked lock",
    "Trying to unlock an already unlocked lock."]

/-- The calls come in the order that the assertions of the guard ask for. -/
def Guard.InOrder (g : Guard) : GuardAction → Prop
  | .lock | .tryLock => g.locked = false
  | .unlock => g.locked = true
  | .construct | .destroy | .advance => True

/-- A step that returns leaves one of the two words, and takes the lock only if it is free. -/
structure Guard.Stepped (lock : SpinImpl) (g : Guard) (lock' : SpinImpl) (g' : Guard) :
    Prop where
  word : IsSpinWord lock'
  handed : Handed (lock = spinImplUnlocked) (lock' = spinImplUnlocked) g.Holds g'.Holds

section GuardSteps

variable {impl : TasImpl} {lock : SpinImpl} {g : Guard} {action : GuardAction}
  {res : Except String (SpinImpl × Guard)}

/-- A step that does not touch the word. -/
theorem Guard.Stepped.same {g' : Guard} (hword : IsSpinWord lock) (hholds : g'.Holds ↔ g.Holds) :
    g.Stepped lock lock g' :=
  ⟨hword, .keeps Iff.rfl hholds⟩

/-- A pass that finds the lock free takes it; any other leaves everything as it is. -/
theorem Guard.stepped_lockPass (impl : TasImpl) (hword : IsSpinWord lock) (locked : Bool) :
    ∃ last, impl.build.lockPass lock = .ok (spinImplLocked, last) ∧
      Guard.Stepped lock ⟨locked, .locking⟩ spinImplLocked
        ⟨locked, if last then .lockReturned else .locking⟩ := by
  rcases hword with rfl | rfl
  · exact ⟨false, lockPass_locked impl, .same (.inl rfl) Iff.rfl⟩
  · exact ⟨true, lockPass_unlocked impl, .inl rfl,
      .takes rfl spinImplLocked_ne_unlocked trivial⟩

theorem Guard.stepped_trylock (impl : TasImpl) (hword : IsSpinWord lock) (locked : Bool) :
    ∃ res, impl.build.trylock lock = (spinImplLocked, res) ∧
      Guard.Stepped lock ⟨locked, .trying⟩ spinImplLocked ⟨locked, .tryReturned res⟩ := by
  rcases hword with rfl | rfl
  · exact ⟨false, trylock_locked impl, .same (.inl rfl) (by simp [Guard.Holds])⟩
  · exact ⟨true, trylock_unlocked impl, .inl rfl, .takes rfl spinImplLocked_ne_unlocked rfl⟩

/-- Where the guard has the lock, `SPIN_IMPL_UNLOCK` gives it back. -/
theorem Guard.stepped_unlock (impl : TasImpl) {g' : Guard} (hlock : lock = spinImplLocked)
    (hholds : g.Holds) (hgiven : ¬ g'.Holds) :
    impl.build.unlock lock = .ok spinImplUnlocked ∧ g.Stepped lock spinImplUnlocked g' := by
  obtain rfl := hlock
  exact ⟨unlock_locked impl, .inr rfl, .gives hholds rfl hgiven⟩

/-- A call that begins with an assertion on `locked` and goes on to its access of the word. -/
theorem Guard.stepped_call {message : String} {required : Bool} {locked : Bool}
    {call : GuardCall} (hword : IsSpinWord lock) (hmessage : message ∈ callOrderMessages)
    (hcall : (⟨required, call⟩ : Guard).Holds ↔ required = true)
    (hres : (dAssertElse message (locked = required) >>= fun _ =>
      pure (lock, (⟨locked, call⟩ : Guard))) = res) :
    (∃ message ∈ callOrderMessages, res = .error message ∧ locked ≠ required) ∨
      ∃ lock' g', res = .ok (lock', g') ∧ Guard.Stepped lock ⟨locked, .ready⟩ lock' g' := by
  by_cases hlocked : locked = required
  · obtain rfl := hlocked
    rw [dAssertElse_of rfl, ok_bind] at hres
    exact .inr ⟨lock, ⟨locked, call⟩, hres.symm, .same hword hcall⟩
  · rw [dAssertElse_of_not hlocked, error_bind] at hres
    exact .inl ⟨message, hmessage, hres.symm, hlocked⟩

/-- A step of a guard, where the guard has the lock only if the word says so. -/
theorem Guard.step_spec (hword : IsSpinWord lock) (hholds : g.Holds → lock = spinImplLocked)
    (hstep : g.step impl.build lock action = some res) :
    (∃ message ∈ callOrderMessages, res = .error message ∧ ¬ g.InOrder action) ∨
      ∃ lock' g', res = .ok (lock', g') ∧ g.Stepped lock lock' g' := by
  obtain ⟨locked, call⟩ := g
  cases action with
  | construct =>
      obtain ⟨rfl, hres⟩ := Option.ite_none_right_eq_some.mp hstep
      obtain rfl := Option.some.inj hres
      exact .inr ⟨lock, ⟨false, .ready⟩, rfl, .same hword (by simp [Guard.Holds])⟩
  | lock =>
      obtain ⟨rfl, hres⟩ := Option.ite_none_right_eq_some.mp hstep
      exact Guard.stepped_call hword (by simp [callOrderMessages]) (by simp [Guard.Holds])
        (Option.some.inj hres)
  | tryLock =>
      obtain ⟨rfl, hres⟩ := Option.ite_none_right_eq_some.mp hstep
      exact Guard.stepped_call hword (by simp [callOrderMessages]) (by simp [Guard.Holds])
        (Option.some.inj hres)
  | unlock =>
      obtain ⟨rfl, hres⟩ := Option.ite_none_right_eq_some.mp hstep
      exact Guard.stepped_call hword (by simp [callOrderMessages]) (by simp [Guard.Holds])
        (Option.some.inj hres)
  | destroy =>
      obtain ⟨rfl, hres⟩ := Option.ite_none_right_eq_some.mp hstep
      obtain rfl := Option.some.inj hres
      refine .inr ⟨lock, _, rfl, .same hword ?_⟩
      cases locked with
      | false => simp [Guard.Holds]
      | true => simp [Guard.Holds]
  | advance =>
      cases call with
      | gone => cases hstep
      | ready => cases hstep
      | locking =>
          obtain ⟨last, hpass, hstepped⟩ := Guard.stepped_lockPass impl hword locked
          rw [Guard.step, hpass, ok_bind] at hstep
          exact .inr ⟨_, _, (Option.some.inj hstep).symm, hstepped⟩
      | lockReturned =>
          obtain rfl := Option.some.inj hstep
          exact .inr ⟨lock, ⟨true, .ready⟩, rfl, .same hword (by simp [Guard.Holds])⟩
      | trying =>
          obtain ⟨acquired, htry, hstepped⟩ := Guard.stepped_trylock impl hword locked
          rw [Guard.step, htry] at hstep
          exact .inr ⟨_, _, (Option.some.inj hstep).symm, hstepped⟩
      | tryReturned acquired =>
          obtain rfl := Option.some.inj hstep
          exact .inr ⟨lock, ⟨acquired, .ready⟩, rfl, .same hword Iff.rfl⟩
      | unlocking =>
          have hhere : (⟨locked, .unlocking⟩ : Guard).Holds := trivial
          have hafter : ¬ (⟨locked, .unlockReturned⟩ : Guard).Holds := not_false
          obtain ⟨hunlock, hstepped⟩ := Guard.stepped_unlock impl (hholds hhere) hhere hafter
          rw [Guard.step, hunlock, ok_bind] at hstep
          exact .inr ⟨_, _, (Option.some.inj hstep).symm, hstepped⟩
      | unlockReturned =>
          obtain rfl := Option.some.inj hstep
          exact .inr ⟨lock, ⟨false, .ready⟩, rfl, .same hword (by simp [Guard.Holds])⟩
      | destroying =>
          have hhere : (⟨locked, .destroying⟩ : Guard).Holds := trivial
          have hafter : ¬ (⟨locked, .gone⟩ : Guard).Holds := not_false
          obtain ⟨hunlock, hstepped⟩ := Guard.stepped_unlock impl (hholds hhere) hhere hafter
          rw [Guard.step, hunlock, ok_bind] at hstep
          exact .inr ⟨_, _, (Option.some.inj hstep).symm, hstepped⟩

end GuardSteps

/-! ### Runs -/

section MutexRuns

variable {ι : Type}

/-- The lock is in one place, and the word says where; no assertion of the implementation has
failed. -/
structure SpinMutex.Sound (s : SpinMutex ι) : Prop where
  word : IsSpinWord s.lockImpl
  exclusive : Exclusive (s.lockImpl = spinImplUnlocked) fun i => (s.guards i).Holds
  aborted : ∀ message, s.aborted = some message → message ∈ callOrderMessages

theorem SpinMutex.sound_constructed : (SpinMutex.constructed : SpinMutex ι).Sound where
  word := .inr rfl
  exclusive := .of_none rfl fun _ => not_false
  aborted message h := by cases h

theorem SpinMutex.Sound.locked_of_holds {s : SpinMutex ι} (h : s.Sound) {i : ι}
    (hi : (s.guards i).Holds) : s.lockImpl = spinImplLocked :=
  h.word.resolve_right (h.exclusive.not_free hi)

variable [DecidableEq ι] {impl : TasImpl} {s s' : SpinMutex ι} {actions : List (ι × GuardAction)}

/-- What a step of a guard does to the mutex. -/
theorem SpinMutex.step_cases (h : s.Sound) {i : ι} {action : GuardAction}
    (hstep : s.step impl (i, action) = some s') :
    s.aborted = none ∧
      ((∃ message ∈ callOrderMessages, s' = { s with aborted := some message } ∧
          ¬ (s.guards i).InOrder action) ∨
        ∃ lock' g', (s.guards i).step impl.build s.lockImpl action = some (.ok (lock', g')) ∧
          (s.guards i).Stepped s.lockImpl lock' g' ∧
          s' = ⟨lock', Function.update s.guards i g', none⟩) := by
  obtain ⟨hgoes, hmap⟩ := Option.ite_none_right_eq_some.mp hstep
  obtain ⟨res, hguard, rfl⟩ := Option.map_eq_some_iff.mp hmap
  refine ⟨hgoes, ?_⟩
  rcases Guard.step_spec h.word h.locked_of_holds hguard with
    ⟨message, hmessage, rfl, horder⟩ | ⟨lock', g', rfl, hstepped⟩
  · exact .inl ⟨message, hmessage, rfl, horder⟩
  · exact .inr ⟨lock', g', hguard, hstepped, rfl⟩

theorem SpinMutex.Sound.step (h : s.Sound) {action : ι × GuardAction}
    (hstep : s.step impl action = some s') : s'.Sound := by
  obtain ⟨i, action⟩ := action
  obtain ⟨-, ⟨message, hmessage, rfl, -⟩ | ⟨lock', g', -, hstepped, rfl⟩⟩ :=
    SpinMutex.step_cases h hstep
  · refine ⟨h.word, h.exclusive, ?_⟩
    rintro _ ⟨⟩
    exact hmessage
  · refine ⟨hstepped.word, h.exclusive.handed i ?_ ?_, ?_⟩
    · intro j hj
      show (Function.update s.guards i g' j).Holds ↔ _
      rw [Function.update_of_ne hj]
    · show Handed _ _ _ (Function.update s.guards i g' i).Holds
      rw [Function.update_self]
      exact hstepped.handed
    · rintro _ ⟨⟩

theorem SpinMutex.sound_of_run
    (hrun : Run (SpinMutex.step impl) anyAction SpinMutex.constructed actions s) : s.Sound :=
  hrun.invariant (P := fun _ s => s.Sound) SpinMutex.sound_constructed
    fun _ _ _ _ h _ hstep => h.step hstep

/-- A guard in `lock` gets the lock at its next step if nobody has it. -/
theorem SpinMutex.takes_free (h : s.Sound) (hgoes : s.aborted = none) {i : ι}
    (hcall : (s.guards i).call = .locking) (hfree : ∀ j, ¬ (s.guards j).Holds) :
    ∃ s', s.step impl (i, .advance) = some s' ∧ (s'.guards i).Holds := by
  have hunlocked := h.exclusive.free_iff.mpr hfree
  obtain ⟨locked, hguard⟩ : ∃ locked, s.guards i = ⟨locked, .locking⟩ :=
    ⟨(s.guards i).locked, by rw [← hcall]⟩
  refine ⟨⟨spinImplLocked, Function.update s.guards i ⟨locked, .lockReturned⟩, none⟩, ?_, ?_⟩
  · rw [SpinMutex.step, if_pos hgoes, hguard, Guard.step, hunlocked, lockPass_unlocked]
    rfl
  · show (Function.update s.guards i ⟨locked, .lockReturned⟩ i).Holds
    rw [Function.update_self]
    trivial

/-- In every run of the guards of any number of threads, with either build, at most one guard
has the lock, the word is `SPIN_IMPL_LOCKED` exactly while one has it and `SPIN_IMPL_UNLOCKED`
exactly while none has it, the only assertions that fail are those on the order of the calls of
a guard, and a guard in `lock` gets the lock at its next step whenever nobody has it. -/
theorem spin_mutex_excludes (impl : TasImpl) (actions : List (ι × GuardAction))
    (s : SpinMutex ι)
    (hrun : Run (SpinMutex.step impl) anyAction SpinMutex.constructed actions s) :
    (∀ i j, (s.guards i).Holds → (s.guards j).Holds → i = j) ∧
      (s.lockImpl = spinImplLocked ↔ ∃ i, (s.guards i).Holds) ∧
      (s.lockImpl = spinImplUnlocked ↔ ∀ i, ¬ (s.guards i).Holds) ∧
      (∀ message, s.aborted = some message → message ∈ callOrderMessages) ∧
      ∀ i, s.aborted = none → (s.guards i).call = .locking → (∀ j, ¬ (s.guards j).Holds) →
        ∃ s', s.step impl (i, .advance) = some s' ∧ (s'.guards i).Holds := by
  have h := SpinMutex.sound_of_run hrun
  refine ⟨h.exclusive.unique, ⟨?_, ?_⟩, h.exclusive.free_iff, h.aborted, ?_⟩
  · intro hlocked
    by_contra hnone
    have hfree := h.exclusive.free_iff.mpr (not_exists.mp hnone)
    exact spinImplLocked_ne_unlocked (hlocked.symm.trans hfree)
  · rintro ⟨i, hi⟩
    exact h.locked_of_holds hi
  · intro i hgoes hcall hfree
    exact SpinMutex.takes_free h hgoes hcall hfree

/-- Two guards that lock, where the one with the lock is in its `unlock` and the other spins. -/
def contendedActions : List (Bool × GuardAction) :=
  [(true, .construct), (true, .lock), (false, .construct), (true, .advance), (false, .lock),
    (false, .advance), (true, .advance), (true, .unlock), (false, .advance)]

theorem spin_mutex_excludes_contended :
    ∃ s : SpinMutex Bool,
      Run (SpinMutex.step .asmXchg) anyAction SpinMutex.constructed contendedActions s ∧
        s.guards true = ⟨true, .unlocking⟩ ∧ s.guards false = ⟨false, .locking⟩ ∧
        s.lockImpl = spinImplLocked ∧
        ∀ i j, (s.guards i).Holds → (s.guards j).Holds → i = j := by
  obtain ⟨s, hperformed⟩ : ∃ s : SpinMutex Bool, performAll (SpinMutex.step .asmXchg) anyAction
      SpinMutex.constructed contendedActions = some s := ⟨_, rfl⟩
  have hrun := Run.performAll .start contendedActions hperformed
  obtain rfl := Option.some.inj hperformed
  exact ⟨_, hrun, rfl, rfl, rfl, (spin_mutex_excludes .asmXchg contendedActions _ hrun).1⟩

/-! ### The two builds -/

/-- Where the word and the guards agree, a step of a guard is the same with either build. -/
theorem Guard.step_build {lock : SpinImpl} {g : Guard} (impl impl' : TasImpl)
    (hword : IsSpinWord lock) (hholds : g.Holds → lock = spinImplLocked) (action : GuardAction) :
    g.step impl'.build lock action = g.step impl.build lock action := by
  obtain ⟨locked, call⟩ := g
  cases action with
  | construct | lock | tryLock | unlock | destroy => rfl
  | advance =>
      cases call with
      | gone | ready | lockReturned | tryReturned | unlockReturned => rfl
      | locking =>
          rcases hword with rfl | rfl
          · rw [Guard.step, Guard.step, lockPass_locked, lockPass_locked]
          · rw [Guard.step, Guard.step, lockPass_unlocked, lockPass_unlocked]
      | trying =>
          rcases hword with rfl | rfl
          · rw [Guard.step, Guard.step, trylock_locked, trylock_locked]
          · rw [Guard.step, Guard.step, trylock_unlocked, trylock_unlocked]
      | unlocking =>
          obtain rfl := hholds trivial
          rw [Guard.step, Guard.step, unlock_locked, unlock_locked]
      | destroying =>
          obtain rfl := hholds trivial
          rw [Guard.step, Guard.step, unlock_locked, unlock_locked]

theorem SpinMutex.step_build (impl impl' : TasImpl) (h : s.Sound) (action : ι × GuardAction) :
    s.step impl' action = s.step impl action := by
  obtain ⟨i, action⟩ := action
  rw [SpinMutex.step, SpinMutex.step,
    Guard.step_build impl impl' h.word h.locked_of_holds]

theorem SpinMutex.run_build (impl' : TasImpl)
    (hrun : Run (SpinMutex.step impl) anyAction SpinMutex.constructed actions s) :
    Run (SpinMutex.step impl') anyAction SpinMutex.constructed actions s := by
  induction hrun with
  | start => exact .start
  | step hrun hallowed hstep ih =>
      refine ih.step hallowed ?_
      rw [SpinMutex.step_build impl impl' (SpinMutex.sound_of_run hrun)]
      exact hstep

/-- The build with the compare-and-swap and the build with `xchg` have the same runs: the same
steps in the same order lead to the same states, aborts included. -/
theorem builds_agree (actions : List (ι × GuardAction)) (s : SpinMutex ι) :
    Run (SpinMutex.step .gnuBuiltin) anyAction SpinMutex.constructed actions s ↔
      Run (SpinMutex.step .asmXchg) anyAction SpinMutex.constructed actions s :=
  ⟨SpinMutex.run_build _, SpinMutex.run_build _⟩

end MutexRuns

end Util
end CoherentDB
