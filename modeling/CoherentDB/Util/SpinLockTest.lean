import CoherentDB.Util.SpinLock

/-!
# The counter of `spin_lock_test.cpp`

`start_test` holds the lock while it creates its threads, joins them and asserts what they have
counted.  Each thread increments `k` in three steps, a read, an increment of its own copy and a
write, under a `scoped_lock` of each iteration.  Here the number of threads is arbitrary (the
test has two), and any thread can go on after every step.

`no_lost_update` says that no increment is lost.
-/

namespace CoherentDB
namespace Util

open Debug Runs Token

/-- Where a thread is in the loop of `incrementer`. -/
inductive IncrementerPlace
  | notCreated
  | test
  | constructed
  | locking
  | reading
  | incrementing
  | writing
  | leaving
  | destroying
  | returned
  deriving DecidableEq

/-- The local variables of `incrementer`. -/
structure Incrementer where
  i : ℕ
  j : Int32
  place : IncrementerPlace
  deriving DecidableEq

/-- Where the main thread is in `start_test`. -/
inductive StartTest
  | begins
  | constructed
  | locking
  | creating (created : ℕ)
  | destroying
  | joining (joined : ℕ)
  | checked (passed : Bool)
  deriving DecidableEq

/-- The test with `t` threads; the main thread's guard is `none`. -/
structure SpinTest (t : ℕ) where
  mutex : SpinMutex (Option (Fin t))
  k : Int32
  threads : Fin t → Incrementer
  main : StartTest

namespace SpinTest

variable {t : ℕ}

/-- Before the guard of `start_test` is constructed. -/
def initial : SpinTest t := ⟨SpinMutex.constructed, 0, fun _ => ⟨0, 0, .notCreated⟩, .begins⟩

/-- A step of the guard of one thread. -/
def onGuard (impl : TasImpl) (s : SpinTest t) (who : Option (Fin t)) (action : GuardAction) :
    Option (SpinTest t) :=
  (s.mutex.step impl (who, action)).map fun mutex => { s with mutex := mutex }

/-- Where the guard of a thread is. -/
def callOf (s : SpinTest t) (who : Option (Fin t)) : GuardCall := (s.mutex.guards who).call

def setThread (s : SpinTest t) (x : Fin t) (thread : Incrementer) : SpinTest t :=
  { s with threads := Function.update s.threads x thread }

/-- The thread `x` goes on elsewhere. -/
def goTo (x : Fin t) (place : IncrementerPlace) (s : SpinTest t) : SpinTest t :=
  s.setThread x { s.threads x with place := place }

/-- The end of the constructor of the guard, if it has got the lock. -/
def afterLock (x : Fin t) (s : SpinTest t) : SpinTest t :=
  s.goTo x (if s.callOf (some x) = .ready then .reading else .locking)

/-- The end of the destructor of the guard and with it of the iteration. -/
def afterDestroy (x : Fin t) (s : SpinTest t) : SpinTest t :=
  if s.callOf (some x) = .gone then
    s.setThread x { s.threads x with i := (s.threads x).i + 1, place := .test }
  else s.goTo x .destroying

/-- One step of `incrementer` in the thread `x`, with `n` iterations. -/
def stepThread (impl : TasImpl) (n : ℕ) (s : SpinTest t) (x : Fin t) : Option (SpinTest t) :=
  let thread := s.threads x
  match thread.place with
  | .notCreated | .returned => none
  | .test =>
      if thread.i < n then (s.onGuard impl (some x) .construct).map (goTo x .constructed)
      else some (s.goTo x .returned)
  | .constructed => (s.onGuard impl (some x) .lock).map (goTo x .locking)
  | .locking => (s.onGuard impl (some x) .advance).map (afterLock x)
  | .reading => some (s.setThread x { thread with j := s.k, place := .incrementing })
  | .incrementing => some (s.setThread x { thread with j := thread.j + 1, place := .writing })
  | .writing => some ({ s with k := thread.j }.goTo x .leaving)
  | .leaving => (s.onGuard impl (some x) .destroy).map (afterDestroy x)
  | .destroying => (s.onGuard impl (some x) .advance).map (afterDestroy x)

/-- The `r_assert` at the end of `start_test`, a comparison of unsigned values. -/
def check (n : ℕ) (s : SpinTest t) : Bool := s.k.toUInt32 = UInt32.ofNat n * UInt32.ofNat t

/-- One step of `start_test`. -/
def stepMain (impl : TasImpl) (n : ℕ) (s : SpinTest t) : Option (SpinTest t) :=
  match s.main with
  | .begins => (s.onGuard impl none .construct).map fun s => { s with main := .constructed }
  | .constructed => (s.onGuard impl none .lock).map fun s => { s with main := .locking }
  | .locking =>
      (s.onGuard impl none .advance).map fun s =>
        { s with main := if s.callOf none = .ready then .creating 0 else .locking }
  | .creating created =>
      if h : created < t then
        some { s.goTo ⟨created, h⟩ .test with main := .creating (created + 1) }
      else
        (s.onGuard impl none .destroy).map fun s =>
          { s with main := if s.callOf none = .gone then .joining 0 else .destroying }
  | .destroying =>
      (s.onGuard impl none .advance).map fun s =>
        { s with main := if s.callOf none = .gone then .joining 0 else .destroying }
  | .joining joined =>
      if h : joined < t then
        if (s.threads ⟨joined, h⟩).place = .returned then
          some { s with main := .joining (joined + 1) }
        else none
      else some { s with main := .checked (s.check n) }
  | .checked _ => none

/-- One step of the thread that the scheduler has chosen, `none` for the main thread. -/
def step (impl : TasImpl) (n : ℕ) (s : SpinTest t) : Option (Fin t) → Option (SpinTest t)
  | none => if s.mutex.aborted = none then s.stepMain impl n else none
  | some x => if s.mutex.aborted = none then s.stepThread impl n x else none

end SpinTest

/-! ### The invariant -/

/-- The guard and the variables of a thread fit its place.  In its critical section the thread
has `k` in `j`, and the increment after it. -/
def Incrementer.Fits (n : ℕ) (k : Int32) (g : Guard) (thread : Incrementer) : Prop :=
  match thread.place with
  | .notCreated => g.call = .gone ∧ thread.i ≤ n
  | .test => g.call = .gone ∧ thread.i ≤ n
  | .constructed => g = ⟨false, .ready⟩ ∧ thread.i < n
  | .locking => (g = ⟨false, .locking⟩ ∨ g = ⟨false, .lockReturned⟩) ∧ thread.i < n
  | .reading => g = ⟨true, .ready⟩ ∧ thread.i < n
  | .incrementing => g = ⟨true, .ready⟩ ∧ thread.i < n ∧ thread.j = k
  | .writing => g = ⟨true, .ready⟩ ∧ thread.i < n ∧ thread.j = k + 1
  | .leaving => g = ⟨true, .ready⟩ ∧ thread.i < n
  | .destroying => g = ⟨true, .destroying⟩ ∧ thread.i < n
  | .returned => g.call = .gone ∧ thread.i = n

/-- The increments that a thread has written. -/
def Incrementer.written (thread : Incrementer) : ℕ :=
  match thread.place with
  | .leaving | .destroying => thread.i + 1
  | .notCreated | .test | .constructed | .locking | .reading | .incrementing | .writing
  | .returned => thread.i

/-- The guard of the main thread and the threads it has created and joined fit its place. -/
def StartTest.Fits {t : ℕ} (g : Guard) (threads : Fin t → Incrementer) : StartTest → Prop
  | .begins => g.call = .gone ∧ ∀ x, (threads x).place = .notCreated
  | .constructed => g = ⟨false, .ready⟩ ∧ ∀ x, (threads x).place = .notCreated
  | .locking =>
      (g = ⟨false, .locking⟩ ∨ g = ⟨false, .lockReturned⟩) ∧
        ∀ x, (threads x).place = .notCreated
  | .creating created =>
      g = ⟨true, .ready⟩ ∧ ∀ x : Fin t, created ≤ x → (threads x).place = .notCreated
  | .destroying => g = ⟨true, .destroying⟩
  | .joining joined =>
      g.call = .gone ∧ ∀ x : Fin t, (x : ℕ) < joined → (threads x).place = .returned
  | .checked passed => g.call = .gone ∧ (∀ x, (threads x).place = .returned) ∧ passed = true

/-- The invariant of the test with `n` iterations. -/
structure SpinTest.Sound {t : ℕ} (n : ℕ) (s : SpinTest t) : Prop where
  mutex : s.mutex.Sound
  aborted : s.mutex.aborted = none
  threads : ∀ x, (s.threads x).Fits n s.k (s.mutex.guards (some x))
  main : s.main.Fits (s.mutex.guards none) s.threads
  count : s.k = Int32.ofNat (∑ x, (s.threads x).written)

/-! ### The life of a `scoped_lock` -/

section ScopedLock

variable {build : SpinBuild} {lock lock' : SpinImpl} {g g' : Guard}

theorem Guard.of_construct
    (hstep : g.step build lock .construct = some (.ok (lock', g'))) : g' = ⟨false, .ready⟩ := by
  obtain ⟨-, hres⟩ := Option.ite_none_right_eq_some.mp hstep
  exact (Prod.ext_iff.mp (Except.ok.inj (Option.some.inj hres))).2.symm

theorem Guard.of_lock (hg : g = ⟨false, .ready⟩)
    (hstep : g.step build lock .lock = some (.ok (lock', g'))) : g' = ⟨false, .locking⟩ := by
  obtain rfl := hg
  rw [Guard.step, if_pos rfl, dAssertElse_of rfl, ok_bind] at hstep
  exact (Prod.ext_iff.mp (Except.ok.inj (Option.some.inj hstep))).2.symm

/-- A step within the constructor leaves it in its loop, after the loop or done. -/
theorem Guard.of_locking (hg : g = ⟨false, .locking⟩ ∨ g = ⟨false, .lockReturned⟩)
    (hstep : g.step build lock .advance = some (.ok (lock', g'))) :
    (g' = ⟨false, .locking⟩ ∨ g' = ⟨false, .lockReturned⟩) ∨ g' = ⟨true, .ready⟩ := by
  rcases hg with rfl | rfl
  · obtain ⟨res, -, hres⟩ := ok_of_bind (Option.some.inj hstep)
    have hg' := (Prod.ext_iff.mp (Except.ok.inj hres)).2.symm
    cases hlast : res.2 with
    | false => exact .inl (.inl (by simpa [hlast] using hg'))
    | true => exact .inl (.inr (by simpa [hlast] using hg'))
  · exact .inr (Prod.ext_iff.mp (Except.ok.inj (Option.some.inj hstep))).2.symm

theorem Guard.of_destroy (hg : g = ⟨true, .ready⟩)
    (hstep : g.step build lock .destroy = some (.ok (lock', g'))) :
    g' = ⟨true, .destroying⟩ := by
  obtain rfl := hg
  exact (Prod.ext_iff.mp (Except.ok.inj (Option.some.inj hstep))).2.symm

theorem Guard.of_destroying (hg : g = ⟨true, .destroying⟩)
    (hstep : g.step build lock .advance = some (.ok (lock', g'))) : g'.call = .gone := by
  obtain rfl := hg
  obtain ⟨lock'', -, hres⟩ := ok_of_bind (Option.some.inj hstep)
  have hg' : (⟨true, .gone⟩ : Guard) = g' := (Prod.ext_iff.mp (Except.ok.inj hres)).2
  rw [← hg']

end ScopedLock

section Locals

variable {n : ℕ} {k k' : Int32} {g : Guard} {thread : Incrementer}

/-- Only a thread with the lock depends on the value of `k`. -/
theorem Incrementer.Fits.of_not_holds (h : thread.Fits n k g) (hg : ¬ g.Holds) :
    thread.Fits n k' g := by
  obtain ⟨i, j, place⟩ := thread
  cases place with
  | incrementing =>
      obtain ⟨rfl, -, -⟩ := h
      exact absurd rfl hg
  | writing =>
      obtain ⟨rfl, -, -⟩ := h
      exact absurd rfl hg
  | notCreated | test | constructed | locking | reading | leaving | destroying | returned =>
      exact h

/-- A thread has never written more than its iterations. -/
theorem Incrementer.Fits.written_le (h : thread.Fits n k g) : thread.written ≤ n := by
  obtain ⟨i, j, place⟩ := thread
  cases place with
  | notCreated | test => exact h.2
  | constructed | locking | reading => exact h.2.le
  | incrementing | writing => exact h.2.1.le
  | leaving | destroying => exact h.2
  | returned => exact h.2.le

variable {t : ℕ} {threads : Fin t → Incrementer} {main : StartTest}

/-- The main thread does not see the steps of a thread that it has created and that runs. -/
theorem StartTest.Fits.update (h : main.Fits g threads) {x : Fin t}
    (hcreated : (threads x).place ≠ .notCreated) (hruns : (threads x).place ≠ .returned)
    (thread : Incrementer) : main.Fits g (Function.update threads x thread) := by
  have hother : ∀ {place} (P : Fin t → Prop), (threads x).place ≠ place →
      (∀ y, P y → (threads y).place = place) →
      ∀ y, P y → (Function.update threads x thread y).place = place := by
    intro place P hne hall y hy
    have hyx : y ≠ x := by
      rintro rfl
      exact hne (hall y hy)
    rw [Function.update_of_ne hyx]
    exact hall y hy
  cases main with
  | begins =>
      exact ⟨h.1, fun y => hother (fun _ => True) hcreated (fun y _ => h.2 y) y trivial⟩
  | constructed =>
      exact ⟨h.1, fun y => hother (fun _ => True) hcreated (fun y _ => h.2 y) y trivial⟩
  | locking =>
      exact ⟨h.1, fun y => hother (fun _ => True) hcreated (fun y _ => h.2 y) y trivial⟩
  | creating created => exact ⟨h.1, hother _ hcreated h.2⟩
  | destroying => exact h
  | joining joined => exact ⟨h.1, hother _ hruns h.2⟩
  | checked passed => exact absurd (h.2.1 x) hruns

/-- Replacing one thread changes the sum by what that thread has written since. -/
theorem sum_written_update {x : Fin t} {thread : Incrementer} {d : ℕ}
    (h : thread.written = (threads x).written + d) :
    ∑ y, (Function.update threads x thread y).written = (∑ y, (threads y).written) + d := by
  have hothers : ∑ y ∈ {x}ᶜ, (Function.update threads x thread y).written =
      ∑ y ∈ {x}ᶜ, (threads y).written := by
    apply Finset.sum_congr rfl
    intro y hy
    rw [Function.update_of_ne (by simpa using hy)]
  rw [Fintype.sum_eq_add_sum_compl x, Fintype.sum_eq_add_sum_compl x, hothers,
    Function.update_self, h]
  omega

end Locals

namespace SpinTest

section Steps

variable {t n : ℕ} {impl : TasImpl} {s s' : SpinTest t} {x : Fin t}

/-- A step of a guard in the order of calls that its assertions ask for. -/
theorem onGuard_cases (h : s.Sound n) {who : Option (Fin t)} {action : GuardAction}
    (hstep : s.onGuard impl who action = some s')
    (horder : (s.mutex.guards who).InOrder action) :
    ∃ lock' g', (s.mutex.guards who).step impl.build s.mutex.lockImpl action =
        some (.ok (lock', g')) ∧
      s' = { s with mutex := ⟨lock', Function.update s.mutex.guards who g', none⟩ } ∧
      s'.mutex.Sound := by
  obtain ⟨mutex, hmutex, rfl⟩ := Option.map_eq_some_iff.mp hstep
  obtain ⟨-, ⟨message, -, -, hfails⟩ | ⟨lock', g', hguard, -, heq⟩⟩ :=
    SpinMutex.step_cases h.mutex hmutex
  · exact absurd horder hfails
  · exact ⟨lock', g', hguard, by rw [heq], h.mutex.step hmutex⟩

theorem callOf_onGuard {lock' : SpinImpl} {g' : Guard} (who : Option (Fin t)) :
    callOf { s with mutex := ⟨lock', Function.update s.mutex.guards who g', none⟩ } who =
      g'.call := by
  show (Function.update s.mutex.guards who g' who).call = g'.call
  rw [Function.update_self]

/-- What a step of the thread `x` has to establish: the other threads and the main thread see
nothing of it, except for `k`, which it changes only with the lock. -/
theorem Sound.of_thread (h : s.Sound n) (hcreated : (s.threads x).place ≠ .notCreated)
    (hruns : (s.threads x).place ≠ .returned) {mutex : SpinMutex (Option (Fin t))}
    (hmutex : mutex.Sound) (haborted : mutex.aborted = none)
    (hguards : ∀ who, who ≠ some x → mutex.guards who = s.mutex.guards who) {k : Int32}
    (hk : k = s.k ∨ (s.mutex.guards (some x)).Holds) {thread : Incrementer} (d : ℕ)
    (hwritten : thread.written = (s.threads x).written + d) (hcount : k = s.k + Int32.ofNat d)
    (hfits : thread.Fits n k (mutex.guards (some x))) :
    Sound n ⟨mutex, k, Function.update s.threads x thread, s.main⟩ := by
  refine ⟨hmutex, haborted, ?_, ?_, ?_⟩
  · intro y
    by_cases hy : y = x
    · subst hy
      show (Function.update s.threads y thread y).Fits n k _
      rw [Function.update_self]
      exact hfits
    · have hne : some y ≠ some x := by simpa using hy
      show (Function.update s.threads x thread y).Fits n k (mutex.guards (some y))
      rw [Function.update_of_ne hy, hguards _ hne]
      rcases hk with rfl | hholds
      · exact h.threads y
      · -- The thread `x` has the lock, so `y` has not.
        exact (h.threads y).of_not_holds fun hy' =>
          hne (h.mutex.exclusive.unique _ _ hy' hholds)
  · show s.main.Fits (mutex.guards none) _
    rw [hguards none (by simp)]
    exact h.main.update hcreated hruns thread
  · show k = Int32.ofNat (∑ y, (Function.update s.threads x thread y).written)
    rw [sum_written_update hwritten, Int32.ofNat_add, ← h.count]
    exact hcount

/-- The case of `Sound.of_thread` in which only the guard and the place change. -/
theorem Sound.of_guard (h : s.Sound n) (hcreated : (s.threads x).place ≠ .notCreated)
    (hruns : (s.threads x).place ≠ .returned) {lock' : SpinImpl} {g' : Guard}
    (hmutex : SpinMutex.Sound ⟨lock', Function.update s.mutex.guards (some x) g', none⟩)
    {thread : Incrementer} (hwritten : thread.written = (s.threads x).written)
    (hfits : thread.Fits n s.k g') :
    Sound n ⟨⟨lock', Function.update s.mutex.guards (some x) g', none⟩, s.k,
      Function.update s.threads x thread, s.main⟩ := by
  refine h.of_thread hcreated hruns hmutex rfl ?_ (.inl rfl) 0 hwritten (by simp) ?_
  · intro who hwho
    exact Function.update_of_ne hwho _ _
  · show thread.Fits n s.k (Function.update s.mutex.guards (some x) g' (some x))
    rw [Function.update_self]
    exact hfits

/-- The thread `x` and its guard, read off its place. -/
theorem Sound.thread_at (h : s.Sound n) {place : IncrementerPlace}
    (hplace : (s.threads x).place = place) :
    (⟨(s.threads x).i, (s.threads x).j, place⟩ : Incrementer).Fits n s.k
      (s.mutex.guards (some x)) := by
  rw [← hplace]
  exact h.threads x

theorem Sound.written_at {place : IncrementerPlace} (hplace : (s.threads x).place = place) :
    (s.threads x).written =
      (⟨(s.threads x).i, (s.threads x).j, place⟩ : Incrementer).written := by
  rw [← hplace]

/-- The destructor of the guard of a thread, up to its access of the word or after it. -/
theorem Sound.afterDestroy (h : s.Sound n) (hcreated : (s.threads x).place ≠ .notCreated)
    (hruns : (s.threads x).place ≠ .returned) (hi : (s.threads x).i < n)
    (hwritten : (s.threads x).written = (s.threads x).i + 1) {lock' : SpinImpl} {g' : Guard}
    (hmutex : SpinMutex.Sound ⟨lock', Function.update s.mutex.guards (some x) g', none⟩)
    (hg' : g' = ⟨true, .destroying⟩ ∨ g'.call = .gone) :
    Sound n (afterDestroy x
      { s with mutex := ⟨lock', Function.update s.mutex.guards (some x) g', none⟩ }) := by
  rw [SpinTest.afterDestroy, callOf_onGuard]
  rcases hg' with rfl | hgone
  · exact h.of_guard hcreated hruns hmutex hwritten.symm ⟨rfl, hi⟩
  · rw [if_pos hgone]
    exact h.of_guard hcreated hruns hmutex hwritten.symm ⟨hgone, hi⟩

/-- A step of a running thread keeps the invariant. -/
theorem Sound.stepThread (h : s.Sound n) (hstep : s.stepThread impl n x = some s') :
    s'.Sound n := by
  rw [SpinTest.stepThread] at hstep
  cases hplace : (s.threads x).place with
  | notCreated =>
      rw [hplace] at hstep
      cases hstep
  | returned =>
      rw [hplace] at hstep
      cases hstep
  | test =>
      obtain ⟨hgone, hi⟩ := h.thread_at hplace
      rw [hplace] at hstep
      have hcreated : (s.threads x).place ≠ .notCreated := by simp [hplace]
      have hruns : (s.threads x).place ≠ .returned := by simp [hplace]
      have hwritten := Sound.written_at hplace
      dsimp only at hstep
      split_ifs at hstep with hmore
      · obtain ⟨s₁, hguard, rfl⟩ := Option.map_eq_some_iff.mp hstep
        obtain ⟨lock', g', hg', rfl, hmutex⟩ := onGuard_cases h hguard trivial
        obtain rfl := Guard.of_construct hg'
        exact h.of_guard hcreated hruns hmutex hwritten.symm ⟨rfl, hmore⟩
      · obtain rfl := Option.some.inj hstep
        exact h.of_thread hcreated hruns h.mutex h.aborted (fun _ _ => rfl) (.inl rfl) 0
          hwritten.symm (by simp) ⟨hgone, le_antisymm hi (not_lt.mp hmore)⟩
  | constructed =>
      obtain ⟨hguardAt, hi⟩ := h.thread_at hplace
      rw [hplace] at hstep
      obtain ⟨s₁, hguard, rfl⟩ := Option.map_eq_some_iff.mp hstep
      have horder : (s.mutex.guards (some x)).InOrder .lock := by
        rw [hguardAt]
        rfl
      obtain ⟨lock', g', hg', rfl, hmutex⟩ := onGuard_cases h hguard horder
      obtain rfl := Guard.of_lock hguardAt hg'
      exact h.of_guard (by simp [hplace]) (by simp [hplace]) hmutex
        (Sound.written_at hplace).symm ⟨.inl rfl, hi⟩
  | locking =>
      obtain ⟨hguardAt, hi⟩ := h.thread_at hplace
      rw [hplace] at hstep
      obtain ⟨s₁, hguard, rfl⟩ := Option.map_eq_some_iff.mp hstep
      obtain ⟨lock', g', hg', rfl, hmutex⟩ := onGuard_cases h hguard trivial
      rw [SpinTest.afterLock, callOf_onGuard]
      rcases Guard.of_locking hguardAt hg' with (rfl | rfl) | rfl
      · exact h.of_guard (by simp [hplace]) (by simp [hplace]) hmutex
          (Sound.written_at hplace).symm ⟨.inl rfl, hi⟩
      · exact h.of_guard (by simp [hplace]) (by simp [hplace]) hmutex
          (Sound.written_at hplace).symm ⟨.inr rfl, hi⟩
      · exact h.of_guard (by simp [hplace]) (by simp [hplace]) hmutex
          (Sound.written_at hplace).symm ⟨rfl, hi⟩
  | reading =>
      obtain ⟨hguardAt, hi⟩ := h.thread_at hplace
      rw [hplace] at hstep
      obtain rfl := Option.some.inj hstep
      exact h.of_thread (by simp [hplace]) (by simp [hplace]) h.mutex h.aborted (fun _ _ => rfl)
        (.inl rfl) 0 (Sound.written_at hplace).symm (by simp) ⟨hguardAt, hi, rfl⟩
  | incrementing =>
      obtain ⟨hguardAt, hi, hj⟩ := h.thread_at hplace
      rw [hplace] at hstep
      obtain rfl := Option.some.inj hstep
      exact h.of_thread (by simp [hplace]) (by simp [hplace]) h.mutex h.aborted (fun _ _ => rfl)
        (.inl rfl) 0 (Sound.written_at hplace).symm (by simp) ⟨hguardAt, hi, by rw [← hj]⟩
  | writing =>
      obtain ⟨hguardAt, hi, hj⟩ := h.thread_at hplace
      rw [hplace] at hstep
      obtain rfl := Option.some.inj hstep
      have hholds : (s.mutex.guards (some x)).Holds := by
        rw [hguardAt]
        rfl
      exact h.of_thread (by simp [hplace]) (by simp [hplace]) h.mutex h.aborted (fun _ _ => rfl)
        (.inr hholds) 1 (by rw [Sound.written_at hplace]; rfl) hj ⟨hguardAt, hi⟩
  | leaving =>
      obtain ⟨hguardAt, hi⟩ := h.thread_at hplace
      rw [hplace] at hstep
      obtain ⟨s₁, hguard, rfl⟩ := Option.map_eq_some_iff.mp hstep
      obtain ⟨lock', g', hg', rfl, hmutex⟩ := onGuard_cases h hguard trivial
      exact h.afterDestroy (by simp [hplace]) (by simp [hplace]) hi (Sound.written_at hplace)
        hmutex (.inl (Guard.of_destroy hguardAt hg'))
  | destroying =>
      obtain ⟨hguardAt, hi⟩ := h.thread_at hplace
      rw [hplace] at hstep
      obtain ⟨s₁, hguard, rfl⟩ := Option.map_eq_some_iff.mp hstep
      obtain ⟨lock', g', hg', rfl, hmutex⟩ := onGuard_cases h hguard trivial
      exact h.afterDestroy (by simp [hplace]) (by simp [hplace]) hi (Sound.written_at hplace)
        hmutex (.inr (Guard.of_destroying hguardAt hg'))

/-- A step of the guard of the main thread. -/
theorem Sound.of_main (h : s.Sound n) {lock' : SpinImpl} {g' : Guard}
    (hmutex : SpinMutex.Sound ⟨lock', Function.update s.mutex.guards none g', none⟩)
    {main : StartTest} (hmain : main.Fits g' s.threads) :
    Sound n ⟨⟨lock', Function.update s.mutex.guards none g', none⟩, s.k, s.threads, main⟩ := by
  refine ⟨hmutex, rfl, ?_, ?_, h.count⟩
  · intro x
    show (s.threads x).Fits n s.k (Function.update s.mutex.guards none g' (some x))
    rw [Function.update_of_ne (by simp)]
    exact h.threads x
  · show main.Fits (Function.update s.mutex.guards none g' none) s.threads
    rw [Function.update_self]
    exact hmain

/-- `pthread_create` of the next thread. -/
theorem Sound.create (h : s.Sound n) {created : ℕ} (hmain : s.main = .creating created)
    (hmore : created < t) :
    Sound n { s.goTo ⟨created, hmore⟩ .test with main := .creating (created + 1) } := by
  have hfits := h.main
  rw [hmain] at hfits
  obtain ⟨hguardAt, hnew⟩ := hfits
  have hplace : (s.threads ⟨created, hmore⟩).place = .notCreated := hnew _ (le_refl created)
  have hthread := h.thread_at hplace
  refine ⟨h.mutex, h.aborted, ?_, ⟨hguardAt, ?_⟩, ?_⟩
  · intro y
    show (Function.update s.threads ⟨created, hmore⟩ _ y).Fits n s.k _
    by_cases hy : y = ⟨created, hmore⟩
    · subst hy
      rw [Function.update_self]
      exact hthread
    · rw [Function.update_of_ne hy]
      exact h.threads y
  · intro y hy
    show (Function.update s.threads ⟨created, hmore⟩ _ y).place = .notCreated
    have hne : y ≠ ⟨created, hmore⟩ := by
      rintro rfl
      exact absurd hy (by simp)
    rw [Function.update_of_ne hne]
    exact hnew y (Nat.le_of_succ_le hy)
  · show s.k = Int32.ofNat (∑ y, (Function.update s.threads ⟨created, hmore⟩ _ y).written)
    have hsame : ({ s.threads ⟨created, hmore⟩ with place := .test } : Incrementer).written =
        (s.threads ⟨created, hmore⟩).written + 0 := by
      rw [Sound.written_at hplace]
      rfl
    rw [sum_written_update hsame]
    exact h.count

/-- When all threads have returned, they have counted all their iterations. -/
theorem Sound.k_of_returned (h : s.Sound n) (hall : ∀ x, (s.threads x).place = .returned) :
    s.k = Int32.ofNat (t * n) := by
  have hwritten : ∀ x, (s.threads x).written = n := by
    intro x
    rw [Sound.written_at (hall x)]
    exact (h.thread_at (hall x)).2
  rw [h.count, Finset.sum_congr rfl fun x _ => hwritten x]
  simp

theorem check_of_count (hk : s.k = Int32.ofNat (t * n)) : s.check n = true := by
  rw [check, decide_eq_true_eq, hk, ← UInt32.ofNat_mul, Nat.mul_comm n t]
  rfl

/-- A step of the main thread keeps the invariant; its `r_assert` holds. -/
theorem Sound.stepMain (h : s.Sound n) (hstep : s.stepMain impl n = some s') : s'.Sound n := by
  have hfits := h.main
  rw [SpinTest.stepMain] at hstep
  cases hmain : s.main with
  | begins =>
      rw [hmain] at hstep hfits
      obtain ⟨s₁, hguard, rfl⟩ := Option.map_eq_some_iff.mp hstep
      obtain ⟨lock', g', hg', rfl, hmutex⟩ := onGuard_cases h hguard trivial
      exact h.of_main hmutex ⟨Guard.of_construct hg', hfits.2⟩
  | constructed =>
      rw [hmain] at hstep hfits
      obtain ⟨s₁, hguard, rfl⟩ := Option.map_eq_some_iff.mp hstep
      have horder : (s.mutex.guards none).InOrder .lock := by
        rw [hfits.1]
        rfl
      obtain ⟨lock', g', hg', rfl, hmutex⟩ := onGuard_cases h hguard horder
      exact h.of_main hmutex ⟨.inl (Guard.of_lock hfits.1 hg'), hfits.2⟩
  | locking =>
      rw [hmain] at hstep hfits
      obtain ⟨s₁, hguard, rfl⟩ := Option.map_eq_some_iff.mp hstep
      obtain ⟨lock', g', hg', rfl, hmutex⟩ := onGuard_cases h hguard trivial
      dsimp only
      rw [callOf_onGuard]
      rcases Guard.of_locking hfits.1 hg' with (rfl | rfl) | rfl
      · exact h.of_main hmutex ⟨.inl rfl, hfits.2⟩
      · exact h.of_main hmutex ⟨.inr rfl, hfits.2⟩
      · exact h.of_main hmutex ⟨rfl, fun x _ => hfits.2 x⟩
  | creating created =>
      rw [hmain] at hstep hfits
      dsimp only at hstep
      split_ifs at hstep with hmore
      · obtain rfl := Option.some.inj hstep
        exact h.create hmain hmore
      · obtain ⟨s₁, hguard, rfl⟩ := Option.map_eq_some_iff.mp hstep
        obtain ⟨lock', g', hg', rfl, hmutex⟩ := onGuard_cases h hguard trivial
        obtain rfl := Guard.of_destroy hfits.1 hg'
        rw [callOf_onGuard]
        exact h.of_main hmutex rfl
  | destroying =>
      rw [hmain] at hstep hfits
      obtain ⟨s₁, hguard, rfl⟩ := Option.map_eq_some_iff.mp hstep
      obtain ⟨lock', g', hg', rfl, hmutex⟩ := onGuard_cases h hguard trivial
      have hgone := Guard.of_destroying hfits hg'
      dsimp only
      rw [callOf_onGuard, if_pos hgone]
      exact h.of_main hmutex ⟨hgone, fun x hx => absurd hx (Nat.not_lt_zero _)⟩
  | joining joined =>
      rw [hmain] at hstep hfits
      dsimp only at hstep
      split_ifs at hstep with hmore hreturned
      · obtain rfl := Option.some.inj hstep
        refine ⟨h.mutex, h.aborted, h.threads, ⟨hfits.1, ?_⟩, h.count⟩
        intro x hx
        rcases Nat.lt_succ_iff_lt_or_eq.mp hx with hlt | heq
        · exact hfits.2 x hlt
        · rw [← hreturned]
          exact congrArg (fun y => (s.threads y).place) (Fin.ext heq)
      · obtain rfl := Option.some.inj hstep
        have hall : ∀ x, (s.threads x).place = .returned :=
          fun x => hfits.2 x (lt_of_lt_of_le x.isLt (not_lt.mp hmore))
        exact ⟨h.mutex, h.aborted, h.threads,
          ⟨hfits.1, hall, check_of_count (h.k_of_returned hall)⟩, h.count⟩
  | checked passed =>
      rw [hmain] at hstep
      cases hstep

theorem Sound.step (h : s.Sound n) {who : Option (Fin t)}
    (hstep : s.step impl n who = some s') : s'.Sound n := by
  cases who with
  | none => exact h.stepMain (Option.ite_none_right_eq_some.mp hstep).2
  | some x => exact h.stepThread (Option.ite_none_right_eq_some.mp hstep).2

theorem sound_initial : (initial : SpinTest t).Sound n where
  mutex := SpinMutex.sound_constructed
  aborted := rfl
  threads _ := ⟨rfl, Nat.zero_le n⟩
  main := ⟨rfl, fun _ => rfl⟩
  count := by
    have hzero : ∀ x, ((initial : SpinTest t).threads x).written = 0 := fun _ => rfl
    rw [Finset.sum_congr rfl fun x _ => hzero x]
    simp [initial]

theorem sound_of_run {schedule : List (Option (Fin t))}
    (hrun : Run (SpinTest.step impl n) anyAction initial schedule s) : s.Sound n :=
  hrun.invariant (P := fun _ s => s.Sound n) sound_initial fun _ _ _ _ h _ hstep => h.step hstep

/-- Without overflow, `k` counts what the threads have written. -/
theorem Sound.toInt_k (h : s.Sound n) (hbound : t * n < 2 ^ 31) :
    s.k.toInt = ((∑ x, (s.threads x).written : ℕ) : ℤ) ∧ ∑ x, (s.threads x).written ≤ t * n := by
  have hle : ∑ x, (s.threads x).written ≤ t * n := by
    calc ∑ x, (s.threads x).written
        ≤ ∑ _x : Fin t, n := Finset.sum_le_sum fun x _ => (h.threads x).written_le
      _ = t * n := by simp
  refine ⟨?_, hle⟩
  rw [h.count, Int32.toInt_ofNat_of_lt (lt_of_le_of_lt hle hbound)]

/-- A thread that is about to increment its copy of `k` does not reach the end of `int`. -/
theorem Sound.toInt_j_lt (h : s.Sound n) (hbound : t * n < 2 ^ 31)
    (hplace : (s.threads x).place = .incrementing) : (s.threads x).j.toInt < 2 ^ 31 - 1 := by
  obtain ⟨-, hi, hj⟩ := h.thread_at hplace
  have hless : ∑ y, (s.threads y).written < t * n := by
    calc ∑ y, (s.threads y).written
        < ∑ _y : Fin t, n := by
          apply Finset.sum_lt_sum
          · intro y _
            exact (h.threads y).written_le
          · refine ⟨x, Finset.mem_univ x, ?_⟩
            rw [Sound.written_at hplace]
            exact hi
      _ = t * n := by simp
  have hk := (h.toInt_k hbound).1
  have hjk : (s.threads x).j = s.k := hj
  rw [hjk, hk]
  omega

end Steps

/-- With any number of threads and iterations that `int` can count, in every interleaving and
with either build of the lock: no assertion fails, `k` is at any time the number of increments
that the threads have written, none of them overflows, and once the threads have returned it is
the number of threads times the number of iterations, so that `start_test` passes its check. -/
theorem no_lost_update (impl : TasImpl) (t n : ℕ) (hbound : t * n < 2 ^ 31)
    (schedule : List (Option (Fin t))) (s : SpinTest t)
    (hrun : Run (SpinTest.step impl n) anyAction initial schedule s) :
    s.mutex.aborted = none ∧ s.main ≠ .checked false ∧
      s.k.toInt = ((∑ x, (s.threads x).written : ℕ) : ℤ) ∧
      (∀ x, (s.threads x).place = .incrementing → (s.threads x).j.toInt < 2 ^ 31 - 1) ∧
      ((∀ x, (s.threads x).place = .returned) → s.k.toInt = ((t * n : ℕ) : ℤ)) := by
  have h := sound_of_run hrun
  refine ⟨h.aborted, ?_, (h.toInt_k hbound).1, ?_, ?_⟩
  · intro hfailed
    have hmain := h.main
    rw [hfailed] at hmain
    exact Bool.false_ne_true hmain.2.2
  · intro x hplace
    exact h.toInt_j_lt hbound hplace
  · intro hall
    rw [h.k_of_returned hall, Int32.toInt_ofNat_of_lt hbound]

/-- Both threads of the test with one iteration each; the second one finds the lock taken. -/
def twoIncrements : List (Option (Fin 2)) :=
  [none, none, none, none, none, none, some 0, some 0, some 0, none, none] ++
    [some 0, some 1, some 1, some 0, some 1, some 0, some 0, some 0, some 1, some 0, some 0] ++
    List.replicate 8 (some 1) ++ [some 0] ++ List.replicate 3 none

theorem no_lost_update_two : ∃ s : SpinTest 2,
    Run (SpinTest.step .gnuBuiltin 1) anyAction initial twoIncrements s ∧
      s.main = .checked true ∧ s.k.toInt = 2 := by
  obtain ⟨s, hperformed⟩ : ∃ s : SpinTest 2, performAll (SpinTest.step .gnuBuiltin 1) anyAction
      initial twoIncrements = some s := ⟨_, rfl⟩
  have hrun := Run.performAll .start twoIncrements hperformed
  obtain rfl := Option.some.inj hperformed
  have hreturned := no_lost_update .gnuBuiltin 2 1 (by decide) twoIncrements _ hrun
  refine ⟨_, hrun, rfl, hreturned.2.2.2.2 ?_⟩
  decide

end SpinTest

end Util
end CoherentDB
