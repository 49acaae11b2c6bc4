import Mathlib.Data.Finset.Sort
import CoherentDB.Lib.FlagCount
import CoherentDB.Lib.Runs
import CoherentDB.MemoryManager.Manager
import CoherentDB.MemoryManager.Session

/-!
# The life of a session

A session reserves memory from the manager in its constructor and in `unfreeze`,
`try_unfreeze` and `timed_unfreeze`, and gives it back in `freeze` and in its
destructor.  Each of these calls holds the mutex of the session, so a session is in one
`Phase`: between two calls, or in one call at the place where it waits in the manager or
is about to call it again.  A step is a part of a call up to the next call of the
manager or to its end.

`Sessions` is the manager with any number of sessions; session `i` waits on condition
variable `i`.  A call that fails an assertion ends the process, so it is no step.
-/

namespace CoherentDB
namespace MemoryManager

open Debug Containers MachineInt Runs

/-- The arguments of the constructor, and the thread that autostarts the session. -/
structure SessionStart where
  ramLimitBytes : ℕ
  totalLimitBytes : ℕ
  autostart : Option ThreadId
  deriving DecidableEq

/-- The session with its default sub-session, before any `begin`. -/
def SessionStart.world (start : SessionStart) : World where
  mapped := ∅
  session :=
    { frozen := fun _ => none
      unfrozenThreadsCount := -1
      ramLimitBytes := start.ramLimitBytes
      totalLimitBytes := start.totalLimitBytes
      ramAllocatedBytes := 0
      totalAllocatedBytes := 0
      allocs := OrderedTable.empty
      defaultSubSession := 0
      subSessions := {0} }
  subs := fun _ => MemorySubSession.initial
  current := fun _ => none

/-- The session that the constructor has made, with the memory reserved. -/
def SessionStart.construct (start : SessionStart) : World :=
  match start.autostart with
  | some t => start.world.sessionBegin t
  | none => start.world

namespace World

variable (w : World)

/-- `freeze` of each sub-session in turn. -/
def freezeEach (t : ThreadId) : List SubSessionId → World → Except Failure World
  | [], w => .ok w
  | x :: rest, w => do
      let w ← w.subFreeze t x
      freezeEach t rest w

/-- `memory_session::freeze` up to the call of `free_ram_bytes`, and whether it is made. -/
def sessionFreeze (t : ThreadId) : Except Failure (Bool × World) :=
  let m := w.session
  match m.frozen t with
  | none => .error .assertion
  -- The early return, before the lock.
  | some true => .ok (false, w)
  | some false =>
      let count := m.unfrozenThreadsCount - 1
      let w := { w with
        session :=
          { m with
            frozen := Function.update m.frozen t (some true)
            unfrozenThreadsCount := count } }
      if count = 0 then do
        -- The set of pointers is run through in its order.
        let w ← freezeEach t (m.subSessions.sort (· ≤ ·)) w
        return (true, w)
      else .ok (false, w)

/-- `memory_session::unfreeze` and its two sisters from where the RAM is reserved. -/
def sessionUnfreeze (t : ThreadId) : Except Failure World := do
  let m := w.session
  let w := { w with
    session :=
      { m with
        frozen := Function.update m.frozen t (some false)
        unfrozenThreadsCount := m.unfrozenThreadsCount + 1 } }
  let (answer, w) ← w.subUnfreeze t m.defaultSubSession
  -- `r_assert(default_sub_session->unfreeze())`
  if answer then return w else .error .assertion

end World

/-- Where a session is. -/
inductive Phase
  /-- The constructor waits in `reserve_total_bytes`. -/
  | reservingTotal (start : SessionStart)
  /-- The constructor is about to call `reserve_ram_bytes`. -/
  | reservedTotal (start : SessionStart)
  /-- The constructor waits in `reserve_ram_bytes`. -/
  | reservingRam (start : SessionStart)
  /-- No call holds the mutex of the session. -/
  | ready (w : World)
  /-- `freeze` is about to call `free_ram_bytes`. -/
  | freezing (w : World)
  /-- `unfreeze` or `timed_unfreeze` on thread `t` waits for the RAM. -/
  | unfreezing (t : ThreadId) (timed : Bool) (w : World)
  /-- The RAM is reserved for one of the three, which is about to go on. -/
  | unfrozen (t : ThreadId) (w : World)
  /-- The destructor is about to call `free_ram_bytes`. -/
  | destroying (w : World)
  /-- The session is destroyed, or its constructor has thrown. -/
  | gone

/-- One step of a session. -/
inductive PhaseStep
  /-- The call that waits in the manager tests again. -/
  | test
  /-- The wait of `timed_unfreeze` has timed out. -/
  | timeOut
  /-- The call goes on to its next call of the manager, or to its end. -/
  | goOn
  | begin (t : ThreadId)
  | freeze (t : ThreadId)
  | unfreeze (t : ThreadId) (timed : Bool)
  | tryUnfreeze (t : ThreadId)
  | destroy
  deriving DecidableEq

namespace Phase

/-- The test of a request in the manager. -/
def await (m : Manager) (r : Resource) (i bytes : ℕ) (waiting granted : Phase) :
    Manager × Phase :=
  match m.test r i bytes with
  | some m' => (m', granted)
  | none => (m, waiting)

/-- The start of `unfreeze`, `try_unfreeze` and `timed_unfreeze`: they ask for RAM where the
thread is frozen and all others are, and do nothing where it is not. -/
def whenFrozen (m : Manager) (w : World) (t : ThreadId) (ask : Option (Manager × Phase)) :
    Option (Manager × Phase) :=
  match w.session.frozen t with
  | none => none
  | some false => some (m, .ready w)
  -- While another thread is unfrozen the call does nothing, and its own thread stays frozen.
  | some true => if w.session.unfrozenThreadsCount = 0 then ask else some (m, .ready w)

/-- One step of session `i`. -/
def step (m : Manager) (i : ℕ) : Phase → PhaseStep → Option (Manager × Phase)
  | .reservingTotal start, .test =>
      some (await m .total i start.totalLimitBytes (.reservingTotal start) (.reservedTotal start))
  | .reservedTotal start, .goOn =>
      match m.reserveRamBytes i start.ramLimitBytes with
      -- The destructor of a session that is not constructed does not run: the total stays.
      | .error _ => some (m, .gone)
      | .ok m =>
          some (await m .ram i start.ramLimitBytes (.reservingRam start) (.ready start.construct))
  | .reservingRam start, .test =>
      some (await m .ram i start.ramLimitBytes (.reservingRam start) (.ready start.construct))
  | .ready w, .begin t => some (m, .ready (w.sessionBegin t))
  | .ready w, .freeze t =>
      match w.sessionFreeze t with
      | .error _ => none
      | .ok (true, w) => some (m, .freezing w)
      | .ok (false, w) => some (m, .ready w)
  | .freezing w, .goOn => some (m.freeRamBytes w.session.ramLimitBytes, .ready w)
  | .ready w, .unfreeze t timed =>
      whenFrozen m w t <|
        match m.reserveRamBytes i w.session.ramLimitBytes with
        | .error _ => some (m, .ready w)
        | .ok m => some (await m .ram i w.session.ramLimitBytes (.unfreezing t timed w)
            (.unfrozen t w))
  | .unfreezing t timed w, .test =>
      some (await m .ram i w.session.ramLimitBytes (.unfreezing t timed w) (.unfrozen t w))
  | .unfreezing _ true w, .timeOut => some (m.timeOut i, .ready w)
  | .ready w, .tryUnfreeze t =>
      whenFrozen m w t <|
        match m.tryReserveRamBytes w.session.ramLimitBytes with
        | .error _ => some (m, .ready w)
        | .ok none => some (m, .ready w)
        | .ok (some m) => some (m, .unfrozen t w)
  | .unfrozen t w, .goOn =>
      match w.sessionUnfreeze t with
      | .error _ => none
      | .ok w => some (m, .ready w)
  | .ready w, .destroy => some (m.freeTotalBytes w.session.totalLimitBytes, .destroying w)
  -- The destructor does not ask whether `freeze` has given the RAM back before.
  | .destroying w, .goOn => some (m.freeRamBytes w.session.ramLimitBytes, .gone)
  | _, _ => none

variable {m m' : Manager} {i : ℕ} {phase phase' : Phase} {what : PhaseStep}

theorem whenFrozen_some {w : World} {t : ThreadId} {ask : Option (Manager × Phase)}
    (h : whenFrozen m w t ask = some (m', phase')) :
    (w.session.frozen t ≠ none ∧ m' = m ∧ phase' = .ready w) ∨
      (w.session.frozen t = some true ∧ w.session.unfrozenThreadsCount = 0 ∧
        ask = some (m', phase')) := by
  unfold whenFrozen at h
  split at h
  · cases h
  · next hfrozen =>
    cases h
    exact Or.inl ⟨by simp [hfrozen], rfl, rfl⟩
  · next hfrozen =>
    split_ifs at h with hzero
    · exact Or.inr ⟨hfrozen, hzero, h⟩
    · cases h
      exact Or.inl ⟨by simp [hfrozen], rfl, rfl⟩

/-- A request waits on, or the test of the manager grants it. -/
theorem await_cases {r : Resource} {bytes : ℕ} {waiting granted : Phase}
    (h : await m r i bytes waiting granted = (m', phase')) :
    (m.test r i bytes = none ∧ m' = m ∧ phase' = waiting) ∨
      (m.test r i bytes = some m' ∧ phase' = granted) := by
  unfold await at h
  split at h
  · next htest =>
    cases h
    exact Or.inr ⟨htest, rfl⟩
  · next htest =>
    cases h
    exact Or.inl ⟨htest, rfl, rfl⟩

/-- The steps of session `i`, one constructor for each way in which they go. -/
inductive Moves (m : Manager) (i : ℕ) : Phase → PhaseStep → Manager → Phase → Prop
  | awaitTotal {start : SessionStart} {m' : Manager} {phase' : Phase}
      (h : await m .total i start.totalLimitBytes (.reservingTotal start) (.reservedTotal start) =
        (m', phase')) : Moves m i (.reservingTotal start) .test m' phase'
  | refuseRam {start : SessionStart} {what : String}
      (h : m.reserveRamBytes i start.ramLimitBytes = .error what) :
      Moves m i (.reservedTotal start) .goOn m .gone
  | askRam {start : SessionStart} {m₁ m' : Manager} {phase' : Phase}
      (hask : m.reserveRamBytes i start.ramLimitBytes = .ok m₁)
      (h : await m₁ .ram i start.ramLimitBytes (.reservingRam start) (.ready start.construct) =
        (m', phase')) : Moves m i (.reservedTotal start) .goOn m' phase'
  | awaitRam {start : SessionStart} {m' : Manager} {phase' : Phase}
      (h : await m .ram i start.ramLimitBytes (.reservingRam start) (.ready start.construct) =
        (m', phase')) : Moves m i (.reservingRam start) .test m' phase'
  | begin (w : World) (t : ThreadId) :
      Moves m i (.ready w) (.begin t) m (.ready (w.sessionBegin t))
  | freezeLast {w w' : World} {t : ThreadId} (h : w.sessionFreeze t = .ok (true, w')) :
      Moves m i (.ready w) (.freeze t) m (.freezing w')
  | freeze {w w' : World} {t : ThreadId} (h : w.sessionFreeze t = .ok (false, w')) :
      Moves m i (.ready w) (.freeze t) m (.ready w')
  | giveRam (w : World) :
      Moves m i (.freezing w) .goOn (m.freeRamBytes w.session.ramLimitBytes) (.ready w)
  | unfreezeStays {w : World} {t : ThreadId} (timed : Bool) (hbegun : w.session.frozen t ≠ none) :
      Moves m i (.ready w) (.unfreeze t timed) m (.ready w)
  | unfreezeAsks {w : World} {t : ThreadId} {timed : Bool} {m₁ m' : Manager} {phase' : Phase}
      (hfrozen : w.session.frozen t = some true) (hzero : w.session.unfrozenThreadsCount = 0)
      (hask : m.reserveRamBytes i w.session.ramLimitBytes = .ok m₁)
      (h : await m₁ .ram i w.session.ramLimitBytes (.unfreezing t timed w) (.unfrozen t w) =
        (m', phase')) : Moves m i (.ready w) (.unfreeze t timed) m' phase'
  | awaitUnfreeze {w : World} {t : ThreadId} {timed : Bool} {m' : Manager} {phase' : Phase}
      (h : await m .ram i w.session.ramLimitBytes (.unfreezing t timed w) (.unfrozen t w) =
        (m', phase')) : Moves m i (.unfreezing t timed w) .test m' phase'
  | timeOut (t : ThreadId) (w : World) :
      Moves m i (.unfreezing t true w) .timeOut (m.timeOut i) (.ready w)
  | tryStays {w : World} {t : ThreadId} (hbegun : w.session.frozen t ≠ none) :
      Moves m i (.ready w) (.tryUnfreeze t) m (.ready w)
  | tryGets {w : World} {t : ThreadId} {m' : Manager} (hfrozen : w.session.frozen t = some true)
      (hzero : w.session.unfrozenThreadsCount = 0)
      (htry : m.tryReserveRamBytes w.session.ramLimitBytes = .ok (some m')) :
      Moves m i (.ready w) (.tryUnfreeze t) m' (.unfrozen t w)
  | unfreeze {t : ThreadId} {w w' : World} (h : w.sessionUnfreeze t = .ok w') :
      Moves m i (.unfrozen t w) .goOn m (.ready w')
  | destroy (w : World) :
      Moves m i (.ready w) .destroy (m.freeTotalBytes w.session.totalLimitBytes) (.destroying w)
  | destroyed (w : World) :
      Moves m i (.destroying w) .goOn (m.freeRamBytes w.session.ramLimitBytes) .gone

/-- **Every step of a session is one of these.** -/
theorem moves_of_step (h : phase.step m i what = some (m', phase')) :
    Moves m i phase what m' phase' := by
  cases phase with
  | reservingTotal start =>
      cases what with
      | test => exact .awaitTotal (Option.some.inj h)
      | _ => cases h
  | reservedTotal start =>
      cases what with
      | goOn =>
          simp only [step] at h
          split at h
          · next hask =>
            cases h
            exact .refuseRam hask
          · next hask => exact .askRam hask (Option.some.inj h)
      | _ => cases h
  | reservingRam start =>
      cases what with
      | test => exact .awaitRam (Option.some.inj h)
      | _ => cases h
  | ready w =>
      cases what with
      | begin t =>
          cases h
          exact .begin w t
      | freeze t =>
          simp only [step] at h
          split at h
          · cases h
          · next hfreeze =>
            cases h
            exact .freezeLast hfreeze
          · next hfreeze =>
            cases h
            exact .freeze hfreeze
      | unfreeze t timed =>
          rcases whenFrozen_some h with ⟨hbegun, rfl, rfl⟩ | ⟨hfrozen, hzero, hasks⟩
          · exact .unfreezeStays timed hbegun
          · split at hasks
            · cases hasks
              exact .unfreezeStays timed (by simp [hfrozen])
            · next hask => exact .unfreezeAsks hfrozen hzero hask (Option.some.inj hasks)
      | tryUnfreeze t =>
          rcases whenFrozen_some h with ⟨hbegun, rfl, rfl⟩ | ⟨hfrozen, hzero, hasks⟩
          · exact .tryStays hbegun
          · split at hasks
            · cases hasks
              exact .tryStays (by simp [hfrozen])
            · cases hasks
              exact .tryStays (by simp [hfrozen])
            · next htry =>
              cases hasks
              exact .tryGets hfrozen hzero htry
      | destroy =>
          cases h
          exact .destroy w
      | _ => cases h
  | freezing w =>
      cases what with
      | goOn =>
          cases h
          exact .giveRam w
      | _ => cases h
  | unfreezing t timed w =>
      cases what with
      | test => exact .awaitUnfreeze (Option.some.inj h)
      | timeOut =>
          cases timed with
          | false => cases h
          | true =>
              cases h
              exact .timeOut t w
      | _ => cases h
  | unfrozen t w =>
      cases what with
      | goOn =>
          simp only [step] at h
          split at h
          · cases h
          · next hunfreeze =>
            cases h
            exact .unfreeze hunfreeze
      | _ => cases h
  | destroying w =>
      cases what with
      | goOn =>
          cases h
          exact .destroyed w
      | _ => cases h
  | gone => cases what <;> cases h

end Phase

/-- The manager and all sessions that were ever begun to be constructed. -/
structure Sessions where
  manager : Manager
  sessions : List Phase

/-- One step of the system. -/
inductive SessionsStep
  /-- The constructor calls `reserve_total_bytes`. -/
  | construct (start : SessionStart)
  /-- A step of session `i`. -/
  | on (i : ℕ) (step : PhaseStep)
  deriving DecidableEq

namespace Sessions

def initial (ramLimitBytes totalLimitBytes : ℕ) : Sessions :=
  ⟨Manager.new ramLimitBytes totalLimitBytes, []⟩

def step (s : Sessions) : SessionsStep → Option Sessions
  | .construct start =>
      match s.manager.reserveTotalBytes s.sessions.length start.totalLimitBytes with
      | .error _ => some s
      | .ok m =>
          let (m, phase) := Phase.await m .total s.sessions.length start.totalLimitBytes
            (.reservingTotal start) (.reservedTotal start)
          some ⟨m, s.sessions ++ [phase]⟩
  | .on i what => s.sessions[i]?.bind fun phase =>
      (phase.step s.manager i what).map fun (m, phase) => ⟨m, s.sessions.set i phase⟩

end Sessions

section Terms

/-- What the reservation of a session depends on is the same. -/
structure MemorySession.SameTerms (m m' : MemorySession) : Prop where
  frozen : m'.frozen = m.frozen
  count : m'.unfrozenThreadsCount = m.unfrozenThreadsCount
  ram : m'.ramLimitBytes = m.ramLimitBytes
  total : m'.totalLimitBytes = m.totalLimitBytes

theorem MemorySession.SameTerms.refl (m : MemorySession) : m.SameTerms m := ⟨rfl, rfl, rfl, rfl⟩

theorem MemorySession.SameTerms.trans {m₁ m₂ m₃ : MemorySession} (h : m₁.SameTerms m₂)
    (h' : m₂.SameTerms m₃) : m₁.SameTerms m₃ :=
  ⟨h'.frozen.trans h.frozen, h'.count.trans h.count, h'.ram.trans h.ram, h'.total.trans h.total⟩

variable {w w' : World} {t : ThreadId} {x : SubSessionId}

theorem World.subBegin_session : (w.subBegin t x).session = w.session := by
  cases ht : (w.subs x).frozen t with
  | some flag => rw [World.subBegin_again ht, World.activate]
  | none => rw [World.subBegin_new ht, World.reflag, World.activate]

theorem World.subBegin_current : (w.subBegin t x).current = Function.update w.current t (some x) := by
  cases ht : (w.subs x).frozen t with
  | some flag => rw [World.subBegin_again ht, World.activate]
  | none => rw [World.subBegin_new ht, World.reflag, World.activate]

theorem World.Reflags.terms (h : w.Reflags t x w') : w.session.SameTerms w'.session := by
  cases h with
  | same => exact .refl _
  | flip hflag ram => exact ⟨rfl, rfl, rfl, rfl⟩

theorem World.freezeEach_terms {l : List SubSessionId} (h : World.freezeEach t l w = .ok w') :
    w.session.SameTerms w'.session := by
  induction l generalizing w with
  | nil =>
      cases h
      exact .refl _
  | cons x rest ih =>
      obtain ⟨w₁, hfirst, hrest⟩ := ok_of_bind h
      exact (World.subFreeze_reflags hfirst).terms.trans (ih hrest)

/-- `freeze` on a thread that is frozen does nothing; on another one it takes the thread from the
count, and the RAM is given back when none is left. -/
theorem World.sessionFreeze_ok {last : Bool} (h : w.sessionFreeze t = .ok (last, w')) :
    (w.session.frozen t = some true ∧ last = false ∧ w' = w) ∨
    (w.session.frozen t = some false ∧
      w'.session.frozen = Function.update w.session.frozen t (some true) ∧
      w'.session.unfrozenThreadsCount = w.session.unfrozenThreadsCount - 1 ∧
      w'.session.ramLimitBytes = w.session.ramLimitBytes ∧
      w'.session.totalLimitBytes = w.session.totalLimitBytes ∧
      (last = true ↔ w'.session.unfrozenThreadsCount = 0)) := by
  unfold World.sessionFreeze at h
  dsimp only at h
  split at h
  · cases h
  · next hfrozen =>
    cases h
    exact Or.inl ⟨hfrozen, rfl, rfl⟩
  · next hfrozen =>
    refine Or.inr ⟨hfrozen, ?_⟩
    split_ifs at h with hzero
    · obtain ⟨w₁, heach, hdone⟩ := ok_of_bind h
      cases hdone
      have hterms := World.freezeEach_terms heach
      refine ⟨hterms.frozen, hterms.count, hterms.ram, hterms.total, ?_⟩
      exact iff_of_true rfl (hterms.count.trans hzero)
    · cases h
      exact ⟨rfl, rfl, rfl, rfl, iff_of_false Bool.false_ne_true hzero⟩

theorem World.sessionUnfreeze_ok (h : w.sessionUnfreeze t = .ok w') :
    w'.session.frozen = Function.update w.session.frozen t (some false) ∧
      w'.session.unfrozenThreadsCount = w.session.unfrozenThreadsCount + 1 ∧
      w'.session.ramLimitBytes = w.session.ramLimitBytes ∧
      w'.session.totalLimitBytes = w.session.totalLimitBytes := by
  obtain ⟨⟨answer, w₁⟩, hsub, hdone⟩ := ok_of_bind h
  have hterms := (World.subUnfreeze_reflags hsub).terms
  dsimp only at hdone
  split_ifs at hdone
  cases hdone
  exact ⟨hterms.frozen, hterms.count, hterms.ram, hterms.total⟩

/-- `begin` on a new thread. -/
theorem World.sessionBegin_new (ht : w.session.frozen t = none) :
    (w.sessionBegin t).session.frozen =
        Function.update w.session.frozen t
          (some (decide (w.session.unfrozenThreadsCount = 0))) ∧
      (w.sessionBegin t).session.unfrozenThreadsCount =
        FlagCount.withNew w.session.unfrozenThreadsCount ∧
      (w.sessionBegin t).session.ramLimitBytes = w.session.ramLimitBytes ∧
      (w.sessionBegin t).session.totalLimitBytes = w.session.totalLimitBytes := by
  simp only [World.sessionBegin, World.subBegin_session, ht, and_self]

/-- What `begin` leaves of the session, and the pointer it sets. -/
theorem World.sessionBegin_rest :
    (w.sessionBegin t).session.subSessions = w.session.subSessions ∧
      (w.sessionBegin t).session.defaultSubSession = w.session.defaultSubSession ∧
      (w.sessionBegin t).session.ramAllocatedBytes = w.session.ramAllocatedBytes ∧
      (w.sessionBegin t).current =
        Function.update w.current t (some w.session.defaultSubSession) := by
  simp only [World.sessionBegin, World.subBegin_session, World.subBegin_current, and_true]
  cases w.session.frozen t with
  | some flag => exact ⟨rfl, rfl, rfl⟩
  | none => exact ⟨rfl, rfl, rfl⟩

theorem World.sessionBegin_again {flag : Bool} (ht : w.session.frozen t = some flag) :
    (w.sessionBegin t).session = w.session := by
  simp only [World.sessionBegin, World.subBegin_session, ht]

end Terms

end MemoryManager
end CoherentDB
