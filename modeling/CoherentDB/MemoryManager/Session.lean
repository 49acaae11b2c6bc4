import Mathlib.Logic.Relation
import CoherentDB.Lib.FlagCount
import CoherentDB.MemoryManager.RegionEffects

/-!
# `memory_session`, its sub-sessions and `allocator<T>`

`World` is one session with its sub-session objects, the mapped pages and the
thread-local pointer `current_sub_session`.  The public functions of
`memory_sub_session` and `memory_session` that switch, freeze and unfreeze are
`SessionCall`s; `allocatorAllocate` and `allocatorDeallocate` are the two
functions of `allocator<T>`, for an element type of `sizeofT` bytes.

Every function body runs under the mutexes of the sub-session and the session,
so a run is a sequence of whole calls by arbitrary threads.  `SessionStep` adds
the blocks in the callers' hands, each with the sub-session it came from, and
is stated for an arbitrary condition on the calls.
-/

namespace CoherentDB
namespace MemoryManager

open Debug Containers MachineInt ArenaLayout

/-- A session, its sub-session objects and what they share. -/
structure World where
  mapped : Finset ℕ
  session : MemorySession
  subs : SubSessionId → MemorySubSession
  current : ThreadId → Option SubSessionId

/-- The public calls that neither allocate nor deallocate. -/
inductive SessionCall
  | subBegin (t : ThreadId) (x : SubSessionId)
  | subEnd (t : ThreadId) (x : SubSessionId)
  | subSetCurrent (t : ThreadId) (x : SubSessionId)
  | subFreeze (t : ThreadId) (x : SubSessionId)
  | subUnfreeze (t : ThreadId) (x : SubSessionId)
  | sessionBegin (t : ThreadId)
  | sessionEnd (t : ThreadId)
  | setDefaultCurrent (t : ThreadId)

namespace World

variable (cfg : ManagerConfig) (w : World)

/-- The view of the private functions of sub-session `x`. -/
def scope (x : SubSessionId) : Scope := ⟨w.mapped, w.session, x, w.subs x⟩

@[simp] theorem scope_mapped (x : SubSessionId) : (w.scope x).mapped = w.mapped := rfl
@[simp] theorem scope_parent (x : SubSessionId) : (w.scope x).parent = w.session := rfl
@[simp] theorem scope_this (x : SubSessionId) : (w.scope x).this = x := rfl
@[simp] theorem scope_self (x : SubSessionId) : (w.scope x).self = w.subs x := rfl

/-- Write the view of a sub-session back. -/
def put (c : Scope) : World :=
  { w with
    mapped := c.mapped
    session := c.parent
    subs := Function.update w.subs c.this c.self }

/-- `memory_sub_session::activate`. -/
def activate (t : ThreadId) (x : SubSessionId) : World :=
  { w with current := Function.update w.current t (some x) }

/-- `memory_sub_session::begin`. -/
def subBegin (t : ThreadId) (x : SubSessionId) : World :=
  let s := w.subs x
  match s.frozen t with
  | some _ => w.activate t x
  | none =>
      -- A thread that comes to a frozen sub-session starts frozen and is not counted.
      { w.activate t x with
        subs := Function.update w.subs x
          { s with
            frozen := Function.update s.frozen t (some (decide (s.unfrozenThreadsCount = 0)))
            unfrozenThreadsCount := FlagCount.withNew s.unfrozenThreadsCount } }

/-- `memory_sub_session::end`. -/
def subEnd (t : ThreadId) (x : SubSessionId) : World :=
  if w.current t = some x then { w with current := Function.update w.current t none } else w

/-- `memory_sub_session::freeze`; the advice to the kernel has no effect here. -/
def subFreeze (t : ThreadId) (x : SubSessionId) : Except Failure World :=
  let s := w.subs x
  match s.frozen t with
  | none => .error .assertion
  | some true => .ok w
  | some false =>
      let count := s.unfrozenThreadsCount - 1
      .ok { w with
        subs := Function.update w.subs x
          { s with
            frozen := Function.update s.frozen t (some true)
            unfrozenThreadsCount := count }
        session :=
          if count = 0 then
            { w.session with
              ramAllocatedBytes := subWrap 64 w.session.ramAllocatedBytes s.allocatedBytes }
          else w.session }

/-- `memory_sub_session::unfreeze`: the answer and the world after it. -/
def subUnfreeze (t : ThreadId) (x : SubSessionId) : Except Failure (Bool × World) :=
  let s := w.subs x
  match s.frozen t with
  | none => .error .assertion
  | some false => .ok (true, w)
  | some true =>
      if s.unfrozenThreadsCount = 0 then
        let ram := addWrap 64 w.session.ramAllocatedBytes s.allocatedBytes
        -- The pages of the sub-session no longer fit under the limit.
        if w.session.ramLimitBytes < ram then .ok (false, w)
        else
          .ok (true, { w with
            session := { w.session with ramAllocatedBytes := ram }
            subs := Function.update w.subs x
              { s with
                frozen := Function.update s.frozen t (some false)
                unfrozenThreadsCount := s.unfrozenThreadsCount + 1 } })
      else .ok (true, w)

/-- `memory_session::begin`. -/
def sessionBegin (t : ThreadId) : World :=
  let m := w.session
  let m' :=
    match m.frozen t with
    | some _ => m
    | none =>
        { m with
          frozen := Function.update m.frozen t (some (decide (m.unfrozenThreadsCount = 0)))
          unfrozenThreadsCount := FlagCount.withNew m.unfrozenThreadsCount }
  World.subBegin { w with session := m' } t m.defaultSubSession

/-- `memory_session::end`; every sub-session of the model belongs to this session. -/
def sessionEnd (t : ThreadId) : World :=
  { w with current := Function.update w.current t none }

/-- The world after a call that returns. -/
def call : SessionCall → Except Failure World
  | .subBegin t x => .ok (w.subBegin t x)
  | .subEnd t x => .ok (w.subEnd t x)
  | .subSetCurrent t x => .ok (w.activate t x)
  | .subFreeze t x => w.subFreeze t x
  | .subUnfreeze t x => (w.subUnfreeze t x).map Prod.snd
  | .sessionBegin t => .ok (w.sessionBegin t)
  | .sessionEnd t => .ok (w.sessionEnd t)
  | .setDefaultCurrent t => .ok (w.activate t w.session.defaultSubSession)

/-- The world with the flag of a thread for sub-session `x` set or cleared, and with another
count of unfrozen threads and another value of the first counter. -/
def reflag (t : ThreadId) (x : SubSessionId) (flag : Bool) (count : ℤ) (ram : ℕ) : World :=
  { w with
    session := { w.session with ramAllocatedBytes := ram }
    subs := Function.update w.subs x
      { w.subs x with
        frozen := Function.update (w.subs x).frozen t (some flag)
        unfrozenThreadsCount := count } }

/-- What `freeze` and `unfreeze` of a sub-session may change: the flag of a thread that has
one, the count with it, and the first counter of the session. -/
inductive Reflags (t : ThreadId) (x : SubSessionId) : World → Prop
  | same : Reflags t x w
  | flip {flag : Bool} (hflag : (w.subs x).frozen t = some flag) (ram : ℕ) :
      Reflags t x (w.reflag t x (!flag)
        (if flag then (w.subs x).unfrozenThreadsCount + 1 else (w.subs x).unfrozenThreadsCount - 1)
        ram)

section Flags

variable {w w' : World} {t : ThreadId} {x : SubSessionId}

/-- **What `begin` of a sub-session does**: a thread that has a flag only makes the sub-session
its current one. -/
theorem subBegin_again {flag : Bool} (ht : (w.subs x).frozen t = some flag) :
    w.subBegin t x = w.activate t x := by
  simp only [subBegin, ht]

theorem subBegin_new (ht : (w.subs x).frozen t = none) :
    w.subBegin t x = (w.activate t x).reflag t x (decide ((w.subs x).unfrozenThreadsCount = 0))
      (FlagCount.withNew (w.subs x).unfrozenThreadsCount) w.session.ramAllocatedBytes := by
  simp only [subBegin, ht]
  rfl

/-- **What `freeze` of a sub-session does**: nothing on a frozen thread.  Otherwise the thread
leaves the count, and the last one takes the bytes out of the first counter. -/
theorem subFreeze_ok (h : w.subFreeze t x = .ok w') :
    ((w.subs x).frozen t = some true ∧ w' = w) ∨
    ((w.subs x).frozen t = some false ∧
      w' = w.reflag t x true ((w.subs x).unfrozenThreadsCount - 1)
        (if (w.subs x).unfrozenThreadsCount - 1 = 0 then
          subWrap 64 w.session.ramAllocatedBytes (w.subs x).allocatedBytes
        else w.session.ramAllocatedBytes)) := by
  unfold subFreeze at h
  dsimp only at h
  split at h
  · cases h
  · next hflag =>
    cases h
    exact Or.inl ⟨hflag, rfl⟩
  · next hflag =>
    cases h
    refine Or.inr ⟨hflag, ?_⟩
    unfold reflag
    split_ifs
    · rfl
    · rfl

/-- **What `unfreeze` of a sub-session does**: it acts only on a frozen thread of a sub-session
that is completely frozen, and there it fails where the bytes do not fit under the limit. -/
theorem subUnfreeze_ok {answer : Bool} (h : w.subUnfreeze t x = .ok (answer, w')) :
    ((w.subs x).frozen t = some false ∧ answer = true ∧ w' = w) ∨
    ((w.subs x).frozen t = some true ∧ (w.subs x).unfrozenThreadsCount ≠ 0 ∧ answer = true ∧
      w' = w) ∨
    ((w.subs x).frozen t = some true ∧ (w.subs x).unfrozenThreadsCount = 0 ∧ answer = false ∧
      w' = w) ∨
    ((w.subs x).frozen t = some true ∧ (w.subs x).unfrozenThreadsCount = 0 ∧ answer = true ∧
      w' = w.reflag t x false ((w.subs x).unfrozenThreadsCount + 1)
        (addWrap 64 w.session.ramAllocatedBytes (w.subs x).allocatedBytes)) := by
  unfold subUnfreeze at h
  dsimp only at h
  split at h
  · cases h
  · next hflag =>
    cases h
    exact Or.inl ⟨hflag, rfl, rfl⟩
  · next hflag =>
    split_ifs at h with hzero hlimit
    · cases h
      exact Or.inr (Or.inr (Or.inl ⟨hflag, hzero, rfl, rfl⟩))
    · cases h
      exact Or.inr (Or.inr (Or.inr ⟨hflag, hzero, rfl, rfl⟩))
    · cases h
      exact Or.inr (Or.inl ⟨hflag, hzero, rfl, rfl⟩)

theorem subFreeze_reflags (h : w.subFreeze t x = .ok w') : w.Reflags t x w' := by
  rcases subFreeze_ok h with ⟨-, rfl⟩ | ⟨hflag, rfl⟩
  · exact .same
  · exact .flip hflag _

theorem subUnfreeze_reflags {answer : Bool} (h : w.subUnfreeze t x = .ok (answer, w')) :
    w.Reflags t x w' := by
  rcases subUnfreeze_ok h with ⟨-, -, rfl⟩ | ⟨-, -, -, rfl⟩ | ⟨-, -, -, rfl⟩ | ⟨hflag, -, -, rfl⟩
  · exact .same
  · exact .same
  · exact .same
  · exact .flip hflag _

end Flags

/-- `std::allocator<T>::max_size`. -/
def stdMaxSize (sizeofT : ℕ) : ℕ := (2 ^ 64 - 1) / sizeofT

/-- `allocator<T>::allocate`. -/
def allocatorAllocate (mmap : ℕ → Option ℕ) (t : ThreadId) (sizeofT n : ℕ) :
    Except Failure (ℕ × World) :=
  if n = 0 then .ok (0, w)
  else
    let neededBytes := sizeofT * n % 2 ^ 64
    match w.current t with
    | none => .error .assertion
    | some x => do
        dAssert ((w.subs x).frozen t = some false)
        dAssert (w.session.ramLimitBytes ≤ stdMaxSize sizeofT)
        dAssert (w.session.totalLimitBytes ≤ stdMaxSize sizeofT)
        if w.session.ramLimitBytes < addWrap 64 w.session.ramAllocatedBytes neededBytes then
          .error .outOfSessionRamMemory
        else if w.session.totalLimitBytes
            < addWrap 64 w.session.totalAllocatedBytes neededBytes then
          .error .outOfSessionTotalMemory
        else
          let (p, c) ← (w.scope x).allocate cfg mmap neededBytes
          return (p, w.put c)

/-- `allocator<T>::deallocate`. -/
def allocatorDeallocate (t : ThreadId) (sizeofT p n : ℕ) : Except Failure World :=
  if n = 0 ∨ p = 0 then .ok w
  else
    match w.current t with
    | none => .error .assertion
    | some x => do
        let c ← (w.scope x).deallocate cfg p (sizeofT * n % 2 ^ 64)
        return w.put c

section Outcomes

variable {cfg : ManagerConfig} {w w' : World} {mmap : ℕ → Option ℕ} {t : ThreadId}
  {x : SubSessionId} {sizeofT n p : ℕ}

/-- **What a successful `allocator<T>::allocate` passed**: the checks on the thread and on
the limits, and the call of `memory_sub_session::allocate`. -/
theorem allocatorAllocate_ok (hn : n ≠ 0) (hcur : w.current t = some x)
    (h : w.allocatorAllocate cfg mmap t sizeofT n = .ok (p, w')) :
    (w.subs x).frozen t = some false ∧
    w.session.ramLimitBytes ≤ stdMaxSize sizeofT ∧ w.session.totalLimitBytes ≤ stdMaxSize sizeofT ∧
    addWrap 64 w.session.ramAllocatedBytes (sizeofT * n % 2 ^ 64) ≤ w.session.ramLimitBytes ∧
    addWrap 64 w.session.totalAllocatedBytes (sizeofT * n % 2 ^ 64)
      ≤ w.session.totalLimitBytes ∧
    ∃ c, (w.scope x).allocate cfg mmap (sizeofT * n % 2 ^ 64) = .ok (p, c) ∧ w' = w.put c := by
  rw [allocatorAllocate, if_neg hn] at h
  simp only [hcur] at h
  obtain ⟨hfrozen, h⟩ := dAssert_bind_ok h
  obtain ⟨hramMax, h⟩ := dAssert_bind_ok h
  obtain ⟨htotalMax, h⟩ := dAssert_bind_ok h
  split_ifs at h with hram htotal
  obtain ⟨⟨q, c⟩, halloc, hdone⟩ := ok_of_bind h
  cases hdone
  exact ⟨hfrozen, hramMax, htotalMax, not_lt.mp hram, not_lt.mp htotal, c, halloc, rfl⟩

/-- A successful `allocator<T>::deallocate` of a block called `deallocate` of the current
sub-session. -/
theorem allocatorDeallocate_ok (hn : n ≠ 0) (hp : p ≠ 0)
    (h : w.allocatorDeallocate cfg t sizeofT p n = .ok w') :
    ∃ y c, w.current t = some y ∧
      (w.scope y).deallocate cfg p (sizeofT * n % 2 ^ 64) = .ok c ∧ w' = w.put c := by
  rw [allocatorDeallocate, if_neg (by simp [hn, hp])] at h
  cases hcur : w.current t with
  | none => simp [hcur] at h
  | some y =>
      simp only [hcur] at h
      obtain ⟨c, hfree, hdone⟩ := ok_of_bind h
      cases hdone
      exact ⟨y, c, rfl, hfree, rfl⟩

end Outcomes

end World

/-- A world and the blocks in the callers' hands with their sub-sessions. -/
structure SessionState where
  world : World
  live : List (SubSessionId × Block)

/-- The calls of a run. -/
inductive SessionOp
  | allocate (mmap : ℕ → Option ℕ) (t : ThreadId) (sizeofT n : ℕ)
  | deallocate (t : ThreadId) (sizeofT n : ℕ) (x : SubSessionId) (p : ℕ)
  | call (f : SessionCall)

/-- The sub-session a call names is one of the session's. -/
def SessionCall.Targets (subSessions : Finset SubSessionId) : SessionCall → Prop
  | .subBegin _ x | .subEnd _ x | .subSetCurrent _ x | .subFreeze _ x | .subUnfreeze _ x =>
      x ∈ subSessions
  | .sessionBegin _ | .sessionEnd _ | .setDefaultCurrent _ => True

instance (subSessions : Finset SubSessionId) (f : SessionCall) :
    Decidable (f.Targets subSessions) :=
  match f with
  | .subBegin _ x | .subEnd _ x | .subSetCurrent _ x | .subFreeze _ x | .subUnfreeze _ x =>
      inferInstanceAs (Decidable (x ∈ subSessions))
  | .sessionBegin _ | .sessionEnd _ | .setDefaultCurrent _ => inferInstanceAs (Decidable True)

/-- One successful call of a run that meets the condition `ok`.  `allocate` asks for at
least one element and its size does not overflow; `deallocate` gives back a live block
with the size it was requested with. -/
inductive SessionStep (cfg : ManagerConfig) (ok : SessionState → SessionOp → Prop) :
    SessionState → SessionState → Prop
  | allocate {st : SessionState} {w' : World} {mmap : ℕ → Option ℕ} {t : ThreadId}
      {sizeofT n p : ℕ} {x : SubSessionId} (hok : ok st (.allocate mmap t sizeofT n))
      (hn : 0 < sizeofT * n) (hsize : sizeofT * n < 2 ^ 64) (hcur : st.world.current t = some x)
      (h : st.world.allocatorAllocate cfg mmap t sizeofT n = .ok (p, w')) :
      SessionStep cfg ok st ⟨w', (x, (p, sizeofT * n)) :: st.live⟩
  | deallocate {st : SessionState} {w' : World} {t : ThreadId} {sizeofT n p : ℕ}
      {x : SubSessionId} (hok : ok st (.deallocate t sizeofT n x p))
      (hlive : (x, (p, sizeofT * n)) ∈ st.live)
      (h : st.world.allocatorDeallocate cfg t sizeofT p n = .ok w') :
      SessionStep cfg ok st ⟨w', st.live.erase (x, (p, sizeofT * n))⟩
  | call {st : SessionState} {w' : World} {f : SessionCall} (hok : ok st (.call f))
      (htarget : f.Targets st.world.session.subSessions) (h : st.world.call f = .ok w') :
      SessionStep cfg ok st ⟨w', st.live⟩

/-- A session as it starts a run: its sub-sessions are as their constructors left them,
nothing is allocated, and the limits are values of `size_t`. -/
structure SessionState.Initial (st : SessionState) : Prop where
  live : st.live = []
  subs : ∀ x, st.world.subs x = MemorySubSession.initial
  current : ∀ t, st.world.current t = none
  ram : st.world.session.ramAllocatedBytes = 0
  total : st.world.session.totalAllocatedBytes = 0
  ramLimit : st.world.session.ramLimitBytes < 2 ^ 64
  totalLimit : st.world.session.totalLimitBytes < 2 ^ 64
  default : st.world.session.defaultSubSession ∈ st.world.session.subSessions

/-- A session with two sub-sessions before its first call, with nothing mapped. -/
def blankSession (ramLimitBytes totalLimitBytes : ℕ) : SessionState where
  world :=
    { mapped := ∅
      session :=
        { frozen := fun _ => none
          unfrozenThreadsCount := -1
          ramLimitBytes := ramLimitBytes
          totalLimitBytes := totalLimitBytes
          ramAllocatedBytes := 0
          totalAllocatedBytes := 0
          allocs := OrderedTable.empty
          defaultSubSession := 0
          subSessions := {0, 1} }
      subs := fun _ => MemorySubSession.initial
      current := fun _ => none }
  live := []

theorem blankSession_initial {ramLimitBytes totalLimitBytes : ℕ} (hram : ramLimitBytes < 2 ^ 64)
    (htotal : totalLimitBytes < 2 ^ 64) : (blankSession ramLimitBytes totalLimitBytes).Initial :=
  ⟨rfl, fun _ => rfl, fun _ => rfl, rfl, rfl, hram, htotal, by simp [blankSession]⟩

/-- The state after a call that meets the conditions of a step and succeeds. -/
def SessionState.next (cfg : ManagerConfig) (st : SessionState) : SessionOp → Option SessionState
  | .allocate mmap t sizeofT n =>
      match st.world.current t, st.world.allocatorAllocate cfg mmap t sizeofT n with
      | some x, .ok (p, w') =>
          if 0 < sizeofT * n ∧ sizeofT * n < 2 ^ 64 then
            some ⟨w', (x, (p, sizeofT * n)) :: st.live⟩
          else none
      | _, _ => none
  | .deallocate t sizeofT n x p =>
      match st.world.allocatorDeallocate cfg t sizeofT p n with
      | .ok w' =>
          if (x, (p, sizeofT * n)) ∈ st.live then
            some ⟨w', st.live.erase (x, (p, sizeofT * n))⟩
          else none
      | .error _ => none
  | .call f =>
      match st.world.call f with
      | .ok w' => if f.Targets st.world.session.subSessions then some ⟨w', st.live⟩ else none
      | .error _ => none

theorem SessionStep.of_next {cfg : ManagerConfig} {ok : SessionState → SessionOp → Prop}
    {st st' : SessionState} {op : SessionOp} (hok : ok st op) (h : st.next cfg op = some st') :
    SessionStep cfg ok st st' := by
  cases op with
  | allocate mmap t sizeofT n =>
      cases hcur : st.world.current t with
      | none => simp [SessionState.next, hcur] at h
      | some x =>
          cases hres : st.world.allocatorAllocate cfg mmap t sizeofT n with
          | error e => simp [SessionState.next, hcur, hres] at h
          | ok res =>
              simp only [SessionState.next, hcur, hres, Option.ite_none_right_eq_some,
                Option.some.injEq] at h
              obtain ⟨⟨hn, hsize⟩, rfl⟩ := h
              exact SessionStep.allocate hok hn hsize hcur hres
  | deallocate t sizeofT n x p =>
      cases hres : st.world.allocatorDeallocate cfg t sizeofT p n with
      | error e => simp [SessionState.next, hres] at h
      | ok w' =>
          simp only [SessionState.next, hres, Option.ite_none_right_eq_some,
            Option.some.injEq] at h
          obtain ⟨hlive, rfl⟩ := h
          exact SessionStep.deallocate hok hlive hres
  | call f =>
      cases hres : st.world.call f with
      | error e => simp [SessionState.next, hres] at h
      | ok w' =>
          simp only [SessionState.next, hres, Option.ite_none_right_eq_some,
            Option.some.injEq] at h
          obtain ⟨htarget, rfl⟩ := h
          exact SessionStep.call hok htarget hres

/-- The state after a list of calls; a call that is not possible is left out. -/
def SessionState.after (cfg : ManagerConfig) (st : SessionState) (ops : List SessionOp) :
    SessionState :=
  ops.foldl (fun st op => (st.next cfg op).getD st) st

/-- Every call of a list is possible where it stands and meets the condition `ok`. -/
def SessionState.Performs (cfg : ManagerConfig) (ok : SessionState → SessionOp → Prop) :
    SessionState → List SessionOp → Prop
  | _, [] => True
  | st, op :: rest =>
      ok st op ∧ (st.next cfg op).isSome ∧ Performs cfg ok ((st.next cfg op).getD st) rest

/-- A list of calls that can be performed is a run. -/
theorem SessionState.Performs.run {cfg : ManagerConfig}
    {ok : SessionState → SessionOp → Prop} {st : SessionState} (ops : List SessionOp)
    (h : st.Performs cfg ok ops) :
    Relation.ReflTransGen (SessionStep cfg ok) st (st.after cfg ops) := by
  induction ops generalizing st with
  | nil => exact Relation.ReflTransGen.refl
  | cons op rest ih =>
      obtain ⟨hok, hsome, hrest⟩ := h
      obtain ⟨st', hst'⟩ := Option.isSome_iff_exists.mp hsome
      have hrun := ih hrest
      rw [hst', Option.getD_some] at hrun
      have hafter : st.after cfg (op :: rest) = st'.after cfg rest := by
        simp [SessionState.after, hst']
      rw [hafter]
      exact Relation.ReflTransGen.head (SessionStep.of_next hok hst') hrun

end MemoryManager
end CoherentDB
