import CoherentDB.MemoryManager.Accounting
import CoherentDB.MemoryManager.Reservation

/-!
# Freezing and unfreezing by several threads

A session and each of its sub-sessions keep a flag for every thread that has begun
them and one count of the threads whose flag is cleared.  `MemoryStep` is a step of
the system of all sessions and their users: a step of a session, or a call on a
sub-session or an allocator of it.

`Sessions.holds` is the rule for a property of the world of a session over whole
runs: it is enough that a new session has it and that each `World.Change` keeps it.

The counts are always right.  A call of `unfreeze` that returns has unfrozen its
thread only if it found the flag cleared, or all other threads frozen as well
(`unfreeze_unfreezes_iff`).
-/

namespace CoherentDB
namespace MemoryManager

open Debug Containers MachineInt Runs FlagCount

/-- The calls on the objects of a session that are not calls of the session itself. -/
inductive MemoryCall
  /-- The constructor of a sub-session, without autostart. -/
  | subConstruct (x : SubSessionId)
  | subBegin (t : ThreadId) (x : SubSessionId)
  | subFreeze (t : ThreadId) (x : SubSessionId)
  | subUnfreeze (t : ThreadId) (x : SubSessionId)
  | allocate (mmap : ℕ → Option ℕ) (t : ThreadId) (sizeofT n : ℕ)
  | deallocate (t : ThreadId) (sizeofT p n : ℕ)

namespace MemoryCall

/-- The call takes the mutex of the session whatever it finds.  `freeze` and `unfreeze` of a
sub-session take it for the last and the first thread only. -/
def locksSession : MemoryCall → Bool
  | .subConstruct _ | .allocate _ _ _ _ | .deallocate _ _ _ _ => true
  | .subBegin _ _ | .subFreeze _ _ | .subUnfreeze _ _ => false

end MemoryCall

/-- The world after a call that returns.  A call that throws changes nothing, and one that
fails an assertion ends the process. -/
def World.perform (cfg : ManagerConfig) (w : World) : MemoryCall → Option World
  | .subConstruct x =>
      if x ∈ w.session.subSessions then none
      else some { w with
        session := { w.session with subSessions := insert x w.session.subSessions }
        subs := Function.update w.subs x MemorySubSession.initial }
  | .subBegin t x => if x ∈ w.session.subSessions then some (w.subBegin t x) else none
  | .subFreeze t x => if x ∈ w.session.subSessions then (w.subFreeze t x).toOption else none
  | .subUnfreeze t x =>
      if x ∈ w.session.subSessions then ((w.subUnfreeze t x).map Prod.snd).toOption else none
  | .allocate mmap t sizeofT n =>
      ((w.allocatorAllocate cfg mmap t sizeofT n).map Prod.snd).toOption
  | .deallocate t sizeofT p n => (w.allocatorDeallocate cfg t sizeofT p n).toOption

namespace Phase

/-- The same place in the same call of the session, with another world. -/
def withWorld : Phase → World → Phase
  | .ready _, w => .ready w
  | .freezing _, w => .freezing w
  | .unfreezing t timed _, w => .unfreezing t timed w
  | .unfrozen t _, w => .unfrozen t w
  | phase, _ => phase

/-- A call of `unfreeze` on `t` waits for the RAM or has just reserved it. -/
def Awaits (t : ThreadId) : Phase → Prop
  | .unfreezing t' _ _ | .unfrozen t' _ => t' = t
  | _ => False

/-- A call on an object of the session.  A call that waits in the manager holds the mutex of
the session, which keeps out the calls that need it. -/
def call (cfg : ManagerConfig) (phase : Phase) (f : MemoryCall) : Option Phase :=
  match phase with
  | .ready w => (w.perform cfg f).map .ready
  | phase =>
      if f.locksSession then none
      else phase.live?.bind fun w => (w.perform cfg f).map phase.withWorld

/-- The thread on which `unfreeze` returns with this step, or `try_unfreeze` or
`timed_unfreeze` returns true. -/
def unfreezeReturns : Phase → PhaseStep → Option ThreadId
  | .ready w, .unfreeze t _ | .ready w, .tryUnfreeze t =>
      -- Frozen on all threads: the call goes to the manager, and does not return here.
      if w.session.frozen t = some true ∧ w.session.unfrozenThreadsCount = 0 then none
      else some t
  | .unfrozen t _, .goOn => some t
  | _, _ => none

end Phase

/-- One step of the sessions and their users. -/
inductive MemoryStep
  | sessions (step : SessionsStep)
  | call (i : ℕ) (f : MemoryCall)

def Sessions.perform (cfg : ManagerConfig) (s : Sessions) : MemoryStep → Option Sessions
  | .sessions step => s.step step
  | .call i f => s.sessions[i]?.bind fun phase =>
      (phase.call cfg f).map fun phase => { s with sessions := s.sessions.set i phase }

section Inversion

variable {cfg : ManagerConfig} {w w' : World} {mmap : ℕ → Option ℕ} {t : ThreadId}
  {sizeofT n p : ℕ}

/-- `allocator<T>::allocate` of nothing returns at once; otherwise the current sub-session
allocates, and it is not frozen on the thread. -/
theorem World.allocatorAllocate_inv (h : w.allocatorAllocate cfg mmap t sizeofT n = .ok (p, w')) :
    w' = w ∨ ∃ x c, (w.current t = some x ∧ (w.subs x).frozen t = some false) ∧
      (w.scope x).allocate cfg mmap (sizeofT * n % 2 ^ 64) = .ok (p, c) ∧ w' = w.put c := by
  by_cases hn : n = 0
  · rw [World.allocatorAllocate, if_pos hn] at h
    cases h
    exact Or.inl rfl
  · cases hcur : w.current t with
    | none =>
        rw [World.allocatorAllocate, if_neg hn] at h
        simp [hcur] at h
    | some x =>
        obtain ⟨hfrozen, -, -, -, -, c, halloc, hput⟩ := World.allocatorAllocate_ok hn hcur h
        exact Or.inr ⟨x, c, ⟨rfl, hfrozen⟩, halloc, hput⟩

theorem World.allocatorDeallocate_inv (h : w.allocatorDeallocate cfg t sizeofT p n = .ok w') :
    w' = w ∨ ∃ x c, w.current t = some x ∧
      (w.scope x).deallocate cfg p (sizeofT * n % 2 ^ 64) = .ok c ∧ w' = w.put c := by
  by_cases hnull : n = 0 ∨ p = 0
  · rw [World.allocatorDeallocate, if_pos hnull] at h
    cases h
    exact Or.inl rfl
  · obtain ⟨hn, hp⟩ := not_or.mp hnull
    exact Or.inr (World.allocatorDeallocate_ok hn hp h)

end Inversion

section Rule

variable {cfg : ManagerConfig} {okFreeze : World → ThreadId → Prop}
  {okCall : World → MemoryCall → Prop}

/-- The ways in which a call changes the world of a session, where a run restricts `freeze`
and the calls on the objects of the session. -/
inductive World.Change (cfg : ManagerConfig) (okFreeze : World → ThreadId → Prop)
    (okCall : World → MemoryCall → Prop) : World → World → Prop
  | begin (w : World) (t : ThreadId) : Change cfg okFreeze okCall w (w.sessionBegin t)
  | freeze {w w' : World} {t : ThreadId} {last : Bool} (hok : okFreeze w t)
      (h : w.sessionFreeze t = .ok (last, w')) : Change cfg okFreeze okCall w w'
  | unfreeze {w w' : World} {t : ThreadId} (hfrozen : w.session.frozen t = some true)
      (hzero : w.session.unfrozenThreadsCount = 0) (h : w.sessionUnfreeze t = .ok w') :
      Change cfg okFreeze okCall w w'
  | call {w w' : World} {f : MemoryCall} (hok : okCall w f) (h : w.perform cfg f = some w') :
      Change cfg okFreeze okCall w w'

/-- The restriction of a run by conditions on the world of the session concerned. -/
def Sessions.Allowed (okFreeze : World → ThreadId → Prop) (okCall : World → MemoryCall → Prop)
    (s : Sessions) : MemoryStep → Prop
  | .sessions (.on i (.freeze t)) => ∀ w, s.sessions[i]? = some (.ready w) → okFreeze w t
  | .call i f => ∀ phase w, s.sessions[i]? = some phase → phase.live? = some w → okCall w f
  | _ => True

/-- The world of the session has the property, and a thread that waits to be unfrozen is
frozen with all others. -/
def Phase.Holds (P : World → Prop) (phase : Phase) : Prop :=
  ∀ w, phase.live? = some w → P w ∧ ∀ t, phase.Awaits t →
    w.session.frozen t = some true ∧ w.session.unfrozenThreadsCount = 0

variable {P : World → Prop} {m m' : Manager} {phase phase' : Phase} {i : ℕ} {what : PhaseStep}
  {w w' : World} {t : ThreadId}

theorem Phase.holds_of_world (hworld : phase.live? = some w) (hP : P w)
    (hawaits : ∀ t, phase.Awaits t →
      w.session.frozen t = some true ∧ w.session.unfrozenThreadsCount = 0) : phase.Holds P := by
  intro w' hw'
  obtain rfl := Option.some.inj (hworld.symm.trans hw')
  exact ⟨hP, hawaits⟩

theorem Phase.holds_ready : (Phase.ready w).Holds P ↔ P w := by
  constructor
  · intro h
    exact (h w rfl).1
  · intro h
    exact Phase.holds_of_world rfl h fun t ht => ht.elim

theorem Phase.holds_of_none (h : phase.live? = none) : phase.Holds P := by
  intro w hw
  rw [h] at hw
  cases hw

/-- A call that asks for the RAM waits for it or has it. -/
theorem Phase.holds_await {r : Resource} {bytes : ℕ} {timed : Bool} (hP : P w)
    (hfrozen : w.session.frozen t = some true) (hzero : w.session.unfrozenThreadsCount = 0)
    (h : Phase.await m r i bytes (.unfreezing t timed w) (.unfrozen t w) = (m', phase')) :
    phase'.Holds P := by
  rcases Phase.await_cases h with ⟨-, rfl, rfl⟩ | ⟨-, rfl⟩
  all_goals
    refine Phase.holds_of_world rfl hP fun t' ht' => ?_
    cases ht'
    exact ⟨hfrozen, hzero⟩

/-- **A step of a session keeps a property** that a new session has and every change keeps. -/
theorem Phase.Holds.step (hconstruct : ∀ start : SessionStart, P start.construct)
    (hchange : ∀ w w', P w → World.Change cfg okFreeze okCall w w' → P w')
    (hfreeze : ∀ t w, what = .freeze t → phase = .ready w → okFreeze w t)
    (h : phase.Holds P) (hstep : phase.step m i what = some (m', phase')) : phase'.Holds P := by
  cases Phase.moves_of_step hstep with
  | awaitTotal hawait =>
      rcases Phase.await_cases hawait with ⟨-, -, rfl⟩ | ⟨-, rfl⟩
      · exact Phase.holds_of_none rfl
      · exact Phase.holds_of_none rfl
  | refuseRam hask => exact Phase.holds_of_none rfl
  | askRam hask hawait | awaitRam hawait =>
      rcases Phase.await_cases hawait with ⟨-, -, rfl⟩ | ⟨-, rfl⟩
      · exact Phase.holds_of_none rfl
      · exact Phase.holds_ready.mpr (hconstruct _)
  | begin w t => exact Phase.holds_ready.mpr (hchange w _ (Phase.holds_ready.mp h) (.begin w t))
  | freezeLast hok =>
      -- The last thread: the call is about to free the RAM.
      have hP := hchange _ _ (Phase.holds_ready.mp h) (.freeze (hfreeze _ _ rfl rfl) hok)
      exact Phase.holds_of_world rfl hP fun t ht => ht.elim
  | freeze hok =>
      have hP := hchange _ _ (Phase.holds_ready.mp h) (.freeze (hfreeze _ _ rfl rfl) hok)
      exact Phase.holds_ready.mpr hP
  | giveRam w => exact Phase.holds_ready.mpr (h w rfl).1
  | unfreezeStays timed hbegun => exact h
  | unfreezeAsks hfrozen hzero hask hawait =>
      exact Phase.holds_await (Phase.holds_ready.mp h) hfrozen hzero hawait
  | awaitUnfreeze hawait =>
      obtain ⟨hw, hwait⟩ := h _ rfl
      obtain ⟨hfrozen, hzero⟩ := hwait _ rfl
      exact Phase.holds_await hw hfrozen hzero hawait
  | timeOut t w => exact Phase.holds_ready.mpr (h w rfl).1
  | tryStays hbegun => exact h
  | tryGets hfrozen hzero htry =>
      refine Phase.holds_of_world rfl (Phase.holds_ready.mp h) fun t' ht' => ?_
      cases ht'
      exact ⟨hfrozen, hzero⟩
  | unfreeze hok =>
      obtain ⟨hw, hwait⟩ := h _ rfl
      obtain ⟨hfrozen, hzero⟩ := hwait _ rfl
      exact Phase.holds_ready.mpr (hchange _ _ hw (.unfreeze hfrozen hzero hok))
  | destroy w => exact Phase.holds_of_none rfl
  | destroyed w => exact Phase.holds_of_none rfl

/-- What a call on an object of the session does to the flags of the session: nothing. -/
theorem World.perform_flags {f : MemoryCall} (h : w.perform cfg f = some w') :
    w'.session.frozen = w.session.frozen ∧
      w'.session.unfrozenThreadsCount = w.session.unfrozenThreadsCount := by
  cases f with
  | subConstruct x =>
      simp only [World.perform] at h
      split_ifs at h
      cases h
      exact ⟨rfl, rfl⟩
  | subBegin t x =>
      simp only [World.perform] at h
      split_ifs at h
      cases h
      rw [World.subBegin_session]
      exact ⟨rfl, rfl⟩
  | subFreeze t x =>
      simp only [World.perform] at h
      split_ifs at h
      have hterms := (World.subFreeze_reflags (toOption_eq_some.mp h)).terms
      exact ⟨hterms.frozen, hterms.count⟩
  | subUnfreeze t x =>
      simp only [World.perform] at h
      split_ifs at h
      obtain ⟨answer, hok⟩ := map_snd_eq_ok.mp (toOption_eq_some.mp h)
      have hterms := (World.subUnfreeze_reflags hok).terms
      exact ⟨hterms.frozen, hterms.count⟩
  | allocate mmap t sizeofT n =>
      obtain ⟨p, hok⟩ := map_snd_eq_ok.mp (toOption_eq_some.mp h)
      obtain rfl | ⟨x, c, -, halloc, rfl⟩ := World.allocatorAllocate_inv hok
      · exact ⟨rfl, rfl⟩
      · rcases Scope.allocate_effect halloc with ⟨-, hkept⟩ | ⟨bytes, -, -, hadded⟩
        · simp only [World.put, hkept.parent, World.scope_parent, and_self]
        · simp only [World.put, hadded.parent, World.scope_parent, and_self]
  | deallocate t sizeofT p n =>
      obtain rfl | ⟨x, c, -, hfree, rfl⟩ := World.allocatorDeallocate_inv (toOption_eq_some.mp h)
      · exact ⟨rfl, rfl⟩
      · rcases Scope.deallocate_effect hfree with ⟨-, hkept⟩ | ⟨-, r, pages, hdropped⟩
        · simp only [World.put, hkept.parent, World.scope_parent, and_self]
        · simp only [World.put, hdropped.parent, World.scope_parent, and_self]

/-- A call on an object of the session leaves those who wait as they are. -/
theorem Phase.Holds.performed {f : MemoryCall} (h : phase.Holds P) (hworld : phase.live? = some w)
    (hperform : w.perform cfg f = some w') (hP : P w') (hworld' : phase'.live? = some w')
    (hawaits : ∀ t, phase'.Awaits t → phase.Awaits t) : phase'.Holds P := by
  obtain ⟨hfrozen, hcount⟩ := World.perform_flags hperform
  refine Phase.holds_of_world hworld' hP fun t ht => ?_
  rw [hfrozen, hcount]
  exact (h w hworld).2 t (hawaits t ht)

/-- **A call on an object of the session keeps a property** that every change keeps. -/
theorem Phase.Holds.call (hchange : ∀ w w', P w → World.Change cfg okFreeze okCall w w' → P w')
    {f : MemoryCall} (hcall : ∀ w, phase.live? = some w → okCall w f)
    (h : phase.Holds P) (hstep : phase.call cfg f = some phase') : phase'.Holds P := by
  cases phase with
  | ready w =>
      obtain ⟨w', hw', rfl⟩ := Option.map_eq_some_iff.mp hstep
      exact Phase.holds_ready.mpr
        (hchange w w' (Phase.holds_ready.mp h) (.call (hcall w rfl) hw'))
  | freezing w | unfreezing t timed w | unfrozen t w =>
      simp only [Phase.call] at hstep
      split_ifs at hstep
      obtain ⟨w', hw', rfl⟩ := Option.map_eq_some_iff.mp hstep
      have hP := hchange w _ (h w rfl).1 (.call (hcall w rfl) hw')
      exact h.performed rfl hw' hP rfl fun _ ht => ht
  | _ =>
      simp only [Phase.call, Phase.live?, Option.bind_none] at hstep
      split_ifs at hstep

/-- **A property of the worlds of all sessions.**  It holds in every run if a new session has
it and every change of a world keeps it. -/
theorem Sessions.holds (hconstruct : ∀ start : SessionStart, P start.construct)
    (hchange : ∀ w w', P w → World.Change cfg okFreeze okCall w w' → P w')
    {ramLimitBytes totalLimitBytes : ℕ} {actions : List MemoryStep} {s : Sessions}
    (hrun : Run (Sessions.perform cfg) (Sessions.Allowed okFreeze okCall)
      (Sessions.initial ramLimitBytes totalLimitBytes) actions s) :
    ∀ phase ∈ s.sessions, phase.Holds P := by
  refine hrun.invariant (P := fun _ s => ∀ phase ∈ s.sessions, phase.Holds P) ?_ ?_
  · intro phase hphase
    simp [Sessions.initial] at hphase
  · intro actions s s' action h hallowed hstep
    cases action with
    | sessions step =>
        cases step with
        | construct start =>
            simp only [Sessions.perform, Sessions.step] at hstep
            split at hstep
            · cases hstep
              exact h
            · cases hstep
              intro phase hphase
              rcases List.mem_append.mp hphase with hold | hnew
              · exact h phase hold
              · obtain rfl := List.mem_singleton.mp hnew
                rcases Phase.await_cases (Prod.mk.eta (p := Phase.await _ _ _ _ _ _)).symm
                  with ⟨-, -, hphase⟩ | ⟨-, hphase⟩
                · rw [hphase]
                  exact Phase.holds_of_none rfl
                · rw [hphase]
                  exact Phase.holds_of_none rfl
        | on i what =>
            obtain ⟨phase, hget, hmap⟩ := Option.bind_eq_some_iff.mp hstep
            obtain ⟨⟨m', phase'⟩, hphase', rfl⟩ := Option.map_eq_some_iff.mp hmap
            have hnew : phase'.Holds P := by
              refine (h phase (List.mem_of_getElem? hget)).step hconstruct hchange ?_ hphase'
              rintro t w rfl rfl
              exact hallowed w hget
            intro other hother
            rcases List.mem_or_eq_of_mem_set hother with hold | rfl
            · exact h other hold
            · exact hnew
    | call i f =>
        obtain ⟨phase, hget, hmap⟩ := Option.bind_eq_some_iff.mp hstep
        obtain ⟨phase', hphase', rfl⟩ := Option.map_eq_some_iff.mp hmap
        have hnew : phase'.Holds P :=
          (h phase (List.mem_of_getElem? hget)).call hchange (fun w => hallowed phase w hget) hphase'
        intro other hother
        rcases List.mem_or_eq_of_mem_set hother with hold | rfl
        · exact h other hold
        · exact hnew

end Rule

section Counts

variable {cfg : ManagerConfig} {w w' : World} {t : ThreadId} {x : SubSessionId}

/-- The counts of the session and of all its sub-sessions are right. -/
structure World.ThreadsCounted (w : World) : Prop where
  session : Counts w.session.frozen w.session.unfrozenThreadsCount
  subs : ∀ x, (w.subs x).ThreadsCounted

/-- One sub-session is replaced by another that is counted. -/
theorem World.subsCounted_update (h : ∀ y, (w.subs y).ThreadsCounted) {s : MemorySubSession}
    (hs : s.ThreadsCounted) : ∀ y, (Function.update w.subs x s y).ThreadsCounted := by
  intro y
  rcases eq_or_ne y x with rfl | hne
  · rw [Function.update_self]
    exact hs
  · rw [Function.update_of_ne hne]
    exact h y

theorem World.subsCounted_begin (h : ∀ y, (w.subs y).ThreadsCounted) :
    ∀ y, ((w.subBegin t x).subs y).ThreadsCounted := by
  cases ht : (w.subs x).frozen t with
  | some flag =>
      rw [World.subBegin_again ht]
      exact h
  | none =>
      rw [World.subBegin_new ht]
      exact World.subsCounted_update h ((h x).new ht)

theorem World.Reflags.subsCounted (hreflags : w.Reflags t x w')
    (h : ∀ y, (w.subs y).ThreadsCounted) : ∀ y, (w'.subs y).ThreadsCounted := by
  cases hreflags with
  | same => exact h
  | flip hflag ram => exact World.subsCounted_update h ((h x).flip hflag)

theorem World.subsCounted_freezeEach {l : List SubSessionId} (h : ∀ y, (w.subs y).ThreadsCounted)
    (hok : World.freezeEach t l w = .ok w') : ∀ y, (w'.subs y).ThreadsCounted := by
  induction l generalizing w with
  | nil =>
      cases hok
      exact h
  | cons x rest ih =>
      obtain ⟨w₁, hfirst, hrest⟩ := ok_of_bind hok
      exact ih ((World.subFreeze_reflags hfirst).subsCounted h) hrest

theorem World.ThreadsCounted.begin (h : w.ThreadsCounted) : (w.sessionBegin t).ThreadsCounted := by
  constructor
  · cases ht : w.session.frozen t with
    | some flag =>
        rw [World.sessionBegin_again ht]
        exact h.session
    | none =>
        obtain ⟨hfrozen, hcount, -, -⟩ := World.sessionBegin_new ht
        rw [hfrozen, hcount]
        exact h.session.new ht
  · refine World.subsCounted_begin ?_
    exact h.subs

theorem World.ThreadsCounted.freeze {last : Bool} (h : w.ThreadsCounted)
    (hok : w.sessionFreeze t = .ok (last, w')) : w'.ThreadsCounted := by
  constructor
  · rcases World.sessionFreeze_ok hok with ⟨-, -, rfl⟩ | ⟨hfrozen, hflags, hcount, -⟩
    · exact h.session
    · rw [hflags, hcount]
      exact h.session.flip hfrozen
  · unfold World.sessionFreeze at hok
    dsimp only at hok
    split at hok
    · cases hok
    · cases hok
      exact h.subs
    · split_ifs at hok
      · obtain ⟨w₁, heach, hdone⟩ := ok_of_bind hok
        cases hdone
        refine World.subsCounted_freezeEach ?_ heach
        exact h.subs
      · cases hok
        exact h.subs

theorem World.ThreadsCounted.unfreeze (h : w.ThreadsCounted)
    (hfrozen : w.session.frozen t = some true) (hok : w.sessionUnfreeze t = .ok w') :
    w'.ThreadsCounted := by
  constructor
  · obtain ⟨hflags, hcount, -, -⟩ := World.sessionUnfreeze_ok hok
    rw [hflags, hcount]
    exact h.session.flip hfrozen
  · obtain ⟨⟨answer, w₁⟩, hsub, hdone⟩ := ok_of_bind hok
    dsimp only at hdone
    split_ifs at hdone
    cases hdone
    exact (World.subUnfreeze_reflags hsub).subsCounted h.subs

/-- A call of the allocator leaves all flags and counts of the sub-sessions alone. -/
theorem World.subsCounted_put {c : Scope} (h : ∀ y, (w.subs y).ThreadsCounted)
    (hthis : c.this = x) (hfrozen : c.self.frozen = (w.subs x).frozen)
    (hcount : c.self.unfrozenThreadsCount = (w.subs x).unfrozenThreadsCount) :
    ∀ y, ((w.put c).subs y).ThreadsCounted := by
  rw [World.put, hthis]
  exact World.subsCounted_update h ((h x).congr hfrozen hcount)

theorem World.ThreadsCounted.perform {f : MemoryCall} (h : w.ThreadsCounted)
    (hok : w.perform cfg f = some w') : w'.ThreadsCounted := by
  constructor
  · obtain ⟨hfrozen, hcount⟩ := World.perform_flags hok
    rw [hfrozen, hcount]
    exact h.session
  cases f with
  | subConstruct x =>
      simp only [World.perform] at hok
      split_ifs at hok
      cases hok
      exact World.subsCounted_update h.subs (Or.inl ⟨rfl, fun _ => rfl⟩)
  | subBegin t x =>
      simp only [World.perform] at hok
      split_ifs at hok
      cases hok
      exact World.subsCounted_begin h.subs
  | subFreeze t x =>
      simp only [World.perform] at hok
      split_ifs at hok
      exact (World.subFreeze_reflags (toOption_eq_some.mp hok)).subsCounted h.subs
  | subUnfreeze t x =>
      simp only [World.perform] at hok
      split_ifs at hok
      obtain ⟨answer, hok⟩ := map_snd_eq_ok.mp (toOption_eq_some.mp hok)
      exact (World.subUnfreeze_reflags hok).subsCounted h.subs
  | allocate mmap t sizeofT n =>
      obtain ⟨p, hok⟩ := map_snd_eq_ok.mp (toOption_eq_some.mp hok)
      obtain rfl | ⟨x, c, -, halloc, rfl⟩ := World.allocatorAllocate_inv hok
      · exact h.subs
      · rcases Scope.allocate_effect halloc with ⟨-, hkept⟩ | ⟨bytes, -, -, hadded⟩
        · exact World.subsCounted_put h.subs hkept.this hkept.frozen hkept.unfrozenThreadsCount
        · exact World.subsCounted_put h.subs hadded.this hadded.frozen hadded.unfrozenThreadsCount
  | deallocate t sizeofT p n =>
      obtain rfl | ⟨x, c, -, hfree, rfl⟩ := World.allocatorDeallocate_inv (toOption_eq_some.mp hok)
      · exact h.subs
      · rcases Scope.deallocate_effect hfree with ⟨-, hkept⟩ | ⟨-, r, pages, hdropped⟩
        · exact World.subsCounted_put h.subs hkept.this hkept.frozen hkept.unfrozenThreadsCount
        · exact World.subsCounted_put h.subs hdropped.this hdropped.frozen
            hdropped.unfrozenThreadsCount

theorem SessionStart.world_counted (start : SessionStart) : start.world.ThreadsCounted :=
  ⟨Or.inl ⟨rfl, fun _ => rfl⟩, fun _ => Or.inl ⟨rfl, fun _ => rfl⟩⟩

theorem SessionStart.construct_counted (start : SessionStart) :
    start.construct.ThreadsCounted := by
  unfold SessionStart.construct
  split
  · exact start.world_counted.begin
  · exact start.world_counted

/-- **Every change keeps the counts right.** -/
theorem World.ThreadsCounted.change {okFreeze : World → ThreadId → Prop}
    {okCall : World → MemoryCall → Prop} (h : w.ThreadsCounted)
    (hchange : World.Change cfg okFreeze okCall w w') : w'.ThreadsCounted := by
  cases hchange with
  | begin t => exact h.begin
  | freeze hok hstep => exact h.freeze hstep
  | unfreeze hfrozen hzero hstep => exact h.unfreeze hfrozen hstep
  | call hok hstep => exact h.perform hstep

end Counts

section Unfreeze

variable {w w' : World} {t : ThreadId} {x : SubSessionId} {m m' : Manager} {i : ℕ}
  {phase phase' : Phase} {what : PhaseStep}

/-- An `unfreeze` of the session that returns with this step has cleared the flag exactly
if it was cleared before, or no other thread was unfrozen. -/
theorem Phase.unfreezeReturns_iff {P : World → Prop} (h : phase.Holds P)
    (hstep : phase.step m i what = some (m', phase')) (hreturns : phase.unfreezeReturns what = some t) :
    ∃ w w', phase.live? = some w ∧ phase'.live? = some w' ∧
      (w'.session.frozen t = some false ↔
        w.session.frozen t = some false ∨ w.session.unfrozenThreadsCount = 0) := by
  -- A call that returns from a session between two calls has changed nothing.
  have hstays : ∀ w : World, w.session.frozen t ≠ none →
      ¬ (w.session.frozen t = some true ∧ w.session.unfrozenThreadsCount = 0) →
      (w.session.frozen t = some false ↔
        w.session.frozen t = some false ∨ w.session.unfrozenThreadsCount = 0) := by
    intro w hbegun hnot
    obtain ⟨flag, hflag⟩ := Option.ne_none_iff_exists'.mp hbegun
    cases flag with
    | false => simp [hflag]
    | true => simpa [hflag] using hnot
  cases Phase.moves_of_step hstep with
  | unfreezeStays timed hbegun | tryStays hbegun =>
      simp only [Phase.unfreezeReturns] at hreturns
      split_ifs at hreturns with hasks
      cases hreturns
      exact ⟨_, _, rfl, rfl, hstays _ hbegun hasks⟩
  | unfreezeAsks hfrozen hzero _ _ | tryGets hfrozen hzero _ =>
      -- These go on with the RAM and do not return yet.
      simp [Phase.unfreezeReturns, hfrozen, hzero] at hreturns
  | unfreeze hok =>
      cases hreturns
      obtain ⟨-, hzero⟩ := (h _ rfl).2 t rfl
      refine ⟨_, _, rfl, rfl, iff_of_true ?_ (Or.inr hzero)⟩
      rw [(World.sessionUnfreeze_ok hok).1, Function.update_self]
  | _ => cases hreturns

/-- The same for `memory_sub_session::unfreeze` that answers true. -/
theorem World.subUnfreeze_iff (hok : w.subUnfreeze t x = .ok (true, w')) :
    (w'.subs x).frozen t = some false ↔
      (w.subs x).frozen t = some false ∨ (w.subs x).unfrozenThreadsCount = 0 := by
  rcases World.subUnfreeze_ok hok with ⟨hflag, -, rfl⟩ | ⟨hflag, hzero, -, rfl⟩ |
    ⟨-, -, hanswer, -⟩ | ⟨hflag, hzero, -, rfl⟩
  · simp [hflag]
  · simp [hflag, hzero]
  · cases hanswer
  · simp [World.reflag, hzero]

end Unfreeze

/-- **When a successful unfreeze unfreezes.**  In every state of every run the counts of the
session and of its sub-sessions are right, and a call of `unfreeze`, `try_unfreeze` or
`timed_unfreeze` that succeeds has left its thread unfrozen exactly if it found it unfrozen, or
found no thread unfrozen. -/
theorem unfreeze_unfreezes_iff (cfg : ManagerConfig) (ramLimitBytes totalLimitBytes : ℕ)
    {actions : List MemoryStep} {s : Sessions}
    (hrun : Run (Sessions.perform cfg) anyAction
      (Sessions.initial ramLimitBytes totalLimitBytes) actions s) :
    (∀ phase ∈ s.sessions, ∀ w, phase.live? = some w → w.ThreadsCounted) ∧
    (∀ (i : ℕ) (phase : Phase) (what : PhaseStep) (m' : Manager) (phase' : Phase) (t : ThreadId),
      s.sessions[i]? = some phase →
      phase.step s.manager i what = some (m', phase') → phase.unfreezeReturns what = some t →
      ∃ w w', phase.live? = some w ∧ phase'.live? = some w' ∧
        (w'.session.frozen t = some false ↔
          w.session.frozen t = some false ∨ w.session.unfrozenThreadsCount = 0)) ∧
    (∀ phase ∈ s.sessions, ∀ w, phase.live? = some w → ∀ t x w',
      w.subUnfreeze t x = .ok (true, w') →
      ((w'.subs x).frozen t = some false ↔
        (w.subs x).frozen t = some false ∨ (w.subs x).unfrozenThreadsCount = 0)) := by
  have hfree : Run (Sessions.perform cfg) (Sessions.Allowed (fun _ _ => True) (fun _ _ => True))
      (Sessions.initial ramLimitBytes totalLimitBytes) actions s := by
    refine hrun.mono fun s action _ => ?_
    unfold Sessions.Allowed
    split
    · exact fun _ _ => trivial
    · exact fun _ _ _ _ => trivial
    · trivial
  have hholds := Sessions.holds (P := World.ThreadsCounted) SessionStart.construct_counted
    (fun w w' h hchange => h.change hchange) hfree
  refine ⟨fun phase hphase w hw => (hholds phase hphase w hw).1, ?_, ?_⟩
  · intro i phase what m' phase' t hget hstep hreturns
    exact Phase.unfreezeReturns_iff (hholds phase (List.mem_of_getElem? hget)) hstep hreturns
  · intro phase hphase w hw t x w' hok
    exact World.subUnfreeze_iff hok

/-- A session that thread 0 starts, that thread 1 begins too and freezes for itself. -/
def frozenBesideOther : List MemoryStep :=
  [.sessions (.construct ⟨65536, 65536, some 0⟩), .sessions (.on 0 .goOn),
    .sessions (.on 0 (.begin 1)), .sessions (.on 0 (.freeze 1))]

theorem frozenBesideOther_run :
    ∃ (s : Sessions) (w : World), Run (Sessions.perform onePageArenas) anyAction
        (Sessions.initial (2 ^ 20) (2 ^ 20)) frozenBesideOther s ∧
      s.sessions[0]? = some (.ready w) ∧ w.session.frozen 1 = some true ∧
      w.session.unfrozenThreadsCount = 1 := by
  refine ⟨_, _, Run.start.performAll frozenBesideOther rfl, rfl, rfl, rfl⟩

/-- `unfreeze` on thread 1 returns at once because thread 0 is unfrozen, and thread 1 stays
frozen. -/
theorem unfreeze_leaves_frozen :
    ∃ actions s phase m' phase' w', Run (Sessions.perform onePageArenas) anyAction
        (Sessions.initial (2 ^ 20) (2 ^ 20)) actions s ∧
      s.sessions[0]? = some phase ∧
      phase.step s.manager 0 (.unfreeze 1 false) = some (m', phase') ∧
      phase.unfreezeReturns (.unfreeze 1 false) = some 1 ∧
      phase'.live? = some w' ∧ w'.session.frozen 1 ≠ some false := by
  obtain ⟨s, w, hrun, hget, htrue, hone⟩ := frozenBesideOther_run
  refine ⟨_, s, _, s.manager, .ready w, w, hrun, hget, ?_, ?_, rfl, ?_⟩
  · simp [Phase.step, Phase.whenFrozen, htrue, hone]
  · simp [Phase.unfreezeReturns, hone]
  · simp [htrue]

/-- The counts are right in that state, and one thread is unfrozen. -/
theorem unfreeze_unfreezes_iff_besideOther :
    ∃ (s : Sessions) (w : World), s.sessions[0]? = some (Phase.ready w) ∧ w.ThreadsCounted ∧
      w.session.unfrozenThreadsCount = 1 := by
  obtain ⟨s, w, hrun, hget, -, hone⟩ := frozenBesideOther_run
  obtain ⟨hcounted, -, -⟩ := unfreeze_unfreezes_iff onePageArenas (2 ^ 20) (2 ^ 20) hrun
  exact ⟨s, w, hget, hcounted _ (List.mem_of_getElem? hget) w rfl, hone⟩

end MemoryManager
end CoherentDB
