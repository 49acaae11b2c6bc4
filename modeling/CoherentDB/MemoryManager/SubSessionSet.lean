import CoherentDB.MemoryManager.FreezeCalls

/-!
# The sub-sessions that `memory_session::freeze` visits

The constructor of a sub-session enters it into `sub_sessions` of its parent, on
whatever thread it runs, and with autostart begins it there.  The destructor leaves the
set alone.  `freeze` of the session, on the thread that freezes it last, calls `freeze`
of everything in the set; that call asserts that the thread has begun the sub-session.

`Registry` is a session with the sub-session objects that exist at the moment.  An
address whose object was destroyed may be used for a new one.  `History` tells from the
calls of a run alone which addresses were entered, which hold an object and which
threads have begun it; `freeze_safe_iff` decides by it whether a call of `freeze` is
safe.
-/

namespace CoherentDB
namespace MemoryManager

open Debug Containers Runs

/-- A session with the addresses that hold a sub-session: those constructed and not
destroyed. -/
structure Registry where
  world : World
  alive : Finset SubSessionId

/-- The calls on a session and its sub-sessions. -/
inductive RegistryCall
  | sessionBegin (t : ThreadId)
  | sessionFreeze (t : ThreadId)
  /-- One of the three ways to unfreeze the session, and whether it gets the RAM. -/
  | sessionUnfreeze (t : ThreadId) (granted : Bool)
  | construct (t : ThreadId) (x : SubSessionId) (autostart : Bool)
  | destroy (t : ThreadId) (x : SubSessionId)
  | begin (t : ThreadId) (x : SubSessionId)
  | freeze (t : ThreadId) (x : SubSessionId)
  | unfreeze (t : ThreadId) (x : SubSessionId)
  deriving DecidableEq

namespace World

variable (w : World)

/-- The constructor of a sub-session at `x`. -/
def subConstruct (t : ThreadId) (x : SubSessionId) (autostart : Bool) : World :=
  let w := { w with
    session := { w.session with subSessions := insert x w.session.subSessions }
    subs := Function.update w.subs x MemorySubSession.initial }
  if autostart then w.subBegin t x else w

/-- `freeze` on this thread freezes the session completely. -/
def FreezesLast (t : ThreadId) : Prop :=
  w.session.frozen t = some false ∧ w.session.unfrozenThreadsCount = 1

instance (t : ThreadId) : Decidable (w.FreezesLast t) := inferInstanceAs (Decidable (_ ∧ _))

/-- The sub-sessions that a call of `memory_session::freeze` visits. -/
def freezeVisits (t : ThreadId) : Finset SubSessionId :=
  if w.FreezesLast t then w.session.subSessions else ∅

end World

namespace Registry

/-- A session as its constructor leaves it. -/
def new (start : SessionStart) : Registry := ⟨start.construct, {0}⟩

variable (s : Registry)

/-- One call.  Only an object that exists is called, the default sub-session is private to
the session, and a call that fails an assertion or visits a destroyed object is none. -/
def step : RegistryCall → Option Registry
  | .sessionBegin t => some { s with world := s.world.sessionBegin t }
  | .sessionFreeze t =>
      if s.world.freezeVisits t ⊆ s.alive then
        ((s.world.sessionFreeze t).map Prod.snd).toOption.map fun w => { s with world := w }
      else none
  | .sessionUnfreeze t granted =>
      match s.world.session.frozen t with
      | none => none
      | some false => some s
      | some true =>
          if s.world.session.unfrozenThreadsCount = 0 ∧ granted = true then
            (s.world.sessionUnfreeze t).toOption.map fun w => { s with world := w }
          else some s
  | .construct t x autostart =>
      if x ∈ s.alive then none
      else some ⟨s.world.subConstruct t x autostart, insert x s.alive⟩
  | .destroy t x =>
      if x ∈ s.alive ∧ x ≠ s.world.session.defaultSubSession then
        -- The destructor ends the use of the object and does not take it from the set.
        some ⟨s.world.subEnd t x, s.alive.erase x⟩
      else none
  | .begin t x => if x ∈ s.alive then some { s with world := s.world.subBegin t x } else none
  | .freeze t x =>
      if x ∈ s.alive then (s.world.subFreeze t x).toOption.map fun w => { s with world := w }
      else none
  | .unfreeze t x =>
      if x ∈ s.alive then
        ((s.world.subUnfreeze t x).map Prod.snd).toOption.map fun w => { s with world := w }
      else none

/-- A call of `memory_session::freeze` on this thread visits only objects that exist and that
the thread has begun, and no assertion fails. -/
structure FreezeSafe (t : ThreadId) : Prop where
  alive : ∀ x ∈ s.world.freezeVisits t, x ∈ s.alive
  flagged : ∀ x ∈ s.world.freezeVisits t, (s.world.subs x).frozen t ≠ none
  returns : ∃ last w', s.world.sessionFreeze t = .ok (last, w')

end Registry

/-- What the calls of a run tell: the addresses entered so far, those that hold an object, and
the threads that have begun it. -/
structure History where
  entered : Finset SubSessionId
  alive : Finset SubSessionId
  begun : Finset (ThreadId × SubSessionId)
  deriving DecidableEq

namespace History

def new (start : SessionStart) : History where
  entered := {0}
  alive := {0}
  begun := match start.autostart with
    | some t => {(t, 0)}
    | none => ∅

def after (h : History) : RegistryCall → History
  | .sessionBegin t => { h with begun := insert (t, 0) h.begun }
  | .construct t x autostart =>
      -- Nobody has begun the new object but, with autostart, the thread that made it.
      let begun := h.begun.filter fun entry => entry.2 ≠ x
      { entered := insert x h.entered
        alive := insert x h.alive
        begun := if autostart then insert (t, x) begun else begun }
  | .destroy _ x => { h with alive := h.alive.erase x }
  | .begin t x => { h with begun := insert (t, x) h.begun }
  | .sessionFreeze _ | .sessionUnfreeze _ _ | .freeze _ _ | .unfreeze _ _ => h

/-- The history of a run. -/
def of (start : SessionStart) (calls : List RegistryCall) : History :=
  calls.foldl after (new start)

end History

section Flags

/-- The same threads have a flag for the same sub-sessions, and the set is the same. -/
structure World.SameFlags (w w' : World) : Prop where
  flags : ∀ x t, (w'.subs x).frozen t = none ↔ (w.subs x).frozen t = none
  entered : w'.session.subSessions = w.session.subSessions
  default : w'.session.defaultSubSession = w.session.defaultSubSession

theorem World.SameFlags.refl (w : World) : w.SameFlags w := ⟨fun _ _ => Iff.rfl, rfl, rfl⟩

theorem World.SameFlags.trans {w₁ w₂ w₃ : World} (h : w₁.SameFlags w₂) (h' : w₂.SameFlags w₃) :
    w₁.SameFlags w₃ :=
  ⟨fun x t => (h'.flags x t).trans (h.flags x t), h'.entered.trans h.entered,
    h'.default.trans h.default⟩

variable {w w' : World} {t : ThreadId} {x : SubSessionId}

/-- Only a flag that is there is changed. -/
theorem World.Reflags.sameFlags (h : w.Reflags t x w') : w.SameFlags w' := by
  cases h with
  | same => exact .refl w
  | flip hflag ram =>
      refine ⟨fun y t' => ?_, rfl, rfl⟩
      unfold World.reflag
      dsimp only
      rcases eq_or_ne y x with rfl | hne
      · rw [Function.update_self]
        dsimp only
        rcases eq_or_ne t' t with rfl | hother
        · rw [Function.update_self, hflag]
          exact iff_of_false (by simp) (by simp)
        · rw [Function.update_of_ne hother]
      · rw [Function.update_of_ne hne]

/-- `freeze` of a sub-session fails exactly on a thread that has not begun it. -/
theorem World.subFreeze_ok_iff : (∃ w', w.subFreeze t x = .ok w') ↔ (w.subs x).frozen t ≠ none := by
  unfold World.subFreeze
  dsimp only
  split
  · next hflag => simp [hflag]
  · next hflag => simp [hflag]
  · next hflag => simp [hflag]

theorem World.freezeEach_sameFlags {l : List SubSessionId} (h : World.freezeEach t l w = .ok w') :
    w.SameFlags w' := by
  induction l generalizing w with
  | nil =>
      cases h
      exact .refl _
  | cons x rest ih =>
      obtain ⟨w₁, hfirst, hrest⟩ := ok_of_bind h
      exact (World.subFreeze_reflags hfirst).sameFlags.trans (ih hrest)

/-- The walk over the set comes to its end exactly when the thread has begun all of it. -/
theorem World.freezeEach_ok_iff {l : List SubSessionId} :
    (∃ w', World.freezeEach t l w = .ok w') ↔ ∀ x ∈ l, (w.subs x).frozen t ≠ none := by
  induction l generalizing w with
  | nil => simp [World.freezeEach]
  | cons x rest ih =>
      rw [List.forall_mem_cons, ← World.subFreeze_ok_iff]
      constructor
      · rintro ⟨w', h⟩
        obtain ⟨w₁, hfirst, hrest⟩ := ok_of_bind h
        refine ⟨⟨w₁, hfirst⟩, fun y hy => ?_⟩
        have hflag := ih.mp ⟨w', hrest⟩ y hy
        rwa [Ne, (World.subFreeze_reflags hfirst).sameFlags.flags] at hflag
      · rintro ⟨⟨w₁, hfirst⟩, hrest⟩
        obtain ⟨w', h⟩ := ih.mpr fun y hy => by
          rw [Ne, (World.subFreeze_reflags hfirst).sameFlags.flags]
          exact hrest y hy
        refine ⟨w', ?_⟩
        rw [World.freezeEach, hfirst, ok_bind]
        exact h

theorem World.freezeVisits_of (h : w.FreezesLast t) : w.freezeVisits t = w.session.subSessions :=
  if_pos h

theorem World.freezeVisits_of_not (h : ¬ w.FreezesLast t) : w.freezeVisits t = ∅ := if_neg h

/-- **`freeze` of a session that the thread has begun returns exactly when the thread has begun
every sub-session it visits.** -/
theorem World.sessionFreeze_ok_iff (ht : w.session.frozen t ≠ none) :
    (∃ last w', w.sessionFreeze t = .ok (last, w')) ↔
      ∀ x ∈ w.freezeVisits t, (w.subs x).frozen t ≠ none := by
  unfold World.sessionFreeze
  dsimp only
  split
  · next hnone => exact absurd hnone ht
  · next hflag =>
    rw [World.freezeVisits_of_not (fun hlast => by cases hflag.symm.trans hlast.1)]
    simp
  · next hflag =>
    by_cases hlast : w.session.unfrozenThreadsCount = 1
    · rw [World.freezeVisits_of ⟨hflag, hlast⟩, if_pos (by omega)]
      constructor
      · rintro ⟨last, w', h⟩ x hx
        obtain ⟨w₁, heach, -⟩ := ok_of_bind h
        exact World.freezeEach_ok_iff.mp ⟨w₁, heach⟩ x ((Finset.mem_sort _).mpr hx)
      · intro hall
        obtain ⟨w', heach⟩ := World.freezeEach_ok_iff
          (w := { w with session := { w.session with
            frozen := Function.update w.session.frozen t (some true)
            unfrozenThreadsCount := w.session.unfrozenThreadsCount - 1 } }).mpr
          fun x hx => hall x ((Finset.mem_sort (· ≤ ·)).mp hx)
        refine ⟨true, w', ?_⟩
        rw [heach, ok_bind]
        rfl
    · rw [World.freezeVisits_of_not (fun h => hlast h.2), if_neg (by omega)]
      simp

theorem World.sessionFreeze_sameFlags {last : Bool} (h : w.sessionFreeze t = .ok (last, w')) :
    w.SameFlags w' := by
  unfold World.sessionFreeze at h
  dsimp only at h
  split at h
  · cases h
  · cases h
    exact .refl _
  · split_ifs at h
    · obtain ⟨w₁, heach, hdone⟩ := ok_of_bind h
      cases hdone
      obtain ⟨hflags, hentered, hdefault⟩ := World.freezeEach_sameFlags heach
      exact ⟨hflags, hentered, hdefault⟩
    · cases h
      exact ⟨fun _ _ => Iff.rfl, rfl, rfl⟩

theorem World.sessionUnfreeze_sameFlags (h : w.sessionUnfreeze t = .ok w') : w.SameFlags w' := by
  obtain ⟨⟨answer, w₁⟩, hsub, hdone⟩ := ok_of_bind h
  obtain ⟨hflags, hentered, hdefault⟩ := (World.subUnfreeze_reflags hsub).sameFlags
  dsimp only at hdone
  split_ifs at hdone
  cases hdone
  exact ⟨hflags, hentered, hdefault⟩

/-- `begin` gives the thread a flag for the sub-session. -/
theorem World.subBegin_flags (y : SubSessionId) (t' : ThreadId) :
    ((w.subBegin t x).subs y).frozen t' ≠ none ↔
      (w.subs y).frozen t' ≠ none ∨ (t', y) = (t, x) := by
  cases ht : (w.subs x).frozen t with
  | some flag =>
      rw [World.subBegin_again ht, World.activate]
      refine ⟨Or.inl, ?_⟩
      rintro (h | heq)
      · exact h
      · cases heq
        simp [ht]
  | none =>
      rw [World.subBegin_new ht, World.reflag, World.activate]
      dsimp only
      rcases eq_or_ne y x with rfl | hne
      · rw [Function.update_self]
        rcases eq_or_ne t' t with rfl | hother
        · simp
        · simp [hother]
      · rw [Function.update_of_ne hne]
        simp [hne]

end Flags

/-- The state is as the history tells. -/
structure Registry.Agrees (s : Registry) (h : History) : Prop where
  entered : s.world.session.subSessions = h.entered
  alive : s.alive = h.alive
  begun : ∀ x ∈ h.alive, ∀ t, (s.world.subs x).frozen t ≠ none ↔ (t, x) ∈ h.begun
  default : s.world.session.defaultSubSession = 0
  present : 0 ∈ h.alive

section Runs

variable {s s' : Registry} {h : History} {f : RegistryCall} {t : ThreadId} {x : SubSessionId}
  {w : World}

/-- A call that neither makes nor destroys nor begins anything. -/
theorem Registry.Agrees.of_sameFlags (hagrees : s.Agrees h) (hsame : s.world.SameFlags w) :
    Registry.Agrees { s with world := w } h := by
  refine ⟨hsame.entered.trans hagrees.entered, hagrees.alive, fun x hx t => ?_,
    hsame.default.trans hagrees.default, hagrees.present⟩
  rw [← hagrees.begun x hx t]
  exact not_congr (hsame.flags x t)

/-- A thread begins a sub-session. -/
theorem Registry.Agrees.begin (hagrees : s.Agrees h)
    (hentered : w.session.subSessions = s.world.session.subSessions)
    (hdefault : w.session.defaultSubSession = s.world.session.defaultSubSession)
    (hflags : ∀ y t', (w.subs y).frozen t' ≠ none ↔
      (s.world.subs y).frozen t' ≠ none ∨ (t', y) = (t, x)) :
    Registry.Agrees { s with world := w } { h with begun := insert (t, x) h.begun } := by
  refine ⟨hentered.trans hagrees.entered, hagrees.alive, fun y hy t' => ?_,
    hdefault.trans hagrees.default, hagrees.present⟩
  dsimp only at hy ⊢
  rw [hflags, hagrees.begun y hy t', Finset.mem_insert, or_comm]

/-- A new object, that nobody has begun. -/
theorem Registry.Agrees.construct (hagrees : s.Agrees h) (hx : x ∉ s.alive) (t : ThreadId)
    (autostart : Bool) :
    Registry.Agrees ⟨s.world.subConstruct t x autostart, insert x s.alive⟩
      (h.after (.construct t x autostart)) := by
  have hbare : Registry.Agrees
      ⟨s.world.subConstruct t x false, insert x s.alive⟩ (h.after (.construct t x false)) := by
    refine ⟨congrArg (insert x) hagrees.entered, congrArg (insert x) hagrees.alive,
      fun y hy t' => ?_, hagrees.default, Finset.mem_insert_of_mem hagrees.present⟩
    simp only [World.subConstruct, History.after, Bool.false_eq_true, if_false, Finset.mem_filter]
    rcases eq_or_ne y x with rfl | hne
    · rw [Function.update_self]
      simp [MemorySubSession.initial]
    · rw [Function.update_of_ne hne]
      have hold : y ∈ h.alive := (Finset.mem_insert.mp hy).resolve_left hne
      rw [hagrees.begun y hold t']
      simp [hne]
  cases autostart with
  | false => exact hbare
  | true =>
      have hsession : ∀ w : World, (w.subBegin t x).session = w.session := fun w =>
        World.subBegin_session
      refine hbare.begin (w := s.world.subConstruct t x true) ?_ ?_ World.subBegin_flags
      · exact congrArg MemorySession.subSessions (hsession _)
      · exact congrArg MemorySession.defaultSubSession (hsession _)

/-- An object other than the default one is gone; what the others have begun stays. -/
theorem Registry.Agrees.destroy (hagrees : s.Agrees h)
    (hx : x ≠ s.world.session.defaultSubSession) (t : ThreadId) :
    Registry.Agrees ⟨s.world.subEnd t x, s.alive.erase x⟩ (h.after (.destroy t x)) := by
  have hsubs : (s.world.subEnd t x).subs = s.world.subs ∧
      (s.world.subEnd t x).session = s.world.session := by
    unfold World.subEnd
    split_ifs
    · exact ⟨rfl, rfl⟩
    · exact ⟨rfl, rfl⟩
  refine ⟨?_, congrArg (fun l => l.erase x) hagrees.alive, fun y hy t' => ?_, ?_, ?_⟩
  · rw [hsubs.2]
    exact hagrees.entered
  · rw [hsubs.1]
    exact hagrees.begun y (Finset.mem_of_mem_erase hy) t'
  · rw [hsubs.2]
    exact hagrees.default
  · rw [hagrees.default] at hx
    exact Finset.mem_erase.mpr ⟨hx.symm, hagrees.present⟩

/-- **One call keeps the state as the history tells.** -/
theorem Registry.Agrees.step (hagrees : s.Agrees h) (hstep : s.step f = some s') :
    s'.Agrees (h.after f) := by
  cases f with
  | sessionBegin t =>
      cases hstep
      obtain ⟨hentered, hdefault, -, -⟩ := World.sessionBegin_rest (w := s.world) (t := t)
      refine hagrees.begin hentered hdefault fun y t' => ?_
      rw [← hagrees.default]
      exact World.subBegin_flags y t'
  | sessionFreeze t =>
      simp only [Registry.step] at hstep
      split_ifs at hstep
      obtain ⟨w, hw, rfl⟩ := Option.map_eq_some_iff.mp hstep
      obtain ⟨last, hok⟩ := map_snd_eq_ok.mp (toOption_eq_some.mp hw)
      exact hagrees.of_sameFlags (World.sessionFreeze_sameFlags hok)
  | sessionUnfreeze t granted =>
      simp only [Registry.step] at hstep
      split at hstep
      · cases hstep
      · cases hstep
        exact hagrees
      · split_ifs at hstep
        · obtain ⟨w, hw, rfl⟩ := Option.map_eq_some_iff.mp hstep
          exact hagrees.of_sameFlags (World.sessionUnfreeze_sameFlags (toOption_eq_some.mp hw))
        · cases hstep
          exact hagrees
  | construct t x autostart =>
      simp only [Registry.step] at hstep
      split_ifs at hstep with hx
      cases hstep
      exact hagrees.construct hx t autostart
  | destroy t x =>
      simp only [Registry.step] at hstep
      split_ifs at hstep with hx
      cases hstep
      exact hagrees.destroy hx.2 t
  | begin t x =>
      simp only [Registry.step] at hstep
      split_ifs at hstep
      cases hstep
      have hsession : (s.world.subBegin t x).session = s.world.session := World.subBegin_session
      exact hagrees.begin (by rw [hsession]) (by rw [hsession]) World.subBegin_flags
  | freeze t x =>
      simp only [Registry.step] at hstep
      split_ifs at hstep
      obtain ⟨w, hw, rfl⟩ := Option.map_eq_some_iff.mp hstep
      exact hagrees.of_sameFlags (World.subFreeze_reflags (toOption_eq_some.mp hw)).sameFlags
  | unfreeze t x =>
      simp only [Registry.step] at hstep
      split_ifs at hstep
      obtain ⟨w, hw, rfl⟩ := Option.map_eq_some_iff.mp hstep
      obtain ⟨answer, hok⟩ := map_snd_eq_ok.mp (toOption_eq_some.mp hw)
      exact hagrees.of_sameFlags (World.subUnfreeze_reflags hok).sameFlags

theorem Registry.new_agrees (start : SessionStart) :
    (Registry.new start).Agrees (History.new start) := by
  have hworld : Registry.Agrees ⟨start.world, {0}⟩ ⟨{0}, {0}, ∅⟩ := by
    refine ⟨rfl, rfl, fun x _ t => ?_, rfl, Finset.mem_singleton_self 0⟩
    exact iff_of_false (fun h => h rfl) (Finset.notMem_empty _)
  unfold Registry.new History.new SessionStart.construct
  cases start.autostart with
  | none => exact hworld
  | some t => exact hworld.step (f := .sessionBegin t) rfl

theorem Registry.agrees_of_run {start : SessionStart} {calls : List RegistryCall}
    (hrun : Run Registry.step anyAction (Registry.new start) calls s) :
    s.Agrees (History.of start calls) := by
  refine hrun.invariant (P := fun calls s => s.Agrees (History.of start calls))
    (Registry.new_agrees start) ?_
  intro calls s s' f hagrees _ hstep
  rw [History.of, List.foldl_append]
  exact hagrees.step hstep

end Runs

/-- **When `memory_session::freeze` is safe.**  In every run, on every thread that has begun the
session, a call of `freeze` visits existing objects only and fails no assertion if and only
if it is not the one that freezes the session completely, or every address ever entered
holds a sub-session that this thread has begun. -/
theorem freeze_safe_iff (start : SessionStart) {calls : List RegistryCall} {s : Registry}
    (hrun : Run Registry.step anyAction (Registry.new start) calls s) {t : ThreadId}
    (ht : s.world.session.frozen t ≠ none) :
    s.FreezeSafe t ↔ (s.world.FreezesLast t → ∀ x ∈ (History.of start calls).entered,
      x ∈ (History.of start calls).alive ∧ (t, x) ∈ (History.of start calls).begun) := by
  have hagrees := Registry.agrees_of_run hrun
  constructor
  · intro hsafe hlast x hx
    rw [← hagrees.entered, ← World.freezeVisits_of hlast] at hx
    have halive : x ∈ (History.of start calls).alive := hagrees.alive ▸ hsafe.alive x hx
    exact ⟨halive, (hagrees.begun x halive t).mp (hsafe.flagged x hx)⟩
  · intro hall
    have hvisits : ∀ x ∈ s.world.freezeVisits t,
        x ∈ s.alive ∧ (s.world.subs x).frozen t ≠ none := by
      intro x hx
      by_cases hlast : s.world.FreezesLast t
      · rw [World.freezeVisits_of hlast, hagrees.entered] at hx
        obtain ⟨halive, hbegun⟩ := hall hlast x hx
        exact ⟨hagrees.alive ▸ halive, (hagrees.begun x halive t).mpr hbegun⟩
      · rw [World.freezeVisits_of_not hlast] at hx
        cases hx
    exact ⟨fun x hx => (hvisits x hx).1, fun x hx => (hvisits x hx).2,
      (World.sessionFreeze_ok_iff ht).mpr fun x hx => (hvisits x hx).2⟩

/-- A sub-session is made and destroyed again on the only thread of the session. -/
def destroyedSubSession : List RegistryCall := [.construct 0 1 true, .destroy 0 1]

/-- A sub-session is made and not begun. -/
def idleSubSession : List RegistryCall := [.construct 0 1 false]

/-- `freeze` visits the sub-session that was destroyed, and fails its assertion on the one that
was not begun. -/
theorem freeze_unsafe :
    (∃ s, Run Registry.step anyAction (Registry.new ⟨65536, 65536, some 0⟩) destroyedSubSession s ∧
      s.world.session.frozen 0 ≠ none ∧ 1 ∈ s.world.freezeVisits 0 ∧ 1 ∉ s.alive ∧
      ¬ s.FreezeSafe 0) ∧
    ∃ s, Run Registry.step anyAction (Registry.new ⟨65536, 65536, some 0⟩) idleSubSession s ∧
      s.world.session.frozen 0 ≠ none ∧ 1 ∈ s.alive ∧
      (¬ ∃ last w', s.world.sessionFreeze 0 = .ok (last, w')) ∧ ¬ s.FreezeSafe 0 := by
  have hdestroyed : ∃ s, Run Registry.step anyAction (Registry.new ⟨65536, 65536, some 0⟩)
      destroyedSubSession s ∧ s.world.session.frozen 0 ≠ none ∧
      1 ∈ s.world.freezeVisits 0 ∧ 1 ∉ s.alive :=
    ⟨_, Run.start.performAll destroyedSubSession rfl, by decide, by decide, by decide⟩
  have hidle : ∃ s, Run Registry.step anyAction (Registry.new ⟨65536, 65536, some 0⟩)
      idleSubSession s ∧ s.world.session.frozen 0 ≠ none ∧ 1 ∈ s.alive ∧
      1 ∈ s.world.freezeVisits 0 ∧ (s.world.subs 1).frozen 0 = none :=
    ⟨_, Run.start.performAll idleSubSession rfl, by decide, by decide, by decide, rfl⟩
  obtain ⟨s, hrun, hflag, hvisit, hgone⟩ := hdestroyed
  obtain ⟨s', hrun', hflag', halive, hvisit', hnone⟩ := hidle
  have hfails : ¬ ∃ last w', s'.world.sessionFreeze 0 = .ok (last, w') := by
    rw [World.sessionFreeze_ok_iff hflag']
    exact fun hall => hall 1 hvisit' hnone
  exact ⟨⟨s, hrun, hflag, hvisit, hgone, fun hsafe => hgone (hsafe.alive 1 hvisit)⟩,
    s', hrun', hflag', halive, hfails, fun hsafe => hfails hsafe.returns⟩

/-- A second thread begins the session and makes a sub-session, which the first thread begins
too; then the second one freezes the session for itself. -/
def begunByBoth : List RegistryCall :=
  [.sessionBegin 1, .construct 1 1 true, .begin 0 1, .sessionFreeze 1]

/-- The first thread can freeze the session now. -/
theorem freeze_safe_iff_begunByBoth :
    ∃ s, Run Registry.step anyAction (Registry.new ⟨65536, 65536, some 0⟩) begunByBoth s ∧
      s.world.FreezesLast 0 ∧ s.FreezeSafe 0 := by
  have hrun : ∃ s, Run Registry.step anyAction (Registry.new ⟨65536, 65536, some 0⟩)
      begunByBoth s ∧ s.world.session.frozen 0 ≠ none ∧ s.world.FreezesLast 0 :=
    ⟨_, Run.start.performAll begunByBoth rfl, by decide, by decide⟩
  obtain ⟨s, hrun, hflag, hlast⟩ := hrun
  refine ⟨s, hrun, hlast, (freeze_safe_iff _ hrun hflag).mpr fun _ => ?_⟩
  decide

end MemoryManager
end CoherentDB
