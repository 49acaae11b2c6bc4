import CoherentDB.MemoryManager.FreezeCalls

/-!
# A frozen session and its RAM

Freezing has two levels.  The session counts its threads, and the last thread that
freezes passes the call on to the sub-sessions, for itself only.  The default
sub-session, which every thread begins with the session, counts threads of its own.

`World.InStep` is the relation between the two levels: every thread has begun both,
a thread that is unfrozen in the session is unfrozen in the default sub-session, and a
completely frozen session has a completely frozen default sub-session.  The last part
is lost when a session is frozen by its last thread while another thread is unfrozen
in the default sub-session; `LastFreezesAlone` excludes this step.
-/

namespace CoherentDB
namespace MemoryManager

open Debug Containers MachineInt Runs FlagCount

/-- The default sub-session. -/
def World.defaultSub (w : World) : MemorySubSession := w.subs w.session.defaultSubSession

/-- The call of `freeze` that freezes the session on its last thread comes when no other
thread is unfrozen in the default sub-session. -/
def LastFreezesAlone (w : World) (t : ThreadId) : Prop :=
  w.session.frozen t = some false → w.session.unfrozenThreadsCount = 1 →
    w.defaultSub.unfrozenThreadsCount = 1

/-- The users allocate and deallocate, and deallocate only while the sub-session they use is
not frozen on their thread. -/
def AllocatesUnfrozen (w : World) : MemoryCall → Prop
  | .allocate _ _ _ _ => True
  | .deallocate t _ _ _ => ∀ x, w.current t = some x → (w.subs x).frozen t = some false
  | .subConstruct _ | .subBegin _ _ | .subFreeze _ _ | .subUnfreeze _ _ => False

/-- The session and its default sub-session keep in step. -/
structure World.InStep (w : World) : Prop where
  counted : w.ThreadsCounted
  only : w.session.subSessions = {w.session.defaultSubSession}
  current : ∀ t x, w.current t = some x → x = w.session.defaultSubSession
  begun : ∀ t, w.session.frozen t = none ↔ w.defaultSub.frozen t = none
  covered : ∀ t, w.session.frozen t = some false → w.defaultSub.frozen t = some false
  settled : w.session.unfrozenThreadsCount = 0 → w.defaultSub.unfrozenThreadsCount = 0
  fresh : w.session.unfrozenThreadsCount = -1 → w.defaultSub.unfrozenThreadsCount = -1
  small : w.defaultSub.allocatedBytes < 2 ^ 64
  ram : w.session.ramAllocatedBytes = w.defaultSub.ramBytes

section Steps

variable {cfg : ManagerConfig} {w w' : World} {t : ThreadId}

/-- A session that is not completely frozen has a default sub-session that is not. -/
theorem World.InStep.sub_ne_zero (h : w.InStep) (hne : w.session.unfrozenThreadsCount ≠ 0) :
    w.defaultSub.unfrozenThreadsCount ≠ 0 := by
  rcases h.counted.session with ⟨hminus, -⟩ | ⟨unfrozen, hmem, hcard⟩
  · have := h.fresh hminus
    omega
  · -- Some thread is unfrozen, and it is unfrozen in the sub-session too.
    have hpos : 0 < unfrozen.card := by omega
    obtain ⟨t, ht⟩ := Finset.card_pos.mp hpos
    have := (h.counted.subs _).pos (h.covered t ((hmem t).mp ht))
    exact this.ne'

/-- A completely frozen session has no thread that is unfrozen. -/
theorem not_unfrozen_of_zero {flags : ThreadId → Option Bool} {count : ℤ}
    (h : Counts flags count) (hzero : count = 0) (t : ThreadId) : flags t ≠ some false := by
  intro ht
  have := h.pos ht
  omega

/-- `begin` on a thread that has begun both objects only makes the default sub-session the
current one. -/
theorem World.sessionBegin_eq_activate {flag subFlag : Bool}
    (ht : w.session.frozen t = some flag) (hsub : w.defaultSub.frozen t = some subFlag) :
    w.sessionBegin t = w.activate t w.session.defaultSubSession := by
  unfold World.defaultSub at hsub
  simp only [World.sessionBegin, ht, World.subBegin, hsub]

/-- `begin` on a new thread, on both levels. -/
theorem World.sessionBegin_sub (hsub : w.defaultSub.frozen t = none) :
    (w.sessionBegin t).subs = Function.update w.subs w.session.defaultSubSession
      { w.defaultSub with
        frozen := Function.update w.defaultSub.frozen t
          (some (decide (w.defaultSub.unfrozenThreadsCount = 0)))
        unfrozenThreadsCount := withNew w.defaultSub.unfrozenThreadsCount } := by
  unfold World.defaultSub at hsub ⊢
  simp only [World.sessionBegin, World.subBegin, hsub]

theorem World.InStep.begin (h : w.InStep) : (w.sessionBegin t).InStep := by
  have hcounted := h.counted.begin (t := t)
  obtain ⟨honly, hdefault, hram, hcurrent⟩ := World.sessionBegin_rest (w := w) (t := t)
  have hpointer : ∀ t' x, (w.sessionBegin t).current t' = some x →
      x = (w.sessionBegin t).session.defaultSubSession := by
    intro t' x hx
    rw [hdefault]
    rw [hcurrent] at hx
    rcases eq_or_ne t' t with rfl | hne
    · rw [Function.update_self] at hx
      exact (Option.some.inj hx).symm
    · rw [Function.update_of_ne hne] at hx
      exact h.current t' x hx
  cases ht : w.session.frozen t with
  | some flag =>
      cases hsub : w.defaultSub.frozen t with
      | none =>
          rw [(h.begun t).mpr hsub] at ht
          cases ht
      | some subFlag =>
          -- Nothing but the pointer of the thread changes.
          have heq := World.sessionBegin_eq_activate ht hsub
          rw [heq] at hcounted hpointer ⊢
          exact ⟨hcounted, h.only, hpointer, h.begun, h.covered, h.settled, h.fresh, h.small, h.ram⟩
  | none =>
      have hsub := (h.begun t).mp ht
      obtain ⟨hflags, hcount, -, -⟩ := World.sessionBegin_new ht
      have hnew : (w.sessionBegin t).defaultSub =
          { w.defaultSub with
            frozen := Function.update w.defaultSub.frozen t
              (some (decide (w.defaultSub.unfrozenThreadsCount = 0)))
            unfrozenThreadsCount := withNew w.defaultSub.unfrozenThreadsCount } := by
        rw [World.defaultSub, hdefault, World.sessionBegin_sub hsub, Function.update_self]
      -- Both flags of the thread are set, or both are cleared.
      have hsame : w.session.unfrozenThreadsCount = 0 ↔ w.defaultSub.unfrozenThreadsCount = 0 :=
        ⟨h.settled, fun hzero => by_contra fun hne => h.sub_ne_zero hne hzero⟩
      refine ⟨hcounted, ?_, hpointer, ?_, ?_, ?_, ?_, ?_, ?_⟩
      · rw [honly, hdefault]
        exact h.only
      · intro t'
        rw [hflags, hnew]
        rcases eq_or_ne t' t with rfl | hne
        · simp
        · simpa [hne] using h.begun t'
      · intro t' ht'
        rw [hflags] at ht'
        rw [hnew]
        rcases eq_or_ne t' t with rfl | hne
        · simpa [hsame] using ht'
        · simp only [ne_eq, hne, not_false_eq_true, Function.update_of_ne] at ht' ⊢
          exact h.covered t' ht'
      · rw [hcount, hnew, withNew_eq_zero_iff, withNew_eq_zero_iff]
        exact h.settled
      · intro hminus
        rw [hcount] at hminus
        exact absurd hminus (withNew_ne_neg_one h.counted.session)
      · rw [hnew]
        exact h.small
      · rw [hram, h.ram, hnew]
        simp only [MemorySubSession.ramBytes, ne_eq, withNew_eq_zero_iff]

/-- `freeze` by the last thread of a session with one sub-session. -/
theorem World.sessionFreeze_last {x : SubSessionId} (honly : w.session.subSessions = {x})
    (ht : w.session.frozen t = some false) (hone : w.session.unfrozenThreadsCount = 1) :
    w.sessionFreeze t =
      (World.subFreeze
        { w with
          session :=
            { w.session with
              frozen := Function.update w.session.frozen t (some true)
              unfrozenThreadsCount := 0 } } t x).map fun w' => (true, w') := by
  simp only [World.sessionFreeze, ht, hone, sub_self, if_true, honly, Finset.sort_singleton,
    World.freezeEach]
  cases World.subFreeze _ t x <;> rfl

/-- Setting the flag of a thread does not change which threads have one. -/
theorem update_eq_none_iff {frozen : ThreadId → Option Bool} {flag : Bool}
    (ht : frozen t = some flag) (new : Bool) (t' : ThreadId) :
    Function.update frozen t (some new) t' = none ↔ frozen t' = none := by
  rcases eq_or_ne t' t with rfl | hne
  · simp [ht]
  · simp [hne]

/-- The last thread of the session freezes: the default sub-session is frozen on its only thread
and gives up its bytes. -/
theorem World.InStep.freeze_last {last : Bool} (h : w.InStep) (ht : w.session.frozen t = some false)
    (hlast : w.session.unfrozenThreadsCount = 1) (hone : w.defaultSub.unfrozenThreadsCount = 1)
    (hok : w.sessionFreeze t = .ok (last, w')) : w'.InStep := by
  have hcounted := h.counted.freeze hok
  have hsub := h.covered t ht
  have hram := h.ram
  have hsmall := h.small
  have hother := h.begun
  rw [World.sessionFreeze_last h.only ht hlast] at hok
  unfold World.defaultSub at hsub hone hram hsmall hother
  simp only [World.subFreeze, hsub, hone, sub_self, if_true, Except.map, Except.ok.injEq,
    Prod.mk.injEq] at hok
  obtain ⟨-, rfl⟩ := hok
  refine ⟨hcounted, h.only, h.current, ?_, ?_, ?_, ?_, ?_, ?_⟩
  · intro t'
    simp only [World.defaultSub, Function.update_self]
    rw [update_eq_none_iff ht, update_eq_none_iff hsub, hother]
  · intro t' ht'
    exact absurd ht' (not_unfrozen_of_zero hcounted.session rfl t')
  · intro _
    simp [World.defaultSub]
  · intro hminus
    cases hminus
  · simpa [World.defaultSub] using hsmall
  · simp only [MemorySubSession.ramBytes, hone] at hram
    simp only [World.defaultSub, Function.update_self, MemorySubSession.ramBytes]
    rw [hram]
    simp only [ne_eq, one_ne_zero, not_false_eq_true, if_true, not_true_eq_false, if_false]
    rw [subWrap_of_le le_rfl hsmall, Nat.sub_self]

/-- Another thread freezes: only the flag of the session and its count change. -/
theorem World.InStep.freeze_more {last : Bool} (h : w.InStep) (ht : w.session.frozen t = some false)
    (hlast : w.session.unfrozenThreadsCount ≠ 1) (hok : w.sessionFreeze t = .ok (last, w')) :
    w'.InStep := by
  have hcounted := h.counted.freeze hok
  have hne : w.session.unfrozenThreadsCount - 1 ≠ 0 := by omega
  simp only [World.sessionFreeze, ht, if_neg hne] at hok
  cases hok
  refine ⟨hcounted, h.only, h.current, ?_, ?_, ?_, ?_, h.small, h.ram⟩
  · intro t'
    exact (update_eq_none_iff ht true t').trans (h.begun t')
  · intro t' ht'
    rcases eq_or_ne t' t with rfl | hne'
    · simp at ht'
    · simp only [ne_eq, hne', not_false_eq_true, Function.update_of_ne] at ht'
      exact h.covered t' ht'
  · intro hcount
    exact absurd hcount hne
  · intro hminus
    have hpos := h.counted.session.pos ht
    simp only at hminus
    omega

/-- **`freeze` keeps the levels in step**, when the last thread freezes alone. -/
theorem World.InStep.freeze {last : Bool} (h : w.InStep) (halone : LastFreezesAlone w t)
    (hok : w.sessionFreeze t = .ok (last, w')) : w'.InStep := by
  cases ht : w.session.frozen t with
  | none => simp [World.sessionFreeze, ht] at hok
  | some flag =>
      cases flag with
      | true =>
          simp only [World.sessionFreeze, ht] at hok
          cases hok
          exact h
      | false =>
          by_cases hlast : w.session.unfrozenThreadsCount = 1
          · exact h.freeze_last ht hlast (halone ht hlast) hok
          · exact h.freeze_more ht hlast hok

/-- **`unfreeze` keeps the levels in step**: it finds the default sub-session completely
frozen, and unfreezes it on the same thread. -/
theorem World.InStep.unfreeze (h : w.InStep) (ht : w.session.frozen t = some true)
    (hzero : w.session.unfrozenThreadsCount = 0) (hok : w.sessionUnfreeze t = .ok w') :
    w'.InStep := by
  have hcounted := h.counted.unfreeze ht hok
  have hsubZero := h.settled hzero
  -- The thread has begun the sub-session, where no thread is unfrozen.
  have hsub : w.defaultSub.frozen t = some true := by
    cases hflag : w.defaultSub.frozen t with
    | none =>
        rw [(h.begun t).mpr hflag] at ht
        cases ht
    | some flag =>
        cases flag with
        | true => rfl
        | false => exact absurd hflag (not_unfrozen_of_zero (h.counted.subs _) hsubZero t)
  have hram := h.ram
  rw [MemorySubSession.ramBytes, if_neg (by simp [hsubZero])] at hram
  have hsmall := h.small
  have hothers : ∀ t', w.session.frozen t' ≠ some false :=
    not_unfrozen_of_zero h.counted.session hzero
  obtain ⟨⟨answer, w₁⟩, hunfreeze, hdone⟩ := ok_of_bind hok
  unfold World.defaultSub at hsub hsubZero hsmall
  simp only [World.subUnfreeze, hsub, hsubZero, hram, if_true] at hunfreeze
  split_ifs at hunfreeze with hlimit
  · cases hunfreeze
    simp at hdone
  · cases hunfreeze
    cases hdone
    refine ⟨hcounted, h.only, h.current, ?_, ?_, ?_, ?_, ?_, ?_⟩
    · intro t'
      have hbegun := h.begun t'
      unfold World.defaultSub at hbegun ⊢
      simp only [Function.update_self]
      rw [update_eq_none_iff ht, update_eq_none_iff hsub]
      exact hbegun
    · intro t' ht'
      simp only [World.defaultSub, Function.update_self]
      rcases eq_or_ne t' t with rfl | hne
      · simp
      · simp only [ne_eq, hne, not_false_eq_true, Function.update_of_ne] at ht'
        exact absurd ht' (hothers t')
    · intro hcount
      simp only at hcount
      omega
    · intro hminus
      simp only at hminus
      omega
    · simpa [World.defaultSub] using hsmall
    · simp only [World.defaultSub, Function.update_self, MemorySubSession.ramBytes]
      rw [addWrap_of_lt (by omega), Nat.zero_add]
      rfl

/-- What a call of the allocator may do to the session and the default sub-session: it moves
the bytes of both by the same amount. -/
structure World.Charges (w : World) (c : Scope) : Prop where
  this : c.this = w.session.defaultSubSession
  flags : c.self.frozen = w.defaultSub.frozen
  count : c.self.unfrozenThreadsCount = w.defaultSub.unfrozenThreadsCount
  sessionFlags : c.parent.frozen = w.session.frozen
  sessionCount : c.parent.unfrozenThreadsCount = w.session.unfrozenThreadsCount
  subSessions : c.parent.subSessions = w.session.subSessions
  default : c.parent.defaultSubSession = w.session.defaultSubSession
  small : c.self.allocatedBytes < 2 ^ 64
  bytes : w.session.ramAllocatedBytes = w.defaultSub.allocatedBytes →
    c.parent.ramAllocatedBytes = c.self.allocatedBytes

theorem World.Charges.of_effect {c : Scope} {g : ℕ → ℕ} {total : ℕ} {allocs : AddressMap}
    (hthis : c.this = w.session.defaultSubSession)
    (hflags : c.self.frozen = w.defaultSub.frozen)
    (hcount : c.self.unfrozenThreadsCount = w.defaultSub.unfrozenThreadsCount)
    (hparent : c.parent = { w.session with
      ramAllocatedBytes := g w.session.ramAllocatedBytes
      totalAllocatedBytes := total
      allocs := allocs })
    (hbytes : c.self.allocatedBytes = g w.defaultSub.allocatedBytes)
    (hsmall : g w.defaultSub.allocatedBytes < 2 ^ 64) : w.Charges c := by
  refine ⟨hthis, hflags, hcount, ?_, ?_, ?_, ?_, ?_, ?_⟩
  · rw [hparent]
  · rw [hparent]
  · rw [hparent]
  · rw [hparent]
  · rw [hbytes]
    exact hsmall
  · intro heq
    rw [hparent, hbytes, ← heq]

theorem World.Charges.of_allocate {mmap : ℕ → Option ℕ} {n p : ℕ} {c : Scope}
    (hsmall : w.defaultSub.allocatedBytes < 2 ^ 64)
    (h : (w.scope w.session.defaultSubSession).allocate cfg mmap n = .ok (p, c)) :
    w.Charges c := by
  rcases Scope.allocate_effect h with ⟨-, hkept⟩ | ⟨bytes, -, -, hadded⟩
  · exact .of_effect (g := id) hkept.this hkept.frozen hkept.unfrozenThreadsCount hkept.parent
      hkept.allocatedBytes hsmall
  · exact .of_effect (g := fun a => addWrap 64 a bytes) hadded.this hadded.frozen
      hadded.unfrozenThreadsCount hadded.parent hadded.allocatedBytes (addWrap_lt _ _ _)

theorem World.Charges.of_deallocate {p n : ℕ} {c : Scope}
    (hsmall : w.defaultSub.allocatedBytes < 2 ^ 64)
    (h : (w.scope w.session.defaultSubSession).deallocate cfg p n = .ok c) : w.Charges c := by
  rcases Scope.deallocate_effect h with ⟨-, hkept⟩ | ⟨-, r, pages, hdropped⟩
  · exact .of_effect (g := id) hkept.this hkept.frozen hkept.unfrozenThreadsCount hkept.parent
      hkept.allocatedBytes hsmall
  · exact .of_effect (g := fun a => subWrap 64 a r.2) hdropped.this hdropped.frozen
      hdropped.unfrozenThreadsCount hdropped.parent hdropped.allocatedBytes (subWrap_lt _ _ _)

/-- A call of the allocator on a thread on which the default sub-session is not frozen. -/
theorem World.InStep.put {c : Scope} (h : w.InStep) (hc : w.Charges c)
    (hthread : w.defaultSub.frozen t = some false) (hcounted : (w.put c).ThreadsCounted) :
    (w.put c).InStep := by
  have hsub : (w.put c).defaultSub = c.self := by
    rw [World.defaultSub, World.put, hc.this]
    simp only [hc.default, Function.update_self]
  have hpos : 0 < w.defaultSub.unfrozenThreadsCount := (h.counted.subs _).pos hthread
  have hsame : w.session.ramAllocatedBytes = w.defaultSub.allocatedBytes := by
    rw [h.ram, MemorySubSession.ramBytes, if_pos hpos.ne']
  refine ⟨hcounted, ?_, ?_, ?_, ?_, ?_, ?_, ?_, ?_⟩
  · show c.parent.subSessions = {c.parent.defaultSubSession}
    rw [hc.subSessions, hc.default]
    exact h.only
  · intro t' x hx
    show x = c.parent.defaultSubSession
    rw [hc.default]
    exact h.current t' x hx
  · intro t'
    show c.parent.frozen t' = none ↔ _
    rw [hsub, hc.sessionFlags, hc.flags]
    exact h.begun t'
  · intro t'
    show c.parent.frozen t' = some false → _
    rw [hsub, hc.sessionFlags, hc.flags]
    exact h.covered t'
  · show c.parent.unfrozenThreadsCount = 0 → _
    rw [hsub, hc.sessionCount, hc.count]
    exact h.settled
  · show c.parent.unfrozenThreadsCount = -1 → _
    rw [hsub, hc.sessionCount, hc.count]
    exact h.fresh
  · rw [hsub]
    exact hc.small
  · show c.parent.ramAllocatedBytes = _
    rw [hsub, hc.bytes hsame, MemorySubSession.ramBytes, hc.count, if_pos hpos.ne']

theorem World.InStep.perform {f : MemoryCall} (h : w.InStep) (hallowed : AllocatesUnfrozen w f)
    (hok : w.perform cfg f = some w') : w'.InStep := by
  have hcounted := h.counted.perform hok
  cases f with
  | allocate mmap t sizeofT n =>
      obtain ⟨p, hok⟩ := map_snd_eq_ok.mp (toOption_eq_some.mp hok)
      obtain rfl | ⟨x, c, ⟨hcur, hthread⟩, halloc, rfl⟩ := World.allocatorAllocate_inv hok
      · exact h
      · obtain rfl := h.current t x hcur
        exact h.put (.of_allocate h.small halloc) hthread hcounted
  | deallocate t sizeofT p n =>
      obtain rfl | ⟨x, c, hcur, hfree, rfl⟩ := World.allocatorDeallocate_inv (toOption_eq_some.mp hok)
      · exact h
      · have hthread := hallowed x hcur
        obtain rfl := h.current t x hcur
        exact h.put (.of_deallocate h.small hfree) hthread hcounted
  | _ => exact hallowed.elim

/-- **Every change keeps the levels in step**, when the last thread freezes alone. -/
theorem World.InStep.change (h : w.InStep)
    (hchange : World.Change cfg LastFreezesAlone AllocatesUnfrozen w w') : w'.InStep := by
  cases hchange with
  | begin t => exact h.begin
  | freeze hok hstep => exact h.freeze hok hstep
  | unfreeze hfrozen hzero hstep => exact h.unfreeze hfrozen hzero hstep
  | call hok hstep => exact h.perform hok hstep

end Steps

end MemoryManager
end CoherentDB
