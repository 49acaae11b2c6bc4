import CoherentDB.Lib.ListRange
import CoherentDB.MemoryManager.SessionLifetime

/-!
# The reservation of all sessions

`Phase.held` is what a session has reserved, also in the middle of a call.  The counters
of the manager should be the sums over all sessions.  Three things break this:

* a session that is completely frozen has given its RAM back, and its destructor gives
  it back once more;
* a constructor that has reserved its total throws when its RAM is above the limit of
  the manager, and keeps the total;
* a sum that wraps around passes the test against the limit.

`Regular` says that a step is none of these.
-/

namespace CoherentDB
namespace MemoryManager

open Debug MachineInt ListRange Runs FlagCount

/-- A pair of amounts, one for each resource. -/
def amounts (ram total : ℕ) : Resource → ℕ
  | .ram => ram
  | .total => total

/-- The RAM that a session has reserved between two calls. -/
def MemorySession.ramInUse (m : MemorySession) : ℕ :=
  if m.unfrozenThreadsCount = 0 then 0 else m.ramLimitBytes

namespace Phase

/-- What a session has reserved. -/
def held : Phase → Resource → ℕ
  | .reservingTotal _ | .gone => amounts 0 0
  | .reservedTotal start | .reservingRam start => amounts 0 start.totalLimitBytes
  | .ready w => amounts w.session.ramInUse w.session.totalLimitBytes
  | .freezing w | .unfrozen _ w => amounts w.session.ramLimitBytes w.session.totalLimitBytes
  | .unfreezing _ _ w => amounts 0 w.session.totalLimitBytes
  | .destroying w => amounts w.session.ramInUse 0

/-- The count of threads is right, and it is 0 where a call is about to free or has reserved the
RAM; a session that is destroyed is not frozen, or has no RAM to give back. -/
def Counted : Phase → Prop
  | .ready w => Counts w.session.frozen w.session.unfrozenThreadsCount
  | .freezing w =>
      Counts w.session.frozen w.session.unfrozenThreadsCount ∧ w.session.unfrozenThreadsCount = 0
  | .unfreezing t _ w | .unfrozen t w =>
      Counts w.session.frozen w.session.unfrozenThreadsCount ∧
        w.session.unfrozenThreadsCount = 0 ∧ w.session.frozen t = some true
  | .destroying w => w.session.unfrozenThreadsCount = 0 → w.session.ramLimitBytes = 0
  | .reservingTotal _ | .reservedTotal _ | .reservingRam _ | .gone => True

end Phase

/-- The call that waits on `i` is at the front, or it is when it enters the empty queue. -/
def Manager.AtFront (m : Manager) (i : ConditionVariable) : Prop := m.unfreezeQueue.head?.getD i = i

/-- The test of a request does not wrap around and pass. -/
def Manager.NoWrap (m : Manager) (r : Resource) (bytes : ℕ) : Prop :=
  m.fits r bytes → m.reserved r + bytes < 2 ^ 64

/-- The step of session `i` does not break the reservation. -/
def Phase.Regular (m : Manager) (i : ℕ) : Phase → PhaseStep → Prop
  | .reservingTotal start, .test => m.AtFront i → m.NoWrap .total start.totalLimitBytes
  | .reservedTotal start, .goOn =>
      if m.limit .ram < start.ramLimitBytes then start.totalLimitBytes = 0
      else m.AtFront i → m.NoWrap .ram start.ramLimitBytes
  | .reservingRam start, .test => m.AtFront i → m.NoWrap .ram start.ramLimitBytes
  | .unfreezing _ _ w, .test => m.AtFront i → m.NoWrap .ram w.session.ramLimitBytes
  | .ready w, .unfreeze t _ =>
      w.session.frozen t = some true → w.session.unfrozenThreadsCount = 0 →
        w.session.ramLimitBytes ≤ m.limit .ram → m.AtFront i →
          m.NoWrap .ram w.session.ramLimitBytes
  | .ready w, .tryUnfreeze t =>
      w.session.frozen t = some true → w.session.unfrozenThreadsCount = 0 →
        w.session.ramLimitBytes ≤ m.limit .ram → m.NoWrap .ram w.session.ramLimitBytes
  | .ready w, .destroy => w.session.unfrozenThreadsCount = 0 → w.session.ramLimitBytes = 0
  | _, _ => True

/-- A step does not break the reservation. -/
def Sessions.Regular (s : Sessions) : SessionsStep → Prop
  | .construct start =>
      start.totalLimitBytes ≤ s.manager.limit .total → s.manager.AtFront s.sessions.length →
        s.manager.NoWrap .total start.totalLimitBytes
  | .on i what => ∀ phase ∈ s.sessions[i]?, phase.Regular s.manager i what

/-- A step moves the counters of the manager by as much as what the session holds. -/
structure Balances (m : Manager) (phase : Phase) (m' : Manager) (phase' : Phase) : Prop where
  counters : ∀ r, m'.reserved r + phase.held r = m.reserved r + phase'.held r
  small : ∀ r, m'.reserved r < 2 ^ 64
  counted : phase'.Counted

section Kinds

variable {m m' : Manager} {phase phase' : Phase} {r : Resource} {i bytes : ℕ}

/-- Nothing is reserved or freed. -/
theorem Balances.of_same (hsmall : ∀ r, m.reserved r < 2 ^ 64)
    (hreserved : ∀ r, m'.reserved r = m.reserved r) (hheld : phase'.held = phase.held)
    (hcounted : phase'.Counted) : Balances m phase m' phase' := by
  refine ⟨?_, ?_, hcounted⟩
  · intro r
    rw [hreserved, hheld]
  · intro r
    rw [hreserved]
    exact hsmall r

/-- A request is granted. -/
theorem Balances.of_add (hsmall : ∀ r, m.reserved r < 2 ^ 64)
    (hsum : m.reserved r + bytes < 2 ^ 64)
    (hreserved : ∀ other, m'.reserved other = (m.add r bytes).reserved other)
    (hheld : ∀ other, phase'.held other = phase.held other + if other = r then bytes else 0)
    (hcounted : phase'.Counted) : Balances m phase m' phase' := by
  refine ⟨?_, ?_, hcounted⟩
  · intro other
    rw [hreserved, Manager.reserved_add hsum, hheld]
    omega
  · intro other
    rw [hreserved, Manager.reserved_add hsum]
    split_ifs with hsame
    · rw [hsame]
      exact hsum
    · exact hsmall other

/-- What the session holds is freed. -/
theorem Balances.of_free (hsmall : ∀ r, m.reserved r < 2 ^ 64)
    (hle : ∀ r, phase.held r ≤ m.reserved r)
    (hheld : ∀ other, phase.held other = phase'.held other + if other = r then bytes else 0)
    (hcounted : phase'.Counted) : Balances m phase (m.free r bytes) phase' := by
  have henough : bytes ≤ m.reserved r := by
    have hself := hheld r
    rw [if_pos rfl] at hself
    have hr := hle r
    omega
  have hreserved := Manager.reserved_free henough (hsmall r)
  refine ⟨?_, ?_, hcounted⟩
  · intro other
    rw [hreserved, hheld]
    by_cases hsame : other = r
    · subst hsame
      simp only [if_true]
      omega
    · simp only [if_neg hsame]
      omega
  · intro other
    rw [hreserved]
    exact (Nat.sub_le _ _).trans_lt (hsmall other)

/-- The call that tests again is at the front. -/
theorem Manager.atFront_of_head (h : m.unfreezeQueue.head? = some i) : m.AtFront i := by
  rw [Manager.AtFront, h, Option.getD_some]

/-- The call that has just entered the queue is at the front. -/
theorem Manager.atFront_of_enqueue (h : (m.unfreezeQueue ++ [i]).head? = some i) : m.AtFront i := by
  cases hqueue : m.unfreezeQueue with
  | nil => rw [Manager.AtFront, hqueue, List.head?_nil, Option.getD_none]
  | cons first rest =>
      rw [hqueue, List.cons_append, List.head?_cons] at h
      exact Manager.atFront_of_head (by rw [hqueue, List.head?_cons, h])

/-- A test in the manager leaves the call waiting or grants its request. -/
theorem Balances.await {queued : Manager} {waiting granted : Phase}
    (hawait : Phase.await queued r i bytes waiting granted = (m', phase'))
    (hsmall : ∀ r, m.reserved r < 2 ^ 64) (hwrap : m.AtFront i → m.NoWrap r bytes)
    (hfront : queued.unfreezeQueue.head? = some i → m.AtFront i)
    (hqueue : ∀ r, queued.reserved r = m.reserved r) (hlimit : ∀ r, queued.limit r = m.limit r)
    (hwaiting : waiting.held = phase.held)
    (hgranted : ∀ other, granted.held other = phase.held other + if other = r then bytes else 0)
    (hcountedWaiting : waiting.Counted) (hcountedGranted : granted.Counted) :
    Balances m phase m' phase' := by
  rcases Phase.await_cases hawait with ⟨-, rfl, rfl⟩ | ⟨htest, rfl⟩
  · exact .of_same hsmall hqueue hwaiting hcountedWaiting
  · obtain ⟨hhead, hfits, rfl⟩ := Manager.test_some htest
    -- Entering the queue changes neither the counter nor the limit.
    have hfits' : m.fits r bytes := by
      unfold Manager.fits at hfits ⊢
      rwa [hqueue, hlimit] at hfits
    refine .of_add hsmall (hwrap (hfront hhead) hfits') ?_ hgranted hcountedGranted
    intro other
    rw [Manager.reserved_queue, Manager.add, Manager.add, Manager.reserved_setReserved,
      Manager.reserved_setReserved, hqueue, hqueue]

end Kinds

section Sessions

variable {m : MemorySession} {w w' : World} {t : ThreadId}

theorem MemorySession.ramInUse_of_zero (h : m.unfrozenThreadsCount = 0) : m.ramInUse = 0 :=
  if_pos h

theorem MemorySession.ramInUse_of_ne (h : m.unfrozenThreadsCount ≠ 0) :
    m.ramInUse = m.ramLimitBytes :=
  if_neg h

theorem MemorySession.ramInUse_of_imp (h : m.unfrozenThreadsCount = 0 → m.ramLimitBytes = 0) :
    m.ramInUse = m.ramLimitBytes := by
  by_cases hzero : m.unfrozenThreadsCount = 0
  · rw [ramInUse_of_zero hzero, h hzero]
  · exact ramInUse_of_ne hzero

/-- A new session is not frozen and has its limits. -/
theorem SessionStart.construct_spec (start : SessionStart) :
    Counts start.construct.session.frozen start.construct.session.unfrozenThreadsCount ∧
      start.construct.session.ramInUse = start.ramLimitBytes ∧
      start.construct.session.totalLimitBytes = start.totalLimitBytes := by
  have hnone : Counts (fun _ : ThreadId => (none : Option Bool)) (-1) := Or.inl ⟨rfl, fun _ => rfl⟩
  unfold SessionStart.construct
  cases start.autostart with
  | none => exact ⟨hnone, rfl, rfl⟩
  | some t =>
      dsimp only
      have hfree : start.world.session.frozen t = none := rfl
      obtain ⟨hfrozen, hcount, hram, htotal⟩ := World.sessionBegin_new hfree
      refine ⟨?_, ?_, htotal⟩
      · rw [hfrozen, hcount]
        exact hnone.new rfl
      · rw [MemorySession.ramInUse, hcount, hram]
        rfl

/-- `begin` changes nothing in what is reserved. -/
theorem World.sessionBegin_held
    (h : Counts w.session.frozen w.session.unfrozenThreadsCount) :
    (Phase.ready (w.sessionBegin t)).held = (Phase.ready w).held ∧
      (Phase.ready (w.sessionBegin t)).Counted := by
  cases ht : w.session.frozen t with
  | some flag =>
      have hsame := World.sessionBegin_again ht
      simp only [Phase.held, Phase.Counted, hsame]
      exact ⟨trivial, h⟩
  | none =>
      obtain ⟨hfrozen, hcount, hram, htotal⟩ := World.sessionBegin_new ht
      have huse : (w.sessionBegin t).session.ramInUse = w.session.ramInUse := by
        unfold MemorySession.ramInUse
        simp only [hcount, withNew_eq_zero_iff, hram]
      constructor
      · simp only [Phase.held, huse, htotal]
      · simp only [Phase.Counted, hfrozen, hcount]
        exact h.new ht

end Sessions

section Steps

variable {m m' : Manager} {phase phase' : Phase} {i : ℕ} {what : PhaseStep}
  {w : World} {t : ThreadId}

theorem amounts_add_ram (total bytes : ℕ) (other : Resource) :
    amounts bytes total other = amounts 0 total other + if other = .ram then bytes else 0 := by
  cases other with
  | ram => exact (Nat.zero_add bytes).symm
  | total => rfl

theorem amounts_add_total (ram bytes : ℕ) (other : Resource) :
    amounts ram bytes other = amounts ram 0 other + if other = .total then bytes else 0 := by
  cases other with
  | ram => rfl
  | total => exact (Nat.zero_add bytes).symm

/-- The constructor has reserved the RAM as well. -/
theorem held_construct (start : SessionStart) :
    (Phase.ready start.construct).held = amounts start.ramLimitBytes start.totalLimitBytes := by
  obtain ⟨-, hram, htotal⟩ := start.construct_spec
  rw [Phase.held, hram, htotal]

/-- The RAM stays in use when a thread freezes the session; the last one is about to free it. -/
theorem Phase.freeze_balances {last : Bool} {w' : World} (hsmall : ∀ r, m.reserved r < 2 ^ 64)
    (hcounts : Counts w.session.frozen w.session.unfrozenThreadsCount)
    (hfreeze : w.sessionFreeze t = .ok (last, w')) :
    Balances m (.ready w) m (if last then .freezing w' else .ready w') := by
  obtain ⟨-, rfl, rfl⟩ | ⟨hfrozen, hflags, hcount, hram, htotal, hlast⟩ :=
    World.sessionFreeze_ok hfreeze
  · exact .of_same hsmall (fun _ => rfl) rfl hcounts
  · have hafter : Counts w'.session.frozen w'.session.unfrozenThreadsCount := by
      rw [hflags, hcount]
      exact hcounts.flip hfrozen
    -- The thread was unfrozen, so the session was not completely frozen.
    have huse : w.session.ramInUse = w.session.ramLimitBytes :=
      MemorySession.ramInUse_of_ne (hcounts.pos hfrozen).ne'
    cases last with
    | true =>
        refine .of_same hsmall (fun _ => rfl) ?_ ⟨hafter, hlast.mp rfl⟩
        simp only [if_true]
        rw [Phase.held, Phase.held, huse, hram, htotal]
    | false =>
        have hsome : w'.session.unfrozenThreadsCount ≠ 0 := fun hzero =>
          Bool.false_ne_true (hlast.mpr hzero)
        refine .of_same hsmall (fun _ => rfl) ?_ hafter
        simp only [Bool.false_eq_true, if_false]
        rw [Phase.held, Phase.held, huse, MemorySession.ramInUse_of_ne hsome, hram, htotal]

/-- The count goes from 0 to 1: the RAM that is reserved is in use from here on. -/
theorem Phase.unfreeze_balances {w' : World} (hsmall : ∀ r, m.reserved r < 2 ^ 64)
    (hcounted : (Phase.unfrozen t w).Counted) (hunfreeze : w.sessionUnfreeze t = .ok w') :
    Balances m (.unfrozen t w) m (.ready w') := by
  obtain ⟨hcounts, hzero, hfrozen⟩ := hcounted
  obtain ⟨hflags, hcount, hram, htotal⟩ := World.sessionUnfreeze_ok hunfreeze
  have huse : w'.session.ramInUse = w.session.ramLimitBytes := by
    rw [MemorySession.ramInUse_of_ne (by rw [hcount, hzero]; decide), hram]
  refine .of_same hsmall (fun _ => rfl) ?_ ?_
  · rw [Phase.held, Phase.held, huse, htotal]
  · rw [Phase.Counted, hflags, hcount]
    exact hcounts.flip hfrozen

/-- **A regular step of a session moves the counters by as much as what it holds.** -/
theorem Phase.step_balances (hsmall : ∀ r, m.reserved r < 2 ^ 64)
    (hle : ∀ r, phase.held r ≤ m.reserved r) (hcounted : phase.Counted)
    (hregular : phase.Regular m i what) (hstep : phase.step m i what = some (m', phase')) :
    Balances m phase m' phase' := by
  cases Phase.moves_of_step hstep with
  | @awaitTotal start _ _ hawait =>
      exact .await hawait hsmall hregular Manager.atFront_of_head (fun _ => rfl) (fun _ => rfl) rfl
        (amounts_add_total 0 start.totalLimitBytes) trivial trivial
  | refuseRam hask =>
      -- The constructor throws and keeps its total, which is 0.
      simp only [Phase.Regular, if_pos (Manager.reserve_error hask)] at hregular
      refine .of_same hsmall (fun _ => rfl) ?_ trivial
      rw [Phase.held, Phase.held, hregular]
  | @askRam start _ _ _ hask hawait =>
      obtain ⟨hlimit, rfl⟩ := Manager.reserve_ok hask
      simp only [Phase.Regular, if_neg (not_lt.mpr hlimit)] at hregular
      refine .await hawait hsmall hregular Manager.atFront_of_enqueue Manager.reserved_queue
        Manager.limit_queue rfl ?_ trivial start.construct_spec.1
      rw [held_construct]
      exact amounts_add_ram start.totalLimitBytes start.ramLimitBytes
  | @awaitRam start _ _ hawait =>
      refine .await hawait hsmall hregular Manager.atFront_of_head (fun _ => rfl) (fun _ => rfl) rfl
        ?_ trivial start.construct_spec.1
      rw [held_construct]
      exact amounts_add_ram start.totalLimitBytes start.ramLimitBytes
  | begin w t =>
      obtain ⟨hheld, hafter⟩ := World.sessionBegin_held hcounted
      exact .of_same hsmall (fun _ => rfl) hheld hafter
  | freezeLast hfreeze | freeze hfreeze =>
      have hbalances := Phase.freeze_balances hsmall hcounted hfreeze
      exact hbalances
  | giveRam w =>
      obtain ⟨hcounts, hzero⟩ := hcounted
      refine .of_free hsmall hle ?_ hcounts
      rw [Phase.held, Phase.held, MemorySession.ramInUse_of_zero hzero]
      exact amounts_add_ram w.session.totalLimitBytes w.session.ramLimitBytes
  | unfreezeStays timed hbegun | tryStays hbegun => exact .of_same hsmall (fun _ => rfl) rfl hcounted
  | @unfreezeAsks w t timed _ _ _ hfrozen hzero hask hawait =>
      obtain ⟨hlimit, rfl⟩ := Manager.reserve_ok hask
      refine .await hawait hsmall (hregular hfrozen hzero hlimit) Manager.atFront_of_enqueue
        Manager.reserved_queue Manager.limit_queue ?_ ?_ ⟨hcounted, hzero, hfrozen⟩
        ⟨hcounted, hzero, hfrozen⟩
      · rw [Phase.held, Phase.held, MemorySession.ramInUse_of_zero hzero]
      · rw [Phase.held, Phase.held, MemorySession.ramInUse_of_zero hzero]
        exact amounts_add_ram w.session.totalLimitBytes w.session.ramLimitBytes
  | @awaitUnfreeze w t timed _ _ hawait =>
      exact .await hawait hsmall hregular Manager.atFront_of_head (fun _ => rfl) (fun _ => rfl) rfl
        (amounts_add_ram w.session.totalLimitBytes w.session.ramLimitBytes) hcounted hcounted
  | timeOut t w =>
      refine .of_same hsmall Manager.reserved_queue ?_ hcounted.1
      rw [Phase.held, Phase.held, MemorySession.ramInUse_of_zero hcounted.2.1]
  | @tryGets w t _ hfrozen hzero htry =>
      obtain ⟨hlimit, ⟨hnone, -⟩ | ⟨hsome, hfits⟩⟩ := Manager.tryReserve_ok htry
      · cases hnone
      · cases hsome
        refine .of_add hsmall (hregular hfrozen hzero hlimit hfits) (fun _ => rfl) ?_
          ⟨hcounted, hzero, hfrozen⟩
        rw [Phase.held, Phase.held, MemorySession.ramInUse_of_zero hzero]
        exact amounts_add_ram w.session.totalLimitBytes w.session.ramLimitBytes
  | unfreeze hunfreeze => exact Phase.unfreeze_balances hsmall hcounted hunfreeze
  | destroy w =>
      -- The RAM is given back when the destructor goes on.
      refine .of_free hsmall hle ?_ hregular
      exact amounts_add_total w.session.ramInUse w.session.totalLimitBytes
  | destroyed w =>
      refine .of_free hsmall hle ?_ trivial
      rw [Phase.held, Phase.held, MemorySession.ramInUse_of_imp hcounted]
      exact amounts_add_ram 0 w.session.ramLimitBytes

end Steps

namespace Sessions

/-- The counters are the sums of what the sessions hold. -/
structure Balanced (s : Sessions) : Prop where
  counters : ∀ r, s.manager.reserved r = (s.sessions.map fun phase => phase.held r).sum
  small : ∀ r, s.manager.reserved r < 2 ^ 64
  counted : ∀ phase ∈ s.sessions, phase.Counted

variable {s s' : Sessions} {phase : Phase} {i ram total : ℕ}

theorem step_on {phase' : Phase} {m' : Manager} {what : PhaseStep}
    (hi : s.sessions[i]? = some phase)
    (hstep : phase.step s.manager i what = some (m', phase')) :
    s.step (.on i what) = some ⟨m', s.sessions.set i phase'⟩ := by
  rw [step, hi, Option.bind_some, hstep, Option.map_some]

theorem balanced_initial (ram total : ℕ) : (initial ram total).Balanced := by
  refine ⟨?_, ?_, ?_⟩
  · intro r
    cases r <;> rfl
  · intro r
    cases r <;> exact Nat.two_pow_pos 64
  · intro phase hmem
    cases hmem

/-- No session holds more than what is counted. -/
theorem Balanced.held_le (h : s.Balanced) (hmem : phase ∈ s.sessions) (r : Resource) :
    phase.held r ≤ s.manager.reserved r := by
  rw [h.counters]
  exact List.le_sum_of_mem (List.mem_map.mpr ⟨phase, hmem, rfl⟩)

theorem Balanced.construct {start : SessionStart} (h : s.Balanced)
    (hregular : s.Regular (.construct start)) (hstep : s.step (.construct start) = some s') :
    s'.Balanced := by
  simp only [step] at hstep
  cases hreserve : s.manager.reserveTotalBytes s.sessions.length start.totalLimitBytes with
  | error what =>
      rw [hreserve] at hstep
      cases hstep
      exact h
  | ok queued =>
      rw [hreserve] at hstep
      obtain ⟨hle, rfl⟩ := Manager.reserve_ok hreserve
      dsimp only at hstep
      generalize hawait : Phase.await _ _ _ _ _ _ = result at hstep
      obtain ⟨m', phase'⟩ := result
      cases hstep
      -- Before the call there is no session, which holds as much as one that is gone.
      have hbalances : Balances s.manager .gone m' phase' :=
        .await hawait h.small (hregular hle) Manager.atFront_of_enqueue Manager.reserved_queue
          Manager.limit_queue rfl (amounts_add_total 0 start.totalLimitBytes) trivial trivial
      refine ⟨?_, hbalances.small, ?_⟩
      · intro r
        have hmoved := hbalances.counters r
        have hnothing : Phase.gone.held r = 0 := by cases r <;> rfl
        rw [hnothing, h.counters] at hmoved
        rw [List.map_append, List.map_singleton, List.sum_append, List.sum_singleton]
        exact hmoved
      · intro phase hmem
        rcases List.mem_append.mp hmem with hold | hnew
        · exact h.counted phase hold
        · rw [List.mem_singleton.mp hnew]
          exact hbalances.counted

theorem Balanced.on {what : PhaseStep} (h : s.Balanced) (hregular : s.Regular (.on i what))
    (hstep : s.step (.on i what) = some s') : s'.Balanced := by
  obtain ⟨phase, hi, hstep⟩ := Option.bind_eq_some_iff.mp hstep
  obtain ⟨⟨m', phase'⟩, hphase, rfl⟩ := Option.map_eq_some_iff.mp hstep
  have hmem := List.mem_of_getElem? hi
  -- What the session frees is part of the sum, so no counter goes below zero.
  have hbalances := Phase.step_balances h.small (h.held_le hmem) (h.counted phase hmem)
    (hregular phase hi) hphase
  refine ⟨?_, hbalances.small, ?_⟩
  · intro r
    have hsum := sum_map_set (fun phase => phase.held r) hi phase'
    have hmoved := hbalances.counters r
    rw [h.counters] at hmoved
    dsimp only at hsum ⊢
    omega
  · intro other hother
    rcases List.mem_or_eq_of_mem_set hother with hold | rfl
    · exact h.counted other hold
    · exact hbalances.counted

/-- In every run of regular steps the counters are the sums of what the sessions hold. -/
theorem balanced_of_run {actions : List SessionsStep}
    (hrun : Run step Regular (initial ram total) actions s) : s.Balanced := by
  refine hrun.invariant (P := fun _ s => s.Balanced) (balanced_initial ram total) ?_
  intro _ s s' action h hregular hstep
  cases action with
  | construct start => exact h.construct hregular hstep
  | on i what => exact h.on hregular hstep

end Sessions

namespace Phase

/-- No call on the session is between two calls of the manager. -/
def Settled : Phase → Prop
  | .reservingTotal _ | .ready _ | .unfreezing _ _ _ | .gone => True
  | .reservedTotal _ | .reservingRam _ | .freezing _ | .unfrozen _ _ | .destroying _ => False

/-- The session as its users see it, from the end of its constructor to its destructor. -/
def live? : Phase → Option World
  | .ready w | .freezing w | .unfreezing _ _ w | .unfrozen _ w => some w
  | .reservingTotal _ | .reservedTotal _ | .reservingRam _ | .destroying _ | .gone => none

/-- What a step takes from a counter. -/
def frees : Phase → PhaseStep → Option (Resource × ℕ)
  | .freezing w, .goOn | .destroying w, .goOn => some (.ram, w.session.ramLimitBytes)
  | .ready w, .destroy => some (.total, w.session.totalLimitBytes)
  | _, _ => none

variable {phase : Phase} {what : PhaseStep} {r : Resource} {bytes : ℕ}

/-- A settled session holds what it should. -/
theorem held_of_settled (hsettled : phase.Settled) (hcounted : phase.Counted) (r : Resource) :
    phase.held r =
      (phase.live?.map fun w => amounts w.session.ramInUse w.session.totalLimitBytes r).getD 0 := by
  cases phase with
  | ready w => rfl
  | unfreezing t timed w =>
      rw [held, live?, Option.map_some, Option.getD_some,
        MemorySession.ramInUse_of_zero hcounted.2.1]
  | reservingTotal start | gone => cases r <;> rfl
  | reservedTotal start | reservingRam start | freezing w | unfrozen t w | destroying w =>
      cases hsettled

/-- A session has as much as it frees. -/
theorem frees_le_held (hcounted : phase.Counted) (h : phase.frees what = some (r, bytes)) :
    bytes ≤ phase.held r := by
  cases phase with
  | freezing w =>
      cases what <;> cases h
      exact le_rfl
  | destroying w =>
      cases what <;> cases h
      exact (MemorySession.ramInUse_of_imp hcounted).ge
  | ready w =>
      cases what <;> cases h
      exact le_rfl
  | _ => cases what <;> cases h

end Phase

namespace Sessions

variable {s : Sessions} {ram total : ℕ}

/-- The sessions that are constructed and not destroyed. -/
def live (s : Sessions) : List World := s.sessions.filterMap Phase.live?

/-- The counters of the manager match the sessions: also in the middle of a call they are what
the sessions hold, no call frees more than there is, and where no session is between two calls
of the manager they are the limits of the live sessions, for the RAM of those that are not
completely frozen. -/
structure Matches (s : Sessions) : Prop where
  held : ∀ r, s.manager.reserved r = (s.sessions.map fun phase => phase.held r).sum
  ram : (∀ phase ∈ s.sessions, phase.Settled) →
    s.manager.ramReservedBytes = (s.live.map fun w => w.session.ramInUse).sum
  total : (∀ phase ∈ s.sessions, phase.Settled) →
    s.manager.totalReservedBytes = (s.live.map fun w => w.session.totalLimitBytes).sum
  gone : (∀ phase ∈ s.sessions, phase = .gone) →
    s.manager.ramReservedBytes = 0 ∧ s.manager.totalReservedBytes = 0
  free : ∀ phase ∈ s.sessions, ∀ what r bytes, phase.frees what = some (r, bytes) →
    bytes ≤ s.manager.reserved r

/-- What settled sessions hold is what the live ones should. -/
theorem Balanced.settled (h : s.Balanced) (hsettled : ∀ phase ∈ s.sessions, phase.Settled)
    (r : Resource) :
    s.manager.reserved r =
      (s.live.map fun w => amounts w.session.ramInUse w.session.totalLimitBytes r).sum := by
  rw [h.counters, live]
  have hcounted := h.counted
  -- By induction on the list of phases; one that is not live holds nothing.
  generalize s.sessions = phases at hsettled hcounted
  induction phases with
  | nil => rfl
  | cons phase rest ih =>
      rw [List.forall_mem_cons] at hsettled hcounted
      rw [List.map_cons, List.sum_cons, ih hsettled.2 hcounted.2, List.filterMap_cons,
        phase.held_of_settled hsettled.1 hcounted.1]
      cases phase.live? with
      | none => exact Nat.zero_add _
      | some w => rw [Option.map_some, Option.getD_some, List.map_cons, List.sum_cons]

/-- A session of 4 bytes of RAM and 8 in total that is begun on one thread and frozen there. -/
theorem frozen_run : ∃ actions, ∃ w : World,
    (w.session.unfrozenThreadsCount = 0 ∧ w.session.ramLimitBytes = 4 ∧
      w.session.totalLimitBytes = 8) ∧
    Run step Regular (initial 10 20) actions ⟨⟨0, 8, 10, 20, []⟩, [.ready w]⟩ := by
  let start : SessionStart := ⟨4, 8, some 0⟩
  have hfreeze : ∃ w, start.construct.sessionFreeze 0 = .ok (true, w) := by
    unfold World.sessionFreeze
    exact ⟨_, by
      change (World.freezeEach 0 (Finset.sort {0} (· ≤ ·)) _ >>= _) = _
      rw [Finset.sort_singleton]
      rfl⟩
  obtain ⟨w, hfreeze⟩ := hfreeze
  obtain ⟨-, h, -⟩ | ⟨-, -, -, hram, htotal, hlast⟩ := World.sessionFreeze_ok hfreeze
  · cases h
  · have hram : w.session.ramLimitBytes = 4 := hram
    have hreserved : Run step Regular (initial 10 20) [.construct start]
        ⟨⟨0, 8, 10, 20, []⟩, [.reservedTotal start]⟩ :=
      .step .start (fun _ _ _ => by decide) rfl
    have hready : Run step Regular (initial 10 20) [.construct start, .on 0 .goOn]
        ⟨⟨4, 8, 10, 20, []⟩, [.ready start.construct]⟩ := by
      refine .step hreserved ?_ rfl
      rintro phase ⟨⟩ - -
      decide
    have hfreezing : Run step Regular (initial 10 20)
        [.construct start, .on 0 .goOn, .on 0 (.freeze 0)]
        ⟨⟨4, 8, 10, 20, []⟩, [.freezing w]⟩ := by
      refine .step hready ?_ (step_on rfl ?_)
      · rintro phase ⟨⟩
        trivial
      · rw [Phase.step, hfreeze]
    refine ⟨[.construct start, .on 0 .goOn, .on 0 (.freeze 0), .on 0 .goOn], w,
      ⟨hlast.mp rfl, hram, htotal⟩, .step hfreezing ?_ (step_on rfl ?_)⟩
    · rintro phase ⟨⟩
      trivial
    · rw [Phase.step, hram, show Manager.freeRamBytes ⟨4, 8, 10, 20, []⟩ 4 = ⟨0, 8, 10, 20, []⟩ by
        decide]

/-- **The counters of the manager match the sessions in every run in which no session with RAM is
destroyed while it is completely frozen, no constructor throws after it has reserved a total, and
no request is granted that makes a counter wrap around.** -/
theorem reservation_matches {actions : List SessionsStep}
    (hrun : Run step Regular (initial ram total) actions s) : s.Matches := by
  have h := balanced_of_run hrun
  refine ⟨h.counters, fun hsettled => h.settled hsettled .ram,
    fun hsettled => h.settled hsettled .total, ?_, ?_⟩
  · intro hgone
    have hnothing : ∀ r, s.manager.reserved r = 0 := by
      intro r
      rw [h.counters, List.sum_eq_zero]
      intro bytes hmem
      obtain ⟨phase, hphase, rfl⟩ := List.mem_map.mp hmem
      rw [hgone phase hphase]
      cases r <;> rfl
    exact ⟨hnothing .ram, hnothing .total⟩
  · intro phase hmem what r bytes hfrees
    exact (Phase.frees_le_held (h.counted phase hmem) hfrees).trans (h.held_le hmem r)

/-- The frozen session has given its RAM back and keeps its total. -/
theorem reservation_matches_frozen : ∃ w : World,
    w.session.unfrozenThreadsCount = 0 ∧
      Sessions.Matches ⟨⟨0, 8, 10, 20, []⟩, [.ready w]⟩ := by
  obtain ⟨actions, w, ⟨hzero, -, -⟩, hrun⟩ := frozen_run
  exact ⟨w, hzero, reservation_matches hrun⟩

/-- When it is destroyed now, it gives the RAM back once more, and the counter wraps around. -/
theorem frozen_session_frees_twice :
    ∃ actions s, Run step anyAction (initial 10 20) actions s ∧
      (∀ phase ∈ s.sessions, phase = .gone) ∧ s.manager.ramReservedBytes = 2 ^ 64 - 4 ∧
      ¬ s.Matches := by
  obtain ⟨actions, w, ⟨-, hram, htotal⟩, hrun⟩ := frozen_run
  have hdestroying : Run step anyAction (initial 10 20) (actions ++ [.on 0 .destroy])
      ⟨⟨0, 0, 10, 20, []⟩, [.destroying w]⟩ := by
    refine .step (hrun.mono fun _ _ _ => trivial) trivial (step_on rfl ?_)
    rw [Phase.step, htotal, show Manager.freeTotalBytes ⟨0, 8, 10, 20, []⟩ 8 = ⟨0, 0, 10, 20, []⟩ by
      decide]
  have hgone : Run step anyAction (initial 10 20)
      (actions ++ [.on 0 .destroy] ++ [.on 0 .goOn]) ⟨⟨2 ^ 64 - 4, 0, 10, 20, []⟩, [.gone]⟩ := by
    refine .step hdestroying trivial (step_on rfl ?_)
    rw [Phase.step, hram,
      show Manager.freeRamBytes ⟨0, 0, 10, 20, []⟩ 4 = ⟨2 ^ 64 - 4, 0, 10, 20, []⟩ by decide]
  have hall : ∀ phase ∈ [Phase.gone], phase = .gone := fun _ => List.mem_singleton.mp
  refine ⟨_, _, hgone, hall, rfl, ?_⟩
  intro hmatches
  exact absurd (hmatches.gone hall).1 (by decide)

end Sessions

end MemoryManager
end CoherentDB
