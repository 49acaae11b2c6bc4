import CoherentDB.MemoryManager.SessionLifetime

/-!
# What a session takes from the manager and gives back

The constructor of a session reserves its total and then its RAM; the destructor frees
the two limits as they are then.  Two things can go wrong between them:

* the constructor throws when the RAM is above the limit of the manager, and what it has
  reserved of the total stays reserved, since no destructor runs
  (`failed_construction_iff`);
* `set_ram_limit_bytes` and `set_total_limit_bytes` store a new limit and tell the
  manager nothing, so that the destructor frees another amount than was reserved
  (`limit_changes_balanced_iff`).

`Manager.construct` is the constructor where no other thread uses the manager during the
call.  `Constructing` cuts it into its sections under the mutex of the manager, between
which others may do anything.
-/

namespace CoherentDB
namespace MemoryManager

open MachineInt

namespace SessionStart

/-- The starting limit of a resource. -/
def limit (start : SessionStart) : Resource → ℕ
  | .ram => start.ramLimitBytes
  | .total => start.totalLimitBytes

end SessionStart

/-- How a call of the constructor ends, or that it waits for other threads. -/
inductive Constructed
  | threw (what : String)
  | waits
  | done (w : World)

/-- The constructor of a session that waits on `i`, with the manager to itself. -/
def Manager.construct (m : Manager) (i : ConditionVariable) (start : SessionStart) :
    Constructed × Manager :=
  match m.reserveTotalBytes i start.totalLimitBytes with
  | .error what => (.threw what, m)
  | .ok m₁ =>
      match m₁.test .total i start.totalLimitBytes with
      | none => (.waits, m₁)
      | some m₂ =>
          match m₂.reserveRamBytes i start.ramLimitBytes with
          | .error what => (.threw what, m₂)
          | .ok m₃ =>
              match m₃.test .ram i start.ramLimitBytes with
              | none => (.waits, m₃)
              | some m₄ => (.done start.construct, m₄)

/-- The sections of the constructor under the mutex of the manager, each with the manager
before and after it, and where the call stands after them. -/
inductive Constructing (i : ConditionVariable) (start : SessionStart) :
    List (Manager × Manager) → Phase → Prop
  | refused {m : Manager} {what : String}
      (h : m.reserveTotalBytes i start.totalLimitBytes = .error what) :
      Constructing i start [(m, m)] .gone
  | entered {m m₁ m' : Manager} {phase : Phase}
      (h : m.reserveTotalBytes i start.totalLimitBytes = .ok m₁)
      (hawait : Phase.await m₁ .total i start.totalLimitBytes (.reservingTotal start)
        (.reservedTotal start) = (m', phase)) :
      Constructing i start [(m, m')] phase
  | next {sections : List (Manager × Manager)} {phase phase' : Phase} {m m' : Manager}
      {what : PhaseStep} (h : Constructing i start sections phase)
      (hwhat : what = .test ∨ what = .goOn) (hstep : phase.step m i what = some (m', phase')) :
      Constructing i start (sections ++ [(m, m')]) phase'

/-- The sections together change neither counter, and take as much out of the queue as they
put into it. -/
structure ReservesNothing (sections : List (Manager × Manager)) : Prop where
  counters : ∀ r, (sections.map fun s => s.2.reserved r).sum =
    (sections.map fun s => s.1.reserved r).sum
  queue : (sections.flatMap fun s => s.2.unfreezeQueue).Perm
    (sections.flatMap fun s => s.1.unfreezeQueue)

/-- The total is refused, or nothing of it is asked for. -/
def TakesNoTotal (m : Manager) (start : SessionStart) : Prop :=
  m.limit .total < start.totalLimitBytes ∨ start.totalLimitBytes = 0

section Failing

variable {m m' : Manager} {i : ConditionVariable} {start : SessionStart} {phase : Phase}
  {sections : List (Manager × Manager)}

theorem Manager.reserved_add_eq_iff {r : Resource} {bytes : ℕ} (hsmall : m.reserved r < 2 ^ 64)
    (hbytes : bytes < 2 ^ 64) : (m.add r bytes).reserved r = m.reserved r ↔ bytes = 0 := by
  rw [Manager.add, Manager.reserved_setReserved, if_pos rfl, addWrap]
  omega

theorem TakesNoTotal.iff_zero (hle : start.totalLimitBytes ≤ m.limit .total) :
    TakesNoTotal m start ↔ start.totalLimitBytes = 0 :=
  or_iff_right (not_lt.mpr hle)

/-- A call that gets through at once found the queue empty. -/
theorem Manager.test_enqueued {r : Resource} {bytes : ℕ} (hnew : i ∉ m.unfreezeQueue)
    (h : Manager.test { m with unfreezeQueue := m.unfreezeQueue ++ [i] } r i bytes = some m') :
    m' = m.add r bytes ∧ m.fits r bytes := by
  obtain ⟨hhead, hfits, rfl⟩ := Manager.test_some h
  rw [Manager.fits_queue] at hfits
  have hempty : m.unfreezeQueue = [] := by
    cases hqueue : m.unfreezeQueue with
    | nil => rfl
    | cons first rest =>
        simp only [hqueue, List.cons_append, List.head?_cons, Option.some.injEq] at hhead
        rw [hqueue] at hnew
        exact absurd (hhead ▸ List.mem_cons_self) hnew
  refine ⟨?_, hfits⟩
  rw [Manager.add_queue]
  apply Manager.queue_self
  rw [Manager.unfreezeQueue_add]
  simp [hempty]

/-- **A constructor that throws, with the manager to itself.** -/
theorem Manager.construct_threw {what : String} (hsmall : m.reserved .total < 2 ^ 64)
    (hstart : start.totalLimitBytes < 2 ^ 64) (hnew : i ∉ m.unfreezeQueue)
    (h : m.construct i start = (.threw what, m')) : m' = m ↔ TakesNoTotal m start := by
  unfold Manager.construct at h
  split at h
  · next what' hrefused =>
    cases h
    exact iff_of_true rfl (Or.inl (Manager.reserve_error hrefused))
  · next m₁ hreserve =>
    obtain ⟨hle, rfl⟩ := Manager.reserve_ok hreserve
    split at h
    · cases h
    · next m₂ htest =>
      obtain ⟨rfl, -⟩ := Manager.test_enqueued hnew htest
      split at h
      · cases h
        rw [TakesNoTotal.iff_zero hle, ← Manager.reserved_add_eq_iff hsmall hstart]
        constructor
        · intro heq
          rw [heq]
        · intro heq
          obtain ⟨ramReserved, totalReserved, ramLimit, totalLimit, queue⟩ := m
          exact congrArg (Manager.mk ramReserved · ramLimit totalLimit queue) heq
      · split at h
        · cases h
        · cases h

/-- The call stands in the queue for its total. -/
structure TotalAwaited (i : ConditionVariable) (start : SessionStart)
    (sections : List (Manager × Manager)) : Prop where
  allowed : ∀ first ∈ sections.head?, start.totalLimitBytes ≤ first.1.limit .total
  counters : ∀ r, (sections.map fun s => s.2.reserved r).sum =
    (sections.map fun s => s.1.reserved r).sum
  queue : (sections.flatMap fun s => s.2.unfreezeQueue).Perm
    (i :: sections.flatMap fun s => s.1.unfreezeQueue)

/-- One of the sections has added the total to its counter, and the call is out of the queue. -/
structure TotalTaken (start : SessionStart) (sections : List (Manager × Manager)) : Prop where
  allowed : ∀ first ∈ sections.head?, start.totalLimitBytes ≤ first.1.limit .total
  counters : ∃ s ∈ sections, ∀ r,
    (sections.map fun s => s.2.reserved r).sum + s.1.reserved r =
      (sections.map fun s => s.1.reserved r).sum +
        (s.1.add .total start.totalLimitBytes).reserved r
  queue : (sections.flatMap fun s => s.2.unfreezeQueue).Perm
    (sections.flatMap fun s => s.1.unfreezeQueue)

/-- A section that changes nothing. -/
theorem TotalAwaited.same (h : TotalAwaited i start sections) (m : Manager)
    (hne : sections ≠ []) : TotalAwaited i start (sections ++ [(m, m)]) := by
  refine ⟨?_, fun r => ?_, ?_⟩
  · rw [List.head?_append_of_ne_nil _ hne]
    exact h.allowed
  · simp only [List.map_append, List.sum_append, h.counters r, List.map_singleton]
  · simp only [List.flatMap_append, List.flatMap_singleton]
    exact h.queue.append_right _

theorem TotalTaken.same (h : TotalTaken start sections) (m : Manager) (hne : sections ≠ []) :
    TotalTaken start (sections ++ [(m, m)]) := by
  obtain ⟨s, hs, hcounters⟩ := h.counters
  refine ⟨?_, ⟨s, List.mem_append_left _ hs, fun r => ?_⟩, ?_⟩
  · rw [List.head?_append_of_ne_nil _ hne]
    exact h.allowed
  · have hr := hcounters r
    simp only [List.map_append, List.sum_append, List.map_singleton, List.sum_singleton]
    omega
  · simp only [List.flatMap_append, List.flatMap_singleton]
    exact h.queue.append_right _

/-- The section in which a waiting call gets its total. -/
theorem TotalAwaited.granted (h : TotalAwaited i start sections) (hne : sections ≠ [])
    (htest : m.test .total i start.totalLimitBytes = some m') :
    TotalTaken start (sections ++ [(m, m')]) := by
  obtain ⟨hhead, -, rfl⟩ := Manager.test_some htest
  refine ⟨?_, ⟨(m, _), List.mem_append_right _ (List.mem_singleton_self _), fun r => ?_⟩, ?_⟩
  · rw [List.head?_append_of_ne_nil _ hne]
    exact h.allowed
  · simp only [List.map_append, List.sum_append, h.counters r, List.map_singleton,
      List.sum_singleton, Manager.reserved_queue]
    omega
  · simp only [List.flatMap_append, List.flatMap_singleton]
    obtain ⟨rest, hrest⟩ := List.head?_eq_some_iff.mp hhead
    rw [hrest, List.tail_cons]
    exact (h.queue.append_right rest).trans List.perm_middle.symm

/-- The first section, where it finds the total granted at once. -/
theorem TotalTaken.atOnce (hle : start.totalLimitBytes ≤ m.limit .total)
    (htest : Manager.test { m with unfreezeQueue := m.unfreezeQueue ++ [i] } .total i
      start.totalLimitBytes = some m') : TotalTaken start [(m, m')] := by
  obtain ⟨hhead, -, rfl⟩ := Manager.test_some htest
  refine ⟨?_, ⟨(m, _), List.mem_singleton_self _, fun r => ?_⟩, ?_⟩
  · rintro first ⟨⟩
    exact hle
  · simp only [List.map_singleton, List.sum_singleton, Manager.add_queue, Manager.reserved_queue]
    omega
  · simp only [List.flatMap_singleton]
    obtain ⟨rest, hrest⟩ := List.head?_eq_some_iff.mp hhead
    dsimp only at hrest
    have hperm : (i :: m.unfreezeQueue).Perm (i :: rest) := by
      rw [← hrest]
      exact (List.perm_append_singleton i m.unfreezeQueue).symm
    rw [hrest, List.tail_cons]
    exact hperm.cons_inv.symm

/-- What the sections up to a phase of the constructor have done. -/
def SectionsDone (i : ConditionVariable) (start : SessionStart)
    (sections : List (Manager × Manager)) : Phase → Prop
  | .reservingTotal start' => start' = start ∧ TotalAwaited i start sections
  | .reservedTotal start' => start' = start ∧ TotalTaken start sections
  | .reservingRam _ | .ready _ => True
  | .gone => (∃ m, sections = [(m, m)] ∧ m.limit .total < start.totalLimitBytes) ∨
      TotalTaken start sections
  | _ => False

/-- **The constructor, section by section.** -/
theorem Constructing.done (h : Constructing i start sections phase) :
    sections ≠ [] ∧ SectionsDone i start sections phase := by
  induction h with
  | refused h => exact ⟨List.cons_ne_nil _ _, Or.inl ⟨_, rfl, Manager.reserve_error h⟩⟩
  | @entered m m₁ m' phase h hawait =>
      refine ⟨List.cons_ne_nil _ _, ?_⟩
      obtain ⟨hle, rfl⟩ := Manager.reserve_ok h
      rcases Phase.await_cases hawait with ⟨-, rfl, rfl⟩ | ⟨htest, rfl⟩
      · refine ⟨rfl, ?_, fun r => ?_, ?_⟩
        · rintro first ⟨⟩
          exact hle
        · simp
        · simp
      · exact ⟨rfl, .atOnce hle htest⟩
  | @next sections phase phase' m m' what h hwhat hstep ih =>
      obtain ⟨hne, hdone⟩ := ih
      refine ⟨by simp, ?_⟩
      cases Phase.moves_of_step hstep with
      | awaitTotal hawait =>
          obtain ⟨rfl, hawaited⟩ := hdone
          rcases Phase.await_cases hawait with ⟨-, rfl, rfl⟩ | ⟨htest, rfl⟩
          · exact ⟨rfl, hawaited.same m' hne⟩
          · exact ⟨rfl, hawaited.granted hne htest⟩
      | refuseRam hask => exact Or.inr (hdone.2.same m hne)
      | askRam hask hawait | awaitRam hawait =>
          rcases Phase.await_cases hawait with ⟨-, -, rfl⟩ | ⟨-, rfl⟩
          · trivial
          · trivial
      | giveRam | awaitUnfreeze | unfreeze | destroyed => exact hdone.elim
      | _ => rcases hwhat with hwhat | hwhat <;> cases hwhat

/-- **A constructor that throws while others use the manager.** -/
theorem Constructing.reservesNothing_iff (h : Constructing i start sections .gone)
    (hsmall : ∀ s ∈ sections, s.1.reserved .total < 2 ^ 64)
    (hstart : start.totalLimitBytes < 2 ^ 64) :
    ReservesNothing sections ↔ ∀ first ∈ sections.head?, TakesNoTotal first.1 start := by
  obtain ⟨hne, ⟨m, rfl, hlimit⟩ | htaken⟩ := h.done
  · refine iff_of_true ⟨fun _ => rfl, .refl _⟩ ?_
    rintro first ⟨⟩
    exact Or.inl hlimit
  · obtain ⟨s, hs, hcounters⟩ := htaken.counters
    have hzero : (∀ first ∈ sections.head?, TakesNoTotal first.1 start) ↔
        start.totalLimitBytes = 0 := by
      obtain ⟨first, hfirst⟩ := Option.ne_none_iff_exists'.mp (mt List.head?_eq_none_iff.mp hne)
      have hle := htaken.allowed first hfirst
      simp only [hfirst, Option.mem_some_iff, forall_eq', TakesNoTotal.iff_zero hle]
    rw [hzero, ← Manager.reserved_add_eq_iff (hsmall s hs) hstart]
    constructor
    · intro hnothing
      have htotal := hcounters .total
      rw [hnothing.counters .total] at htotal
      omega
    · intro hsame
      refine ⟨fun r => ?_, htaken.queue⟩
      have hr := hcounters r
      cases r with
      | total => omega
      | ram =>
          have hram : (s.1.add .total start.totalLimitBytes).reserved .ram = s.1.reserved .ram := rfl
          omega

end Failing

/-- **When a failed construction reserves nothing.**  A constructor that throws leaves the
manager as it was if and only if it throws for the total, or its total is zero; this holds
where it has the manager to itself, and for the sections of its own where others use the
manager in between. -/
theorem failed_construction_iff (i : ConditionVariable) (start : SessionStart)
    (hstart : start.totalLimitBytes < 2 ^ 64) :
    (∀ (m m' : Manager) (what : String), m.totalReservedBytes < 2 ^ 64 → i ∉ m.unfreezeQueue →
      m.construct i start = (.threw what, m') → (m' = m ↔ TakesNoTotal m start)) ∧
    ∀ sections : List (Manager × Manager), (∀ s ∈ sections, s.1.totalReservedBytes < 2 ^ 64) →
      Constructing i start sections .gone →
        (ReservesNothing sections ↔ ∀ first ∈ sections.head?, TakesNoTotal first.1 start) :=
  ⟨fun _ _ _ hsmall hnew h => Manager.construct_threw hsmall hstart hnew h,
    fun _ hsmall h => h.reservesNothing_iff hsmall hstart⟩

/-- The RAM is above the limit of the manager: the constructor throws, and 8 bytes of the total
stay reserved. -/
theorem failed_construction_keeps_total :
    ∃ m' what, (Manager.new 10 20).construct 0 ⟨11, 8, none⟩ = (.threw what, m') ∧
      what = "Insufficent managed ram memory left for memory allocation." ∧
      m'.totalReservedBytes = 8 ∧ m' ≠ Manager.new 10 20 :=
  ⟨_, _, rfl, rfl, rfl, by decide⟩

/-- A total above the limit is refused before anything is reserved. -/
theorem failed_construction_iff_totalRefused :
    ∃ m', (Manager.new 10 20).construct 0 ⟨11, 21, none⟩ =
        (.threw "Insufficent managed total memory left for memory allocation.", m') ∧
      m' = Manager.new 10 20 := by
  refine ⟨_, rfl, ?_⟩
  exact ((failed_construction_iff 0 ⟨11, 21, none⟩ (by decide)).1 (Manager.new 10 20) _ _ (by decide)
    (by decide) rfl).mpr (Or.inl (by decide))

namespace World

/-- The limit of a session on a resource. -/
def limit (w : World) : Resource → ℕ
  | .ram => w.session.ramLimitBytes
  | .total => w.session.totalLimitBytes

/-- `memory_session::set_ram_limit_bytes`. -/
def setRamLimitBytes (w : World) (bytes : ℕ) : World :=
  { w with session := { w.session with ramLimitBytes := bytes } }

/-- `memory_session::set_total_limit_bytes`. -/
def setTotalLimitBytes (w : World) (bytes : ℕ) : World :=
  { w with session := { w.session with totalLimitBytes := bytes } }

end World

/-- A call that changes a limit. -/
structure LimitCall where
  resource : Resource
  bytes : ℕ
  deriving DecidableEq

/-- The session after the call. -/
def LimitCall.apply (w : World) (f : LimitCall) : World :=
  match f.resource with
  | .ram => w.setRamLimitBytes f.bytes
  | .total => w.setTotalLimitBytes f.bytes

/-- The last value that the calls set for a resource, or the one before them. -/
def lastLimit (calls : List LimitCall) (r : Resource) (first : ℕ) : ℕ :=
  ((calls.filter fun f => f.resource = r).getLast?.map LimitCall.bytes).getD first

/-- The calls of the destructor to the manager. -/
def Manager.destroy (m : Manager) (w : World) : Manager :=
  (m.freeTotalBytes w.session.totalLimitBytes).freeRamBytes w.session.ramLimitBytes

/-- Destroying the session `w` takes the manager from `m₁` back to the counters of `m`, and no
counter goes below zero. -/
structure LeavesBalanced (m m₁ : Manager) (w : World) : Prop where
  counters : ∀ r, (m₁.destroy w).reserved r = m.reserved r
  total : w.session.totalLimitBytes ≤ m₁.totalReservedBytes
  ram : w.session.ramLimitBytes ≤
    (m₁.freeTotalBytes w.session.totalLimitBytes).ramReservedBytes

section Limits

variable {m m₁ : Manager} {i : ConditionVariable} {start : SessionStart} {w : World}
  {calls : List LimitCall}

theorem LimitCall.limit_apply (w : World) (f : LimitCall) (r : Resource) :
    (f.apply w).limit r = if f.resource = r then f.bytes else w.limit r := by
  obtain ⟨resource, bytes⟩ := f
  cases resource <;> cases r <;> rfl

/-- The limit in force is the last one set. -/
theorem limit_after_calls (w : World) (calls : List LimitCall) (r : Resource) :
    (calls.foldl LimitCall.apply w).limit r = lastLimit calls r (w.limit r) := by
  induction calls using List.reverseRecOn with
  | nil => rfl
  | append_singleton calls f ih =>
      rw [List.foldl_append, List.foldl_cons, List.foldl_nil, LimitCall.limit_apply, ih, lastLimit,
        lastLimit, List.filter_append]
      by_cases hr : f.resource = r
      · simp [hr]
      · simp [hr]

theorem lastLimit_lt (hcalls : ∀ f ∈ calls, f.bytes < 2 ^ 64) {r : Resource} {first : ℕ}
    (hfirst : first < 2 ^ 64) : lastLimit calls r first < 2 ^ 64 := by
  unfold lastLimit
  cases hlast : (calls.filter fun f => f.resource = r).getLast? with
  | none => exact hfirst
  | some f => exact hcalls f (List.mem_of_mem_filter (List.mem_of_getLast? hlast))

/-- Adding to a counter and taking away again, in `uint64_t`. -/
theorem balanced_counter_iff {a b c : ℕ} (ha : a < 2 ^ 64) (hb : b < 2 ^ 64) (hc : c < 2 ^ 64) :
    subWrap 64 (addWrap 64 a b) c = a ∧ c ≤ addWrap 64 a b ↔ c = b ∧ a + b < 2 ^ 64 := by
  unfold subWrap addWrap
  omega

theorem SessionStart.limit_construct (start : SessionStart) (r : Resource) :
    start.construct.limit r = start.limit r := by
  obtain ⟨ramLimitBytes, totalLimitBytes, autostart⟩ := start
  cases autostart with
  | none => cases r <;> rfl
  | some t => cases r <;> rfl

/-- What a successful constructor has reserved. -/
theorem Manager.construct_done (hnew : i ∉ m.unfreezeQueue)
    (h : m.construct i start = (.done w, m₁)) :
    w = start.construct ∧
      ∀ r, m₁.reserved r = addWrap 64 (m.reserved r) (start.limit r) := by
  unfold Manager.construct at h
  split at h
  · cases h
  · next m₁ hreserve =>
    obtain ⟨-, rfl⟩ := Manager.reserve_ok hreserve
    split at h
    · cases h
    · next m₂ htest =>
      obtain ⟨rfl, -⟩ := Manager.test_enqueued hnew htest
      split at h
      · cases h
      · next m₃ hreserve' =>
        obtain ⟨-, rfl⟩ := Manager.reserve_ok hreserve'
        split at h
        · cases h
        · next m₄ htest' =>
          obtain ⟨rfl, -⟩ := Manager.test_enqueued (by rwa [Manager.unfreezeQueue_add]) htest'
          cases h
          refine ⟨rfl, fun r => ?_⟩
          cases r <;> rfl

end Limits

/-- **When changing the limits keeps the reservation balanced.**  Constructing a session,
changing its limits and destroying it leaves the counters of the manager as they were, with
none below zero on the way, if and only if both limits are in the end what they were at the
start, and the counters did not wrap around when the session was constructed. -/
theorem limit_changes_balanced_iff (m m₁ : Manager) (i : ConditionVariable) (start : SessionStart)
    (w : World) (calls : List LimitCall) (hsmall : ∀ r, m.reserved r < 2 ^ 64)
    (hstart : ∀ r, start.limit r < 2 ^ 64) (hcalls : ∀ f ∈ calls, f.bytes < 2 ^ 64)
    (hnew : i ∉ m.unfreezeQueue) (hconstruct : m.construct i start = (.done w, m₁)) :
    LeavesBalanced m m₁ (calls.foldl LimitCall.apply w) ↔
      ∀ r, lastLimit calls r (start.limit r) = start.limit r ∧
        m.reserved r + start.limit r < 2 ^ 64 := by
  obtain ⟨rfl, hreserved⟩ := Manager.construct_done hnew hconstruct
  have hlimit : ∀ r, (calls.foldl LimitCall.apply start.construct).limit r =
      lastLimit calls r (start.limit r) := by
    intro r
    rw [limit_after_calls, start.limit_construct]
  have hcounter : ∀ r, (lastLimit calls r (start.limit r) = start.limit r ∧
      m.reserved r + start.limit r < 2 ^ 64) ↔
      subWrap 64 (m₁.reserved r) ((calls.foldl LimitCall.apply start.construct).limit r) =
        m.reserved r ∧
      (calls.foldl LimitCall.apply start.construct).limit r ≤ m₁.reserved r := by
    intro r
    rw [hlimit, hreserved,
      balanced_counter_iff (hsmall r) (hstart r) (lastLimit_lt hcalls (hstart r))]
  rw [forall_congr' hcounter]
  constructor
  · intro h r
    cases r with
    | ram => exact ⟨h.counters .ram, h.ram⟩
    | total => exact ⟨h.counters .total, h.total⟩
  · intro h
    refine ⟨fun r => ?_, (h .total).2, (h .ram).2⟩
    cases r with
    | ram => exact (h .ram).1
    | total => exact (h .total).1

/-- A RAM limit raised from 4 to 6: the destructor frees two bytes more than were reserved, and
the counter goes below zero. -/
theorem limit_changes_unbalanced :
    ∃ w m₁, (Manager.new 10 20).construct 0 ⟨4, 8, some 0⟩ = (.done w, m₁) ∧
      (m₁.destroy (w.setRamLimitBytes 6)).ramReservedBytes = 2 ^ 64 - 2 ∧
      ¬LeavesBalanced (Manager.new 10 20) m₁ (w.setRamLimitBytes 6) := by
  refine ⟨_, _, rfl, rfl, fun h => ?_⟩
  have hram := h.ram
  revert hram
  decide

/-- A limit that is raised and set back. -/
theorem limit_changes_balanced_iff_setBack :
    ∃ w m₁, (Manager.new 10 20).construct 0 ⟨4, 8, some 0⟩ = (.done w, m₁) ∧
      LeavesBalanced (Manager.new 10 20) m₁
        ([⟨.ram, 6⟩, ⟨.total, 8⟩, ⟨.ram, 4⟩].foldl LimitCall.apply w) := by
  refine ⟨_, _, rfl, ?_⟩
  refine (limit_changes_balanced_iff _ _ 0 ⟨4, 8, some 0⟩ _ _ ?_ ?_ (by decide) (by decide)
    rfl).mpr ?_
  · intro r
    cases r <;> decide
  · intro r
    cases r <;> decide
  · intro r
    cases r <;> decide

end MemoryManager
end CoherentDB
