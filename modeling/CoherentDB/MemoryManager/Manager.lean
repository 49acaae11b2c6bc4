import CoherentDB.Lib.MachineInt

/-!
# `memory_manager`

The manager counts reserved bytes of RAM and of memory in total against two limits.
The functions for the two resources are the same, so each is defined once with the
resource as a parameter.

A call of `reserve_*` or `timed_reserve_*` stands in `unfreeze_queue` with its
condition variable and tests, holding the mutex, whether it is at the front and its
request fits; while one of them fails it waits.  A call is cut where it waits:
`reserve` leads up to the loop, `test` is one test of the loop with what follows it,
and `timeOut` ends a timed call.  `free` notifies the condition variable at the front
only.
-/

namespace CoherentDB
namespace MemoryManager

open MachineInt

/-- What is reserved. -/
inductive Resource
  | ram
  | total
  deriving DecidableEq, Repr

/-- The address of a condition variable. -/
abbrev ConditionVariable := ℕ

/-- `what()` of `out_of_ram_memory` and `out_of_total_memory`. -/
def Resource.what : Resource → String
  | .ram => "Insufficent managed ram memory left for memory allocation."
  | .total => "Insufficent managed total memory left for memory allocation."

/-- The fields of `memory_manager` that its functions change, and the two limits. -/
structure Manager where
  ramReservedBytes : ℕ
  totalReservedBytes : ℕ
  ramLimitBytes : ℕ
  totalLimitBytes : ℕ
  unfreezeQueue : List ConditionVariable
  deriving DecidableEq

namespace Manager

/-- The constructor. -/
def new (ramLimitBytes totalLimitBytes : ℕ) : Manager := ⟨0, 0, ramLimitBytes, totalLimitBytes, []⟩

variable (m : Manager)

def reserved : Resource → ℕ
  | .ram => m.ramReservedBytes
  | .total => m.totalReservedBytes

def limit : Resource → ℕ
  | .ram => m.ramLimitBytes
  | .total => m.totalLimitBytes

/-- Put a new value into a counter. -/
def setReserved (n : ℕ) : Resource → Manager
  | .ram => { m with ramReservedBytes := n }
  | .total => { m with totalReservedBytes := n }

/-- Not `reserved_bytes + bytes > limit_bytes`. -/
def fits (r : Resource) (bytes : ℕ) : Prop := addWrap 64 (m.reserved r) bytes ≤ m.limit r

instance (r : Resource) (bytes : ℕ) : Decidable (m.fits r bytes) :=
  inferInstanceAs (Decidable (_ ≤ _))

/-- `reserved_bytes += bytes`. -/
def add (r : Resource) (bytes : ℕ) : Manager :=
  m.setReserved (addWrap 64 (m.reserved r) bytes) r

/-- `reserve_*_bytes` and `timed_reserve_*_bytes` up to the loop. -/
def reserve (r : Resource) (condition : ConditionVariable) (bytes : ℕ) : Except String Manager :=
  if m.limit r < bytes then .error r.what
  else .ok { m with unfreezeQueue := m.unfreezeQueue ++ [condition] }

/-- The test of the loop and what follows it; none where the call has to wait. -/
def test (r : Resource) (condition : ConditionVariable) (bytes : ℕ) : Option Manager :=
  if m.unfreezeQueue.head? ≠ some condition ∨ ¬ m.fits r bytes then none
  else some { m.add r bytes with unfreezeQueue := m.unfreezeQueue.tail }

/-- The end of `timed_reserve_*_bytes` after the wait has timed out. -/
def timeOut (condition : ConditionVariable) : Manager :=
  { m with unfreezeQueue := m.unfreezeQueue.erase condition }

/-- `try_reserve_*_bytes`; none where it returns `false`. -/
def tryReserve (r : Resource) (bytes : ℕ) : Except String (Option Manager) :=
  if m.limit r < bytes then .error r.what
  else if ¬ m.fits r bytes then .ok none
  else .ok (some (m.add r bytes))

/-- `free_*_bytes`; `unfreezeQueue.head?` is notified. -/
def free (r : Resource) (bytes : ℕ) : Manager :=
  m.setReserved (subWrap 64 (m.reserved r) bytes) r

/-- `reserve_ram_bytes`, up to its loop. -/
def reserveRamBytes := m.reserve .ram

/-- `reserve_total_bytes`, up to its loop. -/
def reserveTotalBytes := m.reserve .total

/-- `try_reserve_ram_bytes`. -/
def tryReserveRamBytes := m.tryReserve .ram

/-- `try_reserve_total_bytes`. -/
def tryReserveTotalBytes := m.tryReserve .total

/-- `free_ram_bytes`. -/
def freeRamBytes := m.free .ram

/-- `free_total_bytes`. -/
def freeTotalBytes := m.free .total

section Fields

variable {m} {r : Resource} {n bytes : ℕ} {queue : List ConditionVariable}

@[simp] theorem unfreezeQueue_setReserved :
    (m.setReserved n r).unfreezeQueue = m.unfreezeQueue := by
  cases r <;> rfl

@[simp] theorem limit_setReserved (other : Resource) :
    (m.setReserved n r).limit other = m.limit other := by
  cases r <;> cases other <;> rfl

theorem reserved_setReserved (other : Resource) :
    (m.setReserved n r).reserved other = if other = r then n else m.reserved other := by
  cases r <;> cases other <;> rfl

@[simp] theorem unfreezeQueue_add : (m.add r bytes).unfreezeQueue = m.unfreezeQueue :=
  unfreezeQueue_setReserved

@[simp] theorem unfreezeQueue_free : (m.free r bytes).unfreezeQueue = m.unfreezeQueue :=
  unfreezeQueue_setReserved

@[simp] theorem limit_add (other : Resource) : (m.add r bytes).limit other = m.limit other :=
  limit_setReserved other

@[simp] theorem limit_free (other : Resource) : (m.free r bytes).limit other = m.limit other :=
  limit_setReserved other

/-- The queue is no part of the counters. -/
@[simp] theorem reserved_queue (other : Resource) :
    reserved { m with unfreezeQueue := queue } other = m.reserved other := by
  cases other <;> rfl

@[simp] theorem limit_queue (other : Resource) :
    limit { m with unfreezeQueue := queue } other = m.limit other := by
  cases other <;> rfl

/-- The request is added to the counters, whatever the queue is. -/
theorem add_queue {queue' : List ConditionVariable} :
    { add { m with unfreezeQueue := queue } r bytes with unfreezeQueue := queue' } =
      { m.add r bytes with unfreezeQueue := queue' } := by
  cases r <;> rfl

theorem queue_self (hqueue : m.unfreezeQueue = queue) :
    { m with unfreezeQueue := queue } = m := by
  subst hqueue
  rfl

@[simp] theorem fits_queue (other : Resource) :
    fits { m with unfreezeQueue := queue } other bytes ↔ m.fits other bytes := by
  unfold fits
  rw [reserved_queue, limit_queue]

end Fields

section Specifications

variable {m} {m' : Manager} {r : Resource} {condition : ConditionVariable} {bytes : ℕ}

theorem reserve_ok (h : m.reserve r condition bytes = .ok m') :
    bytes ≤ m.limit r ∧ m' = { m with unfreezeQueue := m.unfreezeQueue ++ [condition] } := by
  unfold reserve at h
  split_ifs at h with hlimit
  cases h
  exact ⟨not_lt.mp hlimit, rfl⟩

theorem reserve_error {what : String} (h : m.reserve r condition bytes = .error what) :
    m.limit r < bytes := by
  unfold reserve at h
  split_ifs at h with hlimit
  exact hlimit

theorem test_some (h : m.test r condition bytes = some m') :
    m.unfreezeQueue.head? = some condition ∧ m.fits r bytes ∧
      m' = { m.add r bytes with unfreezeQueue := m.unfreezeQueue.tail } := by
  unfold test at h
  split_ifs at h with hblocked
  rw [not_or, not_not, not_not] at hblocked
  exact ⟨hblocked.1, hblocked.2, (Option.some.inj h).symm⟩

theorem test_none (h : m.test r condition bytes = none) :
    m.unfreezeQueue.head? ≠ some condition ∨ ¬ m.fits r bytes := by
  unfold test at h
  split_ifs at h with hblocked
  exact hblocked

theorem tryReserve_ok {result : Option Manager} (h : m.tryReserve r bytes = .ok result) :
    bytes ≤ m.limit r ∧ ((result = none ∧ ¬ m.fits r bytes) ∨
      (result = some (m.add r bytes) ∧ m.fits r bytes)) := by
  unfold tryReserve at h
  split_ifs at h with hlimit hfits
  · cases h
    exact ⟨not_lt.mp hlimit, Or.inr ⟨rfl, hfits⟩⟩
  · cases h
    exact ⟨not_lt.mp hlimit, Or.inl ⟨rfl, hfits⟩⟩

/-- A request that fits is added to its counter, where the sum does not wrap. -/
theorem reserved_add (hsum : m.reserved r + bytes < 2 ^ 64) (other : Resource) :
    (m.add r bytes).reserved other =
      m.reserved other + if other = r then bytes else 0 := by
  rw [add, reserved_setReserved, addWrap_of_lt hsum]
  split_ifs with hsame
  · rw [hsame]
  · rfl

/-- What is freed is taken from its counter, where there is as much. -/
theorem reserved_free (hle : bytes ≤ m.reserved r) (hlt : m.reserved r < 2 ^ 64)
    (other : Resource) :
    (m.free r bytes).reserved other =
      m.reserved other - if other = r then bytes else 0 := by
  rw [free, reserved_setReserved, subWrap_of_le hle hlt]
  split_ifs with hsame
  · rw [hsame]
  · rfl

end Specifications

end Manager

end MemoryManager
end CoherentDB
