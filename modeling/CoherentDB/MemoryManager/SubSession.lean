import CoherentDB.Debug.Asserts
import CoherentDB.Lib.OrderedTable
import CoherentDB.MemoryManager.Kernel

/-!
# `memory_sub_session`: state and private allocation functions

A sub-session keeps four containers.  `allocs` maps the start of every region
obtained from `mmap` to its length; `smallAllocs` holds the small blocks handed
out, `freeSmallChunks` the free chunks by address and `freeSmallChunksInv` the
same chunks by size.  The functions follow `sub_session.cpp` one by one.  Two
helpers are cut out of `add_merge_remove_free_small_chunk`: `mergePrevious` is
its first half, `mergeNext` its second.

Sizes and counters have type `size_t`, so additions and subtractions wrap at
`2 ^ 64`.  A failed `d_assert` and a thrown exception end a call with a
`Failure`; every exception of these functions is thrown before the first
change, so a failed call leaves the state as it was.
-/

namespace CoherentDB
namespace MemoryManager

open Debug Containers MachineInt

/-- Identity of a thread. -/
abbrev ThreadId := ℕ

/-- Identity of a sub-session object, the model of a `memory_sub_session*`. -/
abbrev SubSessionId := ℕ

/-- `std::map` from addresses, as its pairs. -/
abbrev AddressMap := OrderedTable (ℕ × ℕ) Prod.fst

/-- `std::set` of pairs. -/
abbrev PairSet := OrderedTable (ℕ × ℕ) (⇑toLex : ℕ × ℕ → ℕ ×ₗ ℕ)

/-- How a call can end without a result. -/
inductive Failure
  | assertion
  | badAlloc
  | outOfSessionRamMemory
  | outOfSessionTotalMemory
  deriving DecidableEq, Repr

/-- `d_assert`. -/
def dAssert (condition : Prop) [Decidable condition] : Except Failure Unit :=
  Debug.dAssertElse .assertion condition

theorem dAssert_of {condition : Prop} [Decidable condition] (h : condition) :
    dAssert condition = .ok () :=
  Debug.dAssertElse_of h

theorem dAssert_bind_ok {α : Type} {condition : Prop} [Decidable condition]
    {next : Unit → Except Failure α} {x : α} (h : (dAssert condition >>= next) = .ok x) :
    condition ∧ next () = .ok x :=
  Debug.dAssertElse_bind_ok h

/-- The fields of `memory_session`. -/
structure MemorySession where
  frozen : ThreadId → Option Bool
  unfrozenThreadsCount : ℤ
  ramLimitBytes : ℕ
  totalLimitBytes : ℕ
  ramAllocatedBytes : ℕ
  totalAllocatedBytes : ℕ
  allocs : AddressMap
  defaultSubSession : SubSessionId
  subSessions : Finset SubSessionId

/-- The fields of `memory_sub_session`; the parent is the one session of the model. -/
structure MemorySubSession where
  frozen : ThreadId → Option Bool
  unfrozenThreadsCount : ℤ
  allocatedBytes : ℕ
  allocs : AddressMap
  smallAllocs : PairSet
  freeSmallChunks : AddressMap
  freeSmallChunksInv : PairSet

namespace MemorySubSession

/-- A sub-session as the constructor leaves it, before any `begin`. -/
def initial : MemorySubSession where
  frozen := fun _ => none
  unfrozenThreadsCount := -1
  allocatedBytes := 0
  allocs := OrderedTable.empty
  smallAllocs := OrderedTable.empty
  freeSmallChunks := OrderedTable.empty
  freeSmallChunksInv := OrderedTable.empty

variable (s : MemorySubSession)

/-- `smallest_sufficent_free_small_chunk`: size and address, or twice zero. -/
def smallestSufficentFreeSmallChunk (bytes : ℕ) : ℕ × ℕ :=
  (s.freeSmallChunksInv.upperBound (toLex (bytes, 0))).getD (0, 0)

/-- `add_small_alloc`. -/
def addSmallAlloc (p bytes : ℕ) : MemorySubSession :=
  { s with smallAllocs := s.smallAllocs.insert (p, bytes) }

/-- `remove_small_alloc`. -/
def removeSmallAlloc (p : ℕ) : Except Failure MemorySubSession :=
  match s.smallAllocs.upperBound (toLex (p, 0)) with
  | none => .error .assertion
  | some i => do
      dAssert (i.1 = p)
      return { s with smallAllocs := s.smallAllocs.erase (toLex i) }

/-- `is_small_alloc`. -/
def isSmallAlloc (p : ℕ) : Bool :=
  match s.smallAllocs.upperBound (toLex (p, 0)) with
  | none => false
  | some sa => sa.1 = p

/-- `add_free_small_chunk`. -/
def addFreeSmallChunk (p bytes : ℕ) : MemorySubSession :=
  { s with
    freeSmallChunks := s.freeSmallChunks.insert (p, bytes)
    freeSmallChunksInv := s.freeSmallChunksInv.insert (bytes, p) }

/-- `remove_free_small_chunk`; `operator[]` reads zero for an absent key. -/
def removeFreeSmallChunk (p : ℕ) : MemorySubSession :=
  let bytes := ((s.freeSmallChunks.find? p).map Prod.snd).getD 0
  { s with
    freeSmallChunksInv := s.freeSmallChunksInv.erase (toLex (bytes, p))
    freeSmallChunks := s.freeSmallChunks.erase p }

/-- `free_small_chunk_alloc`: the recorded region with the greatest start not above `p`. -/
def freeSmallChunkAlloc (p : ℕ) : Except Failure (ℕ × ℕ) :=
  match s.allocs.lastAtMost p with
  | none => .error .assertion
  | some chunkAlloc => .ok chunkAlloc

/-- A free chunk leaves both containers, as the merging code erases it. -/
def eraseFreeSmallChunk (chunk : ℕ × ℕ) : MemorySubSession :=
  { s with
    freeSmallChunksInv := s.freeSmallChunksInv.erase (toLex (chunk.2, chunk.1))
    freeSmallChunks := s.freeSmallChunks.erase chunk.1 }

/-- First half of `add_merge_remove_free_small_chunk`: the chunk before the
remainder joins it when it starts in the same region and ends where the
remainder starts. -/
def mergePrevious (chunkAlloc remainder : ℕ × ℕ) :
    Except Failure (MemorySubSession × (ℕ × ℕ)) :=
  match s.freeSmallChunks.lastAtMost remainder.1 with
  | none => .ok (s, remainder)
  | some previous =>
      if chunkAlloc.1 ≤ previous.1 then do
        dAssert (previous.1 < remainder.1)
        let diff := remainder.1 - previous.1
        dAssert (previous.2 ≤ diff)
        if diff = previous.2 then
          return (s.eraseFreeSmallChunk previous,
            (previous.1, addWrap 64 remainder.2 previous.2))
        else
          return (s, remainder)
      else
        .ok (s, remainder)

/-- Second half of `add_merge_remove_free_small_chunk`: the chunk after the
remainder joins it when it starts where the remainder ends.  Unlike the first
half it does not look at the region. -/
def mergeNext (chunkAlloc remainder : ℕ × ℕ) :
    Except Failure (MemorySubSession × (ℕ × ℕ)) :=
  match s.freeSmallChunks.upperBound remainder.1 with
  | none => .ok (s, remainder)
  | some next =>
      if remainder.2 ≠ chunkAlloc.2 then do
        dAssert (remainder.1 < next.1)
        let diff := next.1 - remainder.1
        if diff = remainder.2 then
          return (s.eraseFreeSmallChunk next, (remainder.1, addWrap 64 remainder.2 next.2))
        else
          return (s, remainder)
      else
        .ok (s, remainder)

/-- `add_merge_remove_free_small_chunk`. -/
def addMergeRemoveFreeSmallChunk (p bytes : ℕ) :
    Except Failure (MemorySubSession × (ℕ × ℕ)) := do
  let chunkAlloc ← s.freeSmallChunkAlloc p
  if s.freeSmallChunks.isEmpty then
    return (s, (p, bytes))
  else
    let (s₁, remainder) ← s.mergePrevious chunkAlloc (p, bytes)
    s₁.mergeNext chunkAlloc remainder

end MemorySubSession

/-- Everything the private functions of one sub-session read and write: the
mapped pages, the parent session and the sub-session `this` itself. -/
structure Scope where
  mapped : Finset ℕ
  parent : MemorySession
  this : SubSessionId
  self : MemorySubSession

namespace Scope

variable (cfg : ManagerConfig) (mmap : ℕ → Option ℕ) (c : Scope)

/-- `add_alloc`. -/
def addAlloc (p bytes : ℕ) : Scope :=
  { c with
    self := { c.self with
      allocatedBytes := addWrap 64 c.self.allocatedBytes bytes
      allocs := c.self.allocs.insert (p, bytes) }
    parent := { c.parent with
      ramAllocatedBytes := addWrap 64 c.parent.ramAllocatedBytes bytes
      totalAllocatedBytes := addWrap 64 c.parent.totalAllocatedBytes bytes
      allocs := c.parent.allocs.insert (p, c.this) } }

/-- `remove_alloc`; the last line of the source inserts into the parent's map. -/
def removeAlloc (p : ℕ) : Except Failure Scope :=
  match c.self.allocs.find? p with
  | none => .error .assertion
  | some i =>
      let bytes := i.2
      .ok { c with
        self := { c.self with
          allocatedBytes := subWrap 64 c.self.allocatedBytes bytes
          allocs := c.self.allocs.erase p }
        parent := { c.parent with
          ramAllocatedBytes := subWrap 64 c.parent.ramAllocatedBytes bytes
          totalAllocatedBytes := subWrap 64 c.parent.totalAllocatedBytes bytes
          allocs := c.parent.allocs.insert (p, c.this) } }

/-- `mmap` of a region: the answer decides where, `none` is `MAP_FAILED`. -/
def map (bytes : ℕ) : Except Failure (ℕ × Scope) :=
  match mmap bytes with
  | none => .error .badAlloc
  | some p => .ok (p, { c with mapped := c.mapped ∪ cfg.pages p bytes })

/-- `munmap`.  It refuses an address off the page grid and an empty range; the
callers only log that. -/
def munmap (p bytes : ℕ) : Scope :=
  if cfg.pageSize ∣ p ∧ bytes ≠ 0 then
    { c with mapped := c.mapped \ cfg.pages p bytes }
  else
    c

/-- The tail of the small path of `allocate`: what is left of the chunk is filed. -/
def fileRemainder (res neededBytes remainderSize : ℕ) : Scope :=
  if remainderSize ≠ 0 then
    { c with self := c.self.addFreeSmallChunk (res + neededBytes) remainderSize }
  else
    c

/-- `memory_sub_session::allocate`. -/
def allocate (neededBytes : ℕ) : Except Failure (ℕ × Scope) :=
  if cfg.getMaxSmallAllocBytes < neededBytes then do
    let bytes := cfg.pageAligned neededBytes
    let (p, c₁) ← c.map cfg mmap bytes
    return (p, c₁.addAlloc p bytes)
  else
    let optimalChunk := c.self.smallestSufficentFreeSmallChunk neededBytes
    if optimalChunk.1 = 0 then do
      let bytes := cfg.getSingleSmallAllocBytes
      let (p, c₁) ← c.map cfg mmap bytes
      let c₂ := c₁.addAlloc p bytes
      let c₃ := { c₂ with self := c₂.self.addSmallAlloc p neededBytes }
      return (p, c₃.fileRemainder p neededBytes (subWrap 64 bytes neededBytes))
    else
      let c₁ := { c with self :=
        (c.self.addSmallAlloc optimalChunk.2 neededBytes).removeFreeSmallChunk optimalChunk.2 }
      .ok (optimalChunk.2, c₁.fileRemainder optimalChunk.2 neededBytes
        (subWrap 64 optimalChunk.1 neededBytes))

/-- `memory_sub_session::deallocate`. -/
def deallocate (p bytes : ℕ) : Except Failure Scope :=
  if c.self.isSmallAlloc p then do
    let s₁ ← c.self.removeSmallAlloc p
    let chunkAlloc ← s₁.freeSmallChunkAlloc p
    let (s₂, remainder) ← s₁.addMergeRemoveFreeSmallChunk p bytes
    if chunkAlloc.2 = remainder.2 then
      (munmap cfg { c with self := s₂ } chunkAlloc.1 chunkAlloc.2).removeAlloc chunkAlloc.1
    else
      return { c with self := s₂.addFreeSmallChunk remainder.1 remainder.2 }
  else
    (c.munmap cfg p bytes).removeAlloc p

end Scope

end MemoryManager
end CoherentDB
