import CoherentDB.Debug.Asserts
import CoherentDB.Lib.Runs

/-!
# `buffer_cache`

The cache keeps its frames on three lists: `unbound`, `ready` and `in_use`.  A list
node never moves in memory, so a frame is named by a number and a list is a list of
these; an iterator is the number of its frame.  The fields of the frames are kept
beside the lists.

A buffer is named by a number too.  Whether the cache holds the only pointer to a
buffer depends on the users of the frame, so the answer of `unique()` is part of a
call of `get_frame`.

`d_assert` does nothing in a release build: `checked` says which build it is.
-/

namespace CoherentDB
namespace BufferCache

open Debug

/-- The identity of a frame: the address of its list node. -/
abbrev FrameId := ℕ

/-- The identity of a `cached_file`. -/
abbrev FileId := ℕ

/-- The identity of a `util::buffer`. -/
abbrev BufferId := ℕ

/-- A failed `r_assert` or `d_assert` with its message. -/
inductive Failure
  | releaseAssertion (message : String)
  | debugAssertion (message : String)
  deriving DecidableEq, Repr

/-- `d_assert`. -/
def dAssert (checked : Bool) (condition : Prop) [Decidable condition] (message : String) :
    Except Failure Unit :=
  if checked then dAssertElse (.debugAssertion message) condition else .ok ()

theorem dAssert_of {checked : Bool} {condition : Prop} [Decidable condition] {message : String}
    (h : condition) : dAssert checked condition message = .ok () := by
  unfold dAssert
  split_ifs
  · exact dAssertElse_of h
  · rfl

/-- The fields of `bound_buffer`. -/
structure BoundBuffer where
  buffer : BufferId
  file : Option FileId
  isBeingUsed : Bool
  deriving DecidableEq, Repr

namespace BoundBuffer

variable (checked : Bool) (b : BoundBuffer)

def isBound : Bool := b.file.isSome

def bind (file : FileId) : Except Failure BoundBuffer := do
  dAssert checked (b.isBound = false) "binding an already bound buffer"
  return { b with file := some file }

def unbind : Except Failure BoundBuffer := do
  dAssert checked (b.isBound = true) "can't unbind an unbound buffer"
  dAssert checked (b.isBeingUsed = false) "can't unbind a used buffer"
  return { b with file := none }

/-- `ensure_uniq`, where a copy is the buffer `copy`. -/
def ensureUniq (unique : Bool) (copy : BufferId) : BoundBuffer :=
  if unique then b else { b with buffer := copy }

def use : Except Failure BoundBuffer := do
  dAssert checked (b.isBound = true) "can't use an unbound buffer"
  dAssert checked (b.isBeingUsed = false) "trying to use a used buffer"
  return { b with isBeingUsed := true }

def stopUsing : Except Failure BoundBuffer := do
  dAssert checked (b.isBeingUsed = true) "can't stop using an unused buffer"
  return { b with isBeingUsed := false }

/-- `operator==`. -/
def same (a b : BoundBuffer) : Bool := a.buffer == b.buffer && a.file == b.file

end BoundBuffer

/-- The lists of `buffer_cache`, the frames on them, and the number of buffers made so far. -/
structure Cache where
  unbound : List FrameId
  inUse : List FrameId
  ready : List FrameId
  frames : FrameId → BoundBuffer
  buffers : ℕ

/-- The calls on a cache. -/
inductive Call
  | getFrame (file : FileId) (unique : Bool)
  | makeReady (buf : FrameId)
  | makeUnbound (buf : FrameId)
  | registerHit (buf : FrameId)
  deriving DecidableEq, Repr

namespace Cache

/-- The constructor.  It does not set `is_being_used`, so the memory of the frames
decides: `leftover` is what it holds. -/
def create (nBuffers : ℕ) (leftover : FrameId → Bool) : Cache where
  unbound := (List.range nBuffers).foldl (fun unbound i => i :: unbound) []
  inUse := []
  ready := []
  frames := fun i => ⟨i, none, leftover i⟩
  buffers := nBuffers

variable (checked : Bool) (c : Cache)

/-- `on_list`: it compares frames, not nodes. -/
def onList (l : List FrameId) (buf : FrameId) : Bool :=
  l.any fun frame => (c.frames frame).same (c.frames buf)

/-- `get_frame`: the frame and the cache after the call. -/
def getFrame (file : FileId) (unique : Bool) : Except Failure (FrameId × Cache) :=
  let useUnbound := !c.unbound.isEmpty
  match if useUnbound then c.unbound else c.ready with
  | [] => .error (.releaseAssertion "no available frames")
  | frame :: rest => do
      let b := (c.frames frame).ensureUniq unique c.buffers
      -- Only a frame taken from `ready` is unbound first.
      let b ← if useUnbound then pure b else b.unbind checked
      let b ← b.bind checked file
      let b ← b.use checked
      return (frame,
        { c with
          unbound := if useUnbound then rest else c.unbound
          ready := if useUnbound then c.ready else rest
          inUse := c.inUse ++ [frame]
          frames := Function.update c.frames frame b
          buffers := if unique then c.buffers else c.buffers + 1 })

def makeReady (buf : FrameId) : Except Failure Cache := do
  dAssert checked (c.onList c.inUse buf = true) "can't make a frame ready if it's not in use"
  let b ← (c.frames buf).stopUsing checked
  return { c with
    inUse := c.inUse.erase buf
    ready := c.ready ++ [buf]
    frames := Function.update c.frames buf b }

def makeUnbound (buf : FrameId) : Except Failure Cache := do
  -- The frame keeps its file: there is no call of `unbind` here.
  dAssert checked (c.onList c.ready buf = true) "can't make a frame ready if it's not ready"
  return { c with
    ready := c.ready.erase buf
    unbound := c.unbound ++ [buf] }

def registerHit (buf : FrameId) : Except Failure Cache := do
  dAssert checked (c.onList c.ready buf = true) "can't hit a frame which is not ready"
  return { c with ready := c.ready.erase buf ++ [buf] }

/-- The cache after a call that returns. -/
def call : Call → Except Failure Cache
  | .getFrame file unique => (c.getFrame checked file unique).map Prod.snd
  | .makeReady buf => c.makeReady checked buf
  | .makeUnbound buf => c.makeUnbound checked buf
  | .registerHit buf => c.registerHit checked buf

/-- What a caller has to observe: there is a frame to get, and an iterator points into the
list that a splice takes it from. -/
def Permits : Call → Prop
  | .getFrame _ _ => c.unbound ≠ [] ∨ c.ready ≠ []
  | .makeReady buf => buf ∈ c.inUse
  | .makeUnbound buf | .registerHit buf => buf ∈ c.ready

instance : (op : Call) → Decidable (c.Permits op)
  | .getFrame _ _ => inferInstanceAs (Decidable (c.unbound ≠ [] ∨ c.ready ≠ []))
  | .makeReady buf => inferInstanceAs (Decidable (buf ∈ c.inUse))
  | .makeUnbound buf | .registerHit buf => inferInstanceAs (Decidable (buf ∈ c.ready))

/-- One call that keeps to its precondition and returns. -/
def step (op : Call) : Option Cache := if c.Permits op then (c.call checked op).toOption else none

end Cache

/-- What a call does to the lists. -/
inductive Cache.Moves (c c' : Cache) : Call → Prop
  | takeUnbound {file : FileId} {unique : Bool} (frame : FrameId) (rest : List FrameId)
      (hfront : c.unbound = frame :: rest) (hunbound : c'.unbound = rest)
      (hinUse : c'.inUse = c.inUse ++ [frame]) (hready : c'.ready = c.ready) :
      Moves c c' (.getFrame file unique)
  | evict {file : FileId} {unique : Bool} (frame : FrameId) (rest : List FrameId)
      (hnone : c.unbound = []) (hfront : c.ready = frame :: rest) (hunbound : c'.unbound = [])
      (hinUse : c'.inUse = c.inUse ++ [frame]) (hready : c'.ready = rest) :
      Moves c c' (.getFrame file unique)
  | makeReady {buf : FrameId} (hmem : buf ∈ c.inUse) (hunbound : c'.unbound = c.unbound)
      (hinUse : c'.inUse = c.inUse.erase buf) (hready : c'.ready = c.ready ++ [buf]) :
      Moves c c' (.makeReady buf)
  | makeUnbound {buf : FrameId} (hmem : buf ∈ c.ready) (hunbound : c'.unbound = c.unbound ++ [buf])
      (hinUse : c'.inUse = c.inUse) (hready : c'.ready = c.ready.erase buf) :
      Moves c c' (.makeUnbound buf)
  | registerHit {buf : FrameId} (hmem : buf ∈ c.ready) (hunbound : c'.unbound = c.unbound)
      (hinUse : c'.inUse = c.inUse) (hready : c'.ready = c.ready.erase buf ++ [buf]) :
      Moves c c' (.registerHit buf)

section Calls

variable {checked : Bool} {c c' : Cache} {op : Call} {file : FileId} {unique : Bool}
  {buf frame : FrameId}

/-- **What `get_frame` does to the lists**: it takes the first unbound frame, or the first
ready one when there is no unbound frame. -/
theorem Cache.getFrame_moves (h : c.getFrame checked file unique = .ok (frame, c')) :
    (∃ rest, c.unbound = frame :: rest ∧ c'.unbound = rest ∧ c'.inUse = c.inUse ++ [frame] ∧
      c'.ready = c.ready) ∨
    (∃ rest, c.unbound = [] ∧ c.ready = frame :: rest ∧ c'.unbound = [] ∧
      c'.inUse = c.inUse ++ [frame] ∧ c'.ready = rest) := by
  unfold Cache.getFrame at h
  cases hunbound : c.unbound with
  | cons first rest =>
      simp only [hunbound, List.isEmpty_cons, Bool.not_false, if_true] at h
      obtain ⟨b₁, -, h⟩ := ok_of_bind h
      obtain ⟨b₂, -, h⟩ := ok_of_bind h
      obtain ⟨b₃, -, h⟩ := ok_of_bind h
      simp only [pure, Except.pure, Except.ok.injEq, Prod.mk.injEq] at h
      obtain ⟨rfl, rfl⟩ := h
      exact Or.inl ⟨rest, rfl, rfl, rfl, rfl⟩
  | nil =>
      simp only [hunbound, List.isEmpty_nil, Bool.not_true, Bool.false_eq_true, if_false] at h
      cases hready : c.ready with
      | nil =>
          rw [hready] at h
          cases h
      | cons first rest =>
          rw [hready] at h
          obtain ⟨b₁, -, h⟩ := ok_of_bind h
          obtain ⟨b₂, -, h⟩ := ok_of_bind h
          obtain ⟨b₃, -, h⟩ := ok_of_bind h
          simp only [pure, Except.pure, Except.ok.injEq, Prod.mk.injEq] at h
          obtain ⟨rfl, rfl⟩ := h
          exact Or.inr ⟨rest, rfl, rfl, rfl, rfl, rfl⟩

theorem Cache.step_eq_some_iff :
    c.step checked op = some c' ↔ c.Permits op ∧ c.call checked op = .ok c' := by
  unfold Cache.step
  split_ifs with hpermits
  · cases c.call checked op with
    | error e => simp [Except.toOption]
    | ok c₁ => simp [Except.toOption, hpermits]
  · simp [hpermits]

theorem Cache.moves_of_step (h : c.step checked op = some c') : c.Moves c' op := by
  obtain ⟨hpermits, hcall⟩ := Cache.step_eq_some_iff.mp h
  cases op with
  | getFrame file unique =>
      simp only [Cache.call] at hcall
      cases hget : c.getFrame checked file unique with
      | error e =>
          rw [hget] at hcall
          cases hcall
      | ok res =>
          obtain ⟨frame, c₁⟩ := res
          rw [hget] at hcall
          obtain rfl : c₁ = c' := Except.ok.inj hcall
          rcases Cache.getFrame_moves hget with ⟨rest, hfront, hu, hi, hr⟩ |
            ⟨rest, hnone, hfront, hu, hi, hr⟩
          · exact .takeUnbound frame rest hfront hu hi hr
          · exact .evict frame rest hnone hfront hu hi hr
  | makeReady buf =>
      obtain ⟨_, -, hcall⟩ := ok_of_bind hcall
      obtain ⟨b, -, hcall⟩ := ok_of_bind hcall
      obtain rfl := Except.ok.inj hcall
      exact .makeReady hpermits rfl rfl rfl
  | makeUnbound buf =>
      obtain ⟨_, -, hcall⟩ := ok_of_bind hcall
      obtain rfl := Except.ok.inj hcall
      exact .makeUnbound hpermits rfl rfl rfl
  | registerHit buf =>
      obtain ⟨_, -, hcall⟩ := ok_of_bind hcall
      obtain rfl := Except.ok.inj hcall
      exact .registerHit hpermits rfl rfl rfl

/-- The three lists hold each of the frames once. -/
def Cache.Partitioned (c : Cache) (nBuffers : ℕ) : Prop :=
  (c.unbound ++ c.inUse ++ c.ready).Perm (List.range nBuffers)

theorem Cache.create_partitioned (nBuffers : ℕ) (leftover : FrameId → Bool) :
    (Cache.create nBuffers leftover).Partitioned nBuffers := by
  have hunbound : (Cache.create nBuffers leftover).unbound = (List.range nBuffers).reverse := by
    simp [Cache.create, List.foldl_flip_cons_eq_append]
  unfold Cache.Partitioned
  rw [hunbound]
  simp [Cache.create, List.reverse_perm]

/-- A frame that moves from one list to another is lost to none. -/
theorem Cache.Partitioned.step {nBuffers : ℕ} (h : c.Partitioned nBuffers)
    (hmoves : c.Moves c' op) : c'.Partitioned nBuffers := by
  refine List.Perm.trans (List.perm_iff_count.mpr fun a => ?_) h
  cases hmoves with
  | takeUnbound frame rest hfront hu hi hr =>
      rw [hu, hi, hr, hfront]
      simp only [List.count_append, List.count_cons, List.count_nil]
      omega
  | evict frame rest hnone hfront hu hi hr =>
      rw [hu, hi, hr, hnone, hfront]
      simp only [List.count_append, List.count_cons, List.count_nil]
      omega
  | @makeReady buf hmem hu hi hr =>
      have herase := (List.perm_cons_erase hmem).count_eq a
      rw [hu, hi, hr]
      simp only [List.count_append, List.count_cons, List.count_nil] at herase ⊢
      omega
  | @makeUnbound buf hmem hu hi hr =>
      have herase := (List.perm_cons_erase hmem).count_eq a
      rw [hu, hi, hr]
      simp only [List.count_append, List.count_cons, List.count_nil] at herase ⊢
      omega
  | @registerHit buf hmem hu hi hr =>
      have herase := (List.perm_cons_erase hmem).count_eq a
      rw [hu, hi, hr]
      simp only [List.count_append, List.count_cons, List.count_nil] at herase ⊢
      omega

end Calls

end BufferCache
end CoherentDB
