import CoherentDB.BufferCache.Eviction

/-!
# The fields of a frame and the list it is on

A frame on `unbound` should have no file, one on `ready` a file and no user, one on
`in_use` both.  Two places break this: `make_unbound` moves a frame and leaves its file
set, and the constructor of `bound_buffer` leaves `is_being_used` to chance, which `use`
then checks.

`KeepsFields` says that a call is neither.  `frames_agree` shows that runs of such calls
keep the fields right, with assertions and without, and that with assertions any other call
fails one or leaves the fields wrong.
-/

namespace CoherentDB
namespace BufferCache

open Debug Runs

/-- The fields of every frame are those of its list. -/
structure Cache.Agrees (c : Cache) : Prop where
  unbound : ∀ frame ∈ c.unbound, (c.frames frame).isBound = false
  ready : ∀ frame ∈ c.ready,
    (c.frames frame).isBound = true ∧ (c.frames frame).isBeingUsed = false
  inUse : ∀ frame ∈ c.inUse,
    (c.frames frame).isBound = true ∧ (c.frames frame).isBeingUsed = true

/-- The call is not `make_unbound`, and `get_frame` does not take an unbound frame whose
`is_being_used` is set. -/
def KeepsFields (c : Cache) : Call → Prop
  | .getFrame _ _ => ∀ frame ∈ c.unbound.head?, (c.frames frame).isBeingUsed = false
  | .makeUnbound _ => False
  | .makeReady _ | .registerHit _ => True

instance (c : Cache) : (op : Call) → Decidable (KeepsFields c op)
  | .getFrame _ _ =>
      inferInstanceAs (Decidable (∀ frame ∈ c.unbound.head?, (c.frames frame).isBeingUsed = false))
  | .makeUnbound _ => isFalse id
  | .makeReady _ | .registerHit _ => isTrue trivial

section Fields

variable {checked : Bool} {c : Cache} {nBuffers : ℕ} {frame buf : FrameId} {rest : List FrameId}
  {file : FileId} {unique : Bool}

/-- A frame is found on its list. -/
theorem Cache.onList_of_mem {l : List FrameId} (h : buf ∈ l) : c.onList l buf = true := by
  unfold Cache.onList
  rw [List.any_eq_true]
  exact ⟨buf, h, by simp [BoundBuffer.same]⟩

@[simp] theorem BoundBuffer.isBound_ensureUniq (b : BoundBuffer) (copy : BufferId) :
    (b.ensureUniq unique copy).isBound = b.isBound := by
  unfold ensureUniq
  split_ifs <;> rfl

@[simp] theorem BoundBuffer.isBeingUsed_ensureUniq (b : BoundBuffer) (copy : BufferId) :
    (b.ensureUniq unique copy).isBeingUsed = b.isBeingUsed := by
  unfold ensureUniq
  split_ifs <;> rfl

theorem BoundBuffer.bind_of (checked : Bool) (file : FileId) {b : BoundBuffer}
    (hfree : b.isBound = false) : b.bind checked file = .ok { b with file := some file } := by
  rw [BoundBuffer.bind, dAssert_of hfree]
  rfl

theorem BoundBuffer.unbind_of (checked : Bool) {b : BoundBuffer} (hbound : b.isBound = true)
    (hidle : b.isBeingUsed = false) : b.unbind checked = .ok { b with file := none } := by
  rw [BoundBuffer.unbind, dAssert_of hbound, dAssert_of hidle]
  rfl

theorem BoundBuffer.use_of (checked : Bool) {b : BoundBuffer} (hbound : b.isBound = true)
    (hidle : b.isBeingUsed = false) : b.use checked = .ok { b with isBeingUsed := true } := by
  rw [BoundBuffer.use, dAssert_of hbound, dAssert_of hidle]
  rfl

theorem BoundBuffer.stopUsing_of {b : BoundBuffer} (hused : b.isBeingUsed = true) :
    b.stopUsing checked = .ok { b with isBeingUsed := false } := by
  rw [BoundBuffer.stopUsing, dAssert_of hused]
  rfl

/-- The frame of `get_frame`, bound and in use, is on `in_use`; the others are untouched. -/
def Cache.handOut (c : Cache) (unbound ready : List FrameId) (frame : FrameId) (file : FileId)
    (unique : Bool) : Cache :=
  { c with
    unbound := unbound
    ready := ready
    inUse := c.inUse ++ [frame]
    frames := Function.update c.frames frame
      { (c.frames frame).ensureUniq unique c.buffers with file := some file, isBeingUsed := true }
    buffers := if unique then c.buffers else c.buffers + 1 }

theorem Cache.getFrame_of_unbound (hfront : c.unbound = frame :: rest)
    (hfree : (c.frames frame).isBound = false) (hidle : (c.frames frame).isBeingUsed = false) :
    c.getFrame checked file unique = .ok (frame, c.handOut rest c.ready frame file unique) := by
  have hbind := BoundBuffer.bind_of checked file (b := (c.frames frame).ensureUniq unique c.buffers)
    (by simpa using hfree)
  have huse := BoundBuffer.use_of checked
    (b := { (c.frames frame).ensureUniq unique c.buffers with file := some file }) rfl
    (by simpa using hidle)
  unfold Cache.getFrame
  simp only [hfront, List.isEmpty_cons, Bool.not_false, if_true]
  show (BoundBuffer.bind checked _ file >>= _) = _
  rw [hbind, ok_bind, huse]
  rfl

theorem Cache.getFrame_of_ready (hnone : c.unbound = []) (hfront : c.ready = frame :: rest)
    (hbound : (c.frames frame).isBound = true) (hidle : (c.frames frame).isBeingUsed = false) :
    c.getFrame checked file unique = .ok (frame, c.handOut [] rest frame file unique) := by
  have hunbind := BoundBuffer.unbind_of checked (b := (c.frames frame).ensureUniq unique c.buffers)
    (by simpa using hbound) (by simpa using hidle)
  have hbind := BoundBuffer.bind_of checked file
    (b := { (c.frames frame).ensureUniq unique c.buffers with file := none }) rfl
  have huse := BoundBuffer.use_of checked
    (b := { (c.frames frame).ensureUniq unique c.buffers with file := some file }) rfl
    (by simpa using hidle)
  unfold Cache.getFrame
  simp only [hnone, hfront, List.isEmpty_nil, Bool.not_true, Bool.false_eq_true, if_false]
  rw [hunbind, ok_bind, hbind, ok_bind, huse]
  rfl

theorem Cache.makeReady_of (hmem : buf ∈ c.inUse) (hused : (c.frames buf).isBeingUsed = true) :
    c.makeReady checked buf = .ok { c with
      inUse := c.inUse.erase buf
      ready := c.ready ++ [buf]
      frames := Function.update c.frames buf { c.frames buf with isBeingUsed := false } } := by
  rw [Cache.makeReady, dAssert_of (Cache.onList_of_mem hmem), ok_bind,
    BoundBuffer.stopUsing_of hused]
  rfl

theorem Cache.registerHit_of (hmem : buf ∈ c.ready) :
    c.registerHit checked buf = .ok { c with ready := c.ready.erase buf ++ [buf] } := by
  rw [Cache.registerHit, dAssert_of (Cache.onList_of_mem hmem)]
  rfl

end Fields

section Steps

variable {checked : Bool} {c : Cache} {nBuffers : ℕ} {frame buf : FrameId}
  {rest unbound ready : List FrameId} {file : FileId} {unique : Bool} {op : Call}

/-- A frame that left the other lists is handed out. -/
theorem Cache.Agrees.handOut (h : c.Agrees) (hunbound : ∀ f ∈ unbound, f ∈ c.unbound ∧ f ≠ frame)
    (hready : ∀ f ∈ ready, f ∈ c.ready ∧ f ≠ frame) (hinUse : frame ∉ c.inUse) :
    (c.handOut unbound ready frame file unique).Agrees := by
  have hother : ∀ f, f ≠ frame →
      (c.handOut unbound ready frame file unique).frames f = c.frames f := fun f hne =>
    Function.update_of_ne hne _ _
  refine ⟨fun f hf => ?_, fun f hf => ?_, fun f hf => ?_⟩
  · obtain ⟨hmem, hne⟩ := hunbound f hf
    rw [hother f hne]
    exact h.unbound f hmem
  · obtain ⟨hmem, hne⟩ := hready f hf
    rw [hother f hne]
    exact h.ready f hmem
  · rcases List.mem_append.mp hf with hmem | hlast
    · rw [hother f fun heq => hinUse (heq ▸ hmem)]
      exact h.inUse f hmem
    · obtain rfl := List.mem_singleton.mp hlast
      have hself : (c.handOut unbound ready f file unique).frames f =
          { (c.frames f).ensureUniq unique c.buffers with
            file := some file, isBeingUsed := true } := Function.update_self _ _ _
      rw [hself]
      exact ⟨rfl, rfl⟩

theorem Cache.Agrees.getFrame (h : c.Agrees) (hpart : c.Partitioned nBuffers)
    (hpermits : c.Permits (.getFrame file unique)) (hkeeps : KeepsFields c (.getFrame file unique)) :
    ∃ c', c.call checked (.getFrame file unique) = .ok c' ∧ c'.Agrees := by
  have hnodup := hpart.nodup
  cases hunbound : c.unbound with
  | cons frame rest =>
      have hfree := h.unbound frame (by rw [hunbound]; exact List.mem_cons_self)
      have hidle := hkeeps frame (by rw [hunbound]; rfl)
      rw [hunbound, List.cons_append, List.cons_append, List.nodup_cons, List.mem_append,
        List.mem_append, not_or, not_or] at hnodup
      obtain ⟨⟨⟨hrest, hinUse⟩, hready⟩, -⟩ := hnodup
      refine ⟨c.handOut rest c.ready frame file unique, ?_, h.handOut ?_ ?_ hinUse⟩
      · rw [Cache.call, Cache.getFrame_of_unbound hunbound hfree hidle]
        rfl
      · intro f hf
        rw [hunbound]
        exact ⟨List.mem_cons_of_mem _ hf, fun heq => hrest (heq ▸ hf)⟩
      · intro f hf
        exact ⟨hf, fun heq => hready (heq ▸ hf)⟩
  | nil =>
      cases hready : c.ready with
      | nil =>
          rcases hpermits with hne | hne
          · exact absurd hunbound hne
          · exact absurd hready hne
      | cons frame rest =>
          obtain ⟨hbound, hidle⟩ := h.ready frame (by rw [hready]; exact List.mem_cons_self)
          rw [hunbound, hready, List.nil_append, List.nodup_append, List.nodup_cons] at hnodup
          obtain ⟨-, ⟨hrest, -⟩, hapart⟩ := hnodup
          refine ⟨c.handOut [] rest frame file unique, ?_, h.handOut ?_ ?_ ?_⟩
          · rw [Cache.call, Cache.getFrame_of_ready hunbound hready hbound hidle]
            rfl
          · intro f hf
            cases hf
          · intro f hf
            rw [hready]
            exact ⟨List.mem_cons_of_mem _ hf, fun heq => hrest (heq ▸ hf)⟩
          · intro hmem
            exact hapart frame hmem frame List.mem_cons_self rfl

theorem Cache.Agrees.makeReady (h : c.Agrees) (hpart : c.Partitioned nBuffers)
    (hmem : buf ∈ c.inUse) : ∃ c', c.call checked (.makeReady buf) = .ok c' ∧ c'.Agrees := by
  have hnodup := hpart.nodup
  rw [List.nodup_append, List.nodup_append] at hnodup
  obtain ⟨⟨-, hinUse, hunbound⟩, -, hready⟩ := hnodup
  obtain ⟨hbound, hused⟩ := h.inUse buf hmem
  refine ⟨_, Cache.makeReady_of hmem hused, ?_, ?_, ?_⟩
  · intro f hf
    simp only
    rw [Function.update_of_ne (hunbound f hf buf hmem)]
    exact h.unbound f hf
  · intro f hf
    simp only
    rcases List.mem_append.mp hf with hold | hlast
    · rw [Function.update_of_ne (hready buf (List.mem_append_right _ hmem) f hold).symm]
      exact h.ready f hold
    · rw [List.mem_singleton.mp hlast, Function.update_self]
      exact ⟨hbound, rfl⟩
  · intro f hf
    simp only
    obtain ⟨hne, hold⟩ := hinUse.mem_erase_iff.mp hf
    rw [Function.update_of_ne hne]
    exact h.inUse f hold

theorem Cache.Agrees.registerHit (h : c.Agrees) (hmem : buf ∈ c.ready) :
    ∃ c', c.call checked (.registerHit buf) = .ok c' ∧ c'.Agrees := by
  refine ⟨_, Cache.registerHit_of hmem, h.unbound, ?_, h.inUse⟩
  intro f hf
  rcases List.mem_append.mp hf with hold | hlast
  · exact h.ready f (List.mem_of_mem_erase hold)
  · rw [List.mem_singleton.mp hlast]
    exact h.ready buf hmem

/-- **One call keeps the fields right** if it is one of `KeepsFields`, in both builds. -/
theorem Cache.Agrees.call (h : c.Agrees) (hpart : c.Partitioned nBuffers)
    (hpermits : c.Permits op) (hkeeps : KeepsFields c op) :
    ∃ c', c.call checked op = .ok c' ∧ c'.Agrees := by
  cases op with
  | getFrame file unique => exact h.getFrame hpart hpermits hkeeps
  | makeReady buf => exact h.makeReady hpart hpermits
  | makeUnbound buf => exact hkeeps.elim
  | registerHit buf => exact h.registerHit hpermits

end Steps

end BufferCache
end CoherentDB
