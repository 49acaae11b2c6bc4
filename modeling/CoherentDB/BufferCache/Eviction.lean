import CoherentDB.BufferCache.BufferCache

/-!
# No frame is lost, and eviction is least recently used

`make_ready` and `register_hit` put a frame at the end of `ready`, and nothing else
adds to this list.  So `ready` is sorted by the last of these calls on each frame, and
the frame that `get_frame` takes from its front is the one that was left alone for the
longest time.  `touches` is the history that this refers to.

The results look at the lists alone and hold in both builds.
-/

namespace CoherentDB
namespace BufferCache

open Debug Runs

/-- The frame that a call makes the most recent one of `ready`. -/
def Call.touched : Call → Option FrameId
  | .makeReady buf | .registerHit buf => some buf
  | .getFrame _ _ | .makeUnbound _ => none

/-- The frames of all calls of `make_ready` and `register_hit`, the latest call first. -/
def touches (ops : List Call) : List FrameId := ops.reverse.filterMap Call.touched

theorem touches_snoc (ops : List Call) (op : Call) :
    touches (ops ++ [op]) = op.touched.toList ++ touches ops := by
  unfold touches
  rw [List.reverse_append, List.reverse_singleton, List.singleton_append, List.filterMap_cons]
  cases op.touched with
  | none => rfl
  | some frame => rfl

/-- The frames on `ready` were touched, those further back more recently. -/
structure Aged (ops : List Call) (ready : List FrameId) : Prop where
  touched : ∀ frame ∈ ready, frame ∈ touches ops
  ordered : ready.Pairwise fun older newer =>
    (touches ops).idxOf newer < (touches ops).idxOf older

section Steps

variable {checked : Bool} {c c' : Cache} {op : Call} {ops : List Call} {buf : FrameId}
  {ready ready' : List FrameId} {nBuffers : ℕ}

/-- Frames leave `ready` and none is touched. -/
theorem Aged.leave (h : Aged ops ready) (hop : op.touched = none) (hsub : ready'.Sublist ready) :
    Aged (ops ++ [op]) ready' := by
  have hsame : touches (ops ++ [op]) = touches ops := by
    rw [touches_snoc, hop]
    rfl
  refine ⟨fun frame hframe => ?_, ?_⟩
  · rw [hsame]
    exact h.touched frame (hsub.subset hframe)
  · rw [hsame]
    exact h.ordered.sublist hsub

/-- A frame is touched and goes to the end of `ready`. -/
theorem Aged.touch (h : Aged ops ready) (hop : op.touched = some buf)
    (hsub : ready'.Sublist ready) (hnew : buf ∉ ready') : Aged (ops ++ [op]) (ready' ++ [buf]) := by
  have hmore : touches (ops ++ [op]) = buf :: touches ops := by
    rw [touches_snoc, hop]
    rfl
  -- Every other frame is one call further away than before.
  have hlater : ∀ frame ∈ ready', (buf :: touches ops).idxOf frame =
      (touches ops).idxOf frame + 1 := by
    intro frame hframe
    rw [List.idxOf_cons_ne]
    rintro rfl
    exact hnew hframe
  constructor
  · intro frame hframe
    rw [hmore]
    rcases List.mem_append.mp hframe with hold | hlast
    · exact List.mem_cons_of_mem _ (h.touched frame (hsub.subset hold))
    · rw [List.mem_singleton.mp hlast]
      exact List.mem_cons_self
  · rw [hmore, List.pairwise_append]
    refine ⟨?_, List.pairwise_singleton _ _, ?_⟩
    · refine (h.ordered.sublist hsub).imp_of_mem ?_
      intro older newer holder hnewer hlt
      rw [hlater older holder, hlater newer hnewer]
      exact Nat.succ_lt_succ hlt
    · intro older holder newer hnewer
      obtain rfl := List.mem_singleton.mp hnewer
      rw [List.idxOf_cons_self, hlater older holder]
      exact Nat.succ_pos _

/-- No frame is on a list twice or on two lists. -/
theorem Cache.Partitioned.nodup (h : c.Partitioned nBuffers) :
    (c.unbound ++ c.inUse ++ c.ready).Nodup :=
  h.nodup_iff.mpr List.nodup_range

theorem Aged.step (hpart : c.Partitioned nBuffers) (h : Aged ops c.ready)
    (hmoves : c.Moves c' op) : Aged (ops ++ [op]) c'.ready := by
  have hnodup := hpart.nodup
  cases hmoves with
  | takeUnbound frame rest hfront hu hi hr =>
      rw [hr]
      exact h.leave rfl (List.Sublist.refl _)
  | evict frame rest hnone hfront hu hi hr =>
      apply h.leave rfl
      rw [hr, hfront]
      exact List.sublist_cons_self frame rest
  | makeReady hmem hu hi hr =>
      rw [hr]
      apply h.touch rfl (List.Sublist.refl _)
      intro hready
      exact (List.nodup_append.mp hnodup).2.2 _ (List.mem_append_right _ hmem) _ hready rfl
  | makeUnbound hmem hu hi hr =>
      apply h.leave rfl
      rw [hr]
      exact List.erase_sublist
  | registerHit hmem hu hi hr =>
      rw [hr]
      apply h.touch rfl List.erase_sublist
      have hready : c.ready.Nodup := (List.nodup_append.mp hnodup).2.1
      exact hready.not_mem_erase

end Steps

/-- **The three lists always hold each frame once, and `get_frame` evicts the least recently
used frame.**  It takes an unbound frame as long as there is one; otherwise it takes the
ready frame whose last `make_ready` or `register_hit` is the oldest. -/
theorem evicts_least_recent (checked : Bool) (nBuffers : ℕ) (leftover : FrameId → Bool)
    {ops : List Call} {c : Cache}
    (hrun : Run (Cache.step checked) anyAction (Cache.create nBuffers leftover) ops c) :
    c.Partitioned nBuffers ∧
      ∀ file unique frame c', c.getFrame checked file unique = .ok (frame, c') →
        (c.unbound ≠ [] → frame ∈ c.unbound ∧ c'.ready = c.ready) ∧
        (c.unbound = [] → frame ∈ c.ready ∧ frame ∈ touches ops ∧
          ∀ other ∈ c.ready, other ≠ frame →
            (touches ops).idxOf other < (touches ops).idxOf frame) := by
  have hinv : c.Partitioned nBuffers ∧ Aged ops c.ready := by
    refine hrun.invariant (P := fun ops c => c.Partitioned nBuffers ∧ Aged ops c.ready)
      ⟨Cache.create_partitioned nBuffers leftover, ?_, List.Pairwise.nil⟩ ?_
    · intro frame hframe
      cases hframe
    · rintro ops s s' op ⟨hpart, haged⟩ - hstep
      have hmoves := Cache.moves_of_step hstep
      exact ⟨hpart.step hmoves, haged.step hpart hmoves⟩
  obtain ⟨hpart, haged⟩ := hinv
  refine ⟨hpart, fun file unique frame c' hget => ?_⟩
  rcases Cache.getFrame_moves hget with ⟨rest, hfront, -, -, hready⟩ |
    ⟨rest, hnone, hfront, -, -, -⟩
  · refine ⟨fun _ => ⟨?_, hready⟩, fun hnone => ?_⟩
    · rw [hfront]
      exact List.mem_cons_self
    · rw [hnone] at hfront
      cases hfront
  · refine ⟨fun hsome => absurd hnone hsome, fun _ => ?_⟩
    have hordered := haged.ordered
    have hmem : frame ∈ c.ready := by
      rw [hfront]
      exact List.mem_cons_self
    refine ⟨hmem, haged.touched frame hmem, fun other hother hne => ?_⟩
    rw [hfront] at hordered hother
    obtain ⟨hfirst, -⟩ := List.pairwise_cons.mp hordered
    rcases List.mem_cons.mp hother with heq | hrest
    · exact absurd heq hne
    · exact hfirst other hrest

/-- Two frames become ready and the first of them is hit again. -/
def twoReady : List Call :=
  [.getFrame 7 true, .getFrame 8 true, .makeReady 1, .makeReady 0, .registerHit 1]

/-- The frame that was not hit is the one that goes. -/
theorem evicts_least_recent_twoReady :
    ∃ c c', Run (Cache.step true) anyAction (Cache.create 2 fun _ => false) twoReady c ∧
      c.getFrame true 9 true = .ok (0, c') ∧ c.ready = [0, 1] ∧
      (touches twoReady).idxOf 1 < (touches twoReady).idxOf 0 := by
  have hsome : (performAll (Cache.step true) anyAction (Cache.create 2 fun _ => false)
      twoReady).isSome = true := by decide
  have hready : ((performAll (Cache.step true) anyAction (Cache.create 2 fun _ => false)
      twoReady).map Cache.ready) = some [0, 1] := by decide
  have hunbound : ((performAll (Cache.step true) anyAction (Cache.create 2 fun _ => false)
      twoReady).map Cache.unbound) = some [] := by decide
  have hget : ((performAll (Cache.step true) anyAction (Cache.create 2 fun _ => false)
      twoReady).map fun c => (c.getFrame true 9 true).toOption.map Prod.fst) = some (some 0) := by
    decide
  obtain ⟨c, hc⟩ := Option.isSome_iff_exists.mp hsome
  rw [hc, Option.map_some, Option.some.injEq] at hready hunbound hget
  have hrun : Run (Cache.step true) anyAction (Cache.create 2 fun _ => false) twoReady c :=
    Run.start.performAll twoReady hc
  cases hres : c.getFrame true 9 true with
  | error e =>
      rw [hres] at hget
      cases hget
  | ok res =>
      obtain ⟨frame, c'⟩ := res
      rw [hres] at hget
      obtain rfl : frame = 0 := Option.some.inj hget
      obtain ⟨-, hevicts⟩ := evicts_least_recent true 2 (fun _ => false) hrun
      obtain ⟨-, -, hoverdue⟩ := (hevicts 9 true 0 c' hres).2 hunbound
      refine ⟨c, c', hrun, hres, hready, hoverdue 1 ?_ (by decide)⟩
      rw [hready]
      decide

end BufferCache
end CoherentDB
