import CoherentDB.MemoryManager.SubSession

/-!
# The containers of a sub-session as an arena layout

`MemorySubSession.layout` reads the containers of a sub-session as an abstract
layout: the recorded regions, the small blocks in use and the free chunks.
`Sound` is the invariant the bookkeeping functions keep while one block is in
transit: the layout is tiled, the two containers of free chunks hold the same
pairs transposed and every region ends inside the address space.

Each bookkeeping function is one move on layouts.  The file closes with the
specification of the two searches that `deallocate` relies on and of the two
merging steps.  `mergePrevious` keeps `Sound` always; `mergeNext` keeps it
unless the chunk it joins lies in another region, which `CrossArenaMerge` names
as a condition on the state before the call.
-/

namespace CoherentDB
namespace MemoryManager

open Debug Containers MachineInt ArenaLayout

namespace MemorySubSession

/-- The containers of a sub-session, with a block in transit. -/
def layout (s : MemorySubSession) (hole : Option Block) : Layout where
  regions := {r | r ∈ s.allocs}
  used := {b | b ∈ s.smallAllocs}
  free := {f | f ∈ s.freeSmallChunks}
  hole := hole

/-- The bookkeeping of a sub-session is consistent, up to a block in transit. -/
structure Sound (s : MemorySubSession) (hole : Option Block) : Prop where
  tiled : (s.layout hole).Tiled
  transposed : ∀ f : Block, f ∈ s.freeSmallChunks ↔ (f.2, f.1) ∈ s.freeSmallChunksInv
  bounded : ∀ r ∈ s.allocs, r.1 + r.2 < 2 ^ 64

variable {s : MemorySubSession} {hole : Option Block}

section Pieces

theorem Sound.used_pos (h : s.Sound hole) {b : Block} (hb : b ∈ s.smallAllocs) : 0 < b.2 :=
  h.tiled.piece_pos b (Or.inl hb)

theorem Sound.free_pos (h : s.Sound hole) {f : Block} (hf : f ∈ s.freeSmallChunks) : 0 < f.2 :=
  h.tiled.piece_pos f (Or.inr (Or.inl hf))

theorem Sound.hole_pos {b : Block} (h : s.Sound (some b)) : 0 < b.2 :=
  h.tiled.piece_pos b (Or.inr (Or.inr rfl))

/-- The block in transit lies inside a region. -/
theorem Sound.hole_inside {b : Block} (h : s.Sound (some b)) :
    ∃ r ∈ s.allocs, Inside b r :=
  h.tiled.piece_inside b (Or.inr (Or.inr rfl))

/-- Small blocks are determined by their start. -/
theorem Sound.used_start_inj (h : s.Sound hole) {b c : Block} (hb : b ∈ s.smallAllocs)
    (hc : c ∈ s.smallAllocs) (hstart : b.1 = c.1) : b = c := by
  have hbpos := h.used_pos hb
  have hcpos := h.used_pos hc
  exact h.tiled.piece_eq (Or.inl hb) (Or.inl hc) (x := b.1) ⟨le_rfl, by omega⟩
    ⟨by omega, by omega⟩

/-- A free chunk and the block in transit are apart. -/
theorem Sound.free_apart_hole {b f : Block} (h : s.Sound (some b))
    (hf : f ∈ s.freeSmallChunks) : Apart f b := by
  refine h.tiled.piece_apart f b (Or.inr (Or.inl hf)) (Or.inr (Or.inr rfl)) fun heq => ?_
  exact (h.tiled.hole_new b rfl).2 (show b ∈ s.freeSmallChunks from heq ▸ hf)

end Pieces

section Moves

/-- Erasing a free chunk removes exactly that chunk. -/
theorem mem_eraseFreeSmallChunk {b f : Block} (hb : b ∈ s.freeSmallChunks) :
    f ∈ (s.eraseFreeSmallChunk b).freeSmallChunks ↔ f ∈ s.freeSmallChunks ∧ f ≠ b := by
  simp only [eraseFreeSmallChunk, OrderedTable.mem_erase]
  refine and_congr_right fun hf => not_congr ⟨fun hkey => ?_, fun heq => heq ▸ rfl⟩
  exact OrderedTable.key_inj hf hb hkey

/-- A free chunk leaves the two containers and becomes the block in transit. -/
theorem layout_eraseFreeSmallChunk {b : Block} (hb : b ∈ s.freeSmallChunks) (hole : Option Block) :
    (s.eraseFreeSmallChunk b).layout hole =
      ⟨{r | r ∈ s.allocs}, {u | u ∈ s.smallAllocs}, {f | f ∈ s.freeSmallChunks} \ {b}, hole⟩ := by
  rw [layout, Layout.mk.injEq]
  refine ⟨rfl, rfl, ?_, rfl⟩
  ext f
  exact mem_eraseFreeSmallChunk hb

theorem transposed_eraseFreeSmallChunk
    (h : ∀ f : Block, f ∈ s.freeSmallChunks ↔ (f.2, f.1) ∈ s.freeSmallChunksInv)
    {b : Block} (hb : b ∈ s.freeSmallChunks) (f : Block) :
    f ∈ (s.eraseFreeSmallChunk b).freeSmallChunks ↔
      (f.2, f.1) ∈ (s.eraseFreeSmallChunk b).freeSmallChunksInv := by
  rw [mem_eraseFreeSmallChunk hb, h f]
  simp only [eraseFreeSmallChunk, OrderedTable.mem_erase]
  refine and_congr_right fun _ => not_congr ⟨fun heq => by rw [heq], fun heq => ?_⟩
  exact congrArg Prod.swap (toLex.injective heq)

theorem Sound.takeFree (h : s.Sound none) {b : Block} (hb : b ∈ s.freeSmallChunks) :
    (s.eraseFreeSmallChunk b).Sound (some b) where
  tiled := layout_eraseFreeSmallChunk hb (some b) ▸ h.tiled.takeFree hb
  transposed := transposed_eraseFreeSmallChunk h.transposed hb
  bounded := h.bounded

/-- A neighbouring free chunk of the same region joins the block in transit. -/
theorem Sound.fuse {b f u : Block} (h : s.Sound (some b)) (hf : f ∈ s.freeSmallChunks)
    (hu : Layout.Joins f b u) (hsame : ∃ r ∈ s.allocs, Inside b r ∧ Inside f r) :
    (s.eraseFreeSmallChunk f).Sound (some u) where
  tiled := layout_eraseFreeSmallChunk hf (some u) ▸ h.tiled.fuse hf hu hsame
  transposed := transposed_eraseFreeSmallChunk h.transposed hf
  bounded := h.bounded

/-- A small block leaves its container and becomes the block in transit. -/
theorem Sound.release (h : s.Sound none) {b : Block} (hb : b ∈ s.smallAllocs) :
    Sound { s with smallAllocs := s.smallAllocs.erase (toLex b) } (some b) := by
  have hlayout : layout { s with smallAllocs := s.smallAllocs.erase (toLex b) } (some b) =
      ⟨{r | r ∈ s.allocs}, {u | u ∈ s.smallAllocs} \ {b}, {f | f ∈ s.freeSmallChunks},
        some b⟩ := by
    rw [layout, Layout.mk.injEq]
    refine ⟨rfl, ?_, rfl, rfl⟩
    ext u
    simp
  exact ⟨hlayout ▸ h.tiled.release hb, h.transposed, h.bounded⟩

/-- Filing a chunk where no other starts adds exactly that chunk. -/
theorem mem_addFreeSmallChunk {b : Block} (hfresh : ∀ f ∈ s.freeSmallChunks, f.1 ≠ b.1)
    {f : Block} : f ∈ (s.addFreeSmallChunk b.1 b.2).freeSmallChunks ↔
      f = b ∨ f ∈ s.freeSmallChunks :=
  OrderedTable.mem_insert_of_fresh hfresh

theorem transposed_addFreeSmallChunk
    (h : ∀ f : Block, f ∈ s.freeSmallChunks ↔ (f.2, f.1) ∈ s.freeSmallChunksInv)
    {b : Block} (hfresh : ∀ f ∈ s.freeSmallChunks, f.1 ≠ b.1) (f : Block) :
    f ∈ (s.addFreeSmallChunk b.1 b.2).freeSmallChunks ↔
      (f.2, f.1) ∈ (s.addFreeSmallChunk b.1 b.2).freeSmallChunksInv := by
  rw [mem_addFreeSmallChunk hfresh, h f]
  refine Iff.trans ?_ (OrderedTable.mem_insert toLex.injective).symm
  refine or_congr_left ⟨fun heq => by rw [heq], fun heq => ?_⟩
  exact congrArg Prod.swap heq

/-- The block in transit is filed as a free chunk. -/
theorem Sound.addFree {b : Block} (h : s.Sound (some b))
    (hleft : ∀ f ∈ s.freeSmallChunks, f.1 + f.2 = b.1 → ∃ r ∈ s.allocs, r.1 = b.1)
    (hright : ∀ g ∈ s.freeSmallChunks, b.1 + b.2 = g.1 → ∃ r ∈ s.allocs, r.1 = g.1) :
    (s.addFreeSmallChunk b.1 b.2).Sound none := by
  have hpos := h.hole_pos
  have hfresh : ∀ f ∈ s.freeSmallChunks, f.1 ≠ b.1 := by
    intro f hf
    have := h.free_pos hf
    have := h.free_apart_hole hf
    omega
  have hlayout : (s.addFreeSmallChunk b.1 b.2).layout none =
      ⟨{r | r ∈ s.allocs}, {u | u ∈ s.smallAllocs}, insert b {f | f ∈ s.freeSmallChunks},
        none⟩ := by
    rw [layout, Layout.mk.injEq]
    refine ⟨rfl, rfl, ?_, rfl⟩
    ext f
    exact mem_addFreeSmallChunk hfresh
  exact ⟨hlayout ▸ h.tiled.fileHole hleft hright,
    transposed_addFreeSmallChunk h.transposed hfresh, h.bounded⟩

/-- Recording a block adds exactly that block to the small blocks. -/
theorem mem_addSmallAlloc (s : MemorySubSession) (p n : ℕ) {u : Block} :
    u ∈ (s.addSmallAlloc p n).smallAllocs ↔ u = (p, n) ∨ u ∈ s.smallAllocs :=
  OrderedTable.mem_insert toLex.injective

/-- The front of the block in transit is handed out. -/
theorem Sound.carve {b : Block} {n : ℕ} (h : s.Sound (some b)) (hn : 0 < n) (hlt : n < b.2) :
    (s.addSmallAlloc b.1 n).Sound (some (b.1 + n, b.2 - n)) := by
  have hlayout : (s.addSmallAlloc b.1 n).layout (some (b.1 + n, b.2 - n)) =
      ⟨{r | r ∈ s.allocs}, insert (b.1, n) {u | u ∈ s.smallAllocs},
        {f | f ∈ s.freeSmallChunks}, some (b.1 + n, b.2 - n)⟩ := by
    rw [layout, Layout.mk.injEq]
    exact ⟨rfl, Set.ext fun u => s.mem_addSmallAlloc b.1 n, rfl, rfl⟩
  exact ⟨hlayout ▸ h.tiled.carve hn hlt, h.transposed, h.bounded⟩

/-- The whole block in transit is handed out. -/
theorem Sound.useHole {b : Block} (h : s.Sound (some b)) :
    (s.addSmallAlloc b.1 b.2).Sound none := by
  have hlayout : (s.addSmallAlloc b.1 b.2).layout none =
      ⟨{r | r ∈ s.allocs}, insert b {u | u ∈ s.smallAllocs}, {f | f ∈ s.freeSmallChunks},
        none⟩ := by
    rw [layout, Layout.mk.injEq]
    exact ⟨rfl, Set.ext fun u => s.mem_addSmallAlloc b.1 b.2, rfl, rfl⟩
  exact ⟨hlayout ▸ h.tiled.useHole, h.transposed, h.bounded⟩

/-- Recording a fresh region adds exactly that region. -/
theorem layout_insert_region (htiled : (s.layout none).Tiled) {r : Block} (hpos : 0 < r.2)
    (hsep : ∀ r' ∈ s.allocs, Apart r r') (bytes : ℕ) (hole : Option Block) :
    layout { s with allocatedBytes := bytes, allocs := s.allocs.insert r } hole =
      ⟨insert r {r | r ∈ s.allocs}, {u | u ∈ s.smallAllocs}, {f | f ∈ s.freeSmallChunks},
        hole⟩ := by
  rw [layout, Layout.mk.injEq]
  refine ⟨Set.ext fun z => OrderedTable.mem_insert_of_fresh fun r' hr' => ?_, rfl, rfl, rfl⟩
  have := hsep r' hr'
  have := htiled.region_pos r' hr'
  omega

/-- Erasing a recorded region removes exactly that region. -/
theorem layout_erase_region {r : Block} (hr : r ∈ s.allocs) (bytes : ℕ) :
    layout { s with allocatedBytes := bytes, allocs := s.allocs.erase r.1 } none =
      ⟨{z | z ∈ s.allocs} \ {r}, {u | u ∈ s.smallAllocs}, {f | f ∈ s.freeSmallChunks},
        none⟩ := by
  rw [layout, Layout.mk.injEq]
  refine ⟨Set.ext fun z => ?_, rfl, rfl, rfl⟩
  simp only [OrderedTable.mem_erase, Set.mem_ofPred_eq, Set.mem_sdiff, Set.mem_singleton_iff]
  exact and_congr_right fun hz =>
    not_congr ⟨fun hkey => OrderedTable.key_inj hz hr hkey, fun heq => heq ▸ rfl⟩

/-- The bound on the regions after recording one more. -/
theorem Sound.bounded_insert (h : s.Sound hole) {r : Block} (hbound : r.1 + r.2 < 2 ^ 64) :
    ∀ z ∈ s.allocs.insert r, z.1 + z.2 < 2 ^ 64 := by
  intro z hz
  rcases OrderedTable.mem_insertEntry hz with rfl | hz
  · exact hbound
  · exact h.bounded z hz

/-- A fresh region is recorded without blocks. -/
theorem Sound.addRegion (h : s.Sound none) {r : Block} (hpos : 0 < r.2)
    (hbound : r.1 + r.2 < 2 ^ 64) (hsep : ∀ r' ∈ s.allocs, Apart r r') (bytes : ℕ) :
    Sound { s with allocatedBytes := bytes, allocs := s.allocs.insert r } none where
  tiled := layout_insert_region h.tiled hpos hsep bytes none ▸ h.tiled.addRegion hpos hsep
  transposed := h.transposed
  bounded := h.bounded_insert hbound

/-- A fresh region is recorded and is the block in transit. -/
theorem Sound.addArena (h : s.Sound none) {r : Block} (hpos : 0 < r.2)
    (hbound : r.1 + r.2 < 2 ^ 64) (hsep : ∀ r' ∈ s.allocs, Apart r r') (bytes : ℕ) :
    Sound { s with allocatedBytes := bytes, allocs := s.allocs.insert r } (some r) where
  tiled := layout_insert_region h.tiled hpos hsep bytes (some r) ▸ h.tiled.addArena hpos hsep
  transposed := h.transposed
  bounded := h.bounded_insert hbound

/-- A region that is the block in transit is given back. -/
theorem Sound.dropArena {r : Block} (h : s.Sound (some r)) (hr : r ∈ s.allocs) (bytes : ℕ) :
    Sound { s with allocatedBytes := bytes, allocs := s.allocs.erase r.1 } none where
  tiled := layout_erase_region hr bytes ▸ h.tiled.dropArena hr
  transposed := h.transposed
  bounded := fun z hz => h.bounded z (OrderedTable.mem_erase.mp hz).1

/-- A region without blocks is given back. -/
theorem Sound.dropRegion {r : Block} (h : s.Sound none) (hr : r ∈ s.allocs)
    (hbare : ∀ b, (s.layout none).Piece b → ¬ Inside b r) (bytes : ℕ) :
    Sound { s with allocatedBytes := bytes, allocs := s.allocs.erase r.1 } none where
  tiled := layout_erase_region hr bytes ▸ h.tiled.dropRegion hr hbare
  transposed := h.transposed
  bounded := fun z hz => h.bounded z (OrderedTable.mem_erase.mp hz).1

end Moves

section Searches

/-- Looking up `(p, 0)` finds the small block that starts at `p`. -/
theorem Sound.upperBound_smallAllocs (h : s.Sound hole) {p n : ℕ}
    (hb : (p, n) ∈ s.smallAllocs) :
    s.smallAllocs.upperBound (toLex (p, 0)) = some (p, n) := by
  have hn : 0 < n := h.used_pos hb
  refine OrderedTable.upperBound_eq_some_iff.mpr ⟨hb, ?_, fun y hy hlt => ?_⟩
  · exact Prod.Lex.toLex_lt_toLex.mpr (Or.inr ⟨rfl, hn⟩)
  · rcases Prod.Lex.toLex_lt_toLex.mp hlt with hstart | ⟨hstart, -⟩
    · have hlt' : toLex (p, n) < toLex y := Prod.Lex.toLex_lt_toLex.mpr (Or.inl hstart)
      exact hlt'.le
    · exact (congrArg toLex (h.used_start_inj hb hy hstart)).le

theorem Sound.isSmallAlloc_of_mem (h : s.Sound hole) {p n : ℕ}
    (hb : (p, n) ∈ s.smallAllocs) : s.isSmallAlloc p = true := by
  simp [isSmallAlloc, h.upperBound_smallAllocs hb]

theorem Sound.removeSmallAlloc_of_mem (h : s.Sound hole) {p n : ℕ}
    (hb : (p, n) ∈ s.smallAllocs) :
    s.removeSmallAlloc p = .ok { s with smallAllocs := s.smallAllocs.erase (toLex (p, n)) } := by
  simp only [removeSmallAlloc, h.upperBound_smallAllocs hb, dAssert]
  rfl

/-- A block found by its start is one of the small blocks. -/
theorem exists_of_isSmallAlloc {p : ℕ} (h : s.isSmallAlloc p = true) :
    ∃ n, (p, n) ∈ s.smallAllocs := by
  rw [isSmallAlloc] at h
  cases hfind : s.smallAllocs.upperBound (toLex (p, 0)) with
  | none => simp [hfind] at h
  | some sa =>
      have hp : sa.1 = p := by simpa [hfind] using h
      exact ⟨sa.2, hp ▸ (OrderedTable.upperBound_eq_some_iff.mp hfind).1⟩

/-- The region search of `deallocate` finds the region that contains the address. -/
theorem Sound.freeSmallChunkAlloc_eq (h : s.Sound hole) {r : Block} (hr : r ∈ s.allocs) {p : ℕ}
    (hlo : r.1 ≤ p) (hhi : p < r.1 + r.2) : s.freeSmallChunkAlloc p = .ok r := by
  have hlast : s.allocs.lastAtMost p = some r := by
    refine OrderedTable.lastAtMost_eq_some_iff.mpr ⟨hr, hlo, fun r' hr' hle => ?_⟩
    by_contra hlt
    have hne : r ≠ r' := fun heq => hlt (heq ▸ le_rfl)
    have hsep := h.tiled.region_apart r hr r' hr' hne
    have := h.tiled.region_pos r' hr'
    omega
  simp [freeSmallChunkAlloc, hlast]

/-- The best fit is a free chunk that is large enough. -/
theorem Sound.smallestSufficent_spec (h : s.Sound hole) {n : ℕ}
    (hfound : (s.smallestSufficentFreeSmallChunk n).1 ≠ 0) :
    ∃ f ∈ s.freeSmallChunks, s.smallestSufficentFreeSmallChunk n = (f.2, f.1) ∧ n ≤ f.2 := by
  cases hsearch : s.freeSmallChunksInv.upperBound (toLex (n, 0)) with
  | none => simp [smallestSufficentFreeSmallChunk, hsearch] at hfound
  | some i =>
      obtain ⟨hi, hlt, -⟩ := OrderedTable.upperBound_eq_some_iff.mp hsearch
      refine ⟨(i.2, i.1), (h.transposed _).mpr hi, ?_, ?_⟩
      · simp [smallestSufficentFreeSmallChunk, hsearch]
      · rcases Prod.Lex.toLex_lt_toLex.mp hlt with hlt | ⟨heq, -⟩
        · exact hlt.le
        · exact heq.le

theorem removeFreeSmallChunk_eq {b : Block} (hb : b ∈ s.freeSmallChunks) :
    s.removeFreeSmallChunk b.1 = s.eraseFreeSmallChunk b := by
  have hfind : s.freeSmallChunks.find? b.1 = some b :=
    OrderedTable.find?_eq_some_iff.mpr ⟨hb, rfl⟩
  simp [removeFreeSmallChunk, eraseFreeSmallChunk, hfind]

/-- Hand out the first `n` bytes of the block in transit and file what is left. -/
def serve (s : MemorySubSession) (p n remainderSize : ℕ) : MemorySubSession :=
  if remainderSize ≠ 0 then (s.addSmallAlloc p n).addFreeSmallChunk (p + n) remainderSize
  else s.addSmallAlloc p n

theorem serve_allocs (s : MemorySubSession) (p n k : ℕ) : (s.serve p n k).allocs = s.allocs := by
  unfold serve
  split_ifs <;> rfl

theorem mem_serve_smallAllocs {s : MemorySubSession} {p n k : ℕ} {u : Block} :
    u ∈ (s.serve p n k).smallAllocs ↔ u = (p, n) ∨ u ∈ s.smallAllocs := by
  rw [← mem_addSmallAlloc]
  unfold serve
  split_ifs <;> rfl

/-- Serving from a block whose right neighbour is not free keeps the bookkeeping sound. -/
theorem Sound.serve {b : Block} {n : ℕ} (h : s.Sound (some b)) (hn : 0 < n) (hle : n ≤ b.2)
    (hright : ∀ g ∈ s.freeSmallChunks, b.1 + b.2 = g.1 → ∃ r ∈ s.allocs, r.1 = g.1) :
    (s.serve b.1 n (b.2 - n)).Sound none := by
  unfold MemorySubSession.serve
  split_ifs with hrest
  · have hcarved := h.carve hn (by omega : n < b.2)
    refine hcarved.addFree ?_ ?_
    · -- The address before the rest belongs to the block just handed out.
      intro f hf hadj
      have hfpos := hcarved.free_pos hf
      have hsep := h.free_apart_hole hf
      simp only at hadj
      omega
    · intro g hg hadj
      exact hright g hg (by simp only at hadj; omega)
  · obtain rfl : n = b.2 := by omega
    exact h.useHole

/-- After serving, every block is an old one or lies inside the block served from. -/
theorem serve_piece {b d : Block} {n : ℕ} (hle : n ≤ b.2)
    (hd : ((s.serve b.1 n (b.2 - n)).layout none).Piece d) :
    (d ∈ s.smallAllocs ∨ d ∈ s.freeSmallChunks) ∨ Inside d b := by
  rcases hd with hd | hd | hd
  · rcases mem_serve_smallAllocs.mp hd with rfl | hd'
    · exact Or.inr ⟨le_rfl, by simp only; omega⟩
    · exact Or.inl (Or.inl hd')
  · have hd' : d ∈ (s.serve b.1 n (b.2 - n)).freeSmallChunks := hd
    unfold MemorySubSession.serve at hd'
    split_ifs at hd' with hrest
    · rcases OrderedTable.mem_insertEntry hd' with rfl | hd'
      · exact Or.inr ⟨by simp only; omega, by simp only; omega⟩
      · exact Or.inl (Or.inr hd')
    · exact Or.inl (Or.inr hd')
  · simp [layout] at hd

end Searches

section Merging

/-- What a merging step does to the sub-session: it only takes free chunks away. -/
structure Shrinks (s s' : MemorySubSession) : Prop where
  frozen : s'.frozen = s.frozen
  unfrozenThreadsCount : s'.unfrozenThreadsCount = s.unfrozenThreadsCount
  allocatedBytes : s'.allocatedBytes = s.allocatedBytes
  allocs : s'.allocs = s.allocs
  smallAllocs : s'.smallAllocs = s.smallAllocs
  free : ∀ f ∈ s'.freeSmallChunks, f ∈ s.freeSmallChunks

theorem Shrinks.refl (s : MemorySubSession) : Shrinks s s :=
  ⟨rfl, rfl, rfl, rfl, rfl, fun _ hf => hf⟩

theorem Shrinks.trans {s₁ s₂ s₃ : MemorySubSession} (h₁ : Shrinks s₁ s₂) (h₂ : Shrinks s₂ s₃) :
    Shrinks s₁ s₃ where
  frozen := h₂.frozen.trans h₁.frozen
  unfrozenThreadsCount := h₂.unfrozenThreadsCount.trans h₁.unfrozenThreadsCount
  allocatedBytes := h₂.allocatedBytes.trans h₁.allocatedBytes
  allocs := h₂.allocs.trans h₁.allocs
  smallAllocs := h₂.smallAllocs.trans h₁.smallAllocs
  free := fun f hf => h₁.free f (h₂.free f hf)

theorem shrinks_eraseFreeSmallChunk (s : MemorySubSession) (b : Block) :
    Shrinks s (s.eraseFreeSmallChunk b) :=
  ⟨rfl, rfl, rfl, rfl, rfl, fun _ hf => (OrderedTable.mem_erase.mp hf).1⟩

/-- The only candidate for a left neighbour is the last chunk that starts before the block. -/
theorem Sound.lastAtMost_of_adjacent {b f : Block} (h : s.Sound (some b))
    (hf : f ∈ s.freeSmallChunks) (hadj : f.1 + f.2 = b.1) :
    s.freeSmallChunks.lastAtMost b.1 = some f := by
  have hpos := h.hole_pos
  have hfpos := h.free_pos hf
  refine OrderedTable.lastAtMost_eq_some_iff.mpr ⟨hf, by omega, fun g hg hle => ?_⟩
  by_contra hlt
  have hne : f ≠ g := fun heq => hlt (heq ▸ le_rfl)
  -- A chunk between the two would overlap one of them.
  have hsep := h.tiled.piece_apart f g (Or.inr (Or.inl hf)) (Or.inr (Or.inl hg)) hne
  have hgpos := h.free_pos hg
  have hgsep := h.free_apart_hole hg
  omega

/-- The only candidate for a right neighbour is the first chunk that starts after the block. -/
theorem Sound.upperBound_of_adjacent {b g : Block} (h : s.Sound (some b))
    (hg : g ∈ s.freeSmallChunks) (hadj : b.1 + b.2 = g.1) :
    s.freeSmallChunks.upperBound b.1 = some g := by
  have hpos := h.hole_pos
  refine OrderedTable.upperBound_eq_some_iff.mpr ⟨hg, by omega, fun f hf hlt => ?_⟩
  have hsep := h.free_apart_hole hf
  have hfpos := h.free_pos hf
  omega

/-- A free chunk that ends at the block and starts below the region ends at the region's start. -/
theorem Sound.start_of_outer_neighbour {b r f : Block} (h : s.Sound (some b)) (hr : r ∈ s.allocs)
    (hin : Inside b r) (hf : f ∈ s.freeSmallChunks) (hadj : f.1 + f.2 = b.1) (hlow : f.1 < r.1) :
    r.1 = b.1 := by
  have hpos := h.hole_pos
  have hfpos := h.free_pos hf
  obtain ⟨r', hr', hin'⟩ := h.tiled.piece_inside f (Or.inr (Or.inl hf))
  have hne : r ≠ r' := fun heq => by subst heq; omega
  have hsep := h.tiled.region_apart r hr r' hr' hne
  omega

/-- **The first merging step.**  The block in transit grows downwards over a free
neighbour of its region, and afterwards no free chunk of the region ends where it starts. -/
theorem Sound.mergePrevious_spec {b r : Block} (h : s.Sound (some b)) (hr : r ∈ s.allocs)
    (hin : Inside b r) :
    ∃ s' b', s.mergePrevious r b = .ok (s', b') ∧ s'.Sound (some b') ∧ Shrinks s s' ∧
      Inside b' r ∧ b'.1 + b'.2 = b.1 + b.2 ∧ b'.1 ≤ b.1 ∧
      (∀ f ∈ s.freeSmallChunks, f.1 + f.2 = b.1 → r.1 ≤ f.1 → b'.1 = f.1) ∧
      (∀ f ∈ s'.freeSmallChunks, f.1 + f.2 = b'.1 → ∃ r' ∈ s.allocs, r'.1 = b'.1) := by
  have hpos := h.hole_pos
  have hbound := h.bounded r hr
  cases hprev : s.freeSmallChunks.lastAtMost b.1 with
  | none =>
      refine ⟨s, b, by simp [mergePrevious, hprev], h, Shrinks.refl s, hin, rfl, le_rfl, ?_, ?_⟩
      · intro f hf hadj
        exact absurd (h.lastAtMost_of_adjacent hf hadj) (by simp [hprev])
      · intro f hf hadj
        exact absurd (h.lastAtMost_of_adjacent hf hadj) (by simp [hprev])
  | some previous =>
      obtain ⟨hmem, hle, -⟩ := OrderedTable.lastAtMost_spec hprev
      have hppos := h.free_pos hmem
      have hsep := h.free_apart_hole hmem
      have honly : ∀ f ∈ s.freeSmallChunks, f.1 + f.2 = b.1 → f = previous := by
        intro f hf hfadj
        have hfound := h.lastAtMost_of_adjacent hf hfadj
        rw [hprev] at hfound
        exact (Option.some.inj hfound).symm
      by_cases hregion : r.1 ≤ previous.1
      · by_cases hadj : b.1 - previous.1 = previous.2
        · -- The chunk ends where the block starts: they become one block.
          have hadd : addWrap 64 b.2 previous.2 = b.2 + previous.2 :=
            addWrap_of_lt (by omega)
          have hjoin : Layout.Joins previous b (previous.1, b.2 + previous.2) :=
            Or.inl ⟨by omega, by rw [Nat.add_comm]⟩
          have hsame : ∃ r ∈ s.allocs, Inside b r ∧ Inside previous r :=
            ⟨r, hr, hin, hregion, by omega⟩
          have hfuse := h.fuse hmem hjoin hsame
          refine ⟨s.eraseFreeSmallChunk previous, (previous.1, b.2 + previous.2), ?_, hfuse,
            shrinks_eraseFreeSmallChunk s previous, ⟨hregion, by simp only; omega⟩,
            by simp only; omega, by simp only; omega, ?_, ?_⟩
          · have hlt : previous.1 < b.1 := by omega
            simp [mergePrevious, hprev, hregion, dAssert_of, hlt, hadj, hadd]
          · intro f hf hfadj _
            rw [honly f hf hfadj]
          · intro f hf hfadj
            have hf' : f ∈ s.freeSmallChunks := (OrderedTable.mem_erase.mp hf).1
            obtain ⟨r', hr', hstart⟩ :=
              h.tiled.free_apart f hf' previous hmem hfadj
            exact ⟨r', hr', hstart⟩
        · -- The chunk ends before the block starts: nothing changes.
          have hnone : ∀ f ∈ s.freeSmallChunks, f.1 + f.2 = b.1 → False := by
            intro f hf hfadj
            obtain rfl := honly f hf hfadj
            omega
          refine ⟨s, b, ?_, h, Shrinks.refl s, hin, rfl, le_rfl,
            fun f hf hfadj => (hnone f hf hfadj).elim,
            fun f hf hfadj => (hnone f hf hfadj).elim⟩
          have hlt : previous.1 < b.1 := by omega
          have hdiff : previous.2 ≤ b.1 - previous.1 := by omega
          simp [mergePrevious, hprev, hregion, dAssert_of, hlt, hdiff, hadj]
      · -- The chunk before the block lies in an earlier region.
        refine ⟨s, b, by simp [mergePrevious, hprev, hregion], h, Shrinks.refl s, hin, rfl,
          le_rfl, ?_, ?_⟩
        · intro f hf hfadj hfr
          obtain rfl := honly f hf hfadj
          exact absurd hfr hregion
        · intro f hf hfadj
          obtain rfl := honly f hf hfadj
          exact ⟨r, hr, h.start_of_outer_neighbour hr hin hf hfadj (by omega)⟩

/-- **The second merging step.**  When the block does not reach the end of its region,
or already is the region, or nothing free follows it, a free right neighbour is one of
the same region; the block grows upwards over it. -/
theorem Sound.mergeNext_spec {b r : Block} (h : s.Sound (some b)) (hr : r ∈ s.allocs)
    (hin : Inside b r)
    (hcross : b.1 + b.2 = r.1 + r.2 → (∃ g ∈ s.freeSmallChunks, g.1 = b.1 + b.2) → b.2 = r.2) :
    ∃ s' b', s.mergeNext r b = .ok (s', b') ∧ s'.Sound (some b') ∧ Shrinks s s' ∧
      Inside b' r ∧ b'.1 = b.1 ∧ b.2 ≤ b'.2 ∧
      (b'.2 ≠ r.2 → ∀ g ∈ s'.freeSmallChunks, b'.1 + b'.2 = g.1 →
        ∃ r' ∈ s.allocs, r'.1 = g.1) := by
  have hpos := h.hole_pos
  have hbound := h.bounded r hr
  cases hnext : s.freeSmallChunks.upperBound b.1 with
  | none =>
      refine ⟨s, b, by simp [mergeNext, hnext], h, Shrinks.refl s, hin, rfl, le_rfl, ?_⟩
      intro _ g hg hadj
      exact absurd (h.upperBound_of_adjacent hg hadj) (by simp [hnext])
  | some next =>
      obtain ⟨hmem, hlt, -⟩ := OrderedTable.upperBound_eq_some_iff.mp hnext
      by_cases hwhole : b.2 = r.2
      · refine ⟨s, b, by simp [mergeNext, hnext, hwhole], h, Shrinks.refl s, hin, rfl,
          le_rfl, ?_⟩
        intro hne
        exact absurd hwhole hne
      · by_cases hadj : next.1 - b.1 = b.2
        · have hstart : b.1 + b.2 = next.1 := by omega
          -- The source does not test the region here; that the chunk lies in it is `hcross`.
          have hinner : next.1 < r.1 + r.2 := by
            by_contra hge
            exact hwhole (hcross (by omega) ⟨next, hmem, hstart.symm⟩)
          have hnin : Inside next r :=
            h.tiled.inside_of_start hr (Or.inr (Or.inl hmem)) (by omega) hinner
          have hadd : addWrap 64 b.2 next.2 = b.2 + next.2 := addWrap_of_lt (by omega)
          have hfuse := h.fuse hmem (Or.inr ⟨hstart, rfl⟩) ⟨r, hr, hin, hnin⟩
          refine ⟨s.eraseFreeSmallChunk next, (b.1, b.2 + next.2), ?_, hfuse,
            shrinks_eraseFreeSmallChunk s next, ⟨hin.1, by simp only; omega⟩, rfl,
            Nat.le_add_right _ _, ?_⟩
          · simp [mergeNext, hnext, hwhole, dAssert_of, hlt, hadj, hadd]
          · intro _ g hg hgadj
            have hg' : g ∈ s.freeSmallChunks := (OrderedTable.mem_erase.mp hg).1
            exact h.tiled.free_apart next hmem g hg' (by simp only at hgadj; omega)
        · refine ⟨s, b, by simp [mergeNext, hnext, hwhole, dAssert_of, hlt, hadj], h,
            Shrinks.refl s, hin, rfl, le_rfl, ?_⟩
          intro _ g hg hgadj
          have hfound := h.upperBound_of_adjacent hg hgadj
          rw [hnext] at hfound
          obtain rfl := Option.some.inj hfound
          omega

/-- Whatever the first merging step finds, it only takes free chunks away. -/
theorem mergePrevious_shrinks {s s' : MemorySubSession} {r b b' : Block}
    (h : s.mergePrevious r b = .ok (s', b')) : Shrinks s s' := by
  rw [mergePrevious] at h
  cases hprev : s.freeSmallChunks.lastAtMost b.1 with
  | none =>
      simp only [hprev, Except.ok.injEq, Prod.mk.injEq] at h
      exact h.1 ▸ Shrinks.refl s
  | some previous =>
      simp only [hprev, dAssert, dAssertElse] at h
      split_ifs at h <;> simp [pure, Except.pure] at h
      · exact h.1 ▸ shrinks_eraseFreeSmallChunk s previous
      · exact h.1 ▸ Shrinks.refl s
      · exact h.1 ▸ Shrinks.refl s

/-- The second merging step never fails: its assertion repeats what the search promises. -/
theorem mergeNext_ok (s : MemorySubSession) (r b : Block) :
    ∃ s' b', s.mergeNext r b = .ok (s', b') ∧ Shrinks s s' := by
  cases hnext : s.freeSmallChunks.upperBound b.1 with
  | none => exact ⟨s, b, by simp [mergeNext, hnext], Shrinks.refl s⟩
  | some next =>
      obtain ⟨-, hlt, -⟩ := OrderedTable.upperBound_eq_some_iff.mp hnext
      by_cases hwhole : b.2 = r.2
      · exact ⟨s, b, by simp [mergeNext, hnext, hwhole], Shrinks.refl s⟩
      · by_cases hadj : next.1 - b.1 = b.2
        · exact ⟨s.eraseFreeSmallChunk next, (b.1, addWrap 64 b.2 next.2),
            by simp [mergeNext, hnext, hwhole, dAssert_of, hlt, hadj],
            shrinks_eraseFreeSmallChunk s next⟩
        · exact ⟨s, b, by simp [mergeNext, hnext, hwhole, dAssert_of, hlt, hadj],
            Shrinks.refl s⟩

/-- The guard on an empty container does not change what the two steps compute. -/
theorem addMergeRemoveFreeSmallChunk_eq (s : MemorySubSession) (p bytes : ℕ) :
    s.addMergeRemoveFreeSmallChunk p bytes = (do
      let chunkAlloc ← s.freeSmallChunkAlloc p
      let (s₁, remainder) ← s.mergePrevious chunkAlloc (p, bytes)
      s₁.mergeNext chunkAlloc remainder) := by
  rw [addMergeRemoveFreeSmallChunk]
  congr 1
  funext chunkAlloc
  by_cases hempty : s.freeSmallChunks.isEmpty = true
  · have hnone : ∀ x, x ∉ s.freeSmallChunks := OrderedTable.isEmpty_iff.mp hempty
    have hprev : s.freeSmallChunks.lastAtMost p = none :=
      OrderedTable.lastAtMost_eq_none_iff.mpr fun y hy => absurd hy (hnone y)
    have hnext : s.freeSmallChunks.upperBound p = none :=
      OrderedTable.upperBound_eq_none_iff.mpr fun y hy => absurd hy (hnone y)
    simp only [hempty, if_true, mergePrevious, hprev]
    simp only [mergeNext, hnext, bind, Except.bind, pure, Except.pure]
  · simp [hempty]

end Merging

end MemorySubSession

end MemoryManager
end CoherentDB
