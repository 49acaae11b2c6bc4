import CoherentDB.MemoryManager.SubSessionLayout

/-!
# Runs of one sub-session: live blocks and the tiling of the arenas

A run starts from a sub-session without regions and applies `allocate` and
`deallocate` in any order, every block being given back at most once and with
the size it was requested with.  The kernel answers `mmap` freely within its
contract.

`Held` is the invariant of the bookkeeping together with the pages of the
recorded regions, `Recorded` what the bookkeeping knows about a block in the
hands of the caller.  Both survive every `allocate`, and every `deallocate` that
is not a cross-arena merge.
-/

namespace CoherentDB
namespace MemoryManager

open Debug Containers MachineInt ArenaLayout

/-- Freeing `b` joins it with a free chunk of the following region: `b` ends its
region, a free chunk starts at that address, and `b` together with a free chunk
in front of it does not fill the region. -/
def CrossArenaMerge (s : MemorySubSession) (b : Block) : Prop :=
  ∃ r ∈ s.allocs, Inside b r ∧ b.1 + b.2 = r.1 + r.2 ∧
    (∃ g ∈ s.freeSmallChunks, g.1 = b.1 + b.2) ∧
    b.1 ≠ r.1 ∧ (r.1, b.1 - r.1) ∉ s.freeSmallChunks

instance (s : MemorySubSession) (b : Block) : Decidable (CrossArenaMerge s b) :=
  inferInstanceAs (Decidable (∃ r ∈ s.allocs, Inside b r ∧ b.1 + b.2 = r.1 + r.2 ∧
    (∃ g ∈ s.freeSmallChunks, g.1 = b.1 + b.2) ∧
    b.1 ≠ r.1 ∧ (r.1, b.1 - r.1) ∉ s.freeSmallChunks))

/-- The bookkeeping is consistent, every arena serves a block, and the pages of
the recorded regions are mapped. -/
structure Held (cfg : ManagerConfig) (mapped : Finset ℕ) (s : MemorySubSession) : Prop where
  sound : s.Sound none
  populated : (s.layout none).Populated
  aligned : ∀ r ∈ s.allocs, cfg.pageSize ∣ r.1 ∧ cfg.pageSize ∣ r.2
  mapped : ∀ r ∈ s.allocs, cfg.pages r.1 r.2 ⊆ mapped

/-- A block handed out and not yet given back, as the bookkeeping sees it: a small
block, or the front of a region that is not cut into chunks. -/
def Recorded (cfg : ManagerConfig) (s : MemorySubSession) (b : Block) : Prop :=
  (b.2 ≤ cfg.getMaxSmallAllocBytes ∧ b ∈ s.smallAllocs) ∨
  (cfg.getMaxSmallAllocBytes < b.2 ∧ b.2 < 2 ^ 64 ∧ (b.1, cfg.pageAligned b.2) ∈ s.allocs ∧
    ∀ d, (s.layout none).Piece d → ¬ Inside d (b.1, cfg.pageAligned b.2))

namespace Scope

variable {cfg : ManagerConfig} {mmap : ℕ → Option ℕ} {c c' : Scope}

@[simp] theorem fileRemainder_mapped (res n k : ℕ) :
    (c.fileRemainder res n k).mapped = c.mapped := by
  unfold fileRemainder
  split_ifs <;> rfl

@[simp] theorem fileRemainder_parent (res n k : ℕ) :
    (c.fileRemainder res n k).parent = c.parent := by
  unfold fileRemainder
  split_ifs <;> rfl

theorem fileRemainder_self (res n k : ℕ) :
    (c.fileRemainder res n k).self =
      if k ≠ 0 then c.self.addFreeSmallChunk (res + n) k else c.self := by
  unfold fileRemainder
  split_ifs <;> rfl

/-- The scope right after `mmap` answered `p`. -/
def mapAt (cfg : ManagerConfig) (c : Scope) (p bytes : ℕ) : Scope :=
  { c with mapped := c.mapped ∪ cfg.pages p bytes }

/-- Cutting a block from a free chunk.  The source records the block before it removes the
chunk; the containers do not mind. -/
theorem fileRemainder_chunk {f : Block} {n : ℕ} (hf : f ∈ c.self.freeSmallChunks) (hle : n ≤ f.2)
    (hsized : f.2 < 2 ^ 64) :
    (fileRemainder { c with self := (c.self.addSmallAlloc f.1 n).removeFreeSmallChunk f.1 } f.1 n
      (subWrap 64 f.2 n)).self = (c.self.eraseFreeSmallChunk f).serve f.1 n (f.2 - n) := by
  have hremove : (c.self.addSmallAlloc f.1 n).removeFreeSmallChunk f.1 =
      (c.self.eraseFreeSmallChunk f).addSmallAlloc f.1 n :=
    MemorySubSession.removeFreeSmallChunk_eq (s := c.self.addSmallAlloc f.1 n) hf
  rw [subWrap_of_le hle hsized, fileRemainder_self, hremove]
  rfl

/-- **What a successful `allocate` did**: a region of its own, a new arena, or a
part of a free chunk. -/
theorem allocate_cases {n p : ℕ} (h : c.allocate cfg mmap n = .ok (p, c')) :
    (cfg.getMaxSmallAllocBytes < n ∧ mmap (cfg.pageAligned n) = some p ∧
      c' = (c.mapAt cfg p (cfg.pageAligned n)).addAlloc p (cfg.pageAligned n)) ∨
    (n ≤ cfg.getMaxSmallAllocBytes ∧ (c.self.smallestSufficentFreeSmallChunk n).1 = 0 ∧
      mmap cfg.getSingleSmallAllocBytes = some p ∧
      ∃ c₁, c₁ = (c.mapAt cfg p cfg.getSingleSmallAllocBytes).addAlloc p
          cfg.getSingleSmallAllocBytes ∧
        c' = fileRemainder { c₁ with self := c₁.self.addSmallAlloc p n } p n
          (subWrap 64 cfg.getSingleSmallAllocBytes n)) ∨
    (n ≤ cfg.getMaxSmallAllocBytes ∧ (c.self.smallestSufficentFreeSmallChunk n).1 ≠ 0 ∧
      p = (c.self.smallestSufficentFreeSmallChunk n).2 ∧
      c' = fileRemainder
        { c with self := (c.self.addSmallAlloc p n).removeFreeSmallChunk p } p n
          (subWrap 64 (c.self.smallestSufficentFreeSmallChunk n).1 n)) := by
  rw [allocate] at h
  by_cases hlarge : cfg.getMaxSmallAllocBytes < n
  · -- A large request has its own region; no answer from `mmap` throws.
    rw [if_pos hlarge] at h
    refine Or.inl ⟨hlarge, ?_⟩
    cases hmap : mmap (cfg.pageAligned n) with
    | none => simp [Scope.map, hmap] at h
    | some q =>
        simp only [Scope.map, hmap, ok_bind, pure, Except.pure, Except.ok.injEq,
          Prod.mk.injEq] at h
        obtain ⟨rfl, rfl⟩ := h
        exact ⟨rfl, rfl⟩
  · rw [if_neg hlarge] at h
    dsimp only at h
    by_cases hchunk : (c.self.smallestSufficentFreeSmallChunk n).1 = 0
    · -- No free chunk is large enough: a new arena, its rest filed as free.
      rw [if_pos hchunk] at h
      refine Or.inr (Or.inl ⟨not_lt.mp hlarge, hchunk, ?_⟩)
      cases hmap : mmap cfg.getSingleSmallAllocBytes with
      | none => simp [Scope.map, hmap] at h
      | some q =>
          simp only [Scope.map, hmap, ok_bind, pure, Except.pure, Except.ok.injEq,
            Prod.mk.injEq] at h
          obtain ⟨rfl, rfl⟩ := h
          exact ⟨rfl, _, rfl, rfl⟩
    · -- The chosen free chunk is cut; nothing is mapped here.
      rw [if_neg hchunk] at h
      simp only [Except.ok.injEq, Prod.mk.injEq] at h
      obtain ⟨rfl, rfl⟩ := h
      exact Or.inr (Or.inr ⟨not_lt.mp hlarge, hchunk, rfl, rfl⟩)

end Scope

section Allocate

variable {cfg : ManagerConfig} {mmap : ℕ → Option ℕ} {c c' : Scope}

/-- A fresh region is apart from every recorded one. -/
theorem Held.apart_of_fresh {mapped : Finset ℕ} {s : MemorySubSession} (h : Held cfg mapped s)
    {p bytes : ℕ} (hfresh : Fresh cfg mapped p bytes) :
    ∀ r ∈ s.allocs, Apart (p, bytes) r := by
  intro r hr
  have hpos : 0 < r.2 := h.sound.tiled.region_pos r hr
  exact cfg.apart_of_disjoint_pages hfresh.nonempty hpos
    (Finset.disjoint_of_subset_right (h.mapped r hr) hfresh.unmapped)

/-- A fresh region starts where no recorded one does. -/
theorem Held.start_ne {mapped : Finset ℕ} {s : MemorySubSession} (h : Held cfg mapped s)
    {p bytes : ℕ} (hfresh : Fresh cfg mapped p bytes) : ∀ r ∈ s.allocs, r.1 ≠ p := by
  intro r hr
  exact hfresh.start_ne (h.sound.tiled.region_pos r hr) (h.mapped r hr)

/-- A fresh region adds its size to the total. -/
theorem Held.total_insert {mapped : Finset ℕ} {s : MemorySubSession} (h : Held cfg mapped s)
    {p bytes : ℕ} (hfresh : Fresh cfg mapped p bytes) :
    (s.allocs.insert (p, bytes)).total Prod.snd = bytes + s.allocs.total Prod.snd :=
  OrderedTable.total_insert Prod.snd (h.start_ne hfresh)

/-- A recorded block lies inside a recorded region. -/
theorem Recorded.inside {mapped : Finset ℕ} {s : MemorySubSession} (h : Held cfg mapped s)
    {b : Block} (hb : Recorded cfg s b) : ∃ r ∈ s.allocs, Inside b r := by
  rcases hb with ⟨-, hmem⟩ | ⟨-, hlt, hmem, -⟩
  · exact h.sound.tiled.piece_inside b (Or.inl hmem)
  · have hpos : 0 < cfg.pageAligned b.2 := h.sound.tiled.region_pos _ hmem
    have hle := cfg.le_pageAligned hlt hpos
    exact ⟨_, hmem, le_rfl, by simp only; omega⟩

/-- A piece of the layout other than a small block is apart from every recorded block. -/
theorem Recorded.apart_free {mapped : Finset ℕ} {s : MemorySubSession} (h : Held cfg mapped s)
    {b f : Block} (hb : Recorded cfg s b) (hf : f ∈ s.freeSmallChunks) : Apart f b := by
  have hfp : (s.layout none).Piece f := Or.inr (Or.inl hf)
  rcases hb with ⟨-, hmem⟩ | ⟨-, hlt, hmem, hbare⟩
  · refine h.sound.tiled.piece_apart f b hfp (Or.inl hmem) fun heq => ?_
    exact h.sound.tiled.used_notFree b hmem (show b ∈ s.freeSmallChunks from heq ▸ hf)
  · obtain ⟨r, hr, hin⟩ := h.sound.tiled.piece_inside f hfp
    have hne : r ≠ (b.1, cfg.pageAligned b.2) := fun heq => hbare f hfp (heq ▸ hin)
    have hsep := h.sound.tiled.region_apart r hr _ hmem hne
    have hpos : 0 < cfg.pageAligned b.2 := h.sound.tiled.region_pos _ hmem
    have hle := cfg.le_pageAligned hlt hpos
    simp only [Apart] at hsep
    omega

/-- Recording a fresh region keeps what is known about other blocks. -/
theorem Held.insert_region {mapped : Finset ℕ} {s : MemorySubSession} (h : Held cfg mapped s)
    {p bytes : ℕ} (hfresh : Fresh cfg mapped p bytes) (hdvd : cfg.pageSize ∣ bytes) :
    (∀ r ∈ s.allocs.insert (p, bytes), cfg.pageSize ∣ r.1 ∧ cfg.pageSize ∣ r.2) ∧
    (∀ r ∈ s.allocs.insert (p, bytes),
      cfg.pages r.1 r.2 ⊆ mapped ∪ cfg.pages p bytes) := by
  constructor
  · intro r hr
    rcases OrderedTable.mem_insertEntry hr with rfl | hr
    · exact ⟨hfresh.aligned, hdvd⟩
    · exact h.aligned r hr
  · intro r hr
    rcases OrderedTable.mem_insertEntry hr with rfl | hr
    · exact Finset.subset_union_right
    · exact (h.mapped r hr).trans Finset.subset_union_left

/-- `allocate` of a large block. -/
theorem Held.allocate_large (h : Held cfg c.mapped c.self) {p n : ℕ} (hn : n < 2 ^ 64)
    (hlarge : cfg.getMaxSmallAllocBytes < n)
    (hfresh : Fresh cfg c.mapped p (cfg.pageAligned n)) :
    let c' := (c.mapAt cfg p (cfg.pageAligned n)).addAlloc p (cfg.pageAligned n)
    Held cfg c'.mapped c'.self ∧ Recorded cfg c'.self (p, n) ∧
      ∀ b, Recorded cfg c.self b → Recorded cfg c'.self b ∧ Apart (p, n) b := by
  intro c'
  have hsep := h.apart_of_fresh hfresh
  have hpos := hfresh.nonempty
  have hle := cfg.le_pageAligned hn hpos
  have hdvd := cfg.pageSize_dvd_pageAligned n
  obtain ⟨haligned, hmapped⟩ := h.insert_region hfresh hdvd
  have hsound : c'.self.Sound none := h.sound.addRegion hpos hfresh.fits hsep _
  have hpiece : ∀ d, (c'.self.layout none).Piece d → (c.self.layout none).Piece d := fun d hd => hd
  have hmem : ∀ r ∈ c.self.allocs, r ∈ c'.self.allocs := fun r hr =>
    OrderedTable.subset_insertEntry hr
  have hnew : (p, cfg.pageAligned n) ∈ c'.self.allocs := by
    refine (OrderedTable.mem_insert_of_fresh fun r hr => ?_).mpr (Or.inl rfl)
    have := hsep r hr
    have : 0 < r.2 := h.sound.tiled.region_pos r hr
    simp only [Apart] at *
    omega
  -- Every piece lies in an older region, hence outside the fresh one.
  have hbare : ∀ d, (c'.self.layout none).Piece d → ¬ Inside d (p, cfg.pageAligned n) := by
    intro d hd hin
    have hdpos := h.sound.tiled.piece_pos d hd
    have := h.sound.tiled.piece_apart_of_fresh hsep hd
    simp only [Apart, Inside] at *
    omega
  refine ⟨⟨hsound, ?_, haligned, hmapped⟩, Or.inr ⟨hlarge, hn, hnew, hbare⟩, fun b hb => ⟨?_, ?_⟩⟩
  · intro r hr d hd hin
    rcases OrderedTable.mem_insertEntry (show r ∈ c.self.allocs.insert _ from hr) with rfl | hr
    · exact (hbare d hd hin).elim
    · exact h.populated r hr d hd hin
  · rcases hb with hsmall | ⟨hbig, hlt, hreg, hbare'⟩
    · exact Or.inl hsmall
    · exact Or.inr ⟨hbig, hlt, hmem _ hreg, hbare'⟩
  · obtain ⟨r, hr, hin⟩ := hb.inside h
    have := hsep r hr
    simp only [Apart, Inside] at *
    omega

/-- Serving a small request from a block in transit. -/
theorem Held.of_serve {mapped : Finset ℕ} {s : MemorySubSession} {b : Block} {n : ℕ}
    (hs : s.Sound (some b)) (hn : 0 < n) (hle : n ≤ b.2)
    (hright : ∀ g ∈ s.freeSmallChunks, b.1 + b.2 = g.1 → ∃ r ∈ s.allocs, r.1 = g.1)
    (haligned : ∀ r ∈ s.allocs, cfg.pageSize ∣ r.1 ∧ cfg.pageSize ∣ r.2)
    (hmapped : ∀ r ∈ s.allocs, cfg.pages r.1 r.2 ⊆ mapped)
    (hpop : ∀ r ∈ s.allocs, ∀ d, (d ∈ s.smallAllocs ∨ d ∈ s.freeSmallChunks) → Inside d r →
      Inside b r ∨ ∃ u ∈ s.smallAllocs, Inside u r) :
    Held cfg mapped (s.serve b.1 n (b.2 - n)) := by
  have hserved := hs.serve hn hle hright
  have hregs : (s.serve b.1 n (b.2 - n)).allocs = s.allocs :=
    MemorySubSession.serve_allocs s b.1 n _
  have hused : ∀ u, u = (b.1, n) ∨ u ∈ s.smallAllocs →
      u ∈ (s.serve b.1 n (b.2 - n)).smallAllocs :=
    fun u hu => MemorySubSession.mem_serve_smallAllocs.mpr hu
  refine ⟨hserved, ?_, fun r hr => haligned r (hregs ▸ hr), fun r hr => hmapped r (hregs ▸ hr)⟩
  intro r hr d hd hin
  have hr' : r ∈ s.allocs := hregs ▸ hr
  have hdpos := hserved.tiled.piece_pos d hd
  have hcase : Inside b r ∨ ∃ u ∈ s.smallAllocs, Inside u r := by
    rcases MemorySubSession.serve_piece hle hd with hold | hpart
    · exact hpop r hr' d hold hin
    · -- A region that contains a part of the block contains the block.
      obtain ⟨r₀, hr₀, hin₀⟩ := hs.hole_inside
      have heq : r = r₀ := hs.tiled.region_eq hr' hr₀ (x := d.1) ⟨hin.1, by omega⟩
        ⟨by omega, by omega⟩
      exact Or.inl (heq ▸ hin₀)
  rcases hcase with hbr | ⟨u, hu, huin⟩
  · exact ⟨(b.1, n), hused _ (Or.inl rfl), by simp only [Inside] at *; omega⟩
  · exact ⟨u, hused u (Or.inr hu), huin⟩

/-- **Blocks in other hands survive a step** in which their container entry stays and
every new piece overlaps an old piece or lies outside the old regions. -/
theorem Recorded.transfer {mapped : Finset ℕ} {s s' : MemorySubSession}
    (h : Held cfg mapped s) {b : Block} (hb : Recorded cfg s b)
    (hsmall : b ∈ s.smallAllocs → b ∈ s'.smallAllocs)
    (hreg : (b.1, cfg.pageAligned b.2) ∈ s.allocs →
      (∀ d, (s.layout none).Piece d → ¬ Inside d (b.1, cfg.pageAligned b.2)) →
      (b.1, cfg.pageAligned b.2) ∈ s'.allocs)
    (hnew : ∀ d, (s'.layout none).Piece d → 0 < d.2 ∧
      ((∃ e x, (s.layout none).Piece e ∧ (e.1 ≤ x ∧ x < e.1 + e.2) ∧ d.1 ≤ x ∧ x < d.1 + d.2) ∨
        ∀ r ∈ s.allocs, Apart d r)) : Recorded cfg s' b := by
  rcases hb with ⟨hmax, hmem⟩ | ⟨hbig, hlt, hmem, hbare⟩
  · exact Or.inl ⟨hmax, hsmall hmem⟩
  · refine Or.inr ⟨hbig, hlt, hreg hmem hbare, fun d hd hin => ?_⟩
    obtain ⟨hpos, ⟨e, x, he, hex, hdx⟩ | hout⟩ := hnew d hd
    · -- The old piece lies in the region that contains the common address.
      obtain ⟨r, hr, her⟩ := h.sound.tiled.piece_inside e he
      have heq : r = (b.1, cfg.pageAligned b.2) :=
        h.sound.tiled.region_eq hr hmem (x := x) ⟨by omega, by omega⟩ ⟨by omega, by omega⟩
      exact hbare e he (heq ▸ her)
    · have := hout _ hmem
      omega

/-- `allocate` of a small block from a new arena. -/
theorem Held.allocate_arena (h : Held cfg c.mapped c.self) {p n : ℕ} (hn : 0 < n)
    (hmax : n ≤ cfg.getMaxSmallAllocBytes) {bytes : ℕ} (hle : n ≤ bytes)
    (hdvd : cfg.pageSize ∣ bytes) (hfresh : Fresh cfg c.mapped p bytes) (total : ℕ) :
    let s := { c.self with allocatedBytes := total, allocs := c.self.allocs.insert (p, bytes) }
    Held cfg (c.mapped ∪ cfg.pages p bytes) (s.serve p n (bytes - n)) ∧
      Recorded cfg (s.serve p n (bytes - n)) (p, n) ∧
      ∀ b, Recorded cfg c.self b →
        Recorded cfg (s.serve p n (bytes - n)) b ∧ Apart (p, n) b := by
  intro s
  have hsep := h.apart_of_fresh hfresh
  have hpos := hfresh.nonempty
  have hs : s.Sound (some (p, bytes)) := h.sound.addArena hpos hfresh.fits hsep total
  obtain ⟨haligned, hmapped⟩ := h.insert_region hfresh hdvd
  have hmem : ∀ r ∈ s.allocs, r = (p, bytes) ∨ r ∈ c.self.allocs := fun r hr =>
    OrderedTable.mem_insertEntry hr
  have hheld : Held cfg (c.mapped ∪ cfg.pages p bytes) (s.serve p n (bytes - n)) := by
    refine Held.of_serve hs hn hle ?_ haligned hmapped ?_
    · -- What starts where the arena ends starts a region of its own.
      intro g hg hadj
      obtain ⟨r, hr, hin⟩ := h.sound.tiled.piece_inside g (Or.inr (Or.inl hg))
      have hgpos : 0 < g.2 := h.sound.free_pos hg
      have := hsep r hr
      refine ⟨r, OrderedTable.subset_insertEntry hr, ?_⟩
      simp only [Apart, Inside] at *
      omega
    · intro r hr d hd hin
      rcases hmem r hr with rfl | hr
      · exact Or.inl ⟨le_rfl, le_rfl⟩
      · refine Or.inr (h.populated r hr d ?_ hin)
        exact hd.imp_right Or.inl
  have hused : ∀ u, u ∈ (s.serve p n (bytes - n)).smallAllocs ↔
      u = (p, n) ∨ u ∈ c.self.smallAllocs :=
    fun u => MemorySubSession.mem_serve_smallAllocs
  refine ⟨hheld, Or.inl ⟨hmax, (hused _).mpr (Or.inl rfl)⟩, fun b hb => ⟨?_, ?_⟩⟩
  · refine hb.transfer h (fun hb' => (hused b).mpr (Or.inr hb')) (fun hr _ => ?_) (fun d hd => ?_)
    · rw [MemorySubSession.serve_allocs]
      exact OrderedTable.subset_insertEntry hr
    · have hdpos := hheld.sound.tiled.piece_pos d hd
      refine ⟨hdpos, ?_⟩
      rcases MemorySubSession.serve_piece (b := (p, bytes)) hle hd with hold | hpart
      · -- A piece from before meets itself; the two parts of the arena meet no old region.
        exact Or.inl ⟨d, d.1, hold.imp_right Or.inl, ⟨le_rfl, by omega⟩, le_rfl, by omega⟩
      · refine Or.inr fun r hr => ?_
        have := hsep r hr
        simp only [Apart, Inside] at *
        omega
  · obtain ⟨r, hr, hin⟩ := hb.inside h
    have := hsep r hr
    simp only [Apart, Inside] at *
    omega

/-- `allocate` of a small block from a free chunk. -/
theorem Held.allocate_reuse {mapped : Finset ℕ} {s₀ : MemorySubSession}
    (h : Held cfg mapped s₀) {f : Block} {n : ℕ} (hf : f ∈ s₀.freeSmallChunks) (hn : 0 < n)
    (hle : n ≤ f.2) (hmax : n ≤ cfg.getMaxSmallAllocBytes) :
    let s := s₀.eraseFreeSmallChunk f
    Held cfg mapped (s.serve f.1 n (f.2 - n)) ∧
      Recorded cfg (s.serve f.1 n (f.2 - n)) (f.1, n) ∧
      ∀ b, Recorded cfg s₀ b → Recorded cfg (s.serve f.1 n (f.2 - n)) b ∧ Apart (f.1, n) b := by
  intro s
  have hs : s.Sound (some f) := h.sound.takeFree hf
  have hfree : ∀ g ∈ s.freeSmallChunks, g ∈ s₀.freeSmallChunks := fun g hg =>
    (OrderedTable.mem_erase.mp hg).1
  have hheld : Held cfg mapped (s.serve f.1 n (f.2 - n)) := by
    refine Held.of_serve hs hn hle ?_ h.aligned h.mapped ?_
    · intro g hg hadj
      exact h.sound.tiled.free_apart f hf g (hfree g hg) hadj
    · intro r hr d hd hin
      refine Or.inr (h.populated r hr d ?_ hin)
      rcases hd with hd | hd
      · exact Or.inl hd
      · exact Or.inr (Or.inl (hfree d hd))
  have hused : ∀ u, u ∈ (s.serve f.1 n (f.2 - n)).smallAllocs ↔
      u = (f.1, n) ∨ u ∈ s₀.smallAllocs :=
    fun u => MemorySubSession.mem_serve_smallAllocs
  refine ⟨hheld, Or.inl ⟨hmax, (hused _).mpr (Or.inl rfl)⟩, fun b hb => ⟨?_, ?_⟩⟩
  · refine hb.transfer h (fun hb' => (hused b).mpr (Or.inr hb')) (fun hr _ => ?_) (fun d hd => ?_)
    · rw [MemorySubSession.serve_allocs]
      exact hr
    · have hdpos := hheld.sound.tiled.piece_pos d hd
      refine ⟨hdpos, Or.inl ?_⟩
      rcases MemorySubSession.serve_piece hle hd with (hold | hold) | hpart
      · exact ⟨d, d.1, Or.inl hold, ⟨le_rfl, by omega⟩, le_rfl, by omega⟩
      · exact ⟨d, d.1, Or.inr (Or.inl (hfree d hold)), ⟨le_rfl, by omega⟩, le_rfl, by omega⟩
      · -- Both parts of the chunk overlap the chunk they were cut from.
        exact ⟨f, d.1, Or.inr (Or.inl hf), ⟨by omega, by omega⟩, le_rfl, by omega⟩
  · have := hb.apart_free h hf
    simp only [Apart] at *
    omega

/-- **`allocate` keeps the invariant.**  The new block is recorded, the blocks already
out stay recorded, and the new block is apart from them. -/
theorem Held.allocate (h : Held cfg c.mapped c.self)
    (hmmap : MmapFresh cfg c.mapped mmap) {n p : ℕ} (hn : 1 ≤ n) (hn' : n < 2 ^ 64)
    (hfits : n ≤ cfg.getMaxSmallAllocBytes → n ≤ cfg.getSingleSmallAllocBytes)
    (halloc : c.allocate cfg mmap n = .ok (p, c')) :
    Held cfg c'.mapped c'.self ∧ Recorded cfg c'.self (p, n) ∧
      ∀ b, Recorded cfg c.self b → Recorded cfg c'.self b ∧ Apart (p, n) b := by
  rcases Scope.allocate_cases halloc with ⟨hlarge, hmap, rfl⟩ | ⟨hmax, -, hmap, c₁, rfl, rfl⟩ |
    ⟨hmax, hchunk, hp, rfl⟩
  · exact h.allocate_large hn' hlarge (hmmap _ _ hmap)
  · have hfresh := hmmap _ _ hmap
    have hsub : subWrap 64 cfg.getSingleSmallAllocBytes n = cfg.getSingleSmallAllocBytes - n :=
      subWrap_of_le (hfits hmax) (by have := hfresh.fits; omega)
    rw [hsub, Scope.fileRemainder_mapped, Scope.fileRemainder_self]
    exact h.allocate_arena hn hmax (hfits hmax)
      cfg.pageSize_dvd_getSingleSmallAllocBytes hfresh _
  · obtain ⟨f, hf, hbest, hle⟩ := h.sound.smallestSufficent_spec hchunk
    obtain ⟨r, hr, hin⟩ := h.sound.tiled.piece_inside f (Or.inr (Or.inl hf))
    have hbound := h.sound.bounded r hr
    have hpf : p = f.1 := by rw [hp, hbest]
    subst hpf
    rw [hbest, Scope.fileRemainder_mapped, Scope.fileRemainder_chunk hf hle (by omega)]
    exact h.allocate_reuse hf hn hle hmax

end Allocate

section Deallocate

variable {cfg : ManagerConfig} {c c' : Scope}

/-- The scope after a region was unmapped and its record removed; `s` is the sub-session
as the preceding bookkeeping left it. -/
def Scope.dropRegion (cfg : ManagerConfig) (c : Scope) (s : MemorySubSession) (r : Block) :
    Scope :=
  { c with
    mapped := c.mapped \ cfg.pages r.1 r.2
    self := { s with
      allocatedBytes := subWrap 64 s.allocatedBytes r.2
      allocs := s.allocs.erase r.1 }
    parent := { c.parent with
      ramAllocatedBytes := subWrap 64 c.parent.ramAllocatedBytes r.2
      totalAllocatedBytes := subWrap 64 c.parent.totalAllocatedBytes r.2
      allocs := c.parent.allocs.insert (r.1, c.this) } }

/-- `munmap` of a recorded region followed by `remove_alloc`. -/
theorem Scope.munmap_removeAlloc {s : MemorySubSession} {r : Block} {bytes : ℕ}
    (hr : r ∈ s.allocs) (haligned : cfg.pageSize ∣ r.1) (hpos : bytes ≠ 0)
    (hpages : cfg.pages r.1 bytes = cfg.pages r.1 r.2) :
    (Scope.munmap cfg { c with self := s } r.1 bytes).removeAlloc r.1 =
      .ok (c.dropRegion cfg s r) := by
  have hfind : s.allocs.find? r.1 = some r := OrderedTable.find?_eq_some_iff.mpr ⟨hr, rfl⟩
  rw [Scope.munmap, if_pos ⟨haligned, hpos⟩]
  simp [Scope.removeAlloc, hfind, Scope.dropRegion, hpages]

/-- **`deallocate` of a small block runs to its end.**  It releases the block, merges it
with its neighbours and either drops the region or files the merged chunk. -/
theorem Held.deallocate_small_eq (h : Held cfg c.mapped c.self) {b : Block}
    (hb : b ∈ c.self.smallAllocs) :
    ∃ r ∈ c.self.allocs, Inside b r ∧ ∃ s₂ b₂ s₃ b₃,
      MemorySubSession.mergePrevious
        { c.self with smallAllocs := c.self.smallAllocs.erase (toLex b) } r b = .ok (s₂, b₂) ∧
      s₂.mergeNext r b₂ = .ok (s₃, b₃) ∧
      c.deallocate cfg b.1 b.2 = .ok (if r.2 = b₃.2 then c.dropRegion cfg s₃ r
        else { c with self := s₃.addFreeSmallChunk b₃.1 b₃.2 }) := by
  obtain ⟨r, hr, hin⟩ := h.sound.tiled.piece_inside b (Or.inl hb)
  have hpos := h.sound.used_pos hb
  have hs₁ := h.sound.release hb
  obtain ⟨s₂, b₂, hprev, -, hshrink₂, -⟩ := hs₁.mergePrevious_spec hr hin
  obtain ⟨s₃, b₃, hnext, hshrink₃⟩ := MemorySubSession.mergeNext_ok s₂ r b₂
  refine ⟨r, hr, hin, s₂, b₂, s₃, b₃, hprev, hnext, ?_⟩
  have hregion := hs₁.freeSmallChunkAlloc_eq hr hin.1 (by omega)
  have hr₃ : r ∈ s₃.allocs := by
    rw [hshrink₃.allocs, hshrink₂.allocs]
    exact hr
  have hrpos : 0 < r.2 := h.sound.tiled.region_pos r hr
  rw [Scope.deallocate, if_pos (h.sound.isSmallAlloc_of_mem hb)]
  simp only [h.sound.removeSmallAlloc_of_mem hb, ok_bind, hregion,
    MemorySubSession.addMergeRemoveFreeSmallChunk_eq, hprev, hnext]
  by_cases hwhole : r.2 = b₃.2
  · rw [if_pos hwhole, if_pos hwhole]
    exact Scope.munmap_removeAlloc hr₃ (h.aligned r hr).1 (by omega) rfl
  · rw [if_neg hwhole, if_neg hwhole]
    rfl

/-- The regions that stay after one is dropped keep their pages. -/
theorem Held.mapped_sdiff {mapped : Finset ℕ} {s : MemorySubSession} (h : Held cfg mapped s)
    {r : Block} (hr : r ∈ s.allocs) :
    ∀ r' ∈ s.allocs.erase r.1, cfg.pages r'.1 r'.2 ⊆ mapped \ cfg.pages r.1 r.2 := by
  intro r' hr'
  obtain ⟨hmem, hne⟩ := OrderedTable.mem_erase.mp hr'
  have hsep := h.sound.tiled.region_apart r' hmem r hr fun heq => hne (heq ▸ rfl)
  have hdisj := cfg.disjoint_pages_of_apart (h.aligned r' hmem) (h.aligned r hr) hsep
  intro k hk
  exact Finset.mem_sdiff.mpr ⟨h.mapped r' hmem hk, Finset.disjoint_left.mp hdisj hk⟩

/-- The sub-session `s` after the small block `b` of region `r` was released and merged
with its free neighbours into `m`. -/
structure Merged (s₀ s : MemorySubSession) (r b m : Block) : Prop where
  region : r ∈ s₀.allocs
  released : b ∈ s₀.smallAllocs
  covers : Inside b m
  inside : Inside m r
  sound : s.Sound (some m)
  allocs : s.allocs = s₀.allocs
  smallAllocs : s.smallAllocs = s₀.smallAllocs.erase (toLex b)
  free : ∀ f ∈ s.freeSmallChunks, f ∈ s₀.freeSmallChunks
  left : ∀ f ∈ s.freeSmallChunks, f.1 + f.2 = m.1 → ∃ r' ∈ s.allocs, r'.1 = m.1
  right : m.2 ≠ r.2 → ∀ g ∈ s.freeSmallChunks, m.1 + m.2 = g.1 → ∃ r' ∈ s.allocs, r'.1 = g.1

/-- The merging of `deallocate` stays within the region unless it is a cross-arena merge. -/
theorem Held.merged {mapped : Finset ℕ} {s s₂ s₃ : MemorySubSession} {b r b₂ b₃ : Block}
    (h : Held cfg mapped s) (hb : b ∈ s.smallAllocs) (hclean : ¬ CrossArenaMerge s b)
    (hr : r ∈ s.allocs) (hin : Inside b r)
    (hprev : MemorySubSession.mergePrevious
      { s with smallAllocs := s.smallAllocs.erase (toLex b) } r b = .ok (s₂, b₂))
    (hnext : s₂.mergeNext r b₂ = .ok (s₃, b₃)) : Merged s s₃ r b b₃ := by
  obtain ⟨s₂', b₂', hprev', hs₂, hshrink₂, hin₂, hstop₂, hle₂, hfill, hleft₂⟩ :=
    (h.sound.release hb).mergePrevious_spec hr hin
  obtain ⟨rfl, rfl⟩ : s₂ = s₂' ∧ b₂ = b₂' := by
    simpa using hprev.symm.trans hprev'
  have hr₂ : r ∈ s₂.allocs := by
    rw [hshrink₂.allocs]
    exact hr
  -- A block that ends its region and has a free chunk behind it fills the region by now.
  have hcross : b₂.1 + b₂.2 = r.1 + r.2 →
      (∃ g ∈ s₂.freeSmallChunks, g.1 = b₂.1 + b₂.2) → b₂.2 = r.2 := by
    rintro hend ⟨g, hg, hgstart⟩
    by_contra hpart
    refine hclean ⟨r, hr, hin, by omega, ⟨g, hshrink₂.free g hg, by omega⟩, ?_, ?_⟩
    · intro hstart
      omega
    · intro hf
      have := hfill _ hf (by simp only; omega) le_rfl
      simp only at this
      omega
  obtain ⟨s₃', b₃', hnext', hs₃, hshrink₃, hin₃, hstart₃, hgrow₃, hright₃⟩ :=
    hs₂.mergeNext_spec hr₂ hin₂ hcross
  obtain ⟨rfl, rfl⟩ : s₃ = s₃' ∧ b₃ = b₃' := by
    simpa using hnext.symm.trans hnext'
  have hshrink := hshrink₂.trans hshrink₃
  refine ⟨hr, hb, ⟨by omega, by omega⟩, hin₃, hs₃, hshrink.allocs, hshrink.smallAllocs,
    hshrink.free, fun f hf hadj => ?_, fun hsize g hg hadj => ?_⟩
  · rw [hshrink₃.allocs, hshrink₂.allocs, hstart₃]
    exact hleft₂ f (hshrink₃.free f hf) (hadj.trans hstart₃)
  · rw [hshrink₃.allocs]
    exact hright₃ hsize g hg hadj

/-- What a merge leaves in the containers was a piece before. -/
theorem Merged.piece {s₀ s : MemorySubSession} {r b m d : Block} (hm : Merged s₀ s r b m)
    (hd : d ∈ s.smallAllocs ∨ d ∈ s.freeSmallChunks) : (s₀.layout none).Piece d := by
  rcases hd with hd | hd
  · rw [hm.smallAllocs] at hd
    exact Or.inl (OrderedTable.mem_erase.mp hd).1
  · exact Or.inr (Or.inl (hm.free d hd))

/-- The other small blocks stay in use. -/
theorem Merged.keep {s₀ s : MemorySubSession} {r b m d : Block} (hm : Merged s₀ s r b m)
    (hd : d ∈ s₀.smallAllocs) (hne : d ≠ b) : d ∈ s.smallAllocs := by
  rw [hm.smallAllocs]
  exact OrderedTable.mem_erase.mpr ⟨hd, fun heq => hne (toLex.injective heq)⟩

/-- Regions other than the one a small block was freed in keep a block in use. -/
theorem Merged.populated_other {mapped : Finset ℕ} {s₀ s : MemorySubSession} {r b m r' d : Block}
    (h : Held cfg mapped s₀) (hm : Merged s₀ s r b m) (hr' : r' ∈ s₀.allocs) (hne : r' ≠ r)
    (hd : d ∈ s.smallAllocs ∨ d ∈ s.freeSmallChunks) (hdin : Inside d r') :
    ∃ u ∈ s.smallAllocs, Inside u r' := by
  obtain ⟨u, hu, huin⟩ := h.populated r' hr' d (hm.piece hd) hdin
  refine ⟨u, hm.keep hu fun heq => ?_, huin⟩
  subst heq
  have hpos := h.sound.used_pos hm.released
  have hin : Inside u r := ⟨hm.inside.1.trans hm.covers.1, hm.covers.2.trans hm.inside.2⟩
  exact hne (h.sound.tiled.region_eq hr' hm.region (x := u.1) ⟨huin.1, by omega⟩
    ⟨hin.1, by omega⟩)

/-- The whole region is free: it goes back to the kernel. -/
theorem Merged.drop {s : MemorySubSession} {r b : Block} (h : Held cfg c.mapped c.self)
    (hm : Merged c.self s r b r) :
    Held cfg (c.dropRegion cfg s r).mapped (c.dropRegion cfg s r).self ∧
      ∀ d, Recorded cfg c.self d → d ≠ b → Recorded cfg (c.dropRegion cfg s r).self d := by
  have hr : r ∈ s.allocs := hm.allocs ▸ hm.region
  have hdrop := hm.sound.dropArena hr (subWrap 64 s.allocatedBytes r.2)
  have hpiece : ∀ d, ((c.dropRegion cfg s r).self.layout none).Piece d →
      d ∈ s.smallAllocs ∨ d ∈ s.freeSmallChunks := by
    rintro d (hd | hd | hd)
    · exact Or.inl hd
    · exact Or.inr hd
    · simp [MemorySubSession.layout] at hd
  have hregs : ∀ r' ∈ (c.dropRegion cfg s r).self.allocs, r' ∈ c.self.allocs ∧ r' ≠ r := by
    intro r' hr'
    obtain ⟨hmem, hne⟩ := OrderedTable.mem_erase.mp (show r' ∈ s.allocs.erase r.1 from hr')
    exact ⟨hm.allocs ▸ hmem, fun heq => hne (heq ▸ rfl)⟩
  refine ⟨⟨hdrop, ?_, fun r' hr' => h.aligned r' (hregs r' hr').1, ?_⟩, ?_⟩
  · intro r' hr' d hd hdin
    obtain ⟨hmem, hne⟩ := hregs r' hr'
    obtain ⟨u, hu, huin⟩ := hm.populated_other h hmem hne (hpiece d hd) hdin
    exact ⟨u, hu, huin⟩
  · intro r' hr'
    exact h.mapped_sdiff hm.region r' (show r' ∈ c.self.allocs.erase r.1 from hm.allocs ▸ hr')
  · intro d hd hne
    refine hd.transfer h (fun hd' => hm.keep hd' hne) (fun hreg hbare => ?_) (fun e he => ?_)
    · -- The region of a large block holds no piece, so it is not the one dropped.
      refine OrderedTable.mem_erase.mpr ⟨hm.allocs ▸ hreg, fun hkey => ?_⟩
      have hsame := OrderedTable.key_inj hreg hm.region hkey
      exact hbare b (Or.inl hm.released) (hsame ▸ hm.covers)
    · have hepos := hdrop.tiled.piece_pos e he
      exact ⟨hepos, Or.inl ⟨e, e.1, hm.piece (hpiece e he), ⟨le_rfl, by omega⟩, le_rfl,
        by omega⟩⟩

/-- Something in the region is still in use: the merged chunk is filed. -/
theorem Merged.file {mapped : Finset ℕ} {s₀ s : MemorySubSession} {r b m : Block}
    (h : Held cfg mapped s₀) (hm : Merged s₀ s r b m) (hpart : m.2 ≠ r.2) :
    Held cfg mapped (s.addFreeSmallChunk m.1 m.2) ∧
      ∀ d, Recorded cfg s₀ d → d ≠ b → Recorded cfg (s.addFreeSmallChunk m.1 m.2) d := by
  have hfiled := hm.sound.addFree hm.left (hm.right hpart)
  have hmpos := hm.sound.hole_pos
  have hbpos := h.sound.used_pos hm.released
  have hcovers := hm.covers
  have hpiece : ∀ d, ((s.addFreeSmallChunk m.1 m.2).layout none).Piece d →
      (d ∈ s.smallAllocs ∨ d ∈ s.freeSmallChunks) ∨ d = m := by
    rintro d (hd | hd | hd)
    · exact Or.inl (Or.inl hd)
    · rcases OrderedTable.mem_insertEntry
        (show d ∈ s.freeSmallChunks.insert (m.1, m.2) from hd) with rfl | hd
      · exact Or.inr rfl
      · exact Or.inl (Or.inr hd)
    · simp [MemorySubSession.layout] at hd
  refine ⟨⟨hfiled, ?_, fun r' hr' => h.aligned r' (hm.allocs ▸ hr'),
    fun r' hr' => h.mapped r' (hm.allocs ▸ hr')⟩, ?_⟩
  · intro r' hr' d hd hdin
    have hmem : r' ∈ s₀.allocs := hm.allocs ▸ hr'
    by_cases hsame : r' = r
    · -- A chunk that fills less than its region and merged on both sides has a used neighbour.
      subst hsame
      exact hm.sound.tiled.exists_used rfl (show r' ∈ s.allocs from hr') hm.inside hpart
        hm.left (hm.right hpart)
    · rcases hpiece d hd with hd | rfl
      · obtain ⟨u, hu, huin⟩ := hm.populated_other h hmem hsame hd hdin
        exact ⟨u, hu, huin⟩
      · exact absurd (h.sound.tiled.region_eq hmem hm.region (x := d.1)
          ⟨hdin.1, by omega⟩ ⟨hm.inside.1, by have := hm.inside.2; omega⟩) hsame
  · intro d hd hne
    refine hd.transfer h (fun hd' => hm.keep hd' hne)
      (fun hreg _ => show _ ∈ s.allocs from hm.allocs ▸ hreg) (fun e he => ?_)
    have hepos := hfiled.tiled.piece_pos e he
    refine ⟨hepos, Or.inl ?_⟩
    rcases hpiece e he with he | rfl
    · exact ⟨e, e.1, hm.piece he, ⟨le_rfl, by omega⟩, le_rfl, by omega⟩
    · -- The merged chunk still contains the freed block.
      exact ⟨b, b.1, Or.inl hm.released, ⟨le_rfl, by omega⟩, by omega, by omega⟩

/-- **`deallocate` of a small block keeps the invariant** unless it is a cross-arena merge. -/
theorem Held.deallocate_small (h : Held cfg c.mapped c.self) {b : Block}
    (hb : b ∈ c.self.smallAllocs) (hclean : ¬ CrossArenaMerge c.self b) :
    ∃ c', c.deallocate cfg b.1 b.2 = .ok c' ∧ Held cfg c'.mapped c'.self ∧
      ∀ d, Recorded cfg c.self d → d ≠ b → Recorded cfg c'.self d := by
  obtain ⟨r, hr, hin, s₂, b₂, s₃, b₃, hprev, hnext, heq⟩ := h.deallocate_small_eq hb
  have hm : Merged c.self s₃ r b b₃ := h.merged hb hclean hr hin hprev hnext
  refine ⟨_, heq, ?_⟩
  by_cases hwhole : r.2 = b₃.2
  · obtain ⟨hlow, hhigh⟩ := hm.inside
    obtain rfl : b₃ = r := Prod.ext (by omega) hwhole.symm
    rw [if_pos rfl]
    exact hm.drop h
  · rw [if_neg hwhole]
    exact hm.file h fun hsize => hwhole hsize.symm

/-- `deallocate` of a large block drops its region. -/
theorem Held.deallocate_large_eq (h : Held cfg c.mapped c.self) {b : Block} (hlt : b.2 < 2 ^ 64)
    (hpos : 0 < b.2) (hreg : (b.1, cfg.pageAligned b.2) ∈ c.self.allocs)
    (hbare : ∀ d, (c.self.layout none).Piece d → ¬ Inside d (b.1, cfg.pageAligned b.2)) :
    c.deallocate cfg b.1 b.2 = .ok (c.dropRegion cfg c.self (b.1, cfg.pageAligned b.2)) := by
  have hBpos : 0 < cfg.pageAligned b.2 := h.sound.tiled.region_pos _ hreg
  have haligned := h.aligned _ hreg
  have hnotSmall : ¬ c.self.isSmallAlloc b.1 = true := by
    intro hsmall
    obtain ⟨n, hn⟩ := MemorySubSession.exists_of_isSmallAlloc hsmall
    refine hbare (b.1, n) (Or.inl hn)
      (h.sound.tiled.inside_of_start hreg (Or.inl hn) le_rfl ?_)
    simp only
    omega
  have hpages : cfg.pages b.1 b.2 = cfg.pages b.1 (cfg.pageAligned b.2) :=
    (cfg.pages_pageAligned (Nat.mod_eq_zero_of_dvd haligned.1) hlt hBpos).symm
  rw [Scope.deallocate, if_neg hnotSmall]
  exact Scope.munmap_removeAlloc hreg haligned.1 (by omega) hpages

/-- **`deallocate` of a large block keeps the invariant.** -/
theorem Held.deallocate_large (h : Held cfg c.mapped c.self) {b : Block} (hlt : b.2 < 2 ^ 64)
    (hpos : 0 < b.2) (hreg : (b.1, cfg.pageAligned b.2) ∈ c.self.allocs)
    (hbare : ∀ d, (c.self.layout none).Piece d → ¬ Inside d (b.1, cfg.pageAligned b.2)) :
    ∃ c', c.deallocate cfg b.1 b.2 = .ok c' ∧ Held cfg c'.mapped c'.self ∧
      ∀ d, Recorded cfg c.self d → d.1 ≠ b.1 → Recorded cfg c'.self d := by
  have heq := h.deallocate_large_eq hlt hpos hreg hbare
  have hdrop := h.sound.dropRegion hreg hbare
    (subWrap 64 c.self.allocatedBytes (cfg.pageAligned b.2))
  refine ⟨_, heq, ⟨hdrop, ?_, fun r hr => h.aligned r (OrderedTable.mem_erase.mp hr).1,
    h.mapped_sdiff hreg⟩, ?_⟩
  · intro r hr d hd hin
    exact h.populated r (OrderedTable.mem_erase.mp hr).1 d hd hin
  · intro d hd hstart
    refine hd.transfer h id (fun hr _ => OrderedTable.mem_erase.mpr ⟨hr, hstart⟩) (fun e he => ?_)
    have hepos := hdrop.tiled.piece_pos e he
    exact ⟨hepos, Or.inl ⟨e, e.1, he, ⟨le_rfl, by omega⟩, le_rfl, by omega⟩⟩

/-- **`deallocate` keeps the invariant.**  A recorded block that is not the front of a
cross-arena merge is given back without a failed assertion, and every block apart from it
stays recorded. -/
theorem Held.deallocate (h : Held cfg c.mapped c.self) {b : Block} (hpos : 0 < b.2)
    (hb : Recorded cfg c.self b) (hclean : ¬ CrossArenaMerge c.self b) :
    ∃ c', c.deallocate cfg b.1 b.2 = .ok c' ∧ Held cfg c'.mapped c'.self ∧
      ∀ d, Recorded cfg c.self d → 0 < d.2 → Apart d b → Recorded cfg c'.self d := by
  rcases hb with ⟨-, hmem⟩ | ⟨-, hlt, hreg, hbare⟩
  · obtain ⟨c', heq, hheld, hkeep⟩ := h.deallocate_small hmem hclean
    refine ⟨c', heq, hheld, fun d hd hdpos hsep => hkeep d hd fun hdb => ?_⟩
    subst hdb
    omega
  · obtain ⟨c', heq, hheld, hkeep⟩ := h.deallocate_large hlt hpos hreg hbare
    exact ⟨c', heq, hheld, fun d hd hdpos hsep => hkeep d hd (by omega)⟩

end Deallocate

end MemoryManager
end CoherentDB
