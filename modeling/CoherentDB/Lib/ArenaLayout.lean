import Mathlib.Data.Set.Basic
import Mathlib.Tactic

/-!
# Layouts of arenas: regions cut into used and free blocks

An allocator that serves small requests out of larger regions keeps, whatever
its bookkeeping looks like, the same abstract object: a set of regions, and
inside some of them a partition into blocks in use and free blocks.  While an
operation is under way one block may be in neither set; it is the `hole`.

`Layout.Tiled` says that the blocks partition their regions exactly and that
free blocks are maximal inside a region.  Every allocator step is one of a few
moves on layouts, and each move has its preservation lemma here:

* `addRegion` / `addArena` — a fresh region, either without blocks or as one hole;
* `release`, `takeFree` — a used or a free block becomes the hole;
* `recut` — some blocks are cut anew, with the same addresses; the next two are cases of it;
* `carve` — the front of the hole becomes a used block;
* `fuse` — a neighbouring free block of the same region joins the hole;
* `fileHole` — a maximal hole becomes a free block;
* `dropArena`, `dropRegion` — a region that is all hole, or has no block, goes away.
-/

namespace ArenaLayout

/-- A block of consecutive addresses: first address and length. -/
abbrev Block := ℕ × ℕ

/-- `b` lies completely inside `r`. -/
abbrev Inside (b r : Block) : Prop := r.1 ≤ b.1 ∧ b.1 + b.2 ≤ r.1 + r.2

/-- `b` and `c` share no address. -/
abbrev Apart (b c : Block) : Prop := b.1 + b.2 ≤ c.1 ∨ c.1 + c.2 ≤ b.1

/-- Blocks in increasing order that are pairwise apart fit into the range that holds them. -/
theorem sum_sizes_le {l : List Block} (lo hi : ℕ) (hle : lo ≤ hi)
    (hsorted : l.Pairwise (fun b c => b.1 < c.1)) (hapart : l.Pairwise Apart)
    (hlo : ∀ b ∈ l, lo ≤ b.1) (hhi : ∀ b ∈ l, b.1 + b.2 ≤ hi) :
    lo + (l.map Prod.snd).sum ≤ hi := by
  induction l generalizing lo with
  | nil => simpa using hle
  | cons b rest ih =>
      obtain ⟨hfirst, hsorted⟩ := List.pairwise_cons.mp hsorted
      obtain ⟨hsep, hapart⟩ := List.pairwise_cons.mp hapart
      have hb := hlo b List.mem_cons_self
      have hrest := ih (b.1 + b.2) (hhi b List.mem_cons_self) hsorted hapart
        (fun c hc => by have := hfirst c hc; have := hsep c hc; omega)
        (fun c hc => hhi c (List.mem_cons_of_mem b hc))
      simp only [List.map_cons, List.sum_cons]
      omega

/-- Regions, the blocks in use and the free blocks, and a block in transit. -/
structure Layout where
  regions : Set Block
  used : Set Block
  free : Set Block
  hole : Option Block

namespace Layout

/-- The blocks a layout cuts its regions into. -/
def Piece (l : Layout) (b : Block) : Prop := b ∈ l.used ∨ b ∈ l.free ∨ l.hole = some b

/-- The blocks of a layout partition their regions, and free blocks touch only
across the start of a region. -/
structure Tiled (l : Layout) : Prop where
  region_pos : ∀ r ∈ l.regions, 0 < r.2
  region_apart : ∀ r ∈ l.regions, ∀ r' ∈ l.regions, r ≠ r' → Apart r r'
  piece_pos : ∀ b, l.Piece b → 0 < b.2
  piece_apart : ∀ b c, l.Piece b → l.Piece c → b ≠ c → Apart b c
  used_notFree : ∀ b ∈ l.used, b ∉ l.free
  hole_new : ∀ b, l.hole = some b → b ∉ l.used ∧ b ∉ l.free
  piece_inside : ∀ b, l.Piece b → ∃ r ∈ l.regions, Inside b r
  cover : ∀ r ∈ l.regions, ∀ b, l.Piece b → Inside b r →
    ∀ x, r.1 ≤ x → x < r.1 + r.2 → ∃ c, l.Piece c ∧ c.1 ≤ x ∧ x < c.1 + c.2
  free_apart : ∀ f ∈ l.free, ∀ g ∈ l.free, f.1 + f.2 = g.1 → ∃ r ∈ l.regions, r.1 = g.1

/-- Every region that is cut into blocks has one in use. -/
def Populated (l : Layout) : Prop :=
  ∀ r ∈ l.regions, ∀ b, l.Piece b → Inside b r → ∃ c ∈ l.used, Inside c r

/-- The layout without regions. -/
theorem tiled_empty : Tiled ⟨∅, ∅, ∅, none⟩ := by
  constructor <;> simp [Piece]

section Facts

variable {l : Layout}

/-- Two blocks of a layout with a common address are the same block. -/
theorem Tiled.piece_eq (h : l.Tiled) {b c : Block} (hb : l.Piece b) (hc : l.Piece c)
    {x : ℕ} (hbx : b.1 ≤ x ∧ x < b.1 + b.2) (hcx : c.1 ≤ x ∧ x < c.1 + c.2) : b = c := by
  by_contra hne
  have := h.piece_apart b c hb hc hne
  omega

/-- Two regions with a common address are the same region. -/
theorem Tiled.region_eq (h : l.Tiled) {r r' : Block} (hr : r ∈ l.regions) (hr' : r' ∈ l.regions)
    {x : ℕ} (hrx : r.1 ≤ x ∧ x < r.1 + r.2) (hrx' : r'.1 ≤ x ∧ x < r'.1 + r'.2) : r = r' := by
  by_contra hne
  have := h.region_apart r hr r' hr' hne
  omega

/-- A block starting inside a region lies inside it. -/
theorem Tiled.inside_of_start (h : l.Tiled) {r b : Block} (hr : r ∈ l.regions) (hb : l.Piece b)
    (hlo : r.1 ≤ b.1) (hhi : b.1 < r.1 + r.2) : Inside b r := by
  obtain ⟨r', hr', hin⟩ := h.piece_inside b hb
  have hpos := h.piece_pos b hb
  have heq : r = r' := h.region_eq hr hr' ⟨hlo, hhi⟩ ⟨hin.1, by omega⟩
  rwa [heq]

/-- A block that is apart from every region is apart from every block. -/
theorem Tiled.piece_apart_of_fresh (h : l.Tiled) {r b : Block}
    (hfresh : ∀ r' ∈ l.regions, Apart r r') (hb : l.Piece b) : Apart r b := by
  obtain ⟨r', hr', hin⟩ := h.piece_inside b hb
  have := hfresh r' hr'
  omega

/-- A hole that is not the whole region and has no free neighbour in it has a used one. -/
theorem Tiled.exists_used {r b : Block} (h : l.Tiled) (hb : l.hole = some b)
    (hr : r ∈ l.regions) (hin : Inside b r) (hpart : b.2 ≠ r.2)
    (hleft : ∀ f ∈ l.free, f.1 + f.2 = b.1 → ∃ r' ∈ l.regions, r'.1 = b.1)
    (hright : ∀ g ∈ l.free, b.1 + b.2 = g.1 → ∃ r' ∈ l.regions, r'.1 = g.1) :
    ∃ c ∈ l.used, Inside c r := by
  have hbp : l.Piece b := Or.inr (Or.inr hb)
  have hpos := h.piece_pos b hbp
  -- A region cannot start in the interior of `r`.
  have hstart : ∀ r' ∈ l.regions, r.1 < r'.1 → r'.1 < r.1 + r.2 → False := by
    intro r' hr' hlo hhi
    have hpos' := h.region_pos r' hr'
    have heq : r = r' := h.region_eq hr hr' ⟨hlo.le, hhi⟩ ⟨le_rfl, by omega⟩
    subst heq
    exact lt_irrefl _ hlo
  have hcases : r.1 < b.1 ∨ b.1 + b.2 < r.1 + r.2 := by omega
  rcases hcases with hlo | hhi
  · -- The block that covers the address before the hole ends at the hole.
    obtain ⟨c, hc, hcx⟩ := h.cover r hr b hbp hin (b.1 - 1) (by omega) (by omega)
    have hne : c ≠ b := fun heq => by subst heq; omega
    have hsep := h.piece_apart c b hc hbp hne
    have hstop : c.1 + c.2 = b.1 := by omega
    have hcin : Inside c r := by
      obtain ⟨r', hr', hin'⟩ := h.piece_inside c hc
      have heq : r' = r := h.region_eq hr' hr (x := b.1 - 1) ⟨by omega, by omega⟩
        ⟨by omega, by omega⟩
      rwa [← heq]
    rcases hc with hc | hc | hc
    · exact ⟨c, hc, hcin⟩
    · obtain ⟨r', hr', heq⟩ := hleft c hc hstop
      exact (hstart r' hr' (by omega) (by omega)).elim
    · exact absurd (Option.some.inj (hc.symm.trans hb)) hne
  · obtain ⟨c, hc, hcx⟩ := h.cover r hr b hbp hin (b.1 + b.2) (by omega) hhi
    have hne : c ≠ b := fun heq => by subst heq; omega
    have hsep := h.piece_apart c b hc hbp hne
    have hcpos := h.piece_pos c hc
    have hcin : Inside c r := by
      obtain ⟨r', hr', hin'⟩ := h.piece_inside c hc
      have heq : r' = r := h.region_eq hr' hr (x := b.1 + b.2) ⟨by omega, by omega⟩
        ⟨by omega, by omega⟩
      rwa [← heq]
    rcases hc with hc | hc | hc
    · exact ⟨c, hc, hcin⟩
    · obtain ⟨r', hr', heq⟩ := hright c hc (by omega)
      exact (hstart r' hr' (by omega) (by omega)).elim
    · exact absurd (Option.some.inj (hc.symm.trans hb)) hne

end Facts

section Moves

variable {regions used free : Set Block}

/-- A fresh region that is not cut into blocks. -/
theorem Tiled.addRegion (h : Tiled ⟨regions, used, free, none⟩) {r : Block} (hpos : 0 < r.2)
    (hfresh : ∀ r' ∈ regions, Apart r r') : Tiled ⟨insert r regions, used, free, none⟩ := by
  have hsep : ∀ b, Piece ⟨regions, used, free, none⟩ b → Apart r b := fun b hb =>
    h.piece_apart_of_fresh hfresh hb
  refine ⟨?_, ?_, h.piece_pos, h.piece_apart, h.used_notFree, h.hole_new, ?_, ?_, ?_⟩
  · rintro r' (rfl | hr')
    · exact hpos
    · exact h.region_pos r' hr'
  · rintro r₁ (rfl | hr₁) r₂ (rfl | hr₂) hne
    · exact absurd rfl hne
    · exact hfresh r₂ hr₂
    · exact (hfresh r₁ hr₁).symm
    · exact h.region_apart r₁ hr₁ r₂ hr₂ hne
  · intro b hb
    obtain ⟨r', hr', hin⟩ := h.piece_inside b hb
    exact ⟨r', Or.inr hr', hin⟩
  · rintro r' (rfl | hr') b hb hin
    · have hb' := h.piece_pos b hb
      have := hsep b hb
      omega
    · exact h.cover r' hr' b hb hin
  · intro f hf g hg hadj
    obtain ⟨r', hr', heq⟩ := h.free_apart f hf g hg hadj
    exact ⟨r', Or.inr hr', heq⟩

/-- A fresh region that is one hole. -/
theorem Tiled.addArena (h : Tiled ⟨regions, used, free, none⟩) {r : Block} (hpos : 0 < r.2)
    (hfresh : ∀ r' ∈ regions, Apart r r') :
    Tiled ⟨insert r regions, used, free, some r⟩ := by
  have hbase := h.addRegion hpos hfresh
  have hsep : ∀ b, Piece ⟨regions, used, free, none⟩ b → Apart r b := fun b hb =>
    h.piece_apart_of_fresh hfresh hb
  -- A block of the new layout is an old one or the region itself.
  have hpiece : ∀ b, Piece ⟨insert r regions, used, free, some r⟩ b →
      Piece ⟨regions, used, free, none⟩ b ∨ b = r := by
    rintro b (hb | hb | hb)
    · exact Or.inl (Or.inl hb)
    · exact Or.inl (Or.inr (Or.inl hb))
    · exact Or.inr (Option.some.inj hb).symm
  have hlift : ∀ b, Piece ⟨regions, used, free, none⟩ b →
      Piece ⟨insert r regions, used, free, some r⟩ b := by
    rintro b (hb | hb | hb)
    · exact Or.inl hb
    · exact Or.inr (Or.inl hb)
    · simp at hb
  refine ⟨hbase.region_pos, hbase.region_apart, ?_, ?_, h.used_notFree, ?_, ?_, ?_,
    hbase.free_apart⟩
  · intro b hb
    rcases hpiece b hb with hb | rfl
    · exact h.piece_pos b hb
    · exact hpos
  · intro b c hb hc hne
    rcases hpiece b hb with hb' | hbr <;> rcases hpiece c hc with hc' | hcr
    · exact h.piece_apart b c hb' hc' hne
    · exact hcr ▸ (hsep b hb').symm
    · exact hbr ▸ hsep c hc'
    · exact absurd (hbr.trans hcr.symm) hne
  · rintro b hb
    obtain rfl := Option.some.inj hb
    constructor
    · intro hused
      have := hsep r (Or.inl hused)
      omega
    · intro hfree
      have := hsep r (Or.inr (Or.inl hfree))
      omega
  · intro b hb
    rcases hpiece b hb with hb | rfl
    · exact hbase.piece_inside b hb
    · exact ⟨b, Or.inl rfl, le_rfl, le_rfl⟩
  · rintro r' (rfl | hr') b hb hin x hlo hhi
    · exact ⟨r', Or.inr (Or.inr rfl), hlo, hhi⟩
    · rcases hpiece b hb with hb | rfl
      · obtain ⟨c, hc, hcx⟩ := h.cover r' hr' b hb hin x hlo hhi
        exact ⟨c, hlift c hc, hcx⟩
      · have := hfresh r' hr'
        omega

/-- **Cutting some blocks anew keeps the partition**: the blocks of `new` take the place of those of
`gone`, and the two sets have the same addresses. -/
theorem Tiled.recut {used' free' : Set Block} {hole hole' : Option Block}
    (h : Tiled ⟨regions, used, free, hole⟩) (gone new : Set Block)
    (hpiece : ∀ b, Piece ⟨regions, used', free', hole'⟩ b ↔
      b ∈ new ∨ Piece ⟨regions, used, free, hole⟩ b ∧ b ∉ gone)
    (hgone : ∀ b ∈ gone, Piece ⟨regions, used, free, hole⟩ b)
    (hpos : ∀ b ∈ new, 0 < b.2) (hapart : ∀ b ∈ new, ∀ c ∈ new, b ≠ c → Apart b c)
    (hinside : ∀ b ∈ new, ∃ r ∈ regions, Inside b r)
    (hsame : ∀ x, (∃ b ∈ new, b.1 ≤ x ∧ x < b.1 + b.2) ↔ ∃ b ∈ gone, b.1 ≤ x ∧ x < b.1 + b.2)
    (hused : ∀ b ∈ used', b ∉ free')
    (hhole : ∀ b, hole' = some b → b ∉ used' ∧ b ∉ free')
    (hfree : ∀ f ∈ free', ∀ g ∈ free', f.1 + f.2 = g.1 → ∃ r ∈ regions, r.1 = g.1) :
    Tiled ⟨regions, used', free', hole'⟩ := by
  -- A new block and one that stays have no address in common: it would be one of a block that went.
  have hsep : ∀ b ∈ new, ∀ c, Piece ⟨regions, used, free, hole⟩ c → c ∉ gone → Apart b c := by
    intro b hb c hc hstays
    by_contra hlap
    have hbpos := hpos b hb
    have hcpos := h.piece_pos c hc
    obtain ⟨x, hbx, hcx⟩ : ∃ x, (b.1 ≤ x ∧ x < b.1 + b.2) ∧ c.1 ≤ x ∧ x < c.1 + c.2 :=
      ⟨max b.1 c.1, by omega, by omega⟩
    obtain ⟨d, hd, hdx⟩ := (hsame x).mp ⟨b, hb, hbx⟩
    exact hstays (h.piece_eq (hgone d hd) hc hdx hcx ▸ hd)
  refine ⟨h.region_pos, h.region_apart, ?_, ?_, hused, hhole, ?_, ?_, hfree⟩
  · intro b hb
    rcases (hpiece b).mp hb with hb | ⟨hb, -⟩
    · exact hpos b hb
    · exact h.piece_pos b hb
  · intro b c hb hc hne
    rcases (hpiece b).mp hb with hb | ⟨hb, hbstays⟩ <;>
      rcases (hpiece c).mp hc with hc | ⟨hc, hcstays⟩
    · exact hapart b hb c hc hne
    · exact hsep b hb c hc hcstays
    · exact (hsep c hc b hb hbstays).symm
    · exact h.piece_apart b c hb hc hne
  · intro b hb
    rcases (hpiece b).mp hb with hb | ⟨hb, -⟩
    · exact hinside b hb
    · exact h.piece_inside b hb
  · intro r hr b hb hin x hlo hhi
    -- Some old block lies inside `r`: the block itself, or the one that had its first address.
    have hold : ∃ d, Piece ⟨regions, used, free, hole⟩ d ∧ Inside d r := by
      rcases (hpiece b).mp hb with hb | ⟨hb, -⟩
      · have hbpos := hpos b hb
        obtain ⟨d, hd, hdx⟩ := (hsame b.1).mp ⟨b, hb, le_rfl, by omega⟩
        obtain ⟨r', hr', hin'⟩ := h.piece_inside d (hgone d hd)
        have heq : r = r' := h.region_eq hr hr' (x := b.1) ⟨hin.1, by omega⟩
          ⟨by omega, by omega⟩
        exact ⟨d, hgone d hd, heq ▸ hin'⟩
      · exact ⟨b, hb, hin⟩
    obtain ⟨d, hd, hdin⟩ := hold
    obtain ⟨e, he, hex⟩ := h.cover r hr d hd hdin x hlo hhi
    by_cases hwent : e ∈ gone
    · obtain ⟨c, hc, hcx⟩ := (hsame x).mpr ⟨e, hwent, hex⟩
      exact ⟨c, (hpiece c).mpr (Or.inl hc), hcx⟩
    · exact ⟨e, (hpiece e).mpr (Or.inr ⟨he, hwent⟩), hex⟩

/-- Changing the name of a block's container keeps the partition. -/
theorem Tiled.relabel {used' free' : Set Block} {hole hole' : Option Block}
    (h : Tiled ⟨regions, used, free, hole⟩)
    (hpiece : ∀ b, Piece ⟨regions, used', free', hole'⟩ b ↔ Piece ⟨regions, used, free, hole⟩ b)
    (hused : ∀ b ∈ used', b ∉ free')
    (hhole : ∀ b, hole' = some b → b ∉ used' ∧ b ∉ free')
    (hfree : ∀ f ∈ free', ∀ g ∈ free', f.1 + f.2 = g.1 → ∃ r ∈ regions, r.1 = g.1) :
    Tiled ⟨regions, used', free', hole'⟩ := by
  refine h.recut ∅ ∅ ?_ ?_ ?_ ?_ ?_ ?_ hused hhole hfree
  · simpa using hpiece
  all_goals simp

/-- A used block becomes the hole. -/
theorem Tiled.release (h : Tiled ⟨regions, used, free, none⟩) {b : Block} (hb : b ∈ used) :
    Tiled ⟨regions, used \ {b}, free, some b⟩ := by
  refine h.relabel ?_ ?_ ?_ h.free_apart
  · intro c
    by_cases hc : c = b
    · subst hc
      simp [Piece, hb]
    · simp [Piece, hc, Ne.symm hc]
  · intro c hc
    exact h.used_notFree c hc.1
  · intro c hc
    obtain rfl := Option.some.inj hc
    exact ⟨fun hu => hu.2 rfl, h.used_notFree b hb⟩

/-- A free block becomes the hole. -/
theorem Tiled.takeFree (h : Tiled ⟨regions, used, free, none⟩) {b : Block} (hb : b ∈ free) :
    Tiled ⟨regions, used, free \ {b}, some b⟩ := by
  refine h.relabel ?_ ?_ ?_ ?_
  · intro c
    by_cases hc : c = b
    · subst hc
      simp [Piece, hb]
    · simp [Piece, hc, Ne.symm hc]
  · intro c hc hf
    exact h.used_notFree c hc hf.1
  · intro c hc
    obtain rfl := Option.some.inj hc
    exact ⟨fun hu => h.used_notFree b hu hb, fun hf => hf.2 rfl⟩
  · intro f hf g hg
    exact h.free_apart f hf.1 g hg.1

/-- A hole without free neighbours in its region becomes a free block. -/
theorem Tiled.fileHole {b : Block} (h : Tiled ⟨regions, used, free, some b⟩)
    (hleft : ∀ f ∈ free, f.1 + f.2 = b.1 → ∃ r ∈ regions, r.1 = b.1)
    (hright : ∀ g ∈ free, b.1 + b.2 = g.1 → ∃ r ∈ regions, r.1 = g.1) :
    Tiled ⟨regions, used, insert b free, none⟩ := by
  have hnew := h.hole_new b rfl
  refine h.relabel ?_ ?_ (by simp) ?_
  · intro c
    by_cases hc : c = b
    · subst hc
      simp [Piece]
    · simp [Piece, hc, Ne.symm hc]
  · rintro c hc (rfl | hf)
    · exact hnew.1 hc
    · exact h.used_notFree c hc hf
  · rintro f (rfl | hf) g (rfl | hg) hadj
    · have := h.piece_pos _ (Or.inr (Or.inr rfl))
      omega
    · exact hright g hg hadj
    · exact hleft f hf hadj
    · exact h.free_apart f hf g hg hadj

/-- The whole hole becomes a used block. -/
theorem Tiled.useHole {b : Block} (h : Tiled ⟨regions, used, free, some b⟩) :
    Tiled ⟨regions, insert b used, free, none⟩ := by
  have hnew := h.hole_new b rfl
  refine h.relabel ?_ ?_ (by simp) h.free_apart
  · intro c
    by_cases hc : c = b
    · subst hc
      simp [Piece]
    · simp [Piece, hc, Ne.symm hc]
  · rintro c (rfl | hc)
    · exact hnew.2
    · exact h.used_notFree c hc

/-- The blocks in use and the free ones are apart from the hole. -/
theorem Tiled.apart_hole {b c : Block} (h : Tiled ⟨regions, used, free, some b⟩)
    (hc : c ∈ used ∨ c ∈ free) :
    Piece ⟨regions, used, free, some b⟩ c ∧ c ≠ b ∧ Apart c b := by
  have hnew := h.hole_new b rfl
  have hpiece : Piece ⟨regions, used, free, some b⟩ c := hc.imp_right Or.inl
  have hne : c ≠ b := by
    rintro rfl
    exact hc.elim hnew.1 hnew.2
  exact ⟨hpiece, hne, h.piece_apart c b hpiece (Or.inr (Or.inr rfl)) hne⟩

/-- The blocks other than the hole are those in use and the free ones. -/
theorem Tiled.piece_stays_iff {b c : Block} (h : Tiled ⟨regions, used, free, some b⟩) :
    Piece ⟨regions, used, free, some b⟩ c ∧ c ∉ ({b} : Set Block) ↔ c ∈ used ∨ c ∈ free := by
  constructor
  · rintro ⟨hc | hc | hc, hne⟩
    · exact Or.inl hc
    · exact Or.inr hc
    · exact absurd (Option.some.inj hc).symm hne
  · intro hc
    obtain ⟨hpiece, hne, -⟩ := h.apart_hole hc
    exact ⟨hpiece, hne⟩

/-- The front of the hole becomes a used block, the rest stays the hole. -/
theorem Tiled.carve {b : Block} {n : ℕ} (h : Tiled ⟨regions, used, free, some b⟩)
    (hn : 0 < n) (hlt : n < b.2) :
    Tiled ⟨regions, insert (b.1, n) used, free, some (b.1 + n, b.2 - n)⟩ := by
  have hhole : Piece ⟨regions, used, free, some b⟩ b := Or.inr (Or.inr rfl)
  obtain ⟨r, hr, hin⟩ := h.piece_inside b hhole
  -- Neither part is an old block: the old blocks other than the hole are apart from it.
  have hpart : ∀ c, c ∈ used ∨ c ∈ free → c ≠ (b.1, n) ∧ c ≠ (b.1 + n, b.2 - n) := by
    intro c hc
    have hsep := (h.apart_hole hc).2.2
    constructor
    · rintro rfl
      simp only [Apart] at hsep
      omega
    · rintro rfl
      simp only [Apart] at hsep
      omega
  refine h.recut {b} {(b.1, n), (b.1 + n, b.2 - n)} ?_ ?_ ?_ ?_ ?_ ?_ ?_ ?_ h.free_apart
  · intro c
    rw [h.piece_stays_iff]
    simp only [Piece, Set.mem_insert_iff, Set.mem_singleton_iff, Option.some.injEq]
    rw [eq_comm (a := (b.1 + n, b.2 - n))]
    simp only [or_assoc, or_left_comm, or_comm]
  · rintro c rfl
    exact hhole
  · rintro c (rfl | rfl)
    · exact hn
    · exact Nat.sub_pos_of_lt hlt
  · rintro c (rfl | rfl) d (rfl | rfl) hne
    · exact absurd rfl hne
    · exact Or.inl le_rfl
    · exact Or.inr le_rfl
    · exact absurd rfl hne
  · rintro c (rfl | rfl)
    · exact ⟨r, hr, hin.1, by simp only; omega⟩
    · exact ⟨r, hr, by simp only; omega, by simp only; omega⟩
  · intro x
    simp only [Set.mem_insert_iff, Set.mem_singleton_iff, exists_eq_or_imp, exists_eq_left]
    omega
  · rintro c (rfl | hc) hf
    · exact (hpart _ (Or.inr hf)).1 rfl
    · exact h.used_notFree c hc hf
  · intro c hc
    obtain rfl := Option.some.inj hc
    refine ⟨?_, fun hf => (hpart _ (Or.inr hf)).2 rfl⟩
    rintro (heq | hu)
    · have := congrArg Prod.fst heq
      simp only at this
      omega
    · exact (hpart _ (Or.inl hu)).2 rfl

/-- `u` is the union of the adjacent blocks `f` and `b`, in either order. -/
def Joins (f b u : Block) : Prop :=
  (f.1 + f.2 = b.1 ∧ u = (f.1, f.2 + b.2)) ∨ (b.1 + b.2 = f.1 ∧ u = (b.1, b.2 + f.2))

/-- A free neighbour from the same region joins the hole. -/
theorem Tiled.fuse {b f u : Block} (h : Tiled ⟨regions, used, free, some b⟩) (hf : f ∈ free)
    (hu : Joins f b u) (hsame : ∃ r ∈ regions, Inside b r ∧ Inside f r) :
    Tiled ⟨regions, used, free \ {f}, some u⟩ := by
  have hb : Piece ⟨regions, used, free, some b⟩ b := Or.inr (Or.inr rfl)
  have hfp : Piece ⟨regions, used, free, some b⟩ f := Or.inr (Or.inl hf)
  have hbpos := h.piece_pos b hb
  have hfpos := h.piece_pos f hfp
  -- The addresses of the joined block are those of its two parts.
  have haddr : ∀ x, u.1 ≤ x ∧ x < u.1 + u.2 ↔
      (b.1 ≤ x ∧ x < b.1 + b.2) ∨ f.1 ≤ x ∧ x < f.1 + f.2 := by
    intro x
    rcases hu with ⟨hadj, rfl⟩ | ⟨hadj, rfl⟩
    · simp only
      omega
    · simp only
      omega
  have hupos : 0 < u.2 := by
    have := (haddr b.1).mpr (Or.inl ⟨le_rfl, by omega⟩)
    omega
  -- The joined block is longer than its parts, so it is none of the old blocks.
  have hnew : u ∉ used ∧ u ∉ free := by
    have hlap : ∀ c, Piece ⟨regions, used, free, some b⟩ c → c ≠ u := by
      rintro c hc rfl
      have hcb := h.piece_eq hc hb ((haddr b.1).mpr (Or.inl ⟨le_rfl, by omega⟩))
        ⟨le_rfl, by omega⟩
      have hcf := h.piece_eq hc hfp ((haddr f.1).mpr (Or.inr ⟨le_rfl, by omega⟩))
        ⟨le_rfl, by omega⟩
      exact (h.apart_hole (Or.inr hf)).2.1 (hcf.symm.trans hcb)
    exact ⟨fun hc => hlap u (Or.inl hc) rfl, fun hc => hlap u (Or.inr (Or.inl hc)) rfl⟩
  refine h.recut {b, f} {u} ?_ ?_ ?_ ?_ ?_ ?_ ?_ ?_ ?_
  · intro c
    have hstays := h.piece_stays_iff (c := c)
    have hcf : c ∈ used → c ≠ f := by
      rintro hc rfl
      exact h.used_notFree c hc hf
    simp only [Set.mem_insert_iff, Set.mem_singleton_iff, not_or] at hstays ⊢
    rw [← and_assoc, hstays]
    simp only [Piece, Set.mem_sdiff, Set.mem_singleton_iff, Option.some.injEq]
    rw [eq_comm (a := u)]
    constructor
    · rintro (hc | hc | hc)
      · exact Or.inr ⟨Or.inl hc, hcf hc⟩
      · exact Or.inr ⟨Or.inr hc.1, hc.2⟩
      · exact Or.inl hc
    · rintro (hc | ⟨hc | hc, hne⟩)
      · exact Or.inr (Or.inr hc)
      · exact Or.inl hc
      · exact Or.inr (Or.inl ⟨hc, hne⟩)
  · rintro c (rfl | rfl)
    · exact hb
    · exact hfp
  · rintro c rfl
    exact hupos
  · rintro c rfl d rfl hne
    exact absurd rfl hne
  · rintro c rfl
    obtain ⟨r, hr, hbin, hfin⟩ := hsame
    refine ⟨r, hr, ?_⟩
    rcases hu with ⟨hadj, rfl⟩ | ⟨hadj, rfl⟩
    · exact ⟨hfin.1, by simp only; omega⟩
    · exact ⟨hbin.1, by simp only; omega⟩
  · intro x
    simp only [Set.mem_insert_iff, Set.mem_singleton_iff, exists_eq_or_imp, exists_eq_left]
    exact haddr x
  · intro c hc hcf
    exact h.used_notFree c hc hcf.1
  · intro c hc
    obtain rfl := Option.some.inj hc
    exact ⟨hnew.1, fun hc => hnew.2 hc.1⟩
  · intro g hg g' hg'
    exact h.free_apart g hg.1 g' hg'.1

/-- A region that has become one hole is given back. -/
theorem Tiled.dropArena {r : Block} (h : Tiled ⟨regions, used, free, some r⟩)
    (hr : r ∈ regions) : Tiled ⟨regions \ {r}, used, free, none⟩ := by
  have hrpos := h.region_pos r hr
  have hpiece : ∀ c, Piece ⟨regions \ {r}, used, free, none⟩ c →
      Piece ⟨regions, used, free, some r⟩ c ∧ Apart c r := by
    rintro c (hc | hc | hc)
    · obtain ⟨hold, -, hsep⟩ := h.apart_hole (Or.inl hc)
      exact ⟨hold, hsep⟩
    · obtain ⟨hold, -, hsep⟩ := h.apart_hole (Or.inr hc)
      exact ⟨hold, hsep⟩
    · simp at hc
  refine ⟨fun r' hr' => h.region_pos r' hr'.1,
    fun r₁ hr₁ r₂ hr₂ => h.region_apart r₁ hr₁.1 r₂ hr₂.1, ?_, ?_, h.used_notFree, by simp,
    ?_, ?_, ?_⟩
  · intro c hc
    exact h.piece_pos c (hpiece c hc).1
  · intro c d hc hd hne
    exact h.piece_apart c d (hpiece c hc).1 (hpiece d hd).1 hne
  · intro c hc
    obtain ⟨hold, hsep⟩ := hpiece c hc
    obtain ⟨r', hr', hin⟩ := h.piece_inside c hold
    have hpos := h.piece_pos c hold
    refine ⟨r', ⟨hr', fun heq => ?_⟩, hin⟩
    rw [Set.mem_singleton_iff] at heq
    subst heq
    omega
  · intro r' hr' c hc hin x hlo hhi
    obtain ⟨e, he, hex⟩ := h.cover r' hr'.1 c (hpiece c hc).1 hin x hlo hhi
    have hsep := h.region_apart r' hr'.1 r hr hr'.2
    refine ⟨e, ?_, hex⟩
    rcases he with he | he | he
    · exact Or.inl he
    · exact Or.inr (Or.inl he)
    · obtain rfl := Option.some.inj he
      omega
  · intro f hf g hg hadj
    obtain ⟨r', hr', heq⟩ := h.free_apart f hf g hg hadj
    refine ⟨r', ⟨hr', fun hrr => ?_⟩, heq⟩
    rw [Set.mem_singleton_iff] at hrr
    subst hrr
    obtain ⟨hg', hsep⟩ := hpiece g (Or.inr (Or.inl hg))
    have := h.piece_pos g hg'
    omega

/-- A region without blocks is given back. -/
theorem Tiled.dropRegion {r : Block} (h : Tiled ⟨regions, used, free, none⟩)
    (hr : r ∈ regions)
    (hbare : ∀ b, Piece ⟨regions, used, free, none⟩ b → ¬ Inside b r) :
    Tiled ⟨regions \ {r}, used, free, none⟩ := by
  refine ⟨fun r' hr' => h.region_pos r' hr'.1,
    fun r₁ hr₁ r₂ hr₂ => h.region_apart r₁ hr₁.1 r₂ hr₂.1, h.piece_pos, h.piece_apart,
    h.used_notFree, by simp, ?_, ?_, ?_⟩
  · intro c hc
    obtain ⟨r', hr', hin⟩ := h.piece_inside c hc
    refine ⟨r', ⟨hr', fun heq => ?_⟩, hin⟩
    rw [Set.mem_singleton_iff] at heq
    exact hbare c hc (heq ▸ hin)
  · intro r' hr' c hc hin
    exact h.cover r' hr'.1 c hc hin
  · intro f hf g hg hadj
    obtain ⟨r', hr', heq⟩ := h.free_apart f hf g hg hadj
    refine ⟨r', ⟨hr', fun hrr => ?_⟩, heq⟩
    rw [Set.mem_singleton_iff] at hrr
    subst hrr
    have hpos := h.region_pos r' hr'
    exact hbare g (Or.inr (Or.inl hg))
      (h.inside_of_start hr' (Or.inr (Or.inl hg)) (by omega) (by omega))

end Moves

end Layout

end ArenaLayout
