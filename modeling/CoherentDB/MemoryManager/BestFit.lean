import CoherentDB.MemoryManager.RegionEffects
import CoherentDB.MemoryManager.SubSessionRuns

/-!
# Small requests are served by best fit

The free chunks are kept twice: by address in `freeSmallChunks` and by size in
`freeSmallChunksInv`.  The search for a chunk is an upper bound of `(n, null)` in the
second container, so it looks for sizes from `n` on as long as no chunk starts at the null
pointer.  The chunk that is found leaves both containers and its tail enters both.

`FreeListed` is what the search and the update need of the containers.  From every such
state a small request takes the best fit and disturbs no other chunk
(`small_allocate_best_fit`), and it leaves such a state again.
-/

namespace CoherentDB
namespace MemoryManager

open Debug Containers MachineInt ArenaLayout

namespace MemorySubSession

/-- The two containers hold the same free chunks.  No chunk is empty or starts at the null
pointer, no two share an address, and their sizes are values of `size_t`. -/
structure FreeListed (s : MemorySubSession) : Prop where
  transposed : ∀ f : Block, f ∈ s.freeSmallChunks ↔ (f.2, f.1) ∈ s.freeSmallChunksInv
  nonempty : ∀ f ∈ s.freeSmallChunks, 0 < f.2
  apart : ∀ f ∈ s.freeSmallChunks, ∀ g ∈ s.freeSmallChunks, f ≠ g → Apart f g
  nonnull : ∀ f ∈ s.freeSmallChunks, f.1 ≠ 0
  sized : ∀ f ∈ s.freeSmallChunks, f.2 < 2 ^ 64

/-- `f` is the free chunk of least size from `n` on, and the lowest of that size. -/
structure BestFit (s : MemorySubSession) (n : ℕ) (f : Block) : Prop where
  free : f ∈ s.freeSmallChunks
  sufficient : n ≤ f.2
  least : ∀ g ∈ s.freeSmallChunks, n ≤ g.2 → f.2 < g.2 ∨ f.2 = g.2 ∧ f.1 ≤ g.1

/-- From `s` to `s'` the first `n` bytes of `f` became a small block and the rest of `f`, if
there is any, a free chunk.  All other blocks and chunks are as before. -/
structure Carved (s s' : MemorySubSession) (f : Block) (n : ℕ) : Prop where
  smallAllocs : ∀ b : Block, b ∈ s'.smallAllocs ↔ b = (f.1, n) ∨ b ∈ s.smallAllocs
  freeSmallChunks : ∀ g : Block, g ∈ s'.freeSmallChunks ↔
    g ∈ s.freeSmallChunks ∧ g ≠ f ∨ n < f.2 ∧ g = (f.1 + n, f.2 - n)
  transposed : ∀ g : Block, g ∈ s'.freeSmallChunks ↔ (g.2, g.1) ∈ s'.freeSmallChunksInv

variable {s s' : MemorySubSession} {f : Block} {n : ℕ}

/-- Consistent bookkeeping without a chunk at the null pointer is of this kind. -/
theorem Sound.freeListed (h : s.Sound none) (hnull : ∀ f ∈ s.freeSmallChunks, f.1 ≠ 0) :
    s.FreeListed where
  transposed := h.transposed
  nonempty := fun _ hf => h.free_pos hf
  apart := fun f hf g hg => h.tiled.piece_apart f g (Or.inr (Or.inl hf)) (Or.inr (Or.inl hg))
  nonnull := hnull
  sized := by
    intro f hf
    obtain ⟨r, hr, hin⟩ := h.tiled.piece_inside f (Or.inr (Or.inl hf))
    have := h.bounded r hr
    omega

/-- The null pointer in the key of the search lets every chunk of size `n` through. -/
theorem FreeListed.above_iff (h : s.FreeListed) (hf : f ∈ s.freeSmallChunks) :
    toLex (n, 0) < toLex (f.2, f.1) ↔ n ≤ f.2 := by
  have hnull := h.nonnull f hf
  rw [Prod.Lex.toLex_lt_toLex]
  simp only
  omega

/-- **What the search finds**: nothing when every chunk is too small, else the best fit. -/
theorem FreeListed.smallestSufficent_cases (h : s.FreeListed) (n : ℕ) :
    ((∀ f ∈ s.freeSmallChunks, f.2 < n) ∧ s.smallestSufficentFreeSmallChunk n = (0, 0)) ∨
      ∃ f, s.BestFit n f ∧ s.smallestSufficentFreeSmallChunk n = (f.2, f.1) := by
  unfold smallestSufficentFreeSmallChunk
  cases hsearch : s.freeSmallChunksInv.upperBound (toLex (n, 0)) with
  | none =>
      refine Or.inl ⟨fun f hf => ?_, rfl⟩
      have hle := OrderedTable.upperBound_eq_none_iff.mp hsearch _ ((h.transposed f).mp hf)
      rw [← not_lt, h.above_iff hf] at hle
      exact not_le.mp hle
  | some i =>
      obtain ⟨hi, hlt, hleast⟩ := OrderedTable.upperBound_eq_some_iff.mp hsearch
      have hf : (i.2, i.1) ∈ s.freeSmallChunks := (h.transposed (i.2, i.1)).mpr hi
      refine Or.inr ⟨(i.2, i.1), ⟨hf, (h.above_iff hf).mp hlt, fun g hg hle => ?_⟩, rfl⟩
      have hkey := hleast _ ((h.transposed g).mp hg) ((h.above_iff hg).mpr hle)
      exact Prod.Lex.toLex_le_toLex.mp hkey

/-- Serving from a block that is apart from every free chunk files its tail and touches no
chunk: the tail starts inside the block, where no chunk starts. -/
theorem serve_carved
    (htrans : ∀ g : Block, g ∈ s.freeSmallChunks ↔ (g.2, g.1) ∈ s.freeSmallChunksInv)
    (hsep : ∀ g ∈ s.freeSmallChunks, 0 < g.2 ∧ Apart g f) (hn : 0 < n) (hle : n ≤ f.2) :
    Carved s (s.serve f.1 n (f.2 - n)) f n := by
  have hne : ∀ g ∈ s.freeSmallChunks, g ≠ f := by
    rintro g hg rfl
    have := (hsep g hg).2
    omega
  have hfresh : n < f.2 → ∀ g ∈ s.freeSmallChunks, g.1 ≠ f.1 + n := by
    intro htail g hg
    have := hsep g hg
    omega
  refine ⟨fun b => mem_serve_smallAllocs, fun g => ?_, ?_⟩
  · rw [and_iff_left_of_imp (hne g)]
    unfold serve
    split_ifs with hrest
    · have htail : n < f.2 := by omega
      rw [and_iff_right htail, or_comm]
      exact mem_addFreeSmallChunk (s := s.addSmallAlloc f.1 n) (b := (f.1 + n, f.2 - n))
        (hfresh htail)
    · rw [or_iff_left fun htail => hrest (by omega)]
      rfl
  · unfold serve
    split_ifs with hrest
    · exact transposed_addFreeSmallChunk (s := s.addSmallAlloc f.1 n) (b := (f.1 + n, f.2 - n))
        htrans (hfresh (by omega))
    · exact htrans

/-- A chunk that is taken out of the containers and served from is carved. -/
theorem FreeListed.carved (h : s.FreeListed) (hf : f ∈ s.freeSmallChunks) (hn : 0 < n)
    (hle : n ≤ f.2) : Carved s ((s.eraseFreeSmallChunk f).serve f.1 n (f.2 - n)) f n := by
  have hmem : ∀ g : Block, g ∈ (s.eraseFreeSmallChunk f).freeSmallChunks ↔
      g ∈ s.freeSmallChunks ∧ g ≠ f := fun g => mem_eraseFreeSmallChunk hf
  have hcarved := serve_carved (transposed_eraseFreeSmallChunk h.transposed hf)
    (fun g hg => ⟨h.nonempty g ((hmem g).mp hg).1,
      h.apart g ((hmem g).mp hg).1 f hf ((hmem g).mp hg).2⟩) hn hle
  refine ⟨hcarved.smallAllocs, fun g => ?_, hcarved.transposed⟩
  rw [hcarved.freeSmallChunks, hmem, and_assoc, and_self]

/-- Carving a block that is apart from the other chunks leaves the chunks in order. -/
theorem Carved.freeListed (h : s.FreeListed) (hcarved : Carved s s' f n) (hn : 0 < n)
    (hsep : ∀ g ∈ s.freeSmallChunks, g ≠ f → Apart g f) (hsized : f.2 < 2 ^ 64) :
    s'.FreeListed := by
  have htail : n < f.2 → ∀ g ∈ s.freeSmallChunks, g ≠ f → Apart g (f.1 + n, f.2 - n) := by
    intro hlt g hg hne
    have := hsep g hg hne
    simp only [Apart] at *
    omega
  refine ⟨hcarved.transposed, ?_, ?_, ?_, ?_⟩
  · intro g hg
    rcases (hcarved.freeSmallChunks g).mp hg with ⟨hg, -⟩ | ⟨hlt, rfl⟩
    · exact h.nonempty g hg
    · exact Nat.sub_pos_of_lt hlt
  · intro g hg g' hg' hne
    rcases (hcarved.freeSmallChunks g).mp hg with ⟨hg, hgf⟩ | ⟨hlt, rfl⟩ <;>
      rcases (hcarved.freeSmallChunks g').mp hg' with ⟨hg', hgf'⟩ | ⟨hlt', rfl⟩
    · exact h.apart g hg g' hg' hne
    · exact htail hlt' g hg hgf
    · exact (htail hlt g' hg' hgf').symm
    · exact absurd rfl hne
  · intro g hg
    rcases (hcarved.freeSmallChunks g).mp hg with ⟨hg, -⟩ | ⟨-, rfl⟩
    · exact h.nonnull g hg
    · simp only
      omega
  · intro g hg
    rcases (hcarved.freeSmallChunks g).mp hg with ⟨hg, -⟩ | ⟨-, rfl⟩
    · exact h.sized g hg
    · exact lt_of_le_of_lt (Nat.sub_le _ _) hsized

end MemorySubSession

variable {cfg : ManagerConfig} {c c' : Scope} {mmap : ℕ → Option ℕ} {n p : ℕ}

/-- The call mapped an arena at `p`, on pages that were not mapped before, and recorded and
counted it. -/
structure Scope.MapsArena (cfg : ManagerConfig) (c c' : Scope) (p : ℕ) : Prop where
  unmapped : Disjoint (cfg.pages p cfg.getSingleSmallAllocBytes) c.mapped
  added : Scope.Added cfg c c' p cfg.getSingleSmallAllocBytes

/-- A call that left the mapped pages as they were mapped no arena. -/
theorem Scope.Kept.not_mapsArena (h : Scope.Kept c c') (harena : 0 < cfg.getSingleSmallAllocBytes) :
    ¬ Scope.MapsArena cfg c c' p := by
  intro hmaps
  have hpage : p / cfg.pageSize ∈ cfg.pages p cfg.getSingleSmallAllocBytes :=
    cfg.div_mem_pages le_rfl (by omega)
  have hmapped : p / cfg.pageSize ∈ c'.mapped := by
    rw [hmaps.added.mapped]
    exact Finset.mem_union_right _ hpage
  rw [h.mapped] at hmapped
  exact Finset.disjoint_left.mp hmaps.unmapped hpage hmapped

/-- A small request asks for an arena exactly when no chunk is large enough. -/
theorem MemorySubSession.FreeListed.regionRequest_cases {s : MemorySubSession} (h : s.FreeListed)
    (cfg : ManagerConfig) (hsmall : n ≤ cfg.getMaxSmallAllocBytes) :
    ((∀ f ∈ s.freeSmallChunks, f.2 < n) ∧
        s.regionRequest cfg n = some cfg.getSingleSmallAllocBytes) ∨
      (∃ f ∈ s.freeSmallChunks, n ≤ f.2) ∧ s.regionRequest cfg n = none := by
  rw [MemorySubSession.regionRequest, if_neg (not_lt.mpr hsmall)]
  rcases h.smallestSufficent_cases n with ⟨htoo, hnone⟩ | ⟨f, hbest, hfound⟩
  · exact Or.inl ⟨htoo, by rw [hnone, if_pos rfl]⟩
  · have hpos := h.nonempty f hbest.free
    exact Or.inr ⟨⟨f, hbest.free, hbest.sufficient⟩, by rw [hfound, if_neg hpos.ne']⟩

/-- A request that needs no region cuts the best fit and leaves the regions alone. -/
theorem Scope.allocate_bestFit (hlisted : c.self.FreeListed) (hn : 1 ≤ n)
    (hnone : c.self.regionRequest cfg n = none) (h : c.allocate cfg mmap n = .ok (p, c')) :
    ∃ f, c.self.BestFit n f ∧ p = f.1 ∧ Scope.Kept c c' ∧ c.self.Carved c'.self f n := by
  obtain ⟨hchunk, hp, hc'⟩ := Scope.allocate_chunk hnone h
  rcases Scope.allocate_effect h with ⟨-, hkept⟩ | ⟨bytes, hsome, -, -⟩
  · rcases hlisted.smallestSufficent_cases n with ⟨-, hempty⟩ | ⟨f, hbest, hfound⟩
    · rw [hempty] at hchunk
      exact absurd rfl hchunk
    · rw [hfound] at hp hc'
      subst hp
      refine ⟨f, hbest, rfl, hkept, ?_⟩
      rw [hc', Scope.fileRemainder_chunk hbest.free hbest.sufficient (hlisted.sized f hbest.free)]
      exact hlisted.carved hbest.free hn hbest.sufficient
  · rw [hnone] at hsome
    cases hsome

/-- A small request that needs a region maps an arena and cuts it. -/
theorem Scope.allocate_arena (hlisted : c.self.FreeListed) (hn : 1 ≤ n)
    (hsmall : n ≤ cfg.getMaxSmallAllocBytes) (hfits : n ≤ cfg.getSingleSmallAllocBytes)
    (hsome : c.self.regionRequest cfg n = some cfg.getSingleSmallAllocBytes)
    (hapart : ∀ f ∈ c.self.freeSmallChunks, Apart f (p, cfg.getSingleSmallAllocBytes))
    (h : c.allocate cfg mmap n = .ok (p, c')) :
    Scope.Added cfg c c' p cfg.getSingleSmallAllocBytes ∧
      c.self.Carved c'.self (p, cfg.getSingleSmallAllocBytes) n := by
  rcases Scope.allocate_effect h with ⟨hnone, -⟩ | ⟨bytes, hbytes, -, hadded⟩
  · rw [hsome] at hnone
    cases hnone
  · obtain rfl := Option.some.inj (hsome.symm.trans hbytes)
    refine ⟨hadded, ?_⟩
    rcases Scope.allocate_cases h with ⟨hlarge, -, -⟩ | ⟨-, -, -, c₁, rfl, rfl⟩ | ⟨-, hchunk, -, -⟩
    · omega
    · rw [subWrap_of_le hfits cfg.getSingleSmallAllocBytes_lt, Scope.fileRemainder_self]
      -- Recording the arena leaves the blocks and the chunks as they were.
      have hcarved := MemorySubSession.serve_carved (f := (p, cfg.getSingleSmallAllocBytes))
        (s := ((c.mapAt cfg p cfg.getSingleSmallAllocBytes).addAlloc p
          cfg.getSingleSmallAllocBytes).self)
        hlisted.transposed (fun g hg => ⟨hlisted.nonempty g hg, hapart g hg⟩) hn hfits
      exact ⟨hcarved.smallAllocs, hcarved.freeSmallChunks, hcarved.transposed⟩
    · rw [MemorySubSession.regionRequest, if_neg (not_lt.mpr hsmall), if_neg hchunk] at hsome
      cases hsome

/-- **A small request is served by best fit.**  It maps an arena if and only if every free
chunk is too small.  Otherwise it returns the start of the best fit, leaves the regions and
the counters as they were and replaces that chunk by its tail.  No other chunk or small block
changes in either case, and the chunks are left in order. -/
theorem small_allocate_best_fit (cfg : ManagerConfig) (c : Scope) (mmap : ℕ → Option ℕ) (n p : ℕ)
    (hlisted : c.self.FreeListed) (hn : 1 ≤ n) (hsmall : n ≤ cfg.getMaxSmallAllocBytes)
    (hcfg : cfg.getMaxSmallAllocBytes ≤ cfg.getSingleSmallAllocBytes)
    (hmmap : mmap cfg.getSingleSmallAllocBytes = some p)
    (hfresh : Fresh cfg c.mapped p cfg.getSingleSmallAllocBytes)
    (hapart : ∀ f ∈ c.self.freeSmallChunks, Apart f (p, cfg.getSingleSmallAllocBytes)) :
    ∃ q c', c.allocate cfg mmap n = .ok (q, c') ∧ c'.self.FreeListed ∧
      (Scope.MapsArena cfg c c' q ↔ ∀ f ∈ c.self.freeSmallChunks, f.2 < n) ∧
      ((∀ f ∈ c.self.freeSmallChunks, f.2 < n) →
        q = p ∧ c.self.Carved c'.self (p, cfg.getSingleSmallAllocBytes) n) ∧
      ((∃ f ∈ c.self.freeSmallChunks, n ≤ f.2) →
        ∃ f, c.self.BestFit n f ∧ q = f.1 ∧ Scope.Kept c c' ∧ c.self.Carved c'.self f n) := by
  have hfits := hsmall.trans hcfg
  have hanswer : ∀ bytes, c.self.regionRequest cfg n = some bytes → mmap bytes = some p := by
    intro bytes hbytes
    rcases hlisted.regionRequest_cases cfg hsmall with ⟨-, hsome⟩ | ⟨-, hnone⟩
    · rw [← Option.some.inj (hsome.symm.trans hbytes)]
      exact hmmap
    · rw [hnone] at hbytes
      cases hbytes
  obtain ⟨q, c', hok⟩ := Scope.allocate_isOk fun bytes hbytes =>
    Option.isSome_of_mem (hanswer bytes hbytes)
  refine ⟨q, c', hok, ?_⟩
  rcases hlisted.regionRequest_cases cfg hsmall with ⟨htoo, hsome⟩ | ⟨⟨g, hg, hle⟩, hnone⟩
  · -- No chunk is large enough: the arena is mapped and cut.
    obtain rfl : q = p := by
      rcases Scope.allocate_effect hok with ⟨hnone, -⟩ | ⟨bytes, hbytes, hmap, -⟩
      · rw [hsome] at hnone
        cases hnone
      · exact Option.some.inj (hmap.symm.trans (hanswer bytes hbytes))
    obtain ⟨hadded, hcarved⟩ := Scope.allocate_arena hlisted hn hsmall hfits hsome hapart hok
    refine ⟨hcarved.freeListed hlisted hn (fun g hg _ => hapart g hg)
      cfg.getSingleSmallAllocBytes_lt, iff_of_true ⟨hfresh.unmapped, hadded⟩ htoo,
      fun _ => ⟨rfl, hcarved⟩, ?_⟩
    rintro ⟨f, hf, hle⟩
    exact absurd (htoo f hf) (not_lt.mpr hle)
  · -- The best fit is cut; no page is mapped.
    obtain ⟨f, hbest, hq, hkept, hcarved⟩ := Scope.allocate_bestFit hlisted hn hnone hok
    have hno : ¬ ∀ f ∈ c.self.freeSmallChunks, f.2 < n :=
      fun htoo => absurd (htoo g hg) (not_lt.mpr hle)
    refine ⟨?_, iff_of_false (hkept.not_mapsArena (by omega)) hno, fun htoo => absurd htoo hno,
      fun _ => ⟨f, hbest, hq, hkept, hcarved⟩⟩
    exact hcarved.freeListed hlisted hn (fun g hg hne => hlisted.apart g hg f hbest.free hne)
      (hlisted.sized f hbest.free)

/-- An arena of one page with blocks of 8, 24 and 16 bytes in use, and three free chunks, two of
them of 16 bytes. -/
def scatteredChunks : Scope :=
  { blankState.scope with
    mapped := onePageArenas.pages 65536 4096
    self :=
      { MemorySubSession.initial with
        allocatedBytes := 4096
        allocs := ⟨[(65536, 4096)], by decide⟩
        smallAllocs := ⟨[(65536, 8), (65560, 24), (65600, 16)], by decide⟩
        freeSmallChunks := ⟨[(65544, 16), (65584, 16), (65616, 4016)], by decide⟩
        freeSmallChunksInv := ⟨[(16, 65544), (16, 65584), (4016, 65616)], by decide⟩ } }

theorem scatteredChunks_freeListed : scatteredChunks.self.FreeListed where
  transposed := by
    intro f
    simp [scatteredChunks, OrderedTable.mem_def, Prod.ext_iff, and_comm]
  nonempty := by
    change ∀ f ∈ [((65544, 16) : Block), (65584, 16), (65616, 4016)], 0 < f.2
    decide
  apart := by
    change ∀ f ∈ [((65544, 16) : Block), (65584, 16), (65616, 4016)],
      ∀ g ∈ [((65544, 16) : Block), (65584, 16), (65616, 4016)], f ≠ g → Apart f g
    decide
  nonnull := by
    change ∀ f ∈ [((65544, 16) : Block), (65584, 16), (65616, 4016)], f.1 ≠ 0
    decide
  sized := by
    change ∀ f ∈ [((65544, 16) : Block), (65584, 16), (65616, 4016)], f.2 < 2 ^ 64
    decide

/-- The law applied to a request for 10 bytes: it is cut from the lower chunk of 16. -/
theorem small_allocate_best_fit_ten :
    ∃ q c', scatteredChunks.allocate onePageArenas (mmapAt 4096 131072) 10 = .ok (q, c') ∧
      q = 65544 ∧ c'.self.allocs = scatteredChunks.self.allocs ∧
      (65554, 6) ∈ c'.self.freeSmallChunks := by
  have hfresh : Fresh onePageArenas scatteredChunks.mapped 131072 4096 := by
    refine ⟨?_, ?_, ?_, ?_⟩ <;> decide
  have hapart : ∀ f ∈ scatteredChunks.self.freeSmallChunks, Apart f (131072, 4096) := by
    change ∀ f ∈ [((65544, 16) : Block), (65584, 16), (65616, 4016)], Apart f (131072, 4096)
    decide
  obtain ⟨q, c', hok, -, -, -, hfit⟩ := small_allocate_best_fit onePageArenas scatteredChunks
    (mmapAt 4096 131072) 10 131072 scatteredChunks_freeListed (by decide) (by decide) (by decide)
    (by decide) hfresh hapart
  obtain ⟨f, hbest, rfl, hkept, hcarved⟩ := hfit ⟨(65544, 16), by decide, by decide⟩
  have hf : f = (65544, 16) := by
    have hleast := hbest.least (65544, 16) (by decide) (by decide)
    have hfree : f ∈ [((65544, 16) : Block), (65584, 16), (65616, 4016)] := hbest.free
    fin_cases hfree
    · rfl
    · exact absurd hleast (by decide)
    · exact absurd hleast (by decide)
  subst hf
  exact ⟨_, c', hok, rfl, hkept.allocs, (hcarved.freeSmallChunks _).mpr (Or.inr ⟨by decide, rfl⟩)⟩

end MemoryManager
end CoherentDB
