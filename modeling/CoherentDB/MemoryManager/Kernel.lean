import Mathlib.Data.Finset.Basic
import Mathlib.Order.Interval.Finset.Nat
import Mathlib.Tactic
import CoherentDB.Lib.ArenaLayout
import CoherentDB.Lib.MachineInt

/-!
# Pages, regions and the settings of the memory manager

The allocator obtains memory from the kernel in whole pages.  The kernel's side
is the finite set of page numbers that are currently mapped: `mmap` adds the
pages of a region, `munmap` removes every page that contains a part of the
range it is given.

`Fresh` is what the code relies on when `mmap` answers with an address: the
region is not empty (a request for no bytes is refused), it starts on a page
boundary, it ends inside the address space and none of its pages was mapped.
It may touch a mapped page.

`ManagerConfig` holds the fields of `memory_manager` that the allocator reads
and nothing changes after construction.
-/

namespace CoherentDB
namespace MemoryManager

open ArenaLayout MachineInt

/-- The settings that `memory_manager` reads from the configuration and from
`sysconf`. -/
structure ManagerConfig where
  pageSize : ℕ
  maxSmallAllocPages1024 : ℕ
  singleSmallAllocPages : ℕ
  pageSize_pow : ∃ k < 64, pageSize = 2 ^ k

namespace ManagerConfig

variable (cfg : ManagerConfig)

/-- `memory_manager::get_page_size`. -/
def getPageSize : ℕ := cfg.pageSize

/-- `memory_manager::get_max_small_alloc_bytes`. -/
def getMaxSmallAllocBytes : ℕ := cfg.maxSmallAllocPages1024 * cfg.pageSize % 2 ^ 64 / 1024

/-- `memory_manager::get_single_small_alloc_bytes`. -/
def getSingleSmallAllocBytes : ℕ := cfg.singleSmallAllocPages * cfg.pageSize % 2 ^ 64

theorem pageSize_pos : 0 < cfg.pageSize := by
  obtain ⟨k, -, hk⟩ := cfg.pageSize_pow
  rw [hk]
  exact Nat.two_pow_pos k

theorem pageSize_dvd : cfg.pageSize ∣ 2 ^ 64 := by
  obtain ⟨k, hk, hpow⟩ := cfg.pageSize_pow
  rw [hpow]
  exact pow_dvd_pow 2 hk.le

theorem getMaxSmallAllocBytes_lt : cfg.getMaxSmallAllocBytes < 2 ^ 64 :=
  lt_of_le_of_lt (Nat.div_le_self _ _) (Nat.mod_lt _ (by norm_num))

theorem getSingleSmallAllocBytes_lt : cfg.getSingleSmallAllocBytes < 2 ^ 64 :=
  Nat.mod_lt _ (by norm_num)

theorem pageSize_dvd_getSingleSmallAllocBytes : cfg.pageSize ∣ cfg.getSingleSmallAllocBytes :=
  (Nat.dvd_mod_iff cfg.pageSize_dvd).mpr (Dvd.intro_left _ rfl)

/-- A request rounded up to whole pages, in the arithmetic of `size_t`. -/
def pageAligned (neededBytes : ℕ) : ℕ :=
  (neededBytes + cfg.pageSize - 1) % 2 ^ 64 / cfg.pageSize * cfg.pageSize

theorem pageSize_dvd_pageAligned (n : ℕ) : cfg.pageSize ∣ cfg.pageAligned n :=
  Dvd.intro_left _ rfl

/-- A request that is rounded to something was not cut by the wrap-around: after a
wrap the sum is below one page and rounds down to nothing. -/
theorem pageAligned_noWrap {n : ℕ} (hn : n < 2 ^ 64) (hpos : 0 < cfg.pageAligned n) :
    n + cfg.pageSize - 1 < 2 ^ 64 := by
  by_contra hwrap
  have hps := cfg.pageSize_pos
  have hle : cfg.pageSize ≤ 2 ^ 64 := Nat.le_of_dvd (by norm_num) cfg.pageSize_dvd
  have hmod : (n + cfg.pageSize - 1) % 2 ^ 64 = n + cfg.pageSize - 1 - 2 ^ 64 := by
    rw [Nat.mod_eq_sub_mod (not_lt.mp hwrap)]
    exact Nat.mod_eq_of_lt (by omega)
  have hzero : (n + cfg.pageSize - 1) % 2 ^ 64 / cfg.pageSize = 0 := by
    rw [hmod]
    exact Nat.div_eq_of_lt (by omega)
  rw [pageAligned, hzero, Nat.zero_mul] at hpos
  exact absurd hpos (lt_irrefl 0)

theorem pageAligned_eq {n : ℕ} (hn : n < 2 ^ 64) (hpos : 0 < cfg.pageAligned n) :
    cfg.pageAligned n = (n + cfg.pageSize - 1) / cfg.pageSize * cfg.pageSize := by
  rw [pageAligned, Nat.mod_eq_of_lt (cfg.pageAligned_noWrap hn hpos)]

theorem le_pageAligned {n : ℕ} (hn : n < 2 ^ 64) (hpos : 0 < cfg.pageAligned n) :
    n ≤ cfg.pageAligned n := by
  have hps := cfg.pageSize_pos
  have hlt : n + cfg.pageSize - 1 <
      (n + cfg.pageSize - 1) / cfg.pageSize * cfg.pageSize + cfg.pageSize :=
    Nat.lt_div_mul_add hps
  rw [cfg.pageAligned_eq hn hpos]
  omega

/-- The page numbers that contain a part of `[p, p + bytes)`. -/
def pages (p bytes : ℕ) : Finset ℕ :=
  Finset.Ico (p / cfg.pageSize) ((p + bytes + cfg.pageSize - 1) / cfg.pageSize)

/-- Every address of a range lies on one of its pages. -/
theorem div_mem_pages {p bytes x : ℕ} (hlo : p ≤ x) (hhi : x < p + bytes) :
    x / cfg.pageSize ∈ cfg.pages p bytes := by
  have hps := cfg.pageSize_pos
  rw [pages, Finset.mem_Ico]
  refine ⟨Nat.div_le_div_right hlo, ?_⟩
  rw [Nat.div_lt_iff_lt_mul hps]
  have hlt : p + bytes + cfg.pageSize - 1 <
      (p + bytes + cfg.pageSize - 1) / cfg.pageSize * cfg.pageSize + cfg.pageSize :=
    Nat.lt_div_mul_add hps
  omega

/-- Ranges without a common page are apart. -/
theorem apart_of_disjoint_pages {b c : Block} (hb : 0 < b.2) (hc : 0 < c.2)
    (h : Disjoint (cfg.pages b.1 b.2) (cfg.pages c.1 c.2)) : Apart b c := by
  by_contra hne
  have hlap : b.1 < c.1 + c.2 ∧ c.1 < b.1 + b.2 := by omega
  rcases le_total b.1 c.1 with hle | hle
  · exact Finset.disjoint_left.mp h (cfg.div_mem_pages hle hlap.2)
      (cfg.div_mem_pages le_rfl (by omega))
  · exact Finset.disjoint_left.mp h (cfg.div_mem_pages le_rfl (by omega))
      (cfg.div_mem_pages hle hlap.1)

/-- Aligned ranges that are apart have no common page. -/
theorem disjoint_pages_of_apart {b c : Block} (hb : cfg.pageSize ∣ b.1 ∧ cfg.pageSize ∣ b.2)
    (hc : cfg.pageSize ∣ c.1 ∧ cfg.pageSize ∣ c.2) (h : Apart b c) :
    Disjoint (cfg.pages b.1 b.2) (cfg.pages c.1 c.2) := by
  have hps := cfg.pageSize_pos
  have hstop : ∀ d : Block, cfg.pageSize ∣ d.1 ∧ cfg.pageSize ∣ d.2 →
      (d.1 + d.2 + cfg.pageSize - 1) / cfg.pageSize = (d.1 + d.2) / cfg.pageSize := by
    intro d hd
    obtain ⟨q, hq⟩ := Nat.dvd_add hd.1 hd.2
    rw [hq, Nat.mul_div_cancel_left _ hps, show cfg.pageSize * q + cfg.pageSize - 1
      = (cfg.pageSize - 1) + cfg.pageSize * q by omega]
    rw [Nat.add_mul_div_left _ _ hps, Nat.div_eq_of_lt (by omega), Nat.zero_add]
  rw [Finset.disjoint_left]
  intro k hkb hkc
  rw [pages, Finset.mem_Ico, hstop b hb] at hkb
  rw [pages, Finset.mem_Ico, hstop c hc] at hkc
  rcases h with h | h
  · have := Nat.div_le_div_right (c := cfg.pageSize) h
    omega
  · have := Nat.div_le_div_right (c := cfg.pageSize) h
    omega

/-- `munmap` of the requested length releases the pages of the rounded length. -/
theorem pages_pageAligned {p n : ℕ} (haligned : p % cfg.pageSize = 0) (hn : n < 2 ^ 64)
    (hpos : 0 < cfg.pageAligned n) : cfg.pages p (cfg.pageAligned n) = cfg.pages p n := by
  have hps := cfg.pageSize_pos
  obtain ⟨q, rfl⟩ := Nat.dvd_of_mod_eq_zero haligned
  have hfront : ∀ m, (cfg.pageSize * q + m + cfg.pageSize - 1) / cfg.pageSize
      = q + (m + cfg.pageSize - 1) / cfg.pageSize := by
    intro m
    rw [show cfg.pageSize * q + m + cfg.pageSize - 1
      = (m + cfg.pageSize - 1) + cfg.pageSize * q by omega]
    rw [Nat.add_mul_div_left _ _ hps, Nat.add_comm]
  rw [pages, pages, hfront, hfront, cfg.pageAligned_eq hn hpos]
  congr 2
  rw [show (n + cfg.pageSize - 1) / cfg.pageSize * cfg.pageSize + cfg.pageSize - 1
    = (cfg.pageSize - 1) + cfg.pageSize * ((n + cfg.pageSize - 1) / cfg.pageSize) by
      rw [Nat.mul_comm]; omega]
  rw [Nat.add_mul_div_left _ _ hps, Nat.div_eq_of_lt (by omega), Nat.zero_add]

end ManagerConfig

/-- What an answer of `mmap` to a request for `bytes` promises. -/
structure Fresh (cfg : ManagerConfig) (mapped : Finset ℕ) (p bytes : ℕ) : Prop where
  nonempty : 0 < bytes
  aligned : cfg.pageSize ∣ p
  fits : p + bytes < 2 ^ 64
  unmapped : Disjoint (cfg.pages p bytes) mapped

/-- A fresh region starts where no mapped one does. -/
theorem Fresh.start_ne {cfg : ManagerConfig} {mapped : Finset ℕ} {p bytes : ℕ}
    (h : Fresh cfg mapped p bytes) {r : Block} (hpos : 0 < r.2)
    (hmapped : cfg.pages r.1 r.2 ⊆ mapped) : r.1 ≠ p := by
  rintro rfl
  have hpage : r.1 / cfg.pageSize ∈ cfg.pages r.1 r.2 := cfg.div_mem_pages le_rfl (by omega)
  have hnew : r.1 / cfg.pageSize ∈ cfg.pages r.1 bytes :=
    cfg.div_mem_pages le_rfl (by have := h.nonempty; omega)
  exact Finset.disjoint_left.mp h.unmapped hnew (hmapped hpage)

/-- An `mmap` that answers every request with a fresh region or fails. -/
def MmapFresh (cfg : ManagerConfig) (mapped : Finset ℕ) (mmap : ℕ → Option ℕ) : Prop :=
  ∀ bytes p, mmap bytes = some p → Fresh cfg mapped p bytes

/-- The region touches no mapped page on either side. -/
def Untouched (cfg : ManagerConfig) (mapped : Finset ℕ) (p bytes : ℕ) : Prop :=
  ∀ k ∈ mapped, (k + 1) * cfg.pageSize ≠ p ∧ k * cfg.pageSize ≠ p + bytes

instance (cfg : ManagerConfig) (mapped : Finset ℕ) (p bytes : ℕ) :
    Decidable (Untouched cfg mapped p bytes) :=
  inferInstanceAs
    (Decidable (∀ k ∈ mapped, (k + 1) * cfg.pageSize ≠ p ∧ k * cfg.pageSize ≠ p + bytes))

/-- An `mmap` whose regions never touch a mapped region. -/
def MmapApart (cfg : ManagerConfig) (mapped : Finset ℕ) (mmap : ℕ → Option ℕ) : Prop :=
  ∀ bytes p, mmap bytes = some p → Fresh cfg mapped p bytes ∧ Untouched cfg mapped p bytes

/-- An `mmap` that serves one length at one address and refuses the rest. -/
def mmapAt (bytes p : ℕ) : ℕ → Option ℕ := fun request => if request = bytes then some p else none

theorem mmapAt_eq_some {bytes p request q : ℕ} (h : mmapAt bytes p request = some q) :
    request = bytes ∧ q = p := by
  unfold mmapAt at h
  split_ifs at h with heq
  exact ⟨heq, (Option.some.inj h).symm⟩

theorem mmapAt_fresh {cfg : ManagerConfig} {mapped : Finset ℕ} {bytes p : ℕ}
    (h : Fresh cfg mapped p bytes) : MmapFresh cfg mapped (mmapAt bytes p) := by
  intro request q hq
  obtain ⟨rfl, rfl⟩ := mmapAt_eq_some hq
  exact h

theorem mmapAt_ne_null {bytes p : ℕ} (hp : p ≠ 0) (request : ℕ) :
    mmapAt bytes p request ≠ some 0 := by
  intro hnull
  exact hp (mmapAt_eq_some hnull).2.symm

theorem mmapNone_fresh {cfg : ManagerConfig} {mapped : Finset ℕ} :
    MmapFresh cfg mapped (fun _ => none) := by
  intro request q hq
  simp at hq

/-- Pages of 4 KiB, small blocks up to a page, arenas of one page. -/
def onePageArenas : ManagerConfig where
  pageSize := 4096
  maxSmallAllocPages1024 := 1024
  singleSmallAllocPages := 1
  pageSize_pow := ⟨12, by norm_num, by norm_num⟩

end MemoryManager
end CoherentDB
