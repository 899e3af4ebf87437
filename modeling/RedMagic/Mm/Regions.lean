import Mathlib.Data.List.Range
import RedMagic.Mm.Frames

/-!
# The regions `MM_PAGE_TABLE` lays out

`MM_PAGE_TABLE` rounds the base of a region up and its end down to a page boundary and takes their
difference. A region that does not reach its first page boundary has its rounded end below its rounded
base, so the difference wraps (`region_end_below_base`). For every other region that has a page boundary
below the top of the address space the call is the one on the rounded region (`mmPageTable_realign`).
-/

namespace RedMagic.Mm

/-- The region has a page boundary above its base and reaches it. -/
structure Region (base length : Nat) : Prop where
  fits : base + length < 2 ^ 32
  top : base + pageSize ≤ 2 ^ 32
  reaches : pageAlign base ≤ base + length

section
variable {base length : Nat} {m : Mmc}

theorem pageAlign_bounds (h : base + pageSize ≤ 2 ^ 32) :
    pageAlign base % pageSize = 0 ∧ base ≤ pageAlign base ∧ pageAlign base < base + pageSize := by
  rw [pageAlign_of_le h]
  unfold pageSize
  omega

theorem Region.of_aligned (ha : base % pageSize = 0) (hw : base + length < 2 ^ 32) : Region base length where
  fits := hw
  top := by
    unfold pageSize at *
    omega
  reaches := by
    rw [pageAlign_of_aligned ha (by omega)]
    omega

/-- The region and the whole pages of it are laid out alike. -/
theorem mmPageTable_realign (hr : Region base length) :
    mmPageTable base length = (mmPageTable (pageAlign base) (base + length - pageAlign base)).map
      (Option.map fun m => { m with base := base, length := length }) := by
  obtain ⟨hmod, -, hlt⟩ := pageAlign_bounds hr.top
  have htop := hr.top
  have halign : pageAlign (pageAlign base) = pageAlign base := by
    apply pageAlign_of_aligned hmod
    unfold pageSize at *
    omega
  have hend : pageAlign base + (base + length - pageAlign base) = base + length := by
    have := hr.reaches
    omega
  simp only [mmPageTable, halign, hend]
  split
  · rfl
  · split
    · rfl
    · rfl

/-- What `MM_PAGE_TABLE` sets up on a region is, up to the two fields no other function reads, the
`mmc_t` of the whole pages of the region. -/
theorem Region.table (hr : Region base length) (h : mmPageTable base length = .ok (some m)) :
    ∃ m₀, mmPageTable (pageAlign base) (base + length - pageAlign base) = .ok (some m₀) ∧
      m = { m₀ with base := base, length := length } := by
  rw [mmPageTable_realign hr] at h
  cases h₀ : mmPageTable (pageAlign base) (base + length - pageAlign base) with
  | error e =>
    rw [h₀] at h
    cases h
  | ok r =>
    rw [h₀] at h
    cases r with
    | none => cases h
    | some m₀ =>
      cases h
      exact ⟨m₀, rfl, rfl⟩

theorem Region.whole_fits (hr : Region base length) :
    pageAlign base + (base + length - pageAlign base) < 2 ^ 32 := by
  have := hr.reaches
  have := hr.fits
  omega

/-- On every region the layout is sound and all entries are white. -/
theorem Region.spec (hr : Region base length) (h : mmPageTable base length = .ok (some m)) :
    Layout m ∧ TableInv m m.table m.nfree [] ∧ 0 < m.frameBase := by
  obtain ⟨m₀, h₀, rfl⟩ := hr.table h
  obtain ⟨hmod, -, -⟩ := pageAlign_bounds hr.top
  obtain ⟨L, hinv⟩ := mmPageTable_spec hmod hr.whole_fits h₀
  rw [mmPageTable_aligned hmod hr.whole_fits] at h₀
  refine ⟨{ L with }, { hinv with }, ?_⟩
  dsimp only at h₀
  generalize hpages : (pageAlign base + (base + length - pageAlign base)) / pageSize - pageAlign base / pageSize = pages at h₀
  split at h₀
  · cases h₀
  · cases h₀
    show 0 < pageAlign base + (pages - pages * 1024 / 1025) * pageSize
    unfold pageSize
    omega

end

/-! ## The layout -/

/-- The address of metadata page `i`. -/
def metaPage (m : Mmc) (i : Nat) : Nat := m.metaBase + pageSize * i

/-- The metadata pages and the frames. -/
def Mmc.pages (m : Mmc) : List Nat :=
  (List.range m.mframes).map (metaPage m) ++ (List.range m.nframes).map (frameAddr m)

/-- The page at `p` lies inside the region. -/
structure WholePage (base length p : Nat) : Prop where
  aligned : p % pageSize = 0
  ge : base ≤ p
  le : p + pageSize ≤ base + length

/-- What `MM_PAGE_TABLE` is to set up on a region. -/
structure SoundLayout (base length : Nat) (m : Mmc) : Prop where
  apart : m.pages.Pairwise fun p q => p + pageSize ≤ q ∨ q + pageSize ≤ p
  pages : ∀ p, p ∈ m.pages ↔ WholePage base length p
  room : m.nframes ≤ m.mframes * metaEntNumPPg ∧ m.table.length = m.mframes * metaEntNumPPg
  some : 1 ≤ m.nframes
  entry : ∀ i < m.nframes, m.word i = frameAddr m i ∧ pgColor (m.word i) = pgWhite

/-- The pages of a fresh `mmc_t` follow each other from its base on. -/
theorem freshMmc_pages (base length mpg npg : Nat) :
    (freshMmc base length mpg npg).pages = (List.range (mpg + npg)).map fun i => base + pageSize * i := by
  have hframe : ∀ i, frameAddr (freshMmc base length mpg npg) i = base + pageSize * (mpg + i) := by
    intro i
    simp only [frameAddr, freshMmc]
    unfold pageSize
    omega
  rw [List.range_add, List.map_append, List.map_map]
  show (List.range mpg).map _ ++ (List.range npg).map _ = _
  congr 1
  apply List.map_congr_left
  intro i _
  exact hframe i

/-- Pages that follow each other are apart. -/
theorem pairwise_pages (base n : Nat) :
    ((List.range n).map fun i => base + pageSize * i).Pairwise fun p q => p + pageSize ≤ q ∨ q + pageSize ≤ p := by
  rw [List.pairwise_map]
  apply List.pairwise_lt_range.imp
  intro i j hij
  refine .inl ?_
  unfold pageSize
  omega

/-- The whole pages of an aligned region with `n` of them. -/
theorem mem_pages_iff {base length n p : Nat} (ha : base % pageSize = 0)
    (hn : n = (base + length) / pageSize - base / pageSize) :
    p ∈ (List.range n).map (fun i => base + pageSize * i) ↔ WholePage base length p := by
  rw [List.mem_map]
  constructor
  · rintro ⟨i, hi, rfl⟩
    rw [List.mem_range] at hi
    constructor
    · unfold pageSize at *
      omega
    · exact Nat.le_add_right _ _
    · unfold pageSize at *
      omega
  · intro hp
    obtain ⟨h1, h2, h3⟩ := hp
    refine ⟨(p - base) / pageSize, ?_, ?_⟩
    · rw [List.mem_range]
      unfold pageSize at *
      omega
    · unfold pageSize at *
      omega

/-- Rounding its base up loses no whole page of a region. -/
theorem wholePage_align {base length p : Nat} (hr : Region base length) :
    WholePage (pageAlign base) (base + length - pageAlign base) p ↔ WholePage base length p := by
  obtain ⟨hmod, hle, hlt⟩ := pageAlign_bounds hr.top
  have hreach := hr.reaches
  constructor
  · rintro ⟨h1, h2, h3⟩
    exact ⟨h1, hle.trans h2, by omega⟩
  · rintro ⟨h1, h2, h3⟩
    refine ⟨h1, ?_, by omega⟩
    unfold pageSize at *
    omega

/-- `mpg` metadata pages with room for `npg` entries, on a region with that many pages. -/
theorem freshMmc_sound {base length mpg npg : Nat} (hr : Region base length)
    (hpages : mpg + npg = (pageAlign base + (base + length - pageAlign base)) / pageSize - pageAlign base / pageSize)
    (htop : pageAlign base + pageSize * (mpg + npg) < 2 ^ 32) (hroom : npg ≤ 1024 * mpg) (hone : 1 ≤ npg) :
    SoundLayout base length
      { freshMmc (pageAlign base) (base + length - pageAlign base) mpg npg with base := base, length := length } := by
  obtain ⟨hmod, -, -⟩ := pageAlign_bounds hr.top
  have hlist : (freshMmc (pageAlign base) (base + length - pageAlign base) mpg npg).pages = _ := freshMmc_pages ..
  refine ⟨?_, ?_, ⟨?_, ?_⟩, hone, ?_⟩
  · show List.Pairwise _ (freshMmc (pageAlign base) (base + length - pageAlign base) mpg npg).pages
    rw [hlist]
    exact pairwise_pages _ _
  · intro p
    rw [← wholePage_align hr]
    show p ∈ (freshMmc (pageAlign base) (base + length - pageAlign base) mpg npg).pages ↔ _
    rw [hlist]
    exact mem_pages_iff hmod hpages
  · exact hroom.trans_eq (Nat.mul_comm _ _)
  · exact (initTable_length htop _ _).trans (Nat.mul_comm _ _)
  · intro i hi
    have hget := initTable_getD hroom htop hi
    refine ⟨hget, ?_⟩
    show pgColor ((initTable _ _ _ _).getD i 0) = pgWhite
    rw [hget]
    apply pgColor_add
    · unfold pageSize at *
      omega
    · decide

/-- On a region `MM_PAGE_TABLE` finds fewer than two pages, or sets up a sound layout. -/
theorem Region.layout {base length : Nat} (hr : Region base length) :
    mmPageTable base length = .ok none ∨
      ∃ m, mmPageTable base length = .ok (some m) ∧ SoundLayout base length m := by
  obtain ⟨hmod, -, -⟩ := pageAlign_bounds hr.top
  have hfits := hr.whole_fits
  have hrealign := mmPageTable_realign hr
  rw [mmPageTable_aligned hmod hfits] at hrealign
  generalize hpages : (pageAlign base + (base + length - pageAlign base)) / pageSize - pageAlign base / pageSize = pages
    at hrealign
  have htop : pageAlign base + pageSize * pages < 2 ^ 32 := by
    unfold pageSize at *
    omega
  dsimp only at hrealign
  split at hrealign
  · exact .inl hrealign
  · refine .inr ⟨_, hrealign, ?_⟩
    have hsum : pages - pages * 1024 / 1025 + pages * 1024 / 1025 = pages := by omega
    refine freshMmc_sound hr (hsum.trans hpages.symm) ?_ (by omega) (by omega)
    rw [hsum]
    exact htop

/-- The rounded end is a page below the rounded base: the number of pages wraps around and is not small. -/
theorem mmPageTable_wraps {base length : Nat} (hfit : base + length ≤ 2 ^ 32 - 4096) (hshort : base + length < pageAlign base) :
    mmPageTable base length ≠ .ok none := by
  have halign : pageAlign base = (base + 4095) / 4096 * 4096 := pageAlign_of_le (by unfold pageSize; omega)
  have hend : u32 (base + length) &&& pageMask = pageAlign base - 4096 := by
    have hlt : base + length < 2 ^ 32 := by omega
    rw [u32_of_lt hlt, Nat.and_comm, land_pageMask hlt]
    unfold pageSize
    omega
  have hpages : u32 (pageAlign base - 4096 + 2 ^ 32 - pageAlign base) / pageSize = 0xFFFFF := by
    have hsub : pageAlign base - 4096 + 2 ^ 32 - pageAlign base = 2 ^ 32 - 4096 := by omega
    rw [hsub]
    decide
  simp only [mmPageTable, hend, hpages]
  split
  · omega
  · split
    · intro h
      cases h
    · intro h
      cases h

/-- No layout is sound on a region without a whole page. -/
theorem SoundLayout.reaches {base length : Nat} {m : Mmc} (h : SoundLayout base length m) (htop : base + pageSize ≤ 2 ^ 32) :
    pageAlign base ≤ base + length := by
  have hmem : frameAddr m 0 ∈ m.pages := by
    refine List.mem_append_right _ (List.mem_map_of_mem ?_)
    exact List.mem_range.2 h.some
  obtain ⟨-, hge, hle⟩ := (h.pages _).1 hmem
  obtain ⟨-, -, hlt⟩ := pageAlign_bounds htop
  omega

/-- **Frame-table layout.** On a region that ends a page below the top of the address space, `MM_PAGE_TABLE` does
what it is to do exactly if the region reaches its first page boundary: it returns 1 and sets nothing up, or it
returns 0 and the metadata pages and the frames are the whole pages of the region, each used once; the table has
room for its entries, of which there is one at least; and entry `i` is the address of frame `i` in white. The
`ASSERT` holds. -/
theorem frame_table_layout (base length : Nat) (hfit : base + length ≤ 2 ^ 32 - 4096) :
    (mmPageTable base length = .ok none ∨
      ∃ m, mmPageTable base length = .ok (some m) ∧ SoundLayout base length m) ↔ pageAlign base ≤ base + length := by
  have htop : base + pageSize ≤ 2 ^ 32 := by
    unfold pageSize
    omega
  constructor
  · rintro (hnone | ⟨m, -, hsound⟩)
    · by_contra hshort
      exact mmPageTable_wraps hfit (Nat.lt_of_not_le hshort) hnone
    · exact hsound.reaches htop
  · intro hreach
    exact Region.layout ⟨by omega, htop, hreach⟩

/-- A region in the middle of pages: half a page at either end is left out. -/
theorem frame_table_layout_unaligned :
    ∃ m, mmPageTable 0x100800 0x4000 = .ok (some m) ∧ SoundLayout 0x100800 0x4000 m ∧
      m.metaBase = 0x101000 ∧ m.nframes = 2 := by
  have hfresh : ∃ m, mmPageTable 0x100800 0x4000 = .ok (some m) ∧ m.metaBase = 0x101000 ∧ m.nframes = 2 :=
    ⟨_, rfl, rfl, rfl⟩
  obtain ⟨m, hm, hbase, hn⟩ := hfresh
  rcases (frame_table_layout 0x100800 0x4000 (by decide)).2 (by decide) with hnone | ⟨m', hm', hsound⟩
  · rw [hm] at hnone
    cases hnone
  · rw [hm] at hm'
    cases hm'
    exact ⟨m, hm, hsound, hbase, hn⟩

/-- One byte inside a page: the rounded end is a page below the rounded base, and `MM_PAGE_TABLE` takes the
whole address space for frames. -/
theorem region_end_below_base :
    0x1001 + 1 ≤ 2 ^ 32 - 4096 ∧
      ∃ m, mmPageTable 0x1001 1 = .ok (some m) ∧ m.nframes = 1047552 ∧ ¬ SoundLayout 0x1001 1 m := by
  have hfresh : ∃ m, mmPageTable 0x1001 1 = .ok (some m) ∧ m.nframes = 1047552 := ⟨_, rfl, rfl⟩
  obtain ⟨m, hm, hn⟩ := hfresh
  refine ⟨by decide, m, hm, hn, ?_⟩
  intro hsound
  have hmem : frameAddr m 0 ∈ m.pages := by
    refine List.mem_append_right _ (List.mem_map_of_mem ?_)
    rw [List.mem_range, hn]
    decide
  obtain ⟨-, hge, hle⟩ := (hsound.pages _).1 hmem
  unfold pageSize at hle
  omega

end RedMagic.Mm
