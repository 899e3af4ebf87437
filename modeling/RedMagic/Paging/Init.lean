import Mathlib.Data.List.Range
import RedMagic.Paging.Basic

/-!
# Mapping the available memory: the second phase of `init_paging` (src/mm.c:255-282)

| here | there |
| --- | --- |
| `Ards`      | `addr_range_t` (`mm.h:47-54`) |
| `mapPages`  | the inner loop (`mm.c:273-280`): the calls of `__page_map` it makes, and the cursor `va` after it |
| `mapEntry`  | the body of the loop over the map (`mm.c:262-281`) |
| `mapEntries`| the whole phase, as the list of pairs `(va, p)` that `__page_map` is called with |

The loop works on the low words of a range only. `Ards.base` and `Ards.length` are the 64-bit numbers the
range has; `takes` is the loop's own test, at its cursor, for a range that it takes pages from.
-/

namespace RedMagic.Paging

open Mm

structure Ards where
  baseAddrLow : Nat
  baseAddrHigh : Nat
  lengthLow : Nat
  lengthHigh : Nat
  type : Nat
deriving DecidableEq, Repr

def ardsTypeAvail : Nat := 1

/-- `K_SPACE_END` (paging.h:39). -/
def kSpaceEnd : Nat := 0x1000000

/-- The loop `while (p < end)`; `fuel` pages at most. -/
def mapPages : Nat → Nat → Nat → Nat → List (Nat × Nat) × Nat
  | 0, va, _, _ => ([], va)
  | fuel + 1, va, p, endp =>
    if p < endp then
      let r := mapPages fuel (u32 (va + pageSize)) (u32 (p + pageSize)) endp
      ((va, p) :: r.1, r.2)
    else ([], va)

namespace Ards

/-- `map_end`. -/
def mapEnd (r : Ards) : Nat := u32 (r.baseAddrLow + r.lengthLow)

/-- `map_start`, at the cursor `va`. -/
def mapStart (r : Ards) (va : Nat) : Nat := if r.baseAddrLow < va then va else r.baseAddrLow

end Ards

/-- The pages of a 32-bit address space: no run of the inner loop is longer. -/
def maxPages : Nat := 2 ^ 20

def mapEntry (va : Nat) (r : Ards) : List (Nat × Nat) × Nat :=
  if r.type = ardsTypeAvail ∧ r.mapEnd ≥ va then
    mapPages maxPages va (pageAlign (r.mapStart va)) (r.mapEnd &&& pageMask)
  else ([], va)

def mapEntriesFrom : Nat → List Ards → List (Nat × Nat)
  | _, [] => []
  | va, r :: rs => (mapEntry va r).1 ++ mapEntriesFrom (mapEntry va r).2 rs

def mapEntries (entries : List Ards) : List (Nat × Nat) := mapEntriesFrom (pageAlign kSpaceEnd) entries

/-! ## The ranges -/

namespace Ards

def base (r : Ards) : Nat := r.baseAddrHigh * 2 ^ 32 + r.baseAddrLow
def length (r : Ards) : Nat := r.lengthHigh * 2 ^ 32 + r.lengthLow

/-- The address `x` is in the range. -/
def has (r : Ards) (x : Nat) : Prop := r.base ≤ x ∧ x < r.base + r.length

/-- Four words, a range inside the 64-bit address space. -/
structure Ok (r : Ards) : Prop where
  baseLow : r.baseAddrLow < 2 ^ 32
  baseHigh : r.baseAddrHigh < 2 ^ 32
  lenLow : r.lengthLow < 2 ^ 32
  lenHigh : r.lengthHigh < 2 ^ 32
  fits : r.base + r.length ≤ 2 ^ 64

/-- At the cursor `va` the loop maps a page for the range. -/
def takes (r : Ards) (va : Nat) : Prop :=
  r.type = ardsTypeAvail ∧ r.mapEnd ≥ va ∧ pageAlign (r.mapStart va) < r.mapEnd &&& pageMask

instance (r : Ards) (va : Nat) : Decidable (r.takes va) :=
  inferInstanceAs (Decidable
    (r.type = ardsTypeAvail ∧ r.mapEnd ≥ va ∧ pageAlign (r.mapStart va) < r.mapEnd &&& pageMask))

end Ards

/-- A memory map as the boot loader hands it over: disjoint ranges in ascending order. -/
def Sorted (entries : List Ards) : Prop :=
  (∀ r ∈ entries, r.Ok) ∧ entries.Pairwise fun r r' => r.base ≤ r'.base ∧ ∀ x, ¬ (r.has x ∧ r'.has x)

/-- The page at `p` lies in one available range of the map, and not below the kernel's space. -/
def Available (entries : List Ards) (p : Nat) : Prop :=
  kSpaceEnd ≤ p ∧ ∃ r ∈ entries, r.type = ardsTypeAvail ∧ r.base ≤ p ∧ p + pageSize ≤ r.base + r.length

/-- The entries, each with the cursor at which the loop meets it. -/
def visits : Nat → List Ards → List (Nat × Ards)
  | _, [] => []
  | va, r :: rs => (va, r) :: visits (mapEntry va r).2 rs

/-- The last page of the 32-bit address space. -/
def lastPage : Nat := 0xFFFFF000

/-- Every range that the loop takes pages from begins at or below the last 32-bit page. -/
def TakesLow (entries : List Ards) : Prop :=
  ∀ v ∈ visits (pageAlign kSpaceEnd) entries, v.2.takes v.1 → v.2.base ≤ lastPage

instance (entries : List Ards) : Decidable (TakesLow entries) :=
  inferInstanceAs (Decidable
    (∀ v ∈ visits (pageAlign kSpaceEnd) entries, v.2.takes v.1 → v.2.base ≤ lastPage))

/-! ## The inner loop -/

/-- `n` pages in a row, from the page `p`, mapped from `va` on. -/
def pagesFrom (va p n : Nat) : List (Nat × Nat) :=
  (List.range n).map fun i => (va + pageSize * i, p + pageSize * i)

theorem pagesFrom_succ (va p n : Nat) :
    pagesFrom va p (n + 1) = (va, p) :: pagesFrom (va + pageSize) (p + pageSize) n := by
  unfold pagesFrom
  rw [List.range_succ_eq_map, List.map_cons, List.map_map]
  refine congrArg₂ List.cons (by simp) (List.map_congr_left ?_)
  intro i _
  simp only [Function.comp_apply, Nat.succ_eq_add_one, Prod.mk.injEq]
  unfold pageSize
  omega

/-- With aligned bounds below the last page the loop maps every page from `p` up to `endp`. -/
theorem mapPages_eq {fuel va p endp n : Nat} (hn : p + pageSize * n = endp) (hfuel : n ≤ fuel)
    (hend : endp < 2 ^ 32) (hva : va + pageSize * n < 2 ^ 32) :
    mapPages fuel va p endp = (pagesFrom va p n, va + pageSize * n) := by
  induction fuel generalizing va p n with
  | zero =>
    obtain rfl : n = 0 := by omega
    simp [mapPages, pagesFrom]
  | succ fuel ih =>
    cases n with
    | zero =>
      rw [mapPages, if_neg (by omega)]
      simp [pagesFrom]
    | succ n =>
      have hpos : 0 < pageSize := by decide
      rw [Nat.mul_succ] at hn hva
      have hv : u32 (va + pageSize) = va + pageSize := u32_of_lt (by omega)
      have hp : u32 (p + pageSize) = p + pageSize := u32_of_lt (by omega)
      have hrest : mapPages fuel (va + pageSize) (p + pageSize) endp
          = (pagesFrom (va + pageSize) (p + pageSize) n, va + pageSize + pageSize * n) :=
        ih (by omega) (by omega) (by omega)
      have hlt : p < endp := by omega
      rw [mapPages, if_pos hlt, hv, hp, hrest, pagesFrom_succ]
      simp only [Prod.mk.injEq, true_and, Nat.mul_succ]
      omega

theorem mapPages_done {fuel va p endp : Nat} (h : ¬ p < endp) : mapPages fuel va p endp = ([], va) := by
  cases fuel with
  | zero => rfl
  | succ fuel => rw [mapPages, if_neg h]

theorem mem_pagesFrom {va p n : Nat} {c : Nat × Nat} :
    c ∈ pagesFrom va p n ↔ ∃ i < n, c = (va + pageSize * i, p + pageSize * i) := by
  simp [pagesFrom, eq_comm]

/-! ## One entry -/

theorem pageAlign_eq {a : Nat} (h : a ≤ lastPage) : pageAlign a = (a + 4095) / 4096 * 4096 := by
  apply pageAlign_of_le
  unfold lastPage at h
  unfold pageSize
  omega

theorem mapEnd_lt (r : Ards) : r.mapEnd < 2 ^ 32 := Nat.mod_lt _ (by decide)

/-- The pages that the loop takes from a range, at an aligned cursor: from `p` on, `n` pages. They lie in the
range and not below the cursor. -/
structure Window (r : Ards) (va p n : Nat) : Prop where
  first : pageAlign (r.mapStart va) = p
  last : p + pageSize * n = r.mapEnd &&& pageMask
  pos : 0 < n
  fits : p + pageSize * n < 2 ^ 32
  cursor : va ≤ p
  inside : r.base ≤ p ∧ p + pageSize * n ≤ r.base + r.length

theorem Ards.takes.window {r : Ards} {va : Nat} (h : r.takes va) (hok : r.Ok) (hlow : r.base ≤ lastPage)
    (hva : va % pageSize = 0) : ∃ p n, Window r va p n := by
  obtain ⟨-, hge, hlt⟩ := h
  have hend := mapEnd_lt r
  have hmask : r.mapEnd &&& pageMask = r.mapEnd / 4096 * 4096 := by
    rw [Nat.and_comm, land_pageMask hend]
    rfl
  have hbase : r.base = r.baseAddrLow := by
    have := hok.baseLow
    unfold Ards.base lastPage at *
    omega
  have hlen : r.lengthLow ≤ r.length := Nat.le_add_left _ _
  have hstart : r.mapStart va ≤ lastPage ∧ va ≤ r.mapStart va ∧ r.baseAddrLow ≤ r.mapStart va := by
    unfold Ards.mapStart
    split
    · unfold lastPage pageSize at *
      omega
    · rw [← hbase]
      exact ⟨hlow, by omega, Nat.le_refl _⟩
  -- an end that wraps around lies below the start
  have hwrap : r.mapEnd ≤ r.baseAddrLow + r.lengthLow := Nat.mod_le _ _
  have hfirst := pageAlign_eq hstart.1
  have hup : r.mapStart va ≤ (r.mapStart va + 4095) / 4096 * 4096 := by omega
  have hdown : r.mapEnd / 4096 * 4096 ≤ r.mapEnd := Nat.div_mul_le_self _ _
  rw [hfirst, hmask] at hlt
  obtain ⟨n, hn⟩ : ∃ n, r.mapEnd / 4096 = (r.mapStart va + 4095) / 4096 + n :=
    ⟨r.mapEnd / 4096 - (r.mapStart va + 4095) / 4096, by omega⟩
  have hlast : (r.mapStart va + 4095) / 4096 * 4096 + pageSize * n = r.mapEnd / 4096 * 4096 := by
    rw [hn]
    unfold pageSize
    omega
  refine ⟨_, n, hfirst, hlast.trans hmask.symm, by omega, ?_, ?_, ?_, ?_⟩
  · rw [hlast]
    exact Nat.lt_of_le_of_lt hdown hend
  · exact Nat.le_trans hstart.2.1 hup
  · rw [hbase]
    exact Nat.le_trans hstart.2.2 hup
  · rw [hbase, hlast]
    calc r.mapEnd / 4096 * 4096 ≤ r.mapEnd := hdown
      _ ≤ r.baseAddrLow + r.lengthLow := hwrap
      _ ≤ r.baseAddrLow + r.length := Nat.add_le_add_left hlen _

/-- What the phase has done when the entries `seen` are behind it: the calls `done`, the cursor at `va`. -/
structure Handed (seen : List Ards) (done : List (Nat × Nat)) (va : Nat) : Prop where
  cursor : va = kSpaceEnd + pageSize * done.length
  virt : done.map Prod.fst = (List.range done.length).map fun i => kSpaceEnd + pageSize * i
  avail : ∀ c ∈ done, Available seen c.2
  sorted : (done.map Prod.snd).Pairwise fun p q => p + pageSize ≤ q
  /-- The mapped pages end at a bound inside the range of the last one; the cursor is not beyond it. -/
  top : ∃ top, va ≤ top ∧ (∀ c ∈ done, c.2 + pageSize ≤ top) ∧
    (top = va ∨ ∃ r ∈ seen, r.base < top ∧ top ≤ r.base + r.length)

theorem handed_start : Handed [] [] (pageAlign kSpaceEnd) where
  cursor := by decide
  virt := rfl
  avail := by simp
  sorted := List.Pairwise.nil
  top := ⟨_, Nat.le_refl _, by simp, .inl rfl⟩

theorem Available.mono {seen seen' : List Ards} {p : Nat} (h : Available seen p) (hsub : seen ⊆ seen') :
    Available seen' p := by
  obtain ⟨hk, r, hr, hin⟩ := h
  exact ⟨hk, r, hsub hr, hin⟩

section
variable {seen : List Ards} {done : List (Nat × Nat)} {va : Nat}

/-- An entry from which the loop takes nothing. -/
theorem Handed.skip (h : Handed seen done va) (r : Ards) : Handed (seen ++ [r]) done va := by
  obtain ⟨top, hva, hall, hin⟩ := h.top
  refine { h with avail := ?_, top := ⟨top, hva, hall, ?_⟩ }
  · intro c hc
    exact (h.avail c hc).mono (List.subset_append_left _ _)
  · rcases hin with hin | ⟨r', hr', hin⟩
    · exact .inl hin
    · exact .inr ⟨r', List.mem_append_left _ hr', hin⟩

/-- The bound of the pages mapped so far is not above the pages taken from a range that comes after them. -/
theorem Handed.top_le (h : Handed seen done va) {r : Ards} {p n : Nat} (w : Window r va p n)
    (hafter : ∀ r' ∈ seen, r'.base ≤ r.base ∧ ∀ x, ¬ (r'.has x ∧ r.has x)) : ∀ c ∈ done, c.2 + pageSize ≤ p := by
  obtain ⟨top, -, hall, hin⟩ := h.top
  have hle : top ≤ p := by
    rcases hin with rfl | ⟨r', hr', hlo, hhi⟩
    · exact w.cursor
    · by_contra hgt
      obtain ⟨hle, hdisj⟩ := hafter r' hr'
      have hin := w.inside
      have hpos := w.pos
      refine hdisj r.base ⟨⟨hle, by omega⟩, Nat.le_refl _, ?_⟩
      unfold pageSize at hin
      omega
  intro c hc
  exact Nat.le_trans (hall c hc) hle

/-- An entry from which the loop takes the pages of a window. -/
theorem Handed.take (h : Handed seen done va) {r : Ards} {p n : Nat} (w : Window r va p n)
    (htype : r.type = ardsTypeAvail)
    (hafter : ∀ r' ∈ seen, r'.base ≤ r.base ∧ ∀ x, ¬ (r'.has x ∧ r.has x)) :
    Handed (seen ++ [r]) (done ++ pagesFrom va p n) (va + pageSize * n) := by
  have hbelow := h.top_le w hafter
  have hk := h.cursor
  have hlen : (done ++ pagesFrom va p n).length = done.length + n := by simp [pagesFrom]
  refine ⟨?_, ?_, ?_, ?_, ⟨p + pageSize * n, ?_, ?_, ?_⟩⟩
  · rw [hlen, hk, Nat.mul_add, Nat.add_assoc]
  · rw [hlen, List.range_add, List.map_append, List.map_append, h.virt, List.map_map]
    refine congrArg _ ?_
    simp only [pagesFrom, List.map_map]
    refine List.map_congr_left ?_
    intro i _
    simp only [Function.comp_apply, hk, Nat.mul_add]
    omega
  · intro c hc
    rcases List.mem_append.1 hc with hc | hc
    · exact (h.avail c hc).mono (List.subset_append_left _ _)
    · obtain ⟨i, hi, rfl⟩ := mem_pagesFrom.1 hc
      have hcur := w.cursor
      have hin := w.inside
      have hpage : pageSize * (i + 1) ≤ pageSize * n := Nat.mul_le_mul_left _ hi
      rw [Nat.mul_succ] at hpage
      exact ⟨by omega, r, by simp, htype, by omega, by omega⟩
  · rw [List.map_append, List.pairwise_append]
    refine ⟨h.sorted, ?_, ?_⟩
    · simp only [pagesFrom, List.map_map, List.pairwise_map]
      refine List.pairwise_lt_range.imp ?_
      intro i j hij
      have hpage : pageSize * (i + 1) ≤ pageSize * j := Nat.mul_le_mul_left _ hij
      rw [Nat.mul_succ] at hpage
      simp only [Function.comp_apply]
      omega
    · intro q hq q' hq'
      obtain ⟨c, hc, rfl⟩ := List.mem_map.1 hq
      obtain ⟨c', hc', rfl⟩ := List.mem_map.1 hq'
      obtain ⟨i, -, rfl⟩ := mem_pagesFrom.1 hc'
      have := hbelow c hc
      omega
  · have := w.cursor
    omega
  · intro c hc
    rcases List.mem_append.1 hc with hc | hc
    · have := hbelow c hc
      omega
    · obtain ⟨i, hi, rfl⟩ := mem_pagesFrom.1 hc
      have hpage : pageSize * (i + 1) ≤ pageSize * n := Nat.mul_le_mul_left _ hi
      rw [Nat.mul_succ] at hpage
      omega
  · right
    have hin := w.inside
    have hpos : 0 < pageSize * n := Nat.mul_pos (by decide) w.pos
    exact ⟨r, by simp, by omega, hin.2⟩

/-- **One entry of the map.** -/
theorem Handed.entry (h : Handed seen done va) {r : Ards} (hok : r.Ok)
    (hafter : ∀ r' ∈ seen, r'.base ≤ r.base ∧ ∀ x, ¬ (r'.has x ∧ r.has x))
    (hlow : r.takes va → r.base ≤ lastPage) :
    Handed (seen ++ [r]) (done ++ (mapEntry va r).1) (mapEntry va r).2 := by
  unfold mapEntry
  split
  · rename_i htest
    by_cases htakes : r.takes va
    · have hva : va % pageSize = 0 := by
        rw [h.cursor]
        unfold kSpaceEnd pageSize
        omega
      obtain ⟨p, n, w⟩ := htakes.window hok (hlow htakes) hva
      have hfits := w.fits
      have hcur := w.cursor
      have hn : n ≤ maxPages := by
        unfold pageSize at hfits
        unfold maxPages
        omega
      rw [w.first, ← w.last, mapPages_eq rfl hn hfits (by omega)]
      exact h.take w htest.1 hafter
    · have hdone : ¬ pageAlign (r.mapStart va) < r.mapEnd &&& pageMask :=
        fun hlt => htakes ⟨htest.1, htest.2, hlt⟩
      rw [mapPages_done hdone]
      simpa using h.skip r
  · simpa using h.skip r

end

/-- The whole map, by induction on the entries ahead. -/
theorem Handed.entries (rs : List Ards) : ∀ {seen : List Ards} {done : List (Nat × Nat)} {va : Nat},
    Handed seen done va → Sorted (seen ++ rs) → (∀ v ∈ visits va rs, v.2.takes v.1 → v.2.base ≤ lastPage) →
      ∃ va', Handed (seen ++ rs) (done ++ mapEntriesFrom va rs) va' := by
  induction rs with
  | nil =>
    intro seen done va h _ _
    exact ⟨va, by simpa [mapEntriesFrom] using h⟩
  | cons r rs ih =>
    intro seen done va h hs hlow
    have hnext := h.entry (hs.1 r (by simp)) (fun r' hr' => (List.pairwise_append.1 hs.2).2.2 r' hr' r (by simp))
      (hlow (va, r) (by simp [visits]))
    have hsplit : seen ++ r :: rs = seen ++ [r] ++ rs := by simp
    rw [hsplit] at hs ⊢
    obtain ⟨va', hall⟩ := ih hnext hs (fun v hv => hlow v (by simp [visits, hv]))
    exact ⟨va', by simpa [mapEntriesFrom] using hall⟩

/-! ## The phase -/

/-- Every page mapped is available memory, the virtual pages follow one another from `K_SPACE_END` on, and
no physical page is mapped twice. -/
def HandsOut (entries : List Ards) : Prop :=
  (∀ c ∈ mapEntries entries, Available entries c.2) ∧
  (mapEntries entries).map Prod.fst
    = (List.range (mapEntries entries).length).map (fun i => pageAlign kSpaceEnd + pageSize * i) ∧
  ((mapEntries entries).map Prod.snd).Nodup

/-- **Only available memory is handed out, once**, for every map of disjoint ascending ranges in which the
loop takes pages only from ranges that begin at or below the last 32-bit page. -/
theorem memory_handed_out (entries : List Ards) (hs : Sorted entries) (hlow : TakesLow entries) :
    HandsOut entries := by
  obtain ⟨va, h⟩ := Handed.entries entries handed_start hs hlow
  simp only [List.nil_append] at h
  refine ⟨h.avail, h.virt, ?_⟩
  refine h.sorted.imp ?_
  intro p q hpq heq
  unfold pageSize at hpq
  omega

/-- Memory below and above a hole, with ends that are not page boundaries. -/
def holeMap : List Ards :=
  [⟨0, 0, 0x9fc00, 0, 1⟩, ⟨0x9fc00, 0, 0x400, 0, 2⟩, ⟨0x100000, 0, 0xf02800, 0, 1⟩, ⟨0x2000800, 0, 0x1800, 0, 1⟩]

theorem holeMap_sorted : Sorted holeMap := by
  refine ⟨?_, ?_⟩
  · intro r hr
    simp only [holeMap, List.mem_cons, List.not_mem_nil, or_false] at hr
    rcases hr with rfl | rfl | rfl | rfl <;> exact ⟨by decide, by decide, by decide, by decide, by decide⟩
  · have hends : holeMap.Pairwise fun r r' => r.base + r.length ≤ r'.base := by decide
    refine hends.imp ?_
    intro r r' hle
    refine ⟨by omega, ?_⟩
    rintro x ⟨⟨-, h1⟩, h2, -⟩
    omega

/-- Three pages: two that follow the kernel's space and one behind the hole. -/
theorem memory_handed_out_hole :
    mapEntries holeMap = [(0x1000000, 0x1000000), (0x1001000, 0x1001000), (0x1002000, 0x2001000)] ∧
      HandsOut holeMap :=
  ⟨by decide +kernel, memory_handed_out holeMap holeMap_sorted (by decide +kernel)⟩

/-- A range of two pages at 4 GB + 16 MB. -/
def highMap : List Ards := [⟨0x1000000, 1, 0x2000, 0, 1⟩]

theorem highMap_sorted : Sorted highMap := by
  refine ⟨?_, List.pairwise_singleton _ _⟩
  intro r hr
  obtain rfl : r = ⟨0x1000000, 1, 0x2000, 0, 1⟩ := by simpa [highMap] using hr
  exact ⟨by decide, by decide, by decide, by decide, by decide⟩

/-- The loop sees its low word only and maps the page at 16 MB, which no range of the map has. -/
theorem memory_not_available : Sorted highMap ∧ ¬ HandsOut highMap := by
  refine ⟨highMap_sorted, ?_⟩
  intro h
  have hmem : (0x1000000, 0x1000000) ∈ mapEntries highMap := by decide +kernel
  obtain ⟨-, r, hr, -, hbase, -⟩ := h.1 _ hmem
  obtain rfl : r = ⟨0x1000000, 1, 0x2000, 0, 1⟩ := by simpa [highMap] using hr
  exact absurd hbase (by decide)

end RedMagic.Paging
