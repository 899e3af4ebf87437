import RedMagic.Heap.ZeroSize

/-!
# Best fit

The free list is in no order, and its blocks are the gaps between the reserved ones: they tile what the
reserved blocks leave of `[start, end)`, and no two of them touch (`gap_iff`). So the scan of `__kmalloc`
over the free list is a search among the gaps, and it keeps the smallest that is large enough
(`scanFree_least`).
-/

namespace RedMagic.Heap

open Mm Blocks Lts

/-! ## The scan -/

/-- The search finds nothing: no block has the size, and none is larger by less than `delta`. -/
theorem scanFree_none {blk : Nat → Blk} {size : Nat} {ns : List Nat} {delta : Nat} {found : Option Nat}
    (h : scanFree blk size ns delta found = .best none) :
    ∀ n ∈ ns, (blk n).size ≠ size ∧ (size < (blk n).size → delta ≤ (blk n).size - size) := by
  fun_induction scanFree blk size ns delta found with
  | case1 => simp
  | case2 delta found x rest hgt hlt ih =>
    -- a better block is never given up
    have hkeep : ∀ (ns : List Nat) (delta x : Nat), scanFree blk size ns delta (some x) ≠ .best none := by
      intro ns
      induction ns with
      | nil => simp [scanFree]
      | cons y ys ihy =>
        intro delta x
        simp only [scanFree]
        split
        · split
          · exact ihy _ _
          · exact ihy _ _
        · split
          · simp
          · exact ihy _ _
    exact absurd h (hkeep _ _ _)
  | case3 delta found x rest hgt hlt ih =>
    intro n hn
    rcases List.mem_cons.1 hn with rfl | hn
    · omega
    · exact ih h n hn
  | case4 => cases h
  | case5 delta found x rest hgt hne ih =>
    intro n hn
    rcases List.mem_cons.1 hn with rfl | hn
    · omega
    · exact ih h n hn

/-- The block the search ends with is larger by at most `delta`; no block has the size, and none that is
larger is smaller than the one found. -/
theorem scanFree_least {blk : Nat → Blk} {size n : Nat} {ns : List Nat} {delta : Nat} {found : Option Nat}
    (hfound : ∀ k, found = some k → delta = (blk k).size - size)
    (h : scanFree blk size ns delta found = .best (some n)) :
    (blk n).size - size ≤ delta ∧
      ∀ k ∈ ns, (blk k).size ≠ size ∧ (size < (blk k).size → (blk n).size ≤ (blk k).size) := by
  fun_induction scanFree blk size ns delta found with
  | case1 delta found =>
    cases h
    exact ⟨(hfound n rfl).ge, by simp⟩
  | case2 delta found x rest hgt hlt ih =>
    obtain ⟨hle, hall⟩ := ih (by simp) h
    refine ⟨by omega, fun k hk => ?_⟩
    rcases List.mem_cons.1 hk with rfl | hk
    · omega
    · exact hall k hk
  | case3 delta found x rest hgt hlt ih =>
    obtain ⟨hle, hall⟩ := ih hfound h
    refine ⟨hle, fun k hk => ?_⟩
    rcases List.mem_cons.1 hk with rfl | hk
    · omega
    · exact hall k hk
  | case4 => cases h
  | case5 delta found x rest hgt hne ih =>
    obtain ⟨hle, hall⟩ := ih hfound h
    refine ⟨hle, fun k hk => ?_⟩
    rcases List.mem_cons.1 hk with rfl | hk
    · omega
    · exact hall k hk

/-! ## Gaps -/

/-- A longest run of bytes of `[start, end)` that no reserved block covers. -/
def Gap (h : HeapDesc) : Block → Prop :=
  MaxRun fun i => (h.start ≤ i ∧ i < h.endAddr) ∧ ∀ n ∈ h.res, i ∉ blockOf h.blk n

/-- The gaps are the blocks of the free list. -/
theorem gap_iff {h : HeapDesc} (hi : HeapInv h) (g : Block) : Gap h g ↔ ∃ n ∈ h.free, blockOf h.blk n = g := by
  have htiles := hi.tiles
  rw [List.map_append] at htiles
  have hgaps : ∀ x ∈ h.free.map (blockOf h.blk), ∀ y ∈ h.free.map (blockOf h.blk), x.start + x.len ≠ y.start := by
    intro x hx y hy
    obtain ⟨n, hn, rfl⟩ := List.mem_map.1 hx
    obtain ⟨k, hk, rfl⟩ := List.mem_map.1 hy
    exact hi.gaps n hn k hk
  have hrun := htiles.maxRun_iff hgaps g
  simp only [List.mem_map, forall_exists_index, and_imp, forall_apply_eq_imp_iff₂] at hrun
  exact hrun

theorem exists_gap_iff {h : HeapDesc} (hi : HeapInv h) (P : Nat → Prop) :
    (∃ g, Gap h g ∧ P g.len) ↔ ∃ n ∈ h.free, P (h.blk n).size := by
  constructor
  · rintro ⟨g, hg, hP⟩
    obtain ⟨n, hn, rfl⟩ := (gap_iff hi g).1 hg
    exact ⟨n, hn, hP⟩
  · rintro ⟨n, hn, hP⟩
    exact ⟨blockOf h.blk n, (gap_iff hi _).2 ⟨n, hn, rfl⟩, hP⟩

/-! ## `__kmalloc` -/

/-- No frame of the table is white. -/
def Exhausted (mp : Mmc) : Prop := ∀ i < mp.nframes, pgColor (mp.word i) ≠ pgWhite

theorem OnFrames.exhausted_iff {m : Mmc} {st : Kst} (h : OnFrames m st) : Exhausted st.mmc ↔ st.mmc.nfree = 0 := by
  obtain ⟨live, -, t, k, bs, hm, hi, -⟩ := h.frames
  rw [show st.mmc = m.upd t k from hm, upd_nfree, hi.nfree, count, Finset.card_eq_zero, Finset.filter_eq_empty_iff]
  simp only [Finset.mem_range]
  rfl

/-- `alloc_frame` fails on an exhausted table only, and then changes nothing. -/
theorem OnFrames.allocFrame_spec {m : Mmc} {st : Kst} (L : Layout m) (h0 : 0 < m.metaBase) (h : OnFrames m st) :
    (allocFrame st.mmc = .ok (none, st.mmc) ∧ Exhausted st.mmc) ∨
      ∃ pg mp', allocFrame st.mmc = .ok (some pg, mp') ∧ ¬ Exhausted st.mmc := by
  obtain ⟨live, -, t, k, bs, hm, hi, -⟩ := h.frames
  rw [show st.mmc = m.upd t k from hm]
  rcases Mm.allocFrame_spec L hi with hnone | ⟨n, t', k', bs', hn, hsome, -, hwhite, -⟩
  · exact .inl ⟨hnone, fun i hin hw => allocFrame_ne_none L h0 hi hin hw hnone⟩
  · exact .inr ⟨_, _, hsome, fun hno => hno n hn hwhite⟩

theorem kmalloc_total {σ : Type} {alloc : σ → Except String (Option Nat × σ)} {s : σ}
    (hal : ∃ o s', alloc s = .ok (o, s')) (size : Nat) (h : HeapDesc) :
    ∃ r h' s', kmalloc alloc size h s = .ok (r, h', s') := by
  obtain ⟨o, s', ho⟩ := hal
  unfold kmalloc
  split
  · exact ⟨_, _, _, rfl⟩
  · exact ⟨_, _, _, rfl⟩
  · split
    · exact ⟨_, _, _, rfl⟩
    · rw [ho]
      cases o with
      | none => exact ⟨_, _, _, rfl⟩
      | some metap =>
        dsimp only
        split
        · exact ⟨_, _, _, rfl⟩
        · exact ⟨_, _, _, rfl⟩

/-- A new metadata page has nodes. -/
theorem addPage_avail_ne_nil {h : HeapDesc} {pg : Nat} (hfit : pg + pageSize < 2 ^ 32) : (addPage h pg).avail ≠ [] := by
  have hmem : pg ∈ nodesFrom pg (pg + hblkSize * 0) := (mem_nodesFrom hfit).2 ⟨0, by decide, by decide, rfl⟩
  exact List.ne_nil_of_mem (List.mem_append_right h.avail hmem)

/-- The gap a call takes its block from. -/
structure BestGap (h : HeapDesc) (size : Nat) (g : Block) : Prop where
  gap : Gap h g
  fits : size ≤ g.len
  least : ∀ g', Gap h g' → size ≤ g'.len → g.len ≤ g'.len

/-- A call of `__kmalloc` on the frames of `mm.c` returns. -/
theorem OnFrames.kmalloc_returns {m : Mmc} {st : Kst} (L : Layout m) (h0 : 0 < m.metaBase) (hf : OnFrames m st)
    (size : Nat) : ∃ r h' mp', Heap.kmalloc allocFrame size st.heap st.mmc = .ok (r, h', mp') := by
  refine kmalloc_total ?_ size st.heap
  rcases hf.allocFrame_spec L h0 with ⟨hnone, -⟩ | ⟨pg, mp', hsome, -⟩
  · exact ⟨_, _, hnone⟩
  · exact ⟨_, _, hsome⟩

/-- No free block has `size` bytes, or the one to cut needs a node and there is no room for one. -/
def Refuses (size : Nat) (h : HeapDesc) (mp : Mmc) : Prop :=
  (¬ ∃ n ∈ h.free, size ≤ (h.blk n).size) ∨ ((¬ ∃ n ∈ h.free, (h.blk n).size = size) ∧ h.avail = [] ∧ Exhausted mp)

theorem not_refuses {size found : Nat} {h : HeapDesc} {mp : Mmc} (hmem : found ∈ h.free)
    (hfits : size ≤ (h.blk found).size) (hnode : (h.blk found).size = size ∨ h.avail ≠ [] ∨ ¬ Exhausted mp) :
    ¬ Refuses size h mp := by
  rintro (hno | ⟨hno, hnil, hex⟩)
  · exact hno ⟨found, hmem, hfits⟩
  · rcases hnode with heq | hne | hnot
    · exact hno ⟨found, hmem, heq⟩
    · exact hne hnil
    · exact hnot hex

/-- The free block a call takes its block from. -/
structure BestFree (h : HeapDesc) (size n : Nat) : Prop where
  free : n ∈ h.free
  fits : size ≤ (h.blk n).size
  least : ∀ k ∈ h.free, size ≤ (h.blk k).size → (h.blk n).size ≤ (h.blk k).size

theorem bestFree_of_scan {h : HeapDesc} {found size : Nat}
    (hscan : scanFree h.blk size h.free (2 ^ 32 - 1) none = .best (some found)) : BestFree h size found := by
  obtain ⟨hmem, hlt⟩ := scanFree_found hscan
  obtain ⟨-, hleast⟩ := scanFree_least (by simp) hscan
  refine ⟨hmem, hlt.le, fun k hk hfit => ?_⟩
  obtain ⟨hne, hle⟩ := hleast k hk
  exact hle (by omega)

/-- A call returns NULL and changes nothing where it has to, and otherwise the base of a smallest free block. -/
theorem OnFrames.kmalloc_choice {m : Mmc} {st : Kst} (L : Layout m) (h0 : 0 < m.metaBase) (hbase : 0 < m.frameBase)
    (hf : OnFrames m st) (hl : Loose st.heap) {size r : Nat} {h' : HeapDesc} {mp' : Mmc}
    (hk : Heap.kmalloc allocFrame size st.heap st.mmc = .ok (r, h', mp')) :
    (r = 0 ∧ h' = st.heap ∧ mp' = st.mmc ∧ Refuses size st.heap st.mmc) ∨
      (r ≠ 0 ∧ ¬ Refuses size st.heap st.mmc ∧ ∃ n, BestFree st.heap size n ∧ r = (st.heap.blk n).base) := by
  have halloc := hf.allocFrame_spec L h0
  have hnull : ∀ n ∈ st.heap.free, (st.heap.blk n).base ≠ 0 := by
    intro n hn
    have hin := hl.inside n (List.mem_append_left _ hn)
    have hstart := hf.start_pos L hbase
    omega
  cases kmalloc_outcome hk with
  | @whole n hscan =>
    obtain ⟨hmem, heq⟩ := scanFree_exact hscan
    have hbest : BestFree st.heap size n := ⟨hmem, heq.ge, fun k _ hfits => heq ▸ hfits⟩
    exact .inr ⟨hnull n hmem, not_refuses hmem heq.ge (.inl heq), n, hbest, rfl⟩
  | full hscan =>
    refine .inl ⟨rfl, rfl, rfl, .inl ?_⟩
    rintro ⟨n, hn, hfits⟩
    obtain ⟨hne, hlarge⟩ := scanFree_none hscan n hn
    have hin := hl.inside n (List.mem_append_left _ hn)
    have hend := hl.fits
    have hstart := hf.start_pos L hbase
    unfold endOf at hin
    omega
  | @cut found n rest hscan havail =>
    have hbest := bestFree_of_scan hscan
    have hnode : st.heap.avail ≠ [] := by simp [havail]
    exact .inr ⟨hnull found hbest.free, not_refuses hbest.free hbest.fits (.inr (.inl hnode)), found, hbest, rfl⟩
  | @noFrame found mp' hscan havail hal =>
    obtain ⟨-, hleast⟩ := scanFree_least (by simp) hscan
    rcases halloc with ⟨hnone, hex⟩ | ⟨pg, mp'', hsome, -⟩
    · rw [hnone] at hal
      cases hal
      refine .inl ⟨rfl, rfl, rfl, .inr ⟨?_, havail, hex⟩⟩
      rintro ⟨k, hk, heq⟩
      exact (hleast k hk).1 heq
    · rw [hsome] at hal
      cases hal
  | @refill found pg n rest mp' hscan havail hal _ =>
    have hbest := bestFree_of_scan hscan
    have hused : found ∈ st.heap.free ++ st.heap.res := List.mem_append_left _ hbest.free
    have hblk := (addPage_loose hl (hl.pages_ne_nil hused) (hf.fresh L hbase hal)).2 found hused
    have hwhite : ¬ Exhausted st.mmc := by
      rcases halloc with ⟨hnone, -⟩ | ⟨-, -, -, hnot⟩
      · rw [hnone] at hal
        cases hal
      · exact hnot
    rw [hblk]
    exact .inr ⟨hnull found hbest.free, not_refuses hbest.free hbest.fits (.inr (.inr hwhite)), found, hbest, rfl⟩
  | @noNode found pg mp' hscan havail hal hnil =>
    exact absurd hnil (addPage_avail_ne_nil (hf.fresh L hbase hal).fits)

theorem BestFree.gap {h : HeapDesc} {size n : Nat} (hb : BestFree h size n) (hi : HeapInv h) :
    BestGap h size (blockOf h.blk n) := by
  refine ⟨(gap_iff hi _).2 ⟨n, hb.free, rfl⟩, hb.fits, ?_⟩
  intro g' hg' hfit
  obtain ⟨k, hk, rfl⟩ := (gap_iff hi g').1 hg'
  exact hb.least k hk hfit

/-- **Best fit.** In every state that positive sizes reach, and for every positive size: `__kmalloc` returns
NULL iff no gap has `size` bytes, or none has exactly `size` bytes, `avail` is empty and no frame is white; on
NULL the heap and the `mmc_t` are unchanged; otherwise the new reserved block is the first `size` bytes of a
smallest gap that has them. -/
theorem kmalloc_best_fit {m : Mmc} {st₀ st : Kst} (hb : Boot m st₀) (hrun : Reaches kStep Positive st₀ st)
    (size : Nat) (hpos : 0 < size) (_ : size < 2 ^ 32) :
    ∃ r h' mp', kmalloc allocFrame size st.heap st.mmc = .ok (r, h', mp') ∧
      (r = 0 ↔ (¬ ∃ g, Gap st.heap g ∧ size ≤ g.len) ∨
        ((¬ ∃ g, Gap st.heap g ∧ g.len = size) ∧ st.heap.avail = [] ∧ Exhausted st.mmc)) ∧
      (r = 0 → h' = st.heap ∧ mp' = st.mmc) ∧
      (r ≠ 0 → ∃ g n, BestGap st.heap size g ∧ r = g.start ∧ Reserved st.heap h' r size n) := by
  obtain ⟨L, hbase⟩ := hb.layout
  obtain ⟨hi, hf⟩ := reaches_heapInv hb hrun
  obtain ⟨r, h', mp', hk⟩ := hf.kmalloc_returns L hb.metaBase_pos size
  obtain ⟨-, -, -, hcase⟩ := kmalloc_spec hi hpos (fun pg mp' hal => hf.fresh L hbase hal) hk
  refine ⟨r, h', mp', hk, ?_⟩
  rw [exists_gap_iff hi (size ≤ ·), exists_gap_iff hi (· = size)]
  rcases hf.kmalloc_choice L hb.metaBase_pos hbase hi.loose hk with ⟨rfl, rfl, rfl, href⟩ | ⟨hne, hnot, n, hbest, rfl⟩
  · exact ⟨⟨fun _ => href, fun _ => rfl⟩, fun _ => ⟨rfl, rfl⟩, fun hr => absurd rfl hr⟩
  · refine ⟨⟨fun h => absurd h hne, fun h => absurd h hnot⟩, fun h => absurd h hne, fun _ => ?_⟩
    rcases hcase with href | ⟨k, hres⟩
    · exact absurd href.null hne
    · exact ⟨_, k, hbest.gap hi, rfl, hres⟩

/-- The first of two blocks is freed again: a small request goes into the hole it leaves, not to the end. -/
theorem kmalloc_best_fit_hole :
    ∃ st₀ st, Boot (freshMmc 0x100000 0x5000 1 4) st₀ ∧ Reaches kStep Positive st₀ st ∧
      ∃ h' mp' g n, kmalloc allocFrame 0x80 st.heap st.mmc = .ok (0x101000, h', mp') ∧ BestGap st.heap 0x80 g ∧
        0x101000 = g.start ∧ Reserved st.heap h' 0x101000 0x80 n := by
  have h0 : mmPageTable 0x100000 0x5000 = .ok (some (freshMmc 0x100000 0x5000 1 4)) := rfl
  obtain ⟨st₀, st, hb, hrun, hst⟩ := exists_boot_reaches (.of_aligned (by decide) (by decide)) h0 Positive 0x1800
    (by decide) [.kmalloc 0x100, .other (.alloc 1), .kmalloc 0x200, .kfree 0x101000]
    (fun st => (kmalloc allocFrame 0x80 st.heap st.mmc).toOption.any fun r => r.1 == 0x101000) (by decide +kernel)
  obtain ⟨r, h', mp', hk, -, -, hgap⟩ := kmalloc_best_fit hb hrun 0x80 (by decide) (by decide)
  obtain rfl : r = 0x101000 := by
    rw [hk] at hst
    simpa [Except.toOption] using hst
  obtain ⟨g, n, hbest, hr, hres⟩ := hgap (by decide)
  exact ⟨st₀, st, hb, hrun, h', mp', g, n, hk, hbest, hr, hres⟩

end RedMagic.Heap
