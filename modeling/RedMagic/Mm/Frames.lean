import RedMagic.Lib.Blocks
import RedMagic.Mm.Colour

/-!
# Who owns which frame

`alloc_frames` stores no block boundaries: the entries of one call share a colour, and `free_frames`
recovers the call's frames from where the colour changes. `TableInv` says that the colours of the
table are `Painted` with the live calls as blocks; `allocFrames_spec` and `freeFrames_spec` say what
one call does to it, and `frame_ownership` is what holds after any history of calls.
-/

namespace RedMagic.Mm

open Blocks Lts

/-! ## Layout: what `MM_PAGE_TABLE` sets up -/

/-- The fields of an `mmc_t` that no later call changes, after `MM_PAGE_TABLE`. -/
structure Layout (m : Mmc) : Prop where
  metaLen : m.metaLen = metaEntSize * m.nframes
  metaFits : m.metaBase + metaEntSize * m.nframes < 2 ^ 32
  frameAligned : m.frameBase % pageSize = 0
  frameFits : m.frameBase + pageSize * m.nframes < 2 ^ 32
  tableLen : m.nframes ≤ m.table.length

/-- The page address entry `i` starts with. -/
def frameAddr (m : Mmc) (i : Nat) : Nat := m.frameBase + pageSize * i

/-- The `mmc_t` with another table and free count: all that the two calls change. -/
def Mmc.upd (m : Mmc) (t : List Nat) (k : Nat) : Mmc := { m with table := t, nfree := k }

@[simp] theorem upd_word (m : Mmc) (t : List Nat) (k i : Nat) : (m.upd t k).word i = t.getD i 0 := rfl
@[simp] theorem upd_table (m : Mmc) (t : List Nat) (k : Nat) : (m.upd t k).table = t := rfl
@[simp] theorem upd_nfree (m : Mmc) (t : List Nat) (k : Nat) : (m.upd t k).nfree = k := rfl
@[simp] theorem upd_nframes (m : Mmc) (t : List Nat) (k : Nat) : (m.upd t k).nframes = m.nframes := rfl
@[simp] theorem upd_notNull (m : Mmc) (t : List Nat) (k i : Nat) :
    (m.upd t k).notNull i = m.notNull i := rfl

theorem Layout.upd_entries {m : Mmc} (L : Layout m) (t : List Nat) (k : Nat) :
    (m.upd t k).entries = t.take m.nframes := by
  show t.take ((u32 (m.metaBase + m.metaLen) - m.metaBase) / metaEntSize) = _
  have hfit := L.metaFits
  rw [L.metaLen, u32_of_lt hfit]
  congr 1
  unfold metaEntSize
  omega

/-! ## The invariant of the table -/

/-- The table `t` with free count `k`, when the live calls own the blocks `bs` of entries. -/
structure TableInv (m : Mmc) (t : List Nat) (k : Nat) (bs : List Block) : Prop where
  len : m.nframes ≤ t.length
  entry : ∀ i < m.nframes, t.getD i 0 = frameAddr m i + pgColor (t.getD i 0)
  color : ∀ i < m.nframes, pgColor (t.getD i 0) < 4
  painted : Painted m.nframes pgWhite (fun i => pgColor (t.getD i 0)) bs
  nfree : k = count m.nframes pgWhite fun i => pgColor (t.getD i 0)
  notNull : ∀ b ∈ bs, m.notNull b.start = true

theorem Layout.frameAddr_mod {m : Mmc} (L : Layout m) (i : Nat) : frameAddr m i % pageSize = 0 := by
  have := L.frameAligned
  unfold frameAddr
  unfold pageSize at *
  omega

theorem Layout.frameAddr_lt {m : Mmc} (L : Layout m) {i : Nat} (hi : i < m.nframes) :
    frameAddr m i + pageSize < 2 ^ 32 := by
  have := L.frameFits
  unfold frameAddr
  unfold pageSize at *
  omega

theorem TableInv.page {m : Mmc} {t : List Nat} {k : Nat} {bs : List Block} (L : Layout m)
    (h : TableInv m t k bs) {i : Nat} (hi : i < m.nframes) :
    pageMask &&& t.getD i 0 = frameAddr m i := by
  have hc := h.color i hi
  have hlt := L.frameAddr_lt hi
  rw [h.entry i hi]
  exact page_add (L.frameAddr_mod i) (by unfold pageSize; omega) (by unfold pageSize at hlt; omega)

/-- A row of entries that is the old one except that the colours are those of `c`. -/
theorem TableInv.recolor {m : Mmc} {t' : List Nat} {c : Nat → Nat} {bs : List Block} (L : Layout m)
    (hlen : m.nframes ≤ t'.length) (hget : ∀ i < m.nframes, t'.getD i 0 = frameAddr m i + c i)
    (hc : ∀ i < m.nframes, c i < 4) (hp : Painted m.nframes pgWhite c bs)
    (hnn : ∀ b ∈ bs, m.notNull b.start = true) :
    TableInv m t' (count m.nframes pgWhite c) bs := by
  have hcol : ∀ i < m.nframes, pgColor (t'.getD i 0) = c i := fun i hi => by
    rw [hget i hi]
    exact pgColor_add (L.frameAddr_mod i) (by have := hc i hi; omega)
  refine ⟨hlen, fun i hi => ?_, fun i hi => ?_, hp.congr hcol, (count_congr hcol).symm, hnn⟩
  · rw [hcol i hi, hget i hi]
  · rw [hcol i hi]
    exact hc i hi

/-! ## One call -/

/-- `alloc_frames` once a run is found and the pointer to its first entry is not NULL: the run, which is white, is painted in a
fresh colour, and no other word of the metadata pages changes. -/
theorem allocFrames_found {m : Mmc} (L : Layout m) {t : List Nat} {k : Nat} {bs : List Block} (h : TableInv m t k bs)
    {npages tp : Nat} (hf : findSeqPages (m.upd t k) npages = some tp) (hnn : m.notNull tp = true) :
    ∃ t', allocFrames (m.upd t k) npages = .ok (some (frameAddr m tp), m.upd t' (k - npages)) ∧
      TableInv m t' (k - npages) (⟨tp, npages⟩ :: bs) ∧ npages ≤ k ∧ t'.length = t.length ∧
      ∀ j, if j ∈ (⟨tp, npages⟩ : Block) then pgColor (t.getD j 0) = pgWhite else t'.getD j 0 = t.getD j 0 := by
  have hle : npages ≤ k := by
    unfold findSeqPages at hf
    split at hf
    · assumption
    · cases hf
  have hloop := hf
  rw [findSeqPages, upd_nfree, if_pos hle, L.upd_entries] at hloop
  obtain ⟨hpos, hbound, hwhite, hleft⟩ := findSeqLoop_sound npages (t.take m.nframes)
    _ 0 0 0 rfl (by omega) (by omega) (fun j h1 h2 => by omega) (fun h => by omega) hloop
  have htake : ∀ j < m.nframes, (t.take m.nframes).getD j 0 = t.getD j 0 := fun j hj => by
    simp [List.getD_eq_getElem?_getD, hj]
  have hlen := h.len
  rw [List.length_take, Nat.min_eq_left hlen] at hbound
  have hw : ∀ j, tp ≤ j → j < tp + npages → pgColor (t.getD j 0) = pgWhite := fun j h1 h2 => by
    rw [← htake j (by omega)]; exact hwhite j h1 h2
  have hl : 0 < tp → pgColor (t.getD (tp - 1) 0) ≠ pgWhite := fun h0 => by
    rw [← htake (tp - 1) (by omega)]; exact hleft h0
  obtain ⟨marker, hm, hk, hk3, hml, hmr⟩ := chooseMarker_spec (m.upd t k) tp npages hbound h.color hl
  obtain ⟨t', hp, hl', hget⟩ := paint_spec marker npages tp t (by omega) hw
  let b : Block := ⟨tp, npages⟩
  have hcell : ∀ i < m.nframes,
      t'.getD i 0 = frameAddr m i + if i ∈ b then marker else pgColor (t.getD i 0) := by
    intro i hi
    rw [hget i]
    have he := h.entry i hi
    by_cases hib : i ∈ b
    · rw [if_pos hib, if_pos (mem_def.1 hib)]
      rw [hw i hib.1 hib.2, show pgWhite = 0 from rfl, Nat.add_zero] at he
      rw [he, or_color (L.frameAddr_mod i) (by unfold pageSize; omega)]
    · rw [if_neg hib, if_neg (fun hc => hib (mem_def.2 hc))]
      exact he
  have hpaint : Painted m.nframes pgWhite
      (fun i => if i ∈ b then marker else pgColor (t.getD i 0)) (b :: bs) :=
    h.painted.alloc hpos hbound (fun i hi => hw i hi.1 hi.2) hk hml hmr
  have hinv : TableInv m t' _ (b :: bs) := TableInv.recolor L (by omega) hcell
    (fun i hi => by
      split
      · omega
      · exact h.color i hi) hpaint (by
      rintro b' (_ | ⟨_, hb'⟩)
      · exact hnn
      · exact h.notNull b' hb')
  have hcount : count m.nframes pgWhite (fun i => if i ∈ b then marker else pgColor (t.getD i 0))
      = k - npages := by
    have := count_paint (n := m.nframes) (w := pgWhite) (c := fun i => pgColor (t.getD i 0))
      (b := b) (k := marker) hbound (fun i hi => hw i hi.1 hi.2) hk
    rw [← h.nfree] at this
    have hbl : b.len = npages := rfl
    omega
  rw [hcount] at hinv
  refine ⟨t', ?_, hinv, hle, hl', fun j => ?_⟩
  · simp only [allocFrames, hf, upd_notNull, hnn, ite_true, hm, upd_table, hp]
    rw [hinv.page L (by omega)]
    rfl
  · split
    · rename_i hj
      exact hw j hj.1 hj.2
    · rename_i hj
      rw [hget j, if_neg (fun hc => hj (mem_def.2 hc))]

/-- **`alloc_frames`.** No `ASSERT` fails. The call returns NULL and changes nothing, or it returns
the first frame of a block of `npages` white entries that it paints in a fresh colour. -/
theorem allocFrames_spec {m : Mmc} (L : Layout m) {t : List Nat} {k : Nat} {bs : List Block}
    (h : TableInv m t k bs) (npages : Nat) :
    allocFrames (m.upd t k) npages = .ok (none, m.upd t k) ∨
    ∃ b t' k', b.len = npages ∧ 0 < npages ∧
      allocFrames (m.upd t k) npages = .ok (some (frameAddr m b.start), m.upd t' k') ∧
      TableInv m t' k' (b :: bs) := by
  cases hf : findSeqPages (m.upd t k) npages with
  | none => exact .inl (by simp only [allocFrames, hf])
  | some tp =>
    by_cases hnn : m.notNull tp = true
    · obtain ⟨t', hal, hinv, -⟩ := allocFrames_found L h hf hnn
      exact .inr ⟨⟨tp, npages⟩, t', k - npages, rfl, hinv.painted.pos _ List.mem_cons_self, hal, hinv⟩
    · left
      simp only [allocFrames, hf, upd_notNull, hnn]
      rfl

/-- A row of white entries is found. -/
theorem findSeqPages_ne_none {m : Mmc} (L : Layout m) {t : List Nat} {k : Nat} {bs : List Block}
    (h : TableInv m t k bs) (npages i : Nat) (hpos : 0 < npages) (hi : i + npages ≤ m.nframes)
    (hw : ∀ j, i ≤ j → j < i + npages → pgColor (t.getD j 0) = pgWhite) :
    findSeqPages (m.upd t k) npages ≠ none := by
  have hlen := h.len
  have hk : npages ≤ k := by
    have hcard : npages = ((Finset.range m.nframes).filter fun j => j ∈ (⟨i, npages⟩ : Block)).card :=
      (card_block (b := ⟨i, npages⟩) hi).symm
    rw [hcard, h.nfree]
    refine Finset.card_le_card ?_
    intro j hj
    simp only [Finset.mem_filter] at hj ⊢
    exact ⟨hj.1, hw j hj.2.1 hj.2.2⟩
  rw [findSeqPages, upd_nfree, if_pos hk, L.upd_entries]
  refine findSeqLoop_complete npages _ 0 0 0 hpos (.inr ⟨i, ?_, ?_⟩)
  · simp only [List.length_drop, List.length_take]
    omega
  · intro e he
    obtain ⟨j, hj, rfl⟩ := List.mem_iff_getElem.1 he
    simp only [List.length_take, List.length_drop] at hj
    have := hw (i + j) (by omega) (by omega)
    rw [List.getD_eq_getElem?_getD, List.getElem?_eq_getElem (by omega), Option.getD_some] at this
    simpa using this

/-- The metadata pages do not begin at address 0: no entry pointer is NULL. -/
theorem Layout.notNull {m : Mmc} (L : Layout m) (h0 : 0 < m.metaBase) {i : Nat} (hi : i < m.nframes) :
    m.notNull i = true := by
  have hfit := L.metaFits
  simp only [Mmc.notNull, bne_iff_ne, ne_eq]
  rw [u32_of_lt (by unfold metaEntSize at *; omega)]
  unfold metaEntSize
  omega

/-- **`alloc_frame`.** The call returns NULL and changes nothing, or it returns a frame that was white and
is coloured now; no coloured frame becomes white. -/
theorem allocFrame_spec {m : Mmc} (L : Layout m) {t : List Nat} {k : Nat} {bs : List Block}
    (h : TableInv m t k bs) :
    allocFrame (m.upd t k) = .ok (none, m.upd t k) ∨
    ∃ n t' k' bs', n < m.nframes ∧ allocFrame (m.upd t k) = .ok (some (frameAddr m n), m.upd t' k') ∧
      TableInv m t' k' bs' ∧ pgColor (t.getD n 0) = pgWhite ∧ pgColor (t'.getD n 0) ≠ pgWhite ∧
      ∀ j < m.nframes, pgColor (t.getD j 0) ≠ pgWhite → pgColor (t'.getD j 0) ≠ pgWhite := by
  rcases allocFrames_spec L h 1 with he | ⟨b, t', k', hlen, -, he, hi⟩
  · exact .inl he
  · right
    have hb : b ∈ b :: bs := List.mem_cons_self
    have hpos := hi.painted.pos b hb
    have hn : b.start < m.nframes := by
      have := hi.painted.bound b hb
      omega
    refine ⟨b.start, t', k', b :: bs, hn, he, hi, ?_, hi.painted.colored b hb, ?_⟩
    · by_contra hcol
      obtain ⟨b', hb', hin⟩ := (h.painted.colored_iff hn).1 hcol
      have hdisj := (List.pairwise_cons.1 hi.painted.disj).1 b' hb'
      exact hdisj b.start (start_mem hpos) hin
    · intro j hj hcol
      obtain ⟨b', hb', hin⟩ := (h.painted.colored_iff hj).1 hcol
      exact (hi.painted.colored_iff hj).2 ⟨b', List.mem_cons_of_mem _ hb', hin⟩

/-- With a white frame left `alloc_frame` does not return NULL. -/
theorem allocFrame_ne_none {m : Mmc} (L : Layout m) (h0 : 0 < m.metaBase) {t : List Nat} {k : Nat}
    {bs : List Block} (h : TableInv m t k bs) {i : Nat} (hi : i < m.nframes)
    (hw : pgColor (t.getD i 0) = pgWhite) : allocFrame (m.upd t k) ≠ .ok (none, m.upd t k) := by
  have hfound := findSeqPages_ne_none L h 1 i (by decide) (by omega)
    (fun j h1 h2 => by rw [show j = i by omega]; exact hw)
  intro he
  rw [allocFrame, allocFrames] at he
  split at he
  · rename_i hnone
    exact hfound hnone
  · rename_i tp hsome
    have htp : tp < m.nframes := by
      unfold findSeqPages at hsome
      split at hsome
      · rw [L.upd_entries] at hsome
        obtain ⟨-, hbound, -⟩ := findSeqLoop_sound 1 (t.take m.nframes)
          _ 0 0 0 rfl (by omega) (by omega) (fun j h1 h2 => by omega) (fun h => by omega) hsome
        rw [List.length_take] at hbound
        omega
      · cases hsome
    rw [upd_notNull, L.notNull h0 htp, if_pos rfl] at he
    split at he
    · cases he
    · split at he
      · cases he
      · simp at he

/-- The page index of an address inside frame `i`. -/
theorem findPageIndex_eq {m : Mmc} (L : Layout m) {t : List Nat} {k : Nat} {bs : List Block}
    (h : TableInv m t k bs) {p i : Nat} (hi : i < m.nframes) (h1 : frameAddr m i ≤ p)
    (h2 : p < frameAddr m i + pageSize) : findPageIndex (m.upd t k) p = some i := by
  have hlt := L.frameAddr_lt hi
  have hpage : pageMask &&& p = frameAddr m i := by
    have hmod := L.frameAddr_mod i
    rw [land_pageMask (by omega)]
    unfold pageSize at *
    omega
  have hlen := h.len
  have hget : ∀ j (hj : j < t.length), t[j] = t.getD j 0 := fun j hj => by
    simp [List.getD_eq_getElem?_getD, hj]
  rw [findPageIndex, L.upd_entries, List.findIdx?_eq_some_iff_getElem]
  refine ⟨by simp; omega, ?_, fun j hj => ?_⟩
  · rw [List.getElem_take, hget, h.page L hi, hpage]
    simp
  · rw [List.getElem_take, hget, h.page L (by omega), hpage]
    have : frameAddr m j ≠ frameAddr m i := by
      unfold frameAddr
      unfold pageSize
      omega
    simp [this]

/-- **`free_frames`** on an address inside a frame of a live block: exactly the entries of that block
become white, and `nfree` grows by its length. -/
theorem freeFrames_spec {m : Mmc} (L : Layout m) {t : List Nat} {k : Nat} {bs : List Block}
    (h : TableInv m t k bs) {b : Block} (hb : b ∈ bs) {p i : Nat} (hib : i ∈ b)
    (h1 : frameAddr m i ≤ p) (h2 : p < frameAddr m i + pageSize) :
    ∃ t', freeFrames (m.upd t k) p = (0, m.upd t' (k + b.len)) ∧
      TableInv m t' (k + b.len) (bs.erase b) ∧ t'.length = t.length ∧
      ∀ j, t'.getD j 0 = if j ∈ b then frameAddr m j else t.getD j 0 := by
  have hbn := h.painted.bound b hb
  have hpos := h.painted.pos b hb
  have hi : i < m.nframes := by have := hib.2; omega
  have hlen := h.len
  have hmono : ∀ j, j ∈ b → pgColor (t.getD j 0) = pgColor (t.getD i 0) := fun j hj =>
    (h.painted.mono b hb j hj).trans (h.painted.mono b hb i hib).symm
  have hcol : pgColor (t.getD i 0) ≠ pgWhite := (h.painted.colored_iff hi).2 ⟨b, hb, hib⟩
  have hnn : m.notNull i = true := by
    have h0 := h.notNull b hb
    have hfit := L.metaFits
    simp only [Mmc.notNull, bne_iff_ne, ne_eq] at h0 ⊢
    rw [u32_of_lt (by unfold metaEntSize at *; omega)] at h0
    have := hib.1
    rw [u32_of_lt (by unfold metaEntSize at *; omega)]
    unfold metaEntSize at *
    omega
  have hleft : leftEdge t (pgColor (t.getD i 0)) i = b.start := by
    refine leftEdge_eq t _ b.start i hib.1 (fun j h3 h4 => hmono j ⟨h3, by have := hib.2; omega⟩) ?_
    intro h0
    rw [h.painted.mono b hb i hib]
    exact h.painted.left_ne hb h0
  have hright : rightEdge t (pgColor (t.getD i 0)) (m.nframes - i) i i = b.start + b.len - 1 := by
    rw [rightEdge_eq t _ (b.start + b.len) (m.nframes - i) i i (by have := hib.2; omega) (by omega)
      (fun j h3 h4 => hmono j ⟨by have := hib.1; omega, h4⟩) ?_, if_pos hib.2]
    intro h0
    rw [h.painted.mono b hb i hib]
    exact h.painted.right_ne hb (by omega)
  have hcount : b.start + b.len - 1 - b.start + 1 = b.len := by omega
  obtain ⟨hwl, hwget⟩ := whiten_spec b.len b.start t (by omega)
  have hcell : ∀ j, (whiten b.len b.start t).getD j 0 = if j ∈ b then frameAddr m j else t.getD j 0 := by
    intro j
    rw [hwget]
    by_cases hjb : j ∈ b
    · have hend := hjb.2
      rw [if_pos (mem_def.1 hjb), if_pos hjb, pgColorReset, h.page L (by omega)]
    · rw [if_neg (fun hc => hjb (mem_def.2 hc)), if_neg hjb]
  have hfree : count m.nframes pgWhite (fun j => if j ∈ b then pgWhite else pgColor (t.getD j 0))
      = k + b.len := by
    rw [count_free hbn (fun j hj => by rw [hmono j hj]; exact hcol), ← h.nfree]
  have hinv : TableInv m (whiten b.len b.start t) (k + b.len) (bs.erase b) := by
    rw [← hfree]
    refine TableInv.recolor L (by omega) (fun j hj => ?_) (fun j hj => ?_) (h.painted.free hb)
      (fun b' hb' => h.notNull b' (List.mem_of_mem_erase hb'))
    · rw [hcell j]
      by_cases hjb : j ∈ b
      · simp [hjb, pgWhite]
      · simp only [hjb, ite_false]
        exact h.entry j hj
    · split
      · decide
      · exact h.color j hj
  refine ⟨whiten b.len b.start t, ?_, hinv, hwl, hcell⟩
  have hk : u32 (k + b.len) = k + b.len := by
    refine u32_of_lt ?_
    have hle : k + b.len ≤ m.nframes := by
      rw [hinv.nfree]
      exact count_le _ _ _
    have := L.frameFits
    unfold pageSize at this
    omega
  unfold freeFrames
  simp only [findPageIndex_eq L h hi h1 h2, upd_word, upd_notNull, hnn, upd_table, upd_nframes,
    hleft, hright, hcount, upd_nfree, hk]
  simp only [Bool.not_true, Bool.false_or, beq_iff_eq, hcol, ite_false]
  rfl

/-! ## The fresh table -/

/-- The `mmc_t` over a region of `mpg` metadata pages and `npg` frames. -/
def freshMmc (base length mpg npg : Nat) : Mmc :=
  { base := base, length := length, metaBase := base, mframes := mpg, metaLen := npg * metaEntSize,
    frameBase := base + mpg * pageSize, nframes := npg, nfree := npg,
    table := initTable base mpg (npg * metaEntSize) (base + mpg * pageSize) }

/-- On a page-aligned region that does not wrap, no intermediate value of `MM_PAGE_TABLE` wraps and its
`ASSERT` holds: of the whole pages of the region, at least one in 1025 is for metadata. -/
theorem mmPageTable_aligned {base length : Nat} (ha : base % pageSize = 0) (hw : base + length < 2 ^ 32) :
    mmPageTable base length =
      let pages := (base + length) / pageSize - base / pageSize
      .ok (if pages < 2 then none
        else some (freshMmc base length (pages - pages * 1024 / 1025) (pages * 1024 / 1025))) := by
  have hbase : base < 2 ^ 32 := by omega
  have hend : u32 (base + length) &&& pageMask = (base + length) / pageSize * pageSize := by
    rw [u32_of_lt hw, Nat.and_comm, land_pageMask hw]
  have hpages : u32 ((base + length) / pageSize * pageSize + 2 ^ 32 - base) / pageSize
      = (base + length) / pageSize - base / pageSize := by
    unfold u32 pageSize at *
    omega
  -- the whole pages of the region: `base + PAGE_SIZE * pages` is its last page boundary
  have htop : base + pageSize * ((base + length) / pageSize - base / pageSize) < 2 ^ 32 := by
    unfold pageSize at *; omega
  simp only [mmPageTable, show metaEntNumPPg = 1024 by decide]
  rw [pageAlign_of_aligned ha hbase, hend, hpages]
  generalize (base + length) / pageSize - base / pageSize = pages at htop
  clear hpages hend
  have hp20 : pages * 1024 < 2 ^ 32 := by unfold pageSize at *; omega
  split
  · rfl
  · rw [u32_of_lt hp20]
    have hnpg : pages * 1024 / (1024 + 1) ≤ pages := by omega
    have hroom : pages * 1024 / (1024 + 1) ≤ (pages - pages * 1024 / (1024 + 1)) * 1024 := by omega
    generalize pages * 1024 / (1024 + 1) = npg at hnpg hroom
    obtain ⟨mpg, rfl⟩ : ∃ mpg, pages = mpg + npg := ⟨pages - npg, by omega⟩
    clear hp20
    have hmeta : npg * metaEntSize < 2 ^ 32 := by unfold metaEntSize pageSize at *; omega
    have hfb : base + mpg * pageSize < 2 ^ 32 := by unfold pageSize at *; omega
    have hmpg : mpg * 1024 < 2 ^ 32 := by unfold pageSize at *; omega
    rw [Nat.add_sub_cancel] at hroom ⊢
    rw [u32_of_lt hmeta, u32_of_lt hfb, u32_of_lt hmpg, if_neg (by omega)]
    rfl

theorem mmPageTable_eq {base length : Nat} {m : Mmc} (ha : base % pageSize = 0)
    (hw : base + length < 2 ^ 32) (h : mmPageTable base length = .ok (some m)) :
    ∃ mpg npg, npg ≤ 1024 * mpg ∧ base + pageSize * (mpg + npg) < 2 ^ 32 ∧
      m = freshMmc base length mpg npg := by
  rw [mmPageTable_aligned ha hw] at h
  have htop : base + pageSize * ((base + length) / pageSize - base / pageSize) < 2 ^ 32 := by
    unfold pageSize at *; omega
  dsimp only at h
  generalize (base + length) / pageSize - base / pageSize = pages at h htop
  split at h
  · cases h
  · cases h
    refine ⟨_, _, ?_, ?_, rfl⟩
    · omega
    · rw [Nat.sub_add_cancel (by omega)]
      exact htop

section Fresh
variable {base mpg npg : Nat}

theorem initTable_length (htop : base + pageSize * (mpg + npg) < 2 ^ 32) (metaLen frameBase : Nat) :
    (initTable base mpg metaLen frameBase).length = 1024 * mpg := by
  have hfit : base + mpg * pageSize < 2 ^ 32 := by unfold pageSize at *; omega
  rw [initTable, List.length_map, List.length_range, u32_of_lt hfit]
  unfold pageSize metaEntSize
  omega

theorem initTable_getD (hn : npg ≤ 1024 * mpg) (htop : base + pageSize * (mpg + npg) < 2 ^ 32)
    {i : Nat} (hi : i < npg) :
    (initTable base mpg (npg * metaEntSize) (base + mpg * pageSize)).getD i 0
      = base + mpg * pageSize + pageSize * i + pgWhite := by
  have hlen := initTable_length htop (npg * metaEntSize) (base + mpg * pageSize)
  rw [initTable, List.length_map, List.length_range] at hlen
  have hmeta : base + npg * metaEntSize < 2 ^ 32 := by unfold metaEntSize pageSize at *; omega
  have hcond : base + metaEntSize * i < base + npg * metaEntSize := by unfold metaEntSize; omega
  have haddr : base + mpg * pageSize + pageSize * i < 2 ^ 32 := by unfold pageSize at *; omega
  rw [initTable, List.getD_eq_getElem?_getD, List.getElem?_map, List.getElem?_range (by omega),
    Option.map_some, Option.getD_some, u32_of_lt hmeta, if_pos hcond, u32_of_lt haddr]
  simp [pgWhite]

theorem freshMmc_layout (ha : base % pageSize = 0) (hn : npg ≤ 1024 * mpg)
    (htop : base + pageSize * (mpg + npg) < 2 ^ 32) (length : Nat) :
    Layout (freshMmc base length mpg npg) where
  metaLen := Nat.mul_comm _ _
  metaFits := by
    show base + metaEntSize * npg < 2 ^ 32
    unfold metaEntSize pageSize at *; omega
  frameAligned := by
    show (base + mpg * pageSize) % pageSize = 0
    unfold pageSize at *; omega
  frameFits := by
    show base + mpg * pageSize + pageSize * npg < 2 ^ 32
    unfold pageSize at *; omega
  tableLen := by
    show npg ≤ (initTable base mpg (npg * metaEntSize) (base + mpg * pageSize)).length
    rw [initTable_length htop]
    exact hn

end Fresh

/-- On a page-aligned region that does not wrap, `MM_PAGE_TABLE` sets up a sound layout whose entries
are all white. -/
theorem mmPageTable_spec {base length : Nat} {m : Mmc} (ha : base % pageSize = 0)
    (hw : base + length < 2 ^ 32) (h : mmPageTable base length = .ok (some m)) :
    Layout m ∧ TableInv m m.table m.nfree [] := by
  obtain ⟨mpg, npg, hn, htop, rfl⟩ := mmPageTable_eq ha hw h
  have L := freshMmc_layout ha hn htop length
  refine ⟨L, ?_⟩
  have hinv : TableInv (freshMmc base length mpg npg) _ _ [] := TableInv.recolor L L.tableLen
    (fun i hi => initTable_getD hn htop hi) (fun _ _ => by decide) (Painted.nil fun _ _ => rfl)
    (by simp)
  have hall : count npg pgWhite (fun _ => pgWhite) = npg := by simp [count]
  have hk : (freshMmc base length mpg npg).nfree
      = count (freshMmc base length mpg npg).nframes pgWhite (fun _ => pgWhite) := hall.symm
  rw [hk]
  exact hinv

/-! ## Histories -/

/-- A live `alloc_frames` call: the pointer it returned and the number of frames. -/
structure Alloc where
  ptr : Nat
  npages : Nat
deriving DecidableEq, Repr

/-- The address `x` lies in a frame of the call. -/
def Alloc.owns (a : Alloc) (x : Nat) : Prop := a.ptr ≤ x ∧ x < a.ptr + pageSize * a.npages

instance (a : Alloc) (x : Nat) : Decidable (a.owns x) :=
  inferInstanceAs (Decidable (a.ptr ≤ x ∧ x < a.ptr + pageSize * a.npages))

/-- The `mmc_t` together with the calls that are live. -/
structure FrameSt where
  mmc : Mmc
  live : List Alloc

inductive FrameOp where
  | alloc (npages : Nat)
  | free (p : Nat)

/-- One call. A free is enabled for addresses inside a frame of a live call only. -/
def frameStep (s : FrameSt) : FrameOp → Option FrameSt
  | .alloc npages =>
    match allocFrames s.mmc npages with
    | .ok (some p, m) => some ⟨m, ⟨p, npages⟩ :: s.live⟩
    | .ok (none, m) => some ⟨m, s.live⟩
    | .error _ => none
  | .free p =>
    match s.live.find? fun a => decide (a.owns p) with
    | some a => some ⟨(freeFrames s.mmc p).2, s.live.erase a⟩
    | none => none

/-- The call that owns block `b` of the table. -/
def allocOf (m : Mmc) (b : Block) : Alloc := ⟨frameAddr m b.start, b.len⟩

theorem allocOf_injective (m : Mmc) : Function.Injective (allocOf m) := by
  rintro ⟨s, l⟩ ⟨s', l'⟩ h
  simp only [allocOf, frameAddr, pageSize, Alloc.mk.injEq] at h
  simp only [Block.mk.injEq]
  omega

/-- Entry `i` belongs to the call of block `b` iff it is in the block. -/
theorem owns_frame_iff (m : Mmc) (b : Block) (i : Nat) :
    (allocOf m b).owns (frameAddr m i) ↔ i ∈ b := by
  simp only [Alloc.owns, allocOf, frameAddr, mem_def, pageSize]
  omega

/-- An address owned by the call of block `b` lies in the frame of an entry of `b`. -/
theorem owns_frame {m : Mmc} {b : Block} {p : Nat} (h : (allocOf m b).owns p) :
    ∃ i, i ∈ b ∧ frameAddr m i ≤ p ∧ p < frameAddr m i + pageSize := by
  refine ⟨(p - m.frameBase) / pageSize, ?_⟩
  simp only [Alloc.owns, allocOf, frameAddr, mem_def, pageSize] at *
  omega

/-- The calls of different blocks own different addresses. -/
theorem TableInv.owns_disjoint {m : Mmc} {t : List Nat} {k : Nat} {bs : List Block} (h : TableInv m t k bs) :
    (bs.map (allocOf m)).Pairwise fun a a' => ∀ x, a.owns x → ¬ a'.owns x := by
  refine List.pairwise_map.2 (h.painted.disj.imp ?_)
  intro b b' hd x hx hx'
  obtain ⟨i, hib, h1, h2⟩ := owns_frame hx
  obtain ⟨i', hib', h1', h2'⟩ := owns_frame hx'
  have : i = i' := by
    unfold frameAddr at *
    unfold pageSize at *
    omega
  exact hd i hib (this ▸ hib')

/-- What every history keeps: the mmc is the fresh one up to table and count, and the live calls are
the blocks painted on the table. -/
def FrameInv (m : Mmc) (s : FrameSt) : Prop :=
  ∃ t k bs, s.mmc = m.upd t k ∧ TableInv m t k bs ∧ s.live = bs.map (allocOf m)

theorem FrameInv.disjoint {m mp : Mmc} {live : List Alloc} (h : FrameInv m ⟨mp, live⟩) :
    live.Pairwise fun a a' => ∀ x, a.owns x → ¬ a'.owns x := by
  obtain ⟨t, k, bs, -, hi, rfl⟩ := h
  exact hi.owns_disjoint

section
variable {m mp mp' : Mmc} {live : List Alloc} {a : Alloc} {npages p : Nat} (L : Layout m)
  (h : FrameInv m ⟨mp, live⟩)
include L h

/-- What is allocated are frames of the table. -/
theorem FrameInv.frame (ha : a ∈ live) :
    a.ptr % pageSize = 0 ∧ m.frameBase ≤ a.ptr ∧ 0 < a.npages ∧ a.ptr + pageSize * a.npages < 2 ^ 32 := by
  obtain ⟨t, k, bs, -, hi, rfl⟩ := h
  obtain ⟨b, hb, rfl⟩ := List.mem_map.1 ha
  have hbound := hi.painted.bound b hb
  have hfit := L.frameFits
  refine ⟨L.frameAddr_mod b.start, ?_, hi.painted.pos b hb, ?_⟩
  · simp only [allocOf, frameAddr]
    omega
  · simp only [allocOf, frameAddr]
    unfold pageSize at *
    omega

theorem FrameInv.alloc (hal : allocFrames mp npages = .ok (some p, mp')) : FrameInv m ⟨mp', ⟨p, npages⟩ :: live⟩ := by
  obtain ⟨t, k, bs, rfl, hi, rfl⟩ := h
  rcases allocFrames_spec L hi npages with he | ⟨b, t', k', rfl, -, he, hi'⟩
  · rw [he] at hal
    cases hal
  · rw [he] at hal
    cases hal
    exact ⟨t', k', b :: bs, rfl, hi', rfl⟩

theorem FrameInv.alloc_none (hal : allocFrames mp npages = .ok (none, mp')) : mp' = mp := by
  obtain ⟨t, k, bs, rfl, hi, rfl⟩ := h
  rcases allocFrames_spec L hi npages with he | ⟨b, t', k', rfl, -, he, hi'⟩
  · rw [he] at hal
    cases hal
    rfl
  · rw [he] at hal
    cases hal

theorem FrameInv.free (ha : a ∈ live) (hown : a.owns p) : FrameInv m ⟨(freeFrames mp p).2, live.erase a⟩ := by
  obtain ⟨t, k, bs, rfl, hi, rfl⟩ := h
  obtain ⟨b, hb, rfl⟩ := List.mem_map.1 ha
  obtain ⟨i, hib, h1, h2⟩ := owns_frame hown
  obtain ⟨t', he, hi', -⟩ := freeFrames_spec L hi hb hib h1 h2
  refine ⟨t', k + b.len, bs.erase b, by rw [he], hi', ?_⟩
  exact (List.map_erase (allocOf_injective m) bs).symm

end

theorem frameStep_inv {m : Mmc} (L : Layout m) (s : FrameSt) (op : FrameOp) (s' : FrameSt)
    (h : FrameInv m s) (hs : frameStep s op = some s') : FrameInv m s' := by
  cases op with
  | alloc npages =>
    simp only [frameStep] at hs
    split at hs
    · rename_i hal
      cases hs
      exact h.alloc L hal
    · rename_i hal
      cases hs
      rw [h.alloc_none L hal]
      exact h
    · cases hs
  | free p =>
    simp only [frameStep] at hs
    split at hs
    · rename_i a ha
      cases hs
      exact h.free L (List.mem_of_find?_eq_some ha) (by simpa using List.find?_some ha)
    · cases hs

/-- **Frame ownership.** After any history of `alloc_frames` and of `free_frames` on addresses inside
live allocations: (a) every entry is its own page address plus a colour; (b) an entry is white iff no
live call owns it, neighbours share a colour iff one live call owns both, and live calls are disjoint;
(c) `nfree` counts the white entries; (d) a free whitens the frames of the one call that owns the
address and counts them; and no `ASSERT` of `alloc_frames` can fail. -/
theorem frame_ownership (base length : Nat) (m : Mmc) (ha : base % pageSize = 0)
    (hw : base + length < 2 ^ 32) (h0 : mmPageTable base length = .ok (some m)) (s : FrameSt)
    (hr : Reaches frameStep Any ⟨m, []⟩ s) :
    (∀ i < m.nframes, s.mmc.word i = frameAddr m i + pgColor (s.mmc.word i) ∧
      pageMask &&& s.mmc.word i = frameAddr m i ∧ pgColor (s.mmc.word i) ∈ [0, 1, 2, 3]) ∧
    (∀ i < m.nframes, pgColor (s.mmc.word i) ≠ pgWhite ↔ ∃ a ∈ s.live, a.owns (frameAddr m i)) ∧
    (∀ i, i + 1 < m.nframes → pgColor (s.mmc.word i) ≠ pgWhite →
      pgColor (s.mmc.word (i + 1)) ≠ pgWhite →
      (pgColor (s.mmc.word i) = pgColor (s.mmc.word (i + 1)) ↔
        ∃ a ∈ s.live, a.owns (frameAddr m i) ∧ a.owns (frameAddr m (i + 1)))) ∧
    s.live.Pairwise (fun a a' => ∀ x, a.owns x → ¬ a'.owns x) ∧
    s.mmc.nfree = ((Finset.range m.nframes).filter fun i => pgColor (s.mmc.word i) = pgWhite).card ∧
    (∀ a ∈ s.live, ∀ p, a.owns p →
      (freeFrames s.mmc p).1 = 0 ∧
      (∀ i < m.nframes, (freeFrames s.mmc p).2.word i =
        if a.owns (frameAddr m i) then frameAddr m i else s.mmc.word i) ∧
      ((Finset.range m.nframes).filter fun i => a.owns (frameAddr m i)).card = a.npages ∧
      (freeFrames s.mmc p).2.nfree = s.mmc.nfree + a.npages) ∧
    (∀ npages, ∃ r, allocFrames s.mmc npages = .ok r) := by
  obtain ⟨L, hfresh⟩ := mmPageTable_spec ha hw h0
  have hinv : FrameInv m s := hr.invariant ⟨m.table, m.nfree, [], rfl, hfresh, rfl⟩
    fun u a v hu _ hs => frameStep_inv L u a v hu hs
  obtain ⟨t, k, bs, hm, hi, hl⟩ := hinv
  rw [hm, hl]
  simp only [upd_word, upd_nfree]
  refine ⟨fun i hin => ⟨hi.entry i hin, hi.page L hin, ?_⟩, fun i hin => ?_, fun i hin h1 _ => ?_, ?_,
    hi.nfree, ?_, fun npages => ?_⟩
  · have := hi.color i hin
    simp only [List.mem_cons, List.not_mem_nil, or_false]
    omega
  · rw [hi.painted.colored_iff hin]
    simp [owns_frame_iff]
  · rw [hi.painted.same_iff hin h1]
    simp [owns_frame_iff]
  · exact hi.owns_disjoint
  · intro a hmem p hown
    obtain ⟨b, hb, rfl⟩ := List.mem_map.1 hmem
    obtain ⟨i, hib, h1, h2⟩ := owns_frame hown
    obtain ⟨t', he, -, -, hcell⟩ := freeFrames_spec L hi hb hib h1 h2
    rw [he]
    refine ⟨rfl, fun j hj => ?_, ?_, rfl⟩
    · simp only [upd_word, owns_frame_iff]
      exact hcell j
    · simp only [owns_frame_iff]
      exact card_block (hi.painted.bound b hb)
  · rcases allocFrames_spec L hi npages with he | ⟨b, t', k', -, -, he, -⟩
    · exact ⟨_, he⟩
    · exact ⟨_, he⟩

/-- Three pages at 1 MB: one for the table, two frames, each given to its own call. -/
theorem frame_ownership_two_calls :
    ∃ s, Reaches frameStep Any ⟨freshMmc 0x100000 0x3000 1 2, []⟩ s ∧
      s.live = [⟨0x102000, 1⟩, ⟨0x101000, 1⟩] ∧
      (pgColor (s.mmc.word 0) = pgColor (s.mmc.word 1) ↔
        ∃ a ∈ s.live, a.owns 0x101000 ∧ a.owns 0x102000) ∧
      (freeFrames s.mmc 0x102abc).2.nfree = s.mmc.nfree + 1 := by
  have h0 : mmPageTable 0x100000 0x3000 = .ok (some (freshMmc 0x100000 0x3000 1 2)) := rfl
  obtain ⟨s, hr, hs⟩ := exists_reaches frameStep Any ⟨freshMmc 0x100000 0x3000 1 2, []⟩ [.alloc 1, .alloc 1]
    (fun s => s.live = [⟨0x102000, 1⟩, ⟨0x101000, 1⟩] ∧ pgColor (s.mmc.word 0) ≠ pgWhite ∧
      pgColor (s.mmc.word 1) ≠ pgWhite)
    (by decide +kernel)
  obtain ⟨hlive, hc0, hc1⟩ := of_decide_eq_true hs
  obtain ⟨-, -, hb, -, -, hd, -⟩ := frame_ownership 0x100000 0x3000 _ (by decide) (by decide) h0 s hr
  refine ⟨s, hr, hlive, hb 0 (by decide) hc0 hc1, ?_⟩
  exact (hd ⟨0x102000, 1⟩ (by rw [hlive]; simp) 0x102abc (by decide)).2.2.2

end RedMagic.Mm
