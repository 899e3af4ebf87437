import RedMagic.Mm.Regions

/-!
# First fit, and frees of addresses that are not allocated

| here | there |
| --- | --- |
| `WhiteRun`  | `npages` consecutive white entries of the table |
| `frameCall` | a call of `alloc_frames` or of `free_frames` with any address |
| `freeFramesLogged`, `freeReads` | `free_frames` with a log of the words it reads, and the log |

`find_seq_pages` takes the lowest run (`findSeqLoop_least`), and `free_frames` of an address in no allocated
frame changes nothing (`freeFrames_refused`), so histories with such frees reach no more tables than those
without.
-/

namespace RedMagic.Mm

open Blocks Lts

/-! ## The lowest run -/

/-- `npages` consecutive white words of `l` from `i` on. -/
def RunAt (l : List Nat) (npages i : Nat) : Prop :=
  i + npages ≤ l.length ∧ ∀ j, i ≤ j → j < i + npages → pgColor (l.getD j 0) = pgWhite

/-- The loop of `find_seq_pages`, which has counted `seq` white entries up to `i`, skips no run: if none begins
below the entries it has counted, none begins below the one it returns. -/
theorem findSeqLoop_least {npages : Nat} {l : List Nat} {tp : Nat} (es : List Nat) (i pp seq : Nat)
    (hl : l.drop i = es) (hseq : seq ≤ i) (hlt : seq < npages) (hpp : 0 < seq → pp = i - seq)
    (hno : ∀ j < i - seq, ¬ RunAt l npages j) (h : findSeqLoop npages es i pp seq = some tp) :
    ∀ j < tp, ¬ RunAt l npages j := by
  induction es generalizing i pp seq with
  | nil => simp [findSeqLoop] at h
  | cons e es ih =>
    have hi : i < l.length := by
      by_contra hge
      rw [List.drop_eq_nil_of_le (by omega)] at hl
      cases hl
    rw [List.drop_eq_getElem_cons hi] at hl
    obtain ⟨he, hrest⟩ := List.cons.inj hl
    simp only [findSeqLoop] at h
    split at h
    · have hstart : (if seq = 0 then i else pp) = i - seq := by
        split
        · omega
        · exact hpp (by omega)
      split at h
      · cases h
        rwa [hstart]
      · refine ih (i + 1) _ (seq + 1) hrest (by omega) (by omega) (fun _ => ?_) ?_ h
        · rw [hstart]
          omega
        · rwa [Nat.add_sub_add_right]
    · rename_i hcol
      refine ih (i + 1) pp 0 hrest (by omega) (by omega) (by omega) ?_ h
      -- a run that begins among the counted entries would go past them, over entry `i`
      intro j hj hrun
      by_cases hjs : j < i - seq
      · exact hno j hjs hrun
      · apply hcol
        have hw := hrun.2 i (by omega) (by omega)
        simpa [List.getD_eq_getElem?_getD, hi, he] using hw

/-- A run of white entries of the table, among its frames. -/
def WhiteRun (m : Mmc) (npages i : Nat) : Prop :=
  i + npages ≤ m.nframes ∧ ∀ j, i ≤ j → j < i + npages → pgColor (m.word j) = pgWhite

section
variable {m : Mmc} {t : List Nat} {k : Nat} {bs : List Block} (L : Layout m) (h : TableInv m t k bs)
include L h

theorem runAt_entries {npages i : Nat} : RunAt (m.upd t k).entries npages i ↔ WhiteRun (m.upd t k) npages i := by
  have hlen := h.len
  rw [L.upd_entries]
  have hget : ∀ j < m.nframes, (t.take m.nframes).getD j 0 = t.getD j 0 := by
    intro j hj
    simp [List.getD_eq_getElem?_getD, hj]
  simp only [RunAt, WhiteRun, List.length_take, Nat.min_eq_left hlen, upd_nframes, upd_word]
  constructor
  · rintro ⟨hle, hw⟩
    refine ⟨hle, fun j h1 h2 => ?_⟩
    rw [← hget j (by omega)]
    exact hw j h1 h2
  · rintro ⟨hle, hw⟩
    refine ⟨hle, fun j h1 h2 => ?_⟩
    rw [hget j (by omega)]
    exact hw j h1 h2

/-- `find_seq_pages` finds nothing, or the lowest run. -/
theorem findSeqPages_least {npages tp : Nat} (hf : findSeqPages (m.upd t k) npages = some tp) :
    0 < npages ∧ WhiteRun (m.upd t k) npages tp ∧ ∀ j < tp, ¬ WhiteRun (m.upd t k) npages j := by
  unfold findSeqPages at hf
  split at hf
  · obtain ⟨hpos, hbound, hwhite, -⟩ := findSeqLoop_sound npages (m.upd t k).entries
      _ 0 0 0 rfl (by omega) (by omega) (fun j h1 h2 => by omega) (fun h => by omega) hf
    refine ⟨hpos, (runAt_entries L h).1 ⟨hbound, hwhite⟩, ?_⟩
    intro j hj hrun
    exact findSeqLoop_least (m.upd t k).entries 0 0 0 rfl (by omega) hpos (by omega) (by omega) hf j hj
      ((runAt_entries L h).2 hrun)
  · cases hf

theorem findSeqPages_eq_none {npages : Nat} :
    findSeqPages (m.upd t k) npages = none ↔ npages = 0 ∨ ¬ ∃ i, WhiteRun (m.upd t k) npages i := by
  constructor
  · intro hf
    by_contra hc
    push Not at hc
    obtain ⟨hne, i, hle, hw⟩ := hc
    exact findSeqPages_ne_none L h npages i (by omega) hle hw hf
  · intro hno
    cases hf : findSeqPages (m.upd t k) npages with
    | none => rfl
    | some tp =>
      obtain ⟨hpos, hrun, -⟩ := findSeqPages_least L h hf
      rcases hno with rfl | hno
      · omega
      · exact absurd ⟨tp, hrun⟩ hno

end

/-! ## Frees of other addresses -/

section
variable {m : Mmc} {t : List Nat} {k : Nat} {bs : List Block} (L : Layout m) (h : TableInv m t k bs)
include L h

/-- The entry `find_page_index` returns is the one of the frame that the address lies in. -/
theorem findPageIndex_some {p i : Nat} (hp : p < 2 ^ 32) (hf : findPageIndex (m.upd t k) p = some i) :
    i < m.nframes ∧ frameAddr m i ≤ p ∧ p < frameAddr m i + pageSize := by
  have hlen := h.len
  rw [findPageIndex, L.upd_entries, List.findIdx?_eq_some_iff_getElem] at hf
  obtain ⟨hi, hpage, -⟩ := hf
  have hin : i < m.nframes := by
    rw [List.length_take] at hi
    omega
  have hget : t[i] = t.getD i 0 := by
    simp [List.getD_eq_getElem?_getD, show i < t.length by omega]
  rw [List.getElem_take, beq_iff_eq, hget, h.page L hin, land_pageMask hp] at hpage
  refine ⟨hin, ?_⟩
  unfold pageSize at *
  omega

/-- The entry of an address that is not allocated is white. -/
theorem white_of_refused {p i : Nat} (hp : p < 2 ^ 32) (hno : ∀ b ∈ bs, ¬ (allocOf m b).owns p)
    (hf : findPageIndex (m.upd t k) p = some i) : pgColor ((m.upd t k).word i) = pgWhite := by
  obtain ⟨hin, h1, h2⟩ := findPageIndex_some L h hp hf
  by_contra hcol
  obtain ⟨b, hb, hib⟩ := (h.painted.colored_iff hin).1 hcol
  refine hno b hb ?_
  have hown := (owns_frame_iff m b i).2 hib
  simp only [Alloc.owns, allocOf, frameAddr, pageSize] at hown h1 h2 ⊢
  have hend := hib.2
  omega

/-- The pointer to the entry of a coloured frame is not NULL, so only a free of an allocated address has an
effect. -/
theorem freeFrames_refused {p : Nat} (hp : p < 2 ^ 32) (hno : ∀ b ∈ bs, ¬ (allocOf m b).owns p) :
    freeFrames (m.upd t k) p = (1, m.upd t k) := by
  unfold freeFrames
  cases hf : findPageIndex (m.upd t k) p with
  | none => rfl
  | some i => simp only [white_of_refused L h hp hno hf, beq_self_eq_true, Bool.or_true, ite_true]

end

/-- One call, of `free_frames` with any address. -/
def frameCall (s : FrameSt) : FrameOp → Option FrameSt
  | .alloc npages => frameStep s (.alloc npages)
  | .free p =>
    if p < 2 ^ 32 then
      match s.live.find? fun a => decide (a.owns p) with
      | some a => some ⟨(freeFrames s.mmc p).2, s.live.erase a⟩
      | none => some ⟨(freeFrames s.mmc p).2, s.live⟩
    else none

/-- The live call that owns the address ends, if there is one. -/
theorem frameCall_free {s s' : FrameSt} {p : Nat} (hs : frameCall s (.free p) = some s') :
    p < 2 ^ 32 ∧ ((∃ a ∈ s.live, a.owns p ∧ s' = ⟨(freeFrames s.mmc p).2, s.live.erase a⟩) ∨
      ((∀ a ∈ s.live, ¬ a.owns p) ∧ s' = ⟨(freeFrames s.mmc p).2, s.live⟩)) := by
  simp only [frameCall] at hs
  split at hs
  · rename_i hp
    refine ⟨hp, ?_⟩
    split at hs
    · rename_i a ha
      cases hs
      exact .inl ⟨a, List.mem_of_find?_eq_some ha, by simpa using List.find?_some ha, rfl⟩
    · rename_i hnone
      cases hs
      exact .inr ⟨fun a ha => by simpa using List.find?_eq_none.1 hnone a ha, rfl⟩
  · cases hs

/-- A free of an address that no live call owns changes nothing. -/
theorem FrameInv.refused {m mp : Mmc} {live : List Alloc} {p : Nat} (L : Layout m) (h : FrameInv m ⟨mp, live⟩)
    (hp : p < 2 ^ 32) (hno : ∀ a ∈ live, ¬ a.owns p) : freeFrames mp p = (1, mp) := by
  obtain ⟨t, k, bs, rfl, hi, rfl⟩ := h
  exact freeFrames_refused L hi hp fun b hb => hno (allocOf m b) (List.mem_map_of_mem hb)

/-- What is allocated and freed at once leaves no trace in the table. -/
theorem freeFrames_undo {m : Mmc} {t : List Nat} {k : Nat} {bs : List Block} (L : Layout m) (h : TableInv m t k bs)
    {npages tp : Nat} (hf : findSeqPages (m.upd t k) npages = some tp) (hnn : m.notNull tp = true) :
    ∃ t', allocFrames (m.upd t k) npages = .ok (some (frameAddr m tp), m.upd t' (k - npages)) ∧ npages ≤ k ∧
      freeFrames (m.upd t' (k - npages)) (frameAddr m tp) = (0, m.upd t k) := by
  obtain ⟨t', hal, hi, hle, hlen, hcells⟩ := allocFrames_found L h hf hnn
  refine ⟨t', hal, hle, ?_⟩
  have hpos := hi.painted.pos _ List.mem_cons_self
  obtain ⟨t₂, hfree, -, hlen₂, hcells₂⟩ := freeFrames_spec L hi List.mem_cons_self (start_mem hpos) (Nat.le_refl _)
    (Nat.lt_add_of_pos_right (by decide))
  -- inside the block the page addresses come back, outside nothing has changed
  have hcell : ∀ j, t₂.getD j 0 = t.getD j 0 := by
    intro j
    rw [hcells₂ j]
    have hj := hcells j
    split at hj
    · rename_i hjb
      have hbound := hi.painted.bound _ List.mem_cons_self
      have hend := hjb.2
      have hentry := h.entry j (by omega)
      rw [hj] at hentry
      rw [if_pos hjb]
      exact hentry.symm
    · rename_i hjb
      rw [if_neg hjb, hj]
  have htable : t₂ = t := by
    refine List.ext_getElem (hlen₂.trans hlen) fun j h₁ h₂ => ?_
    have hj := hcell j
    rwa [List.getD_eq_getElem _ _ h₁, List.getD_eq_getElem _ _ h₂] at hj
  rw [hfree, htable, Nat.sub_add_cancel hle]

/-- **`alloc_frames`** on a table that is not at address 0: it returns NULL and changes nothing if there is no run of white
entries, and otherwise takes `npages` of the free frames, which `free_frames` gives back. -/
theorem FrameInv.alloc_cases {m mp : Mmc} {live : List Alloc} (L : Layout m) (h0 : 0 < m.metaBase)
    (h : FrameInv m ⟨mp, live⟩) {npages : Nat} (hpos : 0 < npages) :
    (allocFrames mp npages = .ok (none, mp) ∧ ¬ ∃ i, WhiteRun mp npages i) ∨
      ∃ p mp', allocFrames mp npages = .ok (some p, mp') ∧ (∃ i, WhiteRun mp npages i) ∧ mp'.nfree + npages = mp.nfree ∧
        freeFrames mp' p = (0, mp) := by
  obtain ⟨t, k, bs, rfl, hi, rfl⟩ := h
  cases hf : findSeqPages (m.upd t k) npages with
  | none =>
    refine .inl ⟨by simp only [allocFrames, hf], ?_⟩
    exact ((findSeqPages_eq_none L hi).1 hf).resolve_left hpos.ne'
  | some tp =>
    obtain ⟨-, hrun, -⟩ := findSeqPages_least L hi hf
    have hbound : tp + npages ≤ m.nframes := hrun.1
    obtain ⟨t', hal, hle, hfree⟩ := freeFrames_undo L hi hf (L.notNull h0 (by omega))
    exact .inr ⟨_, _, hal, ⟨tp, hrun⟩, Nat.sub_add_cancel hle, hfree⟩

theorem frameCall_inv {m : Mmc} (L : Layout m) (s : FrameSt) (op : FrameOp) (s' : FrameSt) (h : FrameInv m s)
    (hs : frameCall s op = some s') : FrameInv m s' := by
  cases op with
  | alloc npages => exact frameStep_inv L s (.alloc npages) s' h hs
  | free p =>
    obtain ⟨hp, ⟨a, ha, hown, rfl⟩ | ⟨hno, rfl⟩⟩ := frameCall_free hs
    · exact FrameInv.free L h ha hown
    · rw [h.refused L hp hno]
      exact h

theorem reaches_frameInv {base length : Nat} {m : Mmc} {s : FrameSt} (hr : Region base length)
    (h0 : mmPageTable base length = .ok (some m)) (hrun : Reaches frameCall Any ⟨m, []⟩ s) :
    Layout m ∧ FrameInv m s := by
  obtain ⟨L, hfresh, -⟩ := hr.spec h0
  refine ⟨L, hrun.invariant ⟨m.table, m.nfree, [], rfl, hfresh, rfl⟩ ?_⟩
  intro u a v hu _ hs
  exact frameCall_inv L u a v hu hs

/-- On a table at address 0 nothing is ever allocated: the lowest run begins at entry 0, whose pointer is NULL. -/
theorem reaches_null_table {base length : Nat} {m : Mmc} {s : FrameSt} (hr : Region base length)
    (h0 : mmPageTable base length = .ok (some m)) (hnull : m.metaBase = 0)
    (hrun : Reaches frameCall Any ⟨m, []⟩ s) : s.live = [] := by
  obtain ⟨L, hfresh⟩ := reaches_frameInv hr h0 (.refl _)
  have hkeep : FrameInv m s ∧ s.live = [] := by
    refine hrun.invariant (I := fun u => FrameInv m u ∧ u.live = []) ⟨hfresh, rfl⟩ ?_
    rintro u op v ⟨hu, hlive⟩ - hs
    refine ⟨frameCall_inv L u op v hu hs, ?_⟩
    cases op with
    | alloc npages =>
      obtain ⟨t, k, bs, hm, hi, hl⟩ := hu
      rw [hlive, eq_comm, List.map_eq_nil_iff] at hl
      subst hl
      have hwhite : ∀ i < m.nframes, pgColor (t.getD i 0) = pgWhite := by
        intro i hin
        by_contra hcol
        obtain ⟨b, hb, -⟩ := (hi.painted.colored_iff hin).1 hcol
        cases hb
      have hnone : allocFrames u.mmc npages = .ok (none, u.mmc) := by
        rw [hm, allocFrames]
        cases hf : findSeqPages (m.upd t k) npages with
        | none => rfl
        | some tp =>
          obtain ⟨-, hrun, hleast⟩ := findSeqPages_least L hi hf
          have htp : tp = 0 := by
            by_contra hne
            refine hleast 0 (by omega) ⟨by have := hrun.1; omega, fun j _ hj => hwhite j ?_⟩
            have hle : tp + npages ≤ m.nframes := hrun.1
            omega
          have hptr : m.notNull tp = false := by simp [Mmc.notNull, hnull, htp, u32]
          simp [hptr]
      simp only [frameCall, frameStep, hnone] at hs
      cases hs
      exact hlive
    | free p =>
      simp only [frameCall, hlive, List.find?_nil] at hs
      split at hs
      · cases hs
        rfl
      · cases hs
  exact hkeep.2

/-- **First fit.** In every state that calls of `alloc_frames` and `free_frames` reach on a table that is not at
address 0: `alloc_frames(npages)` returns NULL and changes nothing iff `npages` is 0 or there is no run of
`npages` white entries; otherwise it returns the first frame of the lowest such run, the frames of the run
become coloured and no other entry changes. -/
theorem alloc_first_fit (base length : Nat) (m : Mmc) (hr : Region base length)
    (h0 : mmPageTable base length = .ok (some m)) (hnull : m.metaBase ≠ 0) (s : FrameSt)
    (hrun : Reaches frameCall Any ⟨m, []⟩ s) (npages : Nat) :
    (allocFrames s.mmc npages = .ok (none, s.mmc) ↔ npages = 0 ∨ ¬ ∃ i, WhiteRun s.mmc npages i) ∧
      (npages ≠ 0 → (∃ i, WhiteRun s.mmc npages i) →
        ∃ i m', WhiteRun s.mmc npages i ∧ (∀ j < i, ¬ WhiteRun s.mmc npages j) ∧
          allocFrames s.mmc npages = .ok (some (frameAddr m i), m') ∧
          ∀ j, (i ≤ j → j < i + npages → pgColor (m'.word j) ≠ pgWhite) ∧
            (¬ (i ≤ j ∧ j < i + npages) → m'.word j = s.mmc.word j)) := by
  obtain ⟨L, t, k, bs, hm, hi, -⟩ := reaches_frameInv hr h0 hrun
  rw [hm]
  have hfound : ∀ tp, findSeqPages (m.upd t k) npages = some tp → m.notNull tp = true := by
    intro tp hf
    obtain ⟨hpos, hwr, -⟩ := findSeqPages_least L hi hf
    have hle : tp + npages ≤ m.nframes := hwr.1
    exact L.notNull (by omega) (by omega)
  cases hf : findSeqPages (m.upd t k) npages with
  | none =>
    have hno := (findSeqPages_eq_none L hi).1 hf
    refine ⟨⟨fun _ => hno, fun _ => by simp only [allocFrames, hf]⟩, ?_⟩
    intro hne hex
    rcases hno with rfl | hno
    · exact absurd rfl hne
    · exact absurd hex hno
  | some tp =>
    obtain ⟨t', halloc, hinv, -, -, hcells⟩ := allocFrames_found L hi hf (hfound tp hf)
    obtain ⟨hpos, hwr, hleast⟩ := findSeqPages_least L hi hf
    have hchange : ∀ j, (tp ≤ j → j < tp + npages → pgColor (t'.getD j 0) ≠ pgWhite) ∧
        (¬ (tp ≤ j ∧ j < tp + npages) → t'.getD j 0 = t.getD j 0) := by
      have hbound := hinv.painted.bound _ List.mem_cons_self
      dsimp only at hbound
      refine fun j => ⟨fun h1 h2 => ?_, fun hout => ?_⟩
      · exact (hinv.painted.colored_iff (by omega)).2 ⟨_, List.mem_cons_self, h1, h2⟩
      · have hj := hcells j
        rwa [if_neg fun hin => hout (mem_def.1 hin)] at hj
    refine ⟨⟨?_, ?_⟩, fun _ _ => ⟨tp, m.upd t' (k - npages), hwr, hleast, halloc, hchange⟩⟩
    · intro hnone
      rw [halloc] at hnone
      cases hnone
    · rintro (rfl | hno)
      · omega
      · exact absurd ⟨tp, hwr⟩ hno

/-- Four frames, of which the first is given back: a pair of frames comes from behind the hole. -/
theorem alloc_first_fit_behind_hole :
    ∃ s, Reaches frameCall Any ⟨freshMmc 0x100000 0x5000 1 4, []⟩ s ∧ s.live = [⟨0x102000, 1⟩] ∧
      ∃ m', allocFrames s.mmc 2 = .ok (some 0x103000, m') := by
  have h0 : mmPageTable 0x100000 0x5000 = .ok (some (freshMmc 0x100000 0x5000 1 4)) := rfl
  obtain ⟨s, hrun, hs⟩ := exists_reaches frameCall Any ⟨freshMmc 0x100000 0x5000 1 4, []⟩
    [.alloc 1, .alloc 1, .free 0x101008]
    (fun s => s.live = [⟨0x102000, 1⟩] ∧ s.mmc.nframes = 4 ∧ pgColor (s.mmc.word 0) = pgWhite ∧
      pgColor (s.mmc.word 1) ≠ pgWhite ∧ pgColor (s.mmc.word 2) = pgWhite ∧ pgColor (s.mmc.word 3) = pgWhite)
    (by decide +kernel)
  obtain ⟨hlive, hn, -, hw1, hw2, hw3⟩ := of_decide_eq_true hs
  obtain ⟨-, hfit⟩ := alloc_first_fit 0x100000 0x5000 _ (.of_aligned (by decide) (by decide)) h0 (by decide) s hrun 2
  have hpair : WhiteRun s.mmc 2 2 := by
    refine ⟨by rw [hn], fun j h1 h2 => ?_⟩
    obtain rfl | rfl : j = 2 ∨ j = 3 := by omega
    · exact hw2
    · exact hw3
  obtain ⟨i, m', hwr, hleast, halloc, -⟩ := hfit (by decide) ⟨2, hpair⟩
  -- entry 1 is in use, so the run begins behind it
  have hi : i = 2 := by
    have hle : ¬ 2 < i := fun hlt => hleast 2 hlt hpair
    have h0 : ¬ (i ≤ 1 ∧ 1 < i + 2) := fun hc => hw1 (hwr.2 1 hc.1 hc.2)
    omega
  subst hi
  exact ⟨s, hrun, hlive, m', halloc⟩

-- On a table at address 0 the pointer to entry 0 is NULL, so `alloc_frames` takes the run it found there for none.
example : mmPageTable 0 0x3000 = .ok (some (freshMmc 0 0x3000 1 2)) ∧ pgColor ((freshMmc 0 0x3000 1 2).word 0) = pgWhite ∧
    allocFrames (freshMmc 0 0x3000 1 2) 1 = .ok (none, freshMmc 0 0x3000 1 2) := by
  decide +kernel

/-! ## What a free reads -/

/-- The address of entry `i`. -/
def Mmc.entAddr (m : Mmc) (i : Nat) : Nat := u32 (m.metaBase + metaEntSize * i)

/-- The pointers through which `free_frames` reads the table: `p` of `find_page_index` and its own. -/
inductive Ptr where
  | p
  | tp
  | left
  | right
deriving DecidableEq, Repr

structure Read where
  via : Ptr
  addr : Nat
deriving DecidableEq, Repr

section
variable (m : Mmc)

/-- The loop of `find_page_index` from entry `i` on. -/
def findPageLoop (page : Nat) : List Nat → Nat → List Read → Option Nat × List Read
  | [], _, log => (none, log)
  | e :: es, i, log =>
    let log := log ++ [⟨.p, m.entAddr i⟩]
    if pageMask &&& e == page then (some i, log) else findPageLoop page es (i + 1) log

/-- `leftEdge` with its reads. -/
def leftEdgeLogged (marker : Nat) : Nat → List Read → Nat × List Read
  | 0, log => (0, log)
  | i + 1, log =>
    let log := log ++ [⟨.left, m.entAddr i⟩]
    if pgColor (m.word i) = marker then leftEdgeLogged marker i log else (i + 1, log)

def rightEdgeLogged (marker : Nat) : Nat → Nat → Nat → List Read → Nat × List Read
  | 0, _, edge, log => (edge, log)
  | k + 1, right, edge, log =>
    let log := log ++ [⟨.right, m.entAddr right⟩]
    if pgColor (m.word right) = marker then rightEdgeLogged marker k (right + 1) right log else (edge, log)

def whitenLogged : Nat → Nat → List Nat → List Read → List Nat × List Read
  | 0, _, t, log => (t, log)
  | k + 1, i, t, log => whitenLogged k (i + 1) (t.set i (pgColorReset (t.getD i 0))) (log ++ [⟨.left, m.entAddr i⟩])

/-- `free_frames` with the words it reads. The colour is read before `tp` is tested (`mm.c:558`), from address 0 if
`find_page_index` returned NULL. -/
def freeFramesLogged (mp : Nat) : (Nat × Mmc) × List Read :=
  match findPageLoop m (pageMask &&& mp) m.entries 0 [] with
  | (none, log) => ((1, m), log ++ [⟨.tp, 0⟩])
  | (some tp, log) =>
    let log := log ++ [⟨.tp, m.entAddr tp⟩]
    let marker := pgColor (m.word tp)
    if !m.notNull tp || marker == pgWhite then ((1, m), log)
    else
      let (left, log) := leftEdgeLogged m marker tp log
      let (right, log) := rightEdgeLogged m marker (m.nframes - tp) tp tp log
      let (table, log) := whitenLogged m (right - left + 1) left m.table log
      ((0, { m with nfree := u32 (m.nfree + (right - left + 1)), table := table }), log)

def freeReads (mp : Nat) : List Read := (freeFramesLogged m mp).2

/-- The word at `a` is an entry of the table. -/
def InTable (a : Nat) : Prop := ∃ i < m.nframes, a = m.entAddr i

end

/-! ### The log belongs to `free_frames` -/

section
variable {m : Mmc} {log : List Read}

theorem findPageLoop_fst (page : Nat) (es : List Nat) (i : Nat) (log : List Read) :
    (findPageLoop m page es i log).1 = (es.findIdx? fun e => pageMask &&& e == page).map (i + ·) := by
  induction es generalizing i log with
  | nil => rfl
  | cons e es ih =>
    rw [findPageLoop, List.findIdx?_cons]
    split
    · rfl
    · rw [ih, Option.map_map]
      congr 1
      funext j
      simp only [Function.comp_apply]
      omega

theorem leftEdgeLogged_fst (marker i : Nat) : (leftEdgeLogged m marker i log).1 = leftEdge m.table marker i := by
  induction i generalizing log with
  | zero => rfl
  | succ i ih =>
    rw [leftEdgeLogged, leftEdge]
    show (if pgColor (m.table.getD i 0) = marker then _ else _ : Nat × List Read).1 = _
    split
    · exact ih
    · rfl

theorem rightEdgeLogged_fst (marker k right edge : Nat) :
    (rightEdgeLogged m marker k right edge log).1 = rightEdge m.table marker k right edge := by
  induction k generalizing right edge log with
  | zero => rfl
  | succ k ih =>
    rw [rightEdgeLogged, rightEdge]
    show (if pgColor (m.table.getD right 0) = marker then _ else _ : Nat × List Read).1 = _
    split
    · exact ih ..
    · rfl

theorem whitenLogged_fst (k i : Nat) (t : List Nat) : (whitenLogged m k i t log).1 = whiten k i t := by
  induction k generalizing i t log with
  | zero => rfl
  | succ k ih => exact ih ..

/-- Without its log it is `free_frames`. -/
theorem freeFramesLogged_fst (m : Mmc) (mp : Nat) : (freeFramesLogged m mp).1 = freeFrames m mp := by
  have hfind := findPageLoop_fst (m := m) (pageMask &&& mp) m.entries 0 []
  rw [freeFramesLogged, freeFrames, findPageIndex]
  generalize findPageLoop m (pageMask &&& mp) m.entries 0 [] = r at hfind
  obtain ⟨tp, log⟩ := r
  cases hidx : m.entries.findIdx? fun e => pageMask &&& e == pageMask &&& mp with
  | none =>
    rw [hidx] at hfind
    cases hfind
    rfl
  | some i =>
    rw [hidx, Option.map_some, Nat.zero_add] at hfind
    cases hfind
    dsimp only
    split
    · rfl
    · simp only [leftEdgeLogged_fst, rightEdgeLogged_fst, whitenLogged_fst]

/-- The loop of `find_page_index` reads the entries it is given. -/
theorem findPageLoop_reads {page i : Nat} {es : List Nat} {r : Read} (h : r ∈ (findPageLoop m page es i log).2) :
    r ∈ log ∨ ∃ j < i + es.length, r = ⟨.p, m.entAddr j⟩ := by
  induction es generalizing i log with
  | nil => exact .inl h
  | cons e es ih =>
    have hlog : r ∈ log ++ [⟨.p, m.entAddr i⟩] → r ∈ log ∨ ∃ j < i + (e :: es).length, r = ⟨.p, m.entAddr j⟩ := by
      rw [List.mem_append, List.mem_singleton]
      exact Or.imp_right fun hr => ⟨i, by simp, hr⟩
    rw [findPageLoop] at h
    split at h
    · exact hlog h
    · rcases ih h with h | ⟨j, hj, hr⟩
      · exact hlog h
      · exact .inr ⟨j, by rw [List.length_cons]; omega, hr⟩

end

section
variable {m : Mmc} {t : List Nat} {k : Nat} {bs : List Block} (L : Layout m) (h : TableInv m t k bs)
include L h

/-- Up to the test of the colour the entries are read, and then the one that was found, or the word at NULL. -/
theorem freeReads_refused {p : Nat} (hp : p < 2 ^ 32) (hno : ∀ b ∈ bs, ¬ (allocOf m b).owns p) :
    ∃ log, freeReads (m.upd t k) p = log ++ [⟨.tp, ((findPageIndex (m.upd t k) p).map m.entAddr).getD 0⟩] ∧
      ∀ r ∈ log, ∃ i < m.nframes, r = ⟨.p, m.entAddr i⟩ := by
  have hreads : ∀ r ∈ (findPageLoop (m.upd t k) (pageMask &&& p) (m.upd t k).entries 0 []).2,
      ∃ i < m.nframes, r = ⟨.p, m.entAddr i⟩ := by
    intro r hr
    have hlen := h.len
    obtain hr | ⟨j, hj, rfl⟩ := findPageLoop_reads hr
    · cases hr
    · rw [L.upd_entries, List.length_take] at hj
      exact ⟨j, by omega, rfl⟩
  have hfind := findPageLoop_fst (m := m.upd t k) (pageMask &&& p) (m.upd t k).entries 0 []
  rw [freeReads, freeFramesLogged]
  generalize findPageLoop (m.upd t k) (pageMask &&& p) (m.upd t k).entries 0 [] = r at hfind hreads
  obtain ⟨tp, log⟩ := r
  refine ⟨log, ?_, hreads⟩
  have hidx : tp = findPageIndex (m.upd t k) p := by
    rw [findPageIndex]
    simpa using hfind
  subst hidx
  cases hf : findPageIndex (m.upd t k) p with
  | none => rfl
  | some i =>
    simp only [white_of_refused L h hp hno hf, beq_self_eq_true, Bool.or_true, ite_true]
    rfl

end

/-- **Bad frees.** In every state that calls of `alloc_frames` and `free_frames` reach, a `free_frames` of an
address in no allocated frame returns 1 and changes nothing. It reads entries of the table only, and none through
a NULL `tp`, exactly if the address lies in a frame of the table (whose entry is not at NULL). -/
theorem bad_free_harmless (base length : Nat) (m : Mmc) (hr : Region base length)
    (h0 : mmPageTable base length = .ok (some m)) (s : FrameSt) (hrun : Reaches frameCall Any ⟨m, []⟩ s)
    (p : Nat) (hp : p < 2 ^ 32) (hno : ∀ a ∈ s.live, ¬ a.owns p) :
    freeFrames s.mmc p = (1, s.mmc) ∧
      ((∀ r ∈ freeReads s.mmc p, InTable s.mmc r.addr ∧ (r.via = .tp → r.addr ≠ 0)) ↔
        ∃ i < m.nframes, frameAddr m i ≤ p ∧ p < frameAddr m i + pageSize ∧ m.entAddr i ≠ 0) := by
  obtain ⟨L, hinv⟩ := reaches_frameInv hr h0 hrun
  refine ⟨hinv.refused L hp hno, ?_⟩
  obtain ⟨t, k, bs, hm, hi, hlive⟩ := hinv
  have hno' : ∀ b ∈ bs, ¬ (allocOf m b).owns p := by
    intro b hb
    apply hno
    rw [hlive]
    exact List.mem_map_of_mem hb
  obtain ⟨log, hlog, hentries⟩ := freeReads_refused L hi hp hno'
  rw [hm, hlog]
  constructor
  · intro hinside
    obtain ⟨-, htp⟩ := hinside _ (List.mem_append_right _ (List.mem_singleton_self _))
    cases hf : findPageIndex (m.upd t k) p with
    | none =>
      -- the word at NULL
      rw [hf] at htp
      exact absurd rfl (htp rfl)
    | some i =>
      rw [hf] at htp
      obtain ⟨hin, h1, h2⟩ := findPageIndex_some L hi hp hf
      exact ⟨i, hin, h1, h2, htp rfl⟩
  · rintro ⟨i, hin, h1, h2, hnn⟩ r hr
    rw [findPageIndex_eq L hi hin h1 h2, List.mem_append, List.mem_singleton] at hr
    rcases hr with hr | rfl
    · obtain ⟨j, hj, rfl⟩ := hentries r hr
      exact ⟨⟨j, hj, rfl⟩, nofun⟩
    · exact ⟨⟨i, hin, rfl⟩, fun _ => hnn⟩

/-- A frame is freed twice: the second free reads its entry and those before it. -/
theorem bad_free_harmless_twice :
    ∃ s, Reaches frameCall Any ⟨freshMmc 0x100000 0x3000 1 2, []⟩ s ∧ s.live = [⟨0x101000, 1⟩] ∧
      freeFrames s.mmc 0x102000 = (1, s.mmc) ∧
      ∀ r ∈ freeReads s.mmc 0x102000, InTable s.mmc r.addr ∧ (r.via = .tp → r.addr ≠ 0) := by
  have h0 : mmPageTable 0x100000 0x3000 = .ok (some (freshMmc 0x100000 0x3000 1 2)) := rfl
  obtain ⟨s, hrun, hs⟩ := exists_reaches frameCall Any ⟨freshMmc 0x100000 0x3000 1 2, []⟩
    [.alloc 1, .alloc 1, .free 0x102000] (fun s => s.live = [⟨0x101000, 1⟩]) (by decide +kernel)
  have hlive := of_decide_eq_true hs
  obtain ⟨hres, hreads⟩ := bad_free_harmless 0x100000 0x3000 _ (.of_aligned (by decide) (by decide)) h0 s hrun
    0x102000 (by decide) (by rw [hlive]; decide)
  exact ⟨s, hrun, hlive, hres, hreads.2 ⟨1, by decide, by decide, by decide, by decide⟩⟩

/-- An address in the metadata page has no entry: `free_frames` reads the word at NULL. -/
theorem bad_free_reads_null :
    mmPageTable 0x100000 0x3000 = .ok (some (freshMmc 0x100000 0x3000 1 2)) ∧
      ⟨.tp, 0⟩ ∈ freeReads (freshMmc 0x100000 0x3000 1 2) 0x100000 ∧
      ¬ InTable (freshMmc 0x100000 0x3000 1 2) 0 := by
  refine ⟨rfl, by decide +kernel, ?_⟩
  rintro ⟨i, hi, hzero⟩
  have hlt : i < 2 := hi
  simp only [Mmc.entAddr, freshMmc, metaEntSize, u32] at hzero
  omega

end RedMagic.Mm
