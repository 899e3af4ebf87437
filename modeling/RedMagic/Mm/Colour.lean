import RedMagic.Mm.Basic

/-!
# What each loop of the frame table does

An entry is a page address plus a colour below 256 (`Entry`-shaped words, `or_color`). One lemma
per loop of `mm.c`: the first-fit search (`findSeqLoop_sound`), the choice of the colour
(`chooseMarker_spec`), the drawing loop (`paint_spec`), the two edge loops and the reset loop
(`leftEdge_eq`, `rightEdge_eq`, `whiten_spec`). The callers use these and never unfold a loop.
-/

namespace RedMagic.Mm

/-! ## Words -/

theorem u32_of_lt {n : Nat} (h : n < 2 ^ 32) : u32 n = n := Nat.mod_eq_of_lt h

theorem land_pageMask {x : Nat} (h : x < 2 ^ 32) : pageMask &&& x = x / pageSize * pageSize := by
  have hm : pageMask = (2 ^ 20 - 1) <<< 12 := by decide
  have hr : x / pageSize * pageSize = (x >>> 12) <<< 12 := by
    rw [Nat.shiftLeft_eq, Nat.shiftRight_eq_div_pow]; rfl
  rw [hm, hr]
  refine Nat.eq_of_testBit_eq fun i => ?_
  rw [Nat.testBit_and, Nat.testBit_shiftLeft, Nat.testBit_shiftLeft, Nat.testBit_two_pow_sub_one,
    Nat.testBit_shiftRight]
  by_cases hi : i < 32
  · by_cases h12 : 12 ≤ i
    · simp [h12, show i - 12 < 20 by omega, show 12 + (i - 12) = i by omega]
    · simp [h12]
  · have hx : x.testBit i = false :=
      Nat.testBit_lt_two_pow (Nat.lt_of_lt_of_le h (Nat.pow_le_pow_right (by decide) (by omega)))
    by_cases h12 : 12 ≤ i
    · simp [hx, show 12 + (i - 12) = i by omega]
    · simp [h12]

theorem pgColor_eq_mod (x : Nat) : pgColor x = x % 256 := Nat.and_two_pow_sub_one_eq_mod x 8

/-- A colour or'ed into a page address is added to it. -/
theorem or_color {a c : Nat} (ha : a % pageSize = 0) (hc : c < pageSize) : a ||| c = a + c := by
  have h12 : pageSize = 2 ^ 12 := by decide
  obtain ⟨k, rfl⟩ : ∃ k, a = 2 ^ 12 * k := ⟨a / 2 ^ 12, by rw [h12] at ha; omega⟩
  exact (Nat.two_pow_add_eq_or_of_lt (by rw [← h12]; exact hc) k).symm

theorem pgColor_add {a c : Nat} (ha : a % pageSize = 0) (hc : c < 256) : pgColor (a + c) = c := by
  rw [pgColor_eq_mod]
  unfold pageSize at ha
  omega

theorem page_add {a c : Nat} (ha : a % pageSize = 0) (hc : c < pageSize) (hlt : a + c < 2 ^ 32) :
    pageMask &&& (a + c) = a := by
  rw [land_pageMask hlt]
  unfold pageSize at *
  omega

/-- `PAGE_ALIGN` of an address that has a page boundary above it. -/
theorem pageAlign_of_le {a : Nat} (h : a + pageSize ≤ 2 ^ 32) : pageAlign a = (a + 4095) / 4096 * 4096 := by
  have hlt : a + pageSize - 1 < 2 ^ 32 := by unfold pageSize at *; omega
  rw [pageAlign, u32_of_lt hlt, Nat.and_comm, land_pageMask hlt]
  unfold pageSize
  omega

theorem pageAlign_of_aligned {a : Nat} (ha : a % pageSize = 0) (hlt : a < 2 ^ 32) :
    pageAlign a = a := by
  rw [pageAlign_of_le (by unfold pageSize at *; omega)]
  unfold pageSize at ha
  omega

theorem getD_set (t : List Nat) (i j x : Nat) (hi : i < t.length) :
    (t.set i x).getD j 0 = if j = i then x else t.getD j 0 := by
  rw [List.getD_eq_getElem?_getD, List.getD_eq_getElem?_getD, List.getElem?_set]
  by_cases h : i = j
  · subst h; simp [hi]
  · simp [h, Ne.symm h]

/-- A loop that applies `f` to entry `i` and then to the `k` entries after it has applied it to `k + 1` entries. -/
theorem getD_set_range (f : Nat → Nat) (t : List Nat) {i : Nat} (hi : i < t.length) (k j : Nat) :
    (if i + 1 ≤ j ∧ j < i + 1 + k then f ((t.set i (f (t.getD i 0))).getD j 0)
      else (t.set i (f (t.getD i 0))).getD j 0) =
    if i ≤ j ∧ j < i + (k + 1) then f (t.getD j 0) else t.getD j 0 := by
  rw [getD_set t i j _ hi]
  by_cases hj : j = i
  · subst hj
    rw [if_neg (by omega), if_pos rfl, if_pos (by omega)]
  · rw [if_neg hj]
    by_cases hin : i + 1 ≤ j ∧ j < i + 1 + k
    · rw [if_pos hin, if_pos (by omega)]
    · rw [if_neg hin, if_neg (by omega)]

/-! ## `find_seq_pages` -/

/-- The entry loop, on a list `L` from position `i`: `seq_pages` counts the white entries that end at
`i`, and the entry before them, if there is one, is not white. -/
theorem findSeqLoop_sound (npages : Nat) (L : List Nat) {tp : Nat} :
    ∀ (es : List Nat) (i pp seq : Nat), L.drop i = es → seq ≤ i →
      (0 < seq → pp = i - seq) →
      (∀ j, i - seq ≤ j → j < i → pgColor (L.getD j 0) = pgWhite) →
      (0 < i - seq → pgColor (L.getD (i - seq - 1) 0) ≠ pgWhite) →
      findSeqLoop npages es i pp seq = some tp →
      0 < npages ∧ tp + npages ≤ L.length ∧
      (∀ j, tp ≤ j → j < tp + npages → pgColor (L.getD j 0) = pgWhite) ∧
      (0 < tp → pgColor (L.getD (tp - 1) 0) ≠ pgWhite)
  | [], _, _, _, _, _, _, _, _, h => by simp [findSeqLoop] at h
  | e :: es, i, pp, seq, hL, hseq, hpp, hw, hl, h => by
    have hi : i < L.length := by
      by_contra hge
      rw [List.drop_eq_nil_of_le (by omega)] at hL
      cases hL
    have hcons : L[i] = e ∧ L.drop (i + 1) = es := by
      rw [List.drop_eq_getElem_cons hi] at hL
      exact List.cons.inj hL
    have he : L.getD i 0 = e := by simp [List.getD_eq_getElem?_getD, hi, hcons.1]
    simp only [findSeqLoop] at h
    split at h
    · rename_i hwhite
      have hw' : ∀ j, i - seq ≤ j → j < i + 1 → pgColor (L.getD j 0) = pgWhite := by
        intro j h1 h2
        by_cases hj : j = i
        · rw [hj, he, hwhite]
        · exact hw j h1 (by omega)
      have hstart : (if seq = 0 then i else pp) = i - seq := by
        split
        · omega
        · exact hpp (by omega)
      split at h
      · rename_i hn
        rw [hstart] at h
        cases h
        refine ⟨by omega, by omega, fun j h1 h2 => hw' j h1 (by omega), hl⟩
      · have hsub : i + 1 - (seq + 1) = i - seq := by omega
        refine findSeqLoop_sound npages L es (i + 1) _ (seq + 1) hcons.2 (by omega)
          (fun _ => by rw [hstart]; omega) ?_ ?_ h
        · rw [hsub]; exact hw'
        · rw [hsub]; exact hl
    · rename_i hcol
      refine findSeqLoop_sound npages L es (i + 1) pp 0 hcons.2 (by omega) (by omega) ?_ ?_ h
      · intro j h1 h2; omega
      · intro _
        rw [show i + 1 - 0 - 1 = i by omega, he]
        exact hcol

/-- The first `n` words of `es` are there and white. -/
def Whites (n : Nat) (es : List Nat) : Prop := n ≤ es.length ∧ ∀ e ∈ es.take n, pgColor e = pgWhite

theorem Whites.tail {n : Nat} {e : Nat} {es : List Nat} (h : Whites (n + 1) (e :: es)) :
    pgColor e = pgWhite ∧ Whites n es := by
  have hlen := h.1
  simp only [List.length_cons] at hlen
  exact ⟨h.2 e (by simp), by omega, fun e' he' => h.2 e' (by simp [he'])⟩

theorem Whites.mono {n k : Nat} {es : List Nat} (h : Whites n es) (hk : k ≤ n) : Whites k es :=
  ⟨Nat.le_trans hk h.1, fun e he => h.2 e (List.take_subset_take_left es hk he)⟩

/-- The search does not miss a row of `npages` white words, be it one that begins `seq` words before the
cursor or one that lies ahead of it. -/
theorem findSeqLoop_complete (npages : Nat) (es : List Nat) :
    ∀ i pp seq, seq < npages → (Whites (npages - seq) es ∨ ∃ j, Whites npages (es.drop j)) →
      findSeqLoop npages es i pp seq ≠ none := by
  induction es with
  | nil =>
    intro i pp seq hseq h
    exfalso
    rcases h with h | ⟨j, h⟩
    · have := h.1
      simp only [List.length_nil] at this
      omega
    · have := h.1
      simp only [List.drop_nil, List.length_nil] at this
      omega
  | cons e es ih =>
    intro i pp seq hseq h
    simp only [findSeqLoop]
    split
    · split
      · simp
      · refine ih _ _ _ (by omega) ?_
        rcases h with h | ⟨_ | j, h⟩
        · rw [show npages - seq = npages - (seq + 1) + 1 by omega] at h
          exact .inl h.tail.2
        · have h' : Whites (npages - 1 + 1) (e :: es) := by
            rw [show npages - 1 + 1 = npages by omega]
            exact h
          exact .inl (h'.tail.2.mono (by omega))
        · exact .inr ⟨j, h⟩
    · rename_i hcol
      refine ih _ _ _ (by omega) ?_
      rcases h with h | ⟨_ | j, h⟩
      · rw [show npages - seq = npages - seq - 1 + 1 by omega] at h
        exact absurd h.tail.1 hcol
      · have h' : Whites (npages - 1 + 1) (e :: es) := by
          rw [show npages - 1 + 1 = npages by omega]
          exact h
        exact absurd h'.tail.1 hcol
      · exact .inr ⟨j, h⟩

/-! ## `alloc_frames`: colour and drawing loop -/

/-- The two colour macros give a fourth colour: not white and neither neighbour's. -/
theorem shift_ne : ∀ l < 4, pgColorShift l ≠ pgWhite ∧ pgColorShift l ≤ 3 ∧ l ≠ pgColorShift l := by
  decide

theorem xor_ne : ∀ l < 4, ∀ r < 4, l ≠ pgWhite ∧ r ≠ pgWhite ∧ r ≠ l →
    pgColorXor l r ≠ pgWhite ∧ pgColorXor l r ≤ 3 ∧ l ≠ pgColorXor l r ∧ r ≠ pgColorXor l r := by
  decide

/-- The chosen marker is a colour that is neither white nor the colour of a neighbour, and the
`ASSERT` on the left neighbour holds. -/
theorem chooseMarker_spec (m : Mmc) (tp npages : Nat) (hn : tp + npages ≤ m.nframes)
    (hcol : ∀ i < m.nframes, pgColor (m.word i) < 4)
    (hl : 0 < tp → pgColor (m.word (tp - 1)) ≠ pgWhite) :
    ∃ k, chooseMarker m tp npages = .ok k ∧ k ≠ pgWhite ∧ k ≤ 3 ∧
      (0 < tp → pgColor (m.word (tp - 1)) ≠ k) ∧
      (tp + npages < m.nframes → pgColor (m.word (tp + npages)) ≠ k) := by
  unfold chooseMarker
  split
  · exact ⟨pgRed, rfl, by decide, by decide, fun h => by omega, fun h => by omega⟩
  · split
    · obtain ⟨h1, h2, h3⟩ := shift_ne _ (hcol (tp + npages) (by omega))
      exact ⟨_, rfl, h1, h2, fun h => by omega, fun _ => h3⟩
    · split
      · obtain ⟨h1, h2, h3⟩ := shift_ne _ (hcol (tp - 1) (by omega))
        exact ⟨_, rfl, h1, h2, fun _ => h3, fun h => by omega⟩
      · have hleft := hl (by omega)
        have hlc := hcol (tp - 1) (by omega)
        have hrc := hcol (tp + npages) (by omega)
        simp only [hleft, ite_false]
        split
        · rename_i hr
          obtain ⟨h1, h2, h3⟩ := shift_ne _ hlc
          refine ⟨_, rfl, h1, h2, fun _ => h3, fun _ => ?_⟩
          rcases hr with hr | hr
          · rw [hr]; exact h3
          · rw [hr]; exact Ne.symm h1
        · rename_i hr
          rw [not_or] at hr
          obtain ⟨h1, h2, h3, h4⟩ := xor_ne _ hlc _ hrc ⟨hleft, hr.2, hr.1⟩
          exact ⟨_, rfl, h1, h2, fun _ => h3, fun _ => h4⟩

/-- The drawing loop on white entries: no `ASSERT` fails, exactly those entries get the marker. -/
theorem paint_spec (marker : Nat) :
    ∀ (k i : Nat) (t : List Nat), i + k ≤ t.length →
      (∀ j, i ≤ j → j < i + k → pgColor (t.getD j 0) = pgWhite) →
      ∃ t', paint marker k i t = .ok t' ∧ t'.length = t.length ∧
        ∀ j, t'.getD j 0 = if i ≤ j ∧ j < i + k then t.getD j 0 ||| marker else t.getD j 0
  | 0, i, t, _, _ => ⟨t, rfl, rfl, fun j => by rw [if_neg (by omega)]⟩
  | k + 1, i, t, hlen, hw => by
    obtain ⟨t', hp, hl, hget⟩ := paint_spec marker k (i + 1) (t.set i (t.getD i 0 ||| marker))
      (by simp; omega) (fun j h1 h2 => by
        rw [getD_set t i j _ (by omega), if_neg (by omega)]
        exact hw j (by omega) (by omega))
    refine ⟨t', ?_, by simpa using hl, fun j => ?_⟩
    · rw [paint, if_pos (hw i (Nat.le_refl _) (by omega)), hp]
    · rw [hget]
      exact getD_set_range (· ||| marker) t (by omega) k j

/-! ## `free_frames`: edge loops and reset loop -/

/-- The left loop stops at `s` if the colour is `marker` from `s` up to the start of the loop and
differs just below `s`. -/
theorem leftEdge_eq (t : List Nat) (marker s : Nat) :
    ∀ tp, s ≤ tp → (∀ j, s ≤ j → j < tp → pgColor (t.getD j 0) = marker) →
      (0 < s → pgColor (t.getD (s - 1) 0) ≠ marker) → leftEdge t marker tp = s
  | 0, hs, _, _ => by
    have : s = 0 := by omega
    rw [this]; rfl
  | i + 1, hs, hm, hl => by
    rw [leftEdge]
    by_cases hsi : s = i + 1
    · have := hl (by omega)
      rw [hsi, Nat.add_sub_cancel] at this
      rw [if_neg this, hsi]
    · rw [if_pos (hm i (by omega) (by omega))]
      exact leftEdge_eq t marker s i (by omega) (fun j h1 h2 => hm j h1 (by omega)) hl

/-- The right loop, which has `k` entries left to visit, stops before `e`. -/
theorem rightEdge_eq (t : List Nat) (marker e : Nat) :
    ∀ k right edge, right ≤ e → e ≤ right + k →
      (∀ j, right ≤ j → j < e → pgColor (t.getD j 0) = marker) →
      (e < right + k → pgColor (t.getD e 0) ≠ marker) →
      rightEdge t marker k right edge = if right < e then e - 1 else edge
  | 0, right, edge, h1, h2, _, _ => by rw [rightEdge, if_neg (by omega)]
  | k + 1, right, edge, h1, h2, hm, hr => by
    rw [rightEdge]
    by_cases he : right < e
    · rw [if_pos (hm right (Nat.le_refl _) he), if_pos he,
        rightEdge_eq t marker e k (right + 1) right (by omega) (by omega)
          (fun j h3 h4 => hm j (by omega) h4) (fun h => hr (by omega))]
      split <;> omega
    · have heq : e = right := by omega
      rw [if_neg (by rw [← heq]; exact hr (by omega)), if_neg he]

theorem whiten_spec :
    ∀ (k i : Nat) (t : List Nat), i + k ≤ t.length →
      (whiten k i t).length = t.length ∧
      ∀ j, (whiten k i t).getD j 0 =
        if i ≤ j ∧ j < i + k then pgColorReset (t.getD j 0) else t.getD j 0
  | 0, i, t, _ => ⟨rfl, fun j => by rw [if_neg (by omega)]; rfl⟩
  | k + 1, i, t, hlen => by
    obtain ⟨hl, hget⟩ := whiten_spec k (i + 1) (t.set i (pgColorReset (t.getD i 0)))
      (by simp; omega)
    rw [whiten]
    refine ⟨by simpa using hl, fun j => ?_⟩
    rw [hget]
    exact getD_set_range pgColorReset t (by omega) k j

end RedMagic.Mm
