import Mathlib.Data.Finset.Card
import Mathlib.Order.Interval.Finset.Nat
import Mathlib.Tactic.Tauto

/-!
# Blocks of cells told apart by their colours

A row of `n` cells carries a colour in each cell; `w` is the colour of a free cell. A set of blocks
(intervals of cells) is *painted* on the row when every block is of one colour other than `w`, every
other cell is free, and two blocks that touch differ in colour. Then nothing but the colours is needed
to find the block a cell belongs to: it is the maximal run of equal colours around the cell
(`Painted.left_ne`, `Painted.right_ne`, `Painted.same_iff`).
-/

namespace Blocks

/-- The cells `start, …, start + len - 1`. -/
structure Block where
  start : Nat
  len : Nat
deriving DecidableEq, Repr

instance : Membership Nat Block := ⟨fun b i => b.start ≤ i ∧ i < b.start + b.len⟩

theorem mem_def {b : Block} {i : Nat} : i ∈ b ↔ b.start ≤ i ∧ i < b.start + b.len := Iff.rfl

instance (b : Block) (i : Nat) : Decidable (i ∈ b) :=
  inferInstanceAs (Decidable (b.start ≤ i ∧ i < b.start + b.len))

variable {κ : Type} {n : Nat} {w : κ} {c : Nat → κ} {live : List Block}

/-- The blocks `live` are painted on the row `c` of `n` cells. -/
structure Painted (n : Nat) (w : κ) (c : Nat → κ) (live : List Block) : Prop where
  pos : ∀ b ∈ live, 0 < b.len
  bound : ∀ b ∈ live, b.start + b.len ≤ n
  disj : live.Pairwise fun b b' => ∀ i, i ∈ b → i ∉ b'
  mono : ∀ b ∈ live, ∀ i, i ∈ b → c i = c b.start
  colored : ∀ b ∈ live, c b.start ≠ w
  owned : ∀ i < n, c i ≠ w → ∃ b ∈ live, i ∈ b
  sep : ∀ b ∈ live, ∀ b' ∈ live, b.start + b.len = b'.start → c b.start ≠ c b'.start

theorem start_mem {b : Block} (h : 0 < b.len) : b.start ∈ b := ⟨Nat.le_refl _, by omega⟩

namespace Painted

theorem nil (hw : ∀ i < n, c i = w) : Painted n w c [] where
  pos := by simp
  bound := by simp
  disj := List.Pairwise.nil
  mono := by simp
  colored := by simp
  owned := fun i hi hc => absurd (hw i hi) hc
  sep := by simp

/-- Two blocks with a common cell are one block. -/
theorem eq_of_mem (h : Painted n w c live) {b b' : Block} (hb : b ∈ live) (hb' : b' ∈ live)
    {i : Nat} (hi : i ∈ b) (hi' : i ∈ b') : b = b' := by
  by_contra hne
  have hsym : Std.Symm fun b b' : Block => ∀ i, i ∈ b → i ∉ b' := ⟨fun _ _ hd i h1 h2 => hd i h2 h1⟩
  exact h.disj.forall hb hb' hne i hi hi'

theorem nodup (h : Painted n w c live) : live.Nodup := by
  refine h.disj.imp_of_mem ?_
  intro b b' hb _ hd heq
  have := start_mem (h.pos b hb)
  exact hd _ this (heq ▸ this)

/-- The cell before a block has another colour. -/
theorem left_ne (h : Painted n w c live) {b : Block} (hb : b ∈ live) (h0 : 0 < b.start) :
    c (b.start - 1) ≠ c b.start := by
  intro heq
  have hbn := h.bound b hb
  have hpos := h.pos b hb
  obtain ⟨b', hb', hm⟩ := h.owned (b.start - 1) (by omega) (heq ▸ h.colored b hb)
  have hnot : b.start ∉ b' := fun hin => by
    have := h.eq_of_mem hb' hb hin (start_mem hpos)
    subst this
    have := hm.1
    omega
  have hend : b'.start + b'.len = b.start := by
    simp only [mem_def] at hm hnot
    omega
  exact h.sep b' hb' b hb hend ((h.mono b' hb' _ hm).symm.trans heq)

/-- The cell after a block has another colour. -/
theorem right_ne (h : Painted n w c live) {b : Block} (hb : b ∈ live) (hn : b.start + b.len < n) :
    c (b.start + b.len) ≠ c b.start := by
  intro heq
  have hpos := h.pos b hb
  obtain ⟨b', hb', hm⟩ := h.owned (b.start + b.len) hn (heq ▸ h.colored b hb)
  have hnot : b.start + b.len - 1 ∉ b' := fun hin => by
    have := h.eq_of_mem hb' hb hin ⟨by omega, by omega⟩
    subst this
    have := hm.2
    omega
  have hend : b.start + b.len = b'.start := by
    simp only [mem_def] at hm hnot
    omega
  exact h.sep b hb b' hb' hend (heq.symm.trans (h.mono b' hb' _ hm))

/-- A cell is not free iff a block covers it. -/
theorem colored_iff (h : Painted n w c live) {i : Nat} (hi : i < n) :
    c i ≠ w ↔ ∃ b ∈ live, i ∈ b := by
  constructor
  · exact h.owned i hi
  · rintro ⟨b, hb, hm⟩
    rw [h.mono b hb i hm]
    exact h.colored b hb

/-- Two neighbouring cells, the first not free, have the same colour iff one block covers both. -/
theorem same_iff (h : Painted n w c live) {i : Nat} (hi : i + 1 < n) (h0 : c i ≠ w) :
    c i = c (i + 1) ↔ ∃ b ∈ live, i ∈ b ∧ i + 1 ∈ b := by
  constructor
  · intro heq
    obtain ⟨b, hb, hm⟩ := h.owned i (by omega) h0
    refine ⟨b, hb, hm, ?_⟩
    by_contra hnot
    have hend : b.start + b.len = i + 1 := by
      simp only [mem_def] at hm hnot
      omega
    have := h.right_ne hb (by omega)
    rw [hend] at this
    exact this (heq.symm.trans (h.mono b hb i hm))
  · rintro ⟨b, hb, hm, hm'⟩
    rw [h.mono b hb i hm, h.mono b hb _ hm']

/-- Only the colours of the `n` cells matter. -/
theorem congr {c' : Nat → κ} (h : Painted n w c live) (hc : ∀ i < n, c' i = c i) :
    Painted n w c' live := by
  have hin : ∀ b ∈ live, ∀ i, i ∈ b → c' i = c i := fun b hb i hi =>
    hc i (Nat.lt_of_lt_of_le hi.2 (h.bound b hb))
  have hst : ∀ b ∈ live, c' b.start = c b.start := fun b hb => hin b hb _ (start_mem (h.pos b hb))
  refine ⟨h.pos, h.bound, h.disj, fun b hb i hi => ?_, fun b hb => ?_, fun i hi hw => ?_,
    fun b hb b' hb' hend => ?_⟩
  · rw [hin b hb i hi, hst b hb]
    exact h.mono b hb i hi
  · rw [hst b hb]
    exact h.colored b hb
  · exact h.owned i hi (hc i hi ▸ hw)
  · rw [hst b hb, hst b' hb']
    exact h.sep b hb b' hb' hend

/-- Painting a free block in a colour that neither neighbour has. -/
theorem alloc (h : Painted n w c live) {b : Block} {k : κ} (hpos : 0 < b.len)
    (hbn : b.start + b.len ≤ n) (hfree : ∀ i, i ∈ b → c i = w) (hk : k ≠ w)
    (hl : 0 < b.start → c (b.start - 1) ≠ k) (hr : b.start + b.len < n → c (b.start + b.len) ≠ k) :
    Painted n w (fun i => if i ∈ b then k else c i) (b :: live) := by
  -- no block of `live` meets the new one: its cells are free
  have hout : ∀ b' ∈ live, ∀ i, i ∈ b' → i ∉ b := fun b' hb' i hi hib =>
    h.colored b' hb' ((h.mono b' hb' i hi).symm.trans (hfree i hib))
  have hstart : ∀ b' ∈ live, b'.start ∉ b := fun b' hb' => hout b' hb' _ (start_mem (h.pos b' hb'))
  refine ⟨?_, ?_, ?_, ?_, ?_, ?_, ?_⟩
  · rintro b' (_ | ⟨_, hb'⟩)
    · exact hpos
    · exact h.pos b' hb'
  · rintro b' (_ | ⟨_, hb'⟩)
    · exact hbn
    · exact h.bound b' hb'
  · exact List.pairwise_cons.2 ⟨fun b' hb' i hi hi' => hout b' hb' i hi' hi, h.disj⟩
  · rintro b' (_ | ⟨_, hb'⟩) i hi
    · simp [hi, start_mem hpos]
    · simp only [hout b' hb' i hi, hstart b' hb', ite_false]
      exact h.mono b' hb' i hi
  · rintro b' (_ | ⟨_, hb'⟩)
    · simpa [start_mem hpos] using hk
    · simp only [hstart b' hb', ite_false]
      exact h.colored b' hb'
  · intro i hi hc
    by_cases hib : i ∈ b
    · exact ⟨b, by simp, hib⟩
    · simp only [hib, ite_false] at hc
      obtain ⟨b', hb', hm⟩ := h.owned i hi hc
      exact ⟨b', by simp [hb'], hm⟩
  · rintro b₁ (_ | ⟨_, hb₁⟩) b₂ (_ | ⟨_, hb₂⟩) hend
    · omega
    · -- the new block touches `b₂` on its right
      simp only [start_mem hpos, hstart b₂ hb₂, ite_true, ite_false]
      have := h.bound b₂ hb₂
      have := h.pos b₂ hb₂
      exact fun heq => hr (by omega) (by rw [hend]; exact heq.symm)
    · -- `b₁` touches the new block on its left
      simp only [start_mem hpos, hstart b₁ hb₁, ite_true, ite_false]
      have hp₁ := h.pos b₁ hb₁
      have hm : c (b.start - 1) = c b₁.start := h.mono b₁ hb₁ _ ⟨by omega, by omega⟩
      exact fun heq => hl (by omega) (hm.trans heq)
    · simp only [hstart b₁ hb₁, hstart b₂ hb₂, ite_false]
      exact h.sep b₁ hb₁ b₂ hb₂ hend

/-- Freeing a block. -/
theorem free (h : Painted n w c live) {b : Block} (hb : b ∈ live) :
    Painted n w (fun i => if i ∈ b then w else c i) (live.erase b) := by
  have hmem : ∀ b' ∈ live.erase b, b' ∈ live ∧ b' ≠ b := fun b' hb' =>
    ⟨List.mem_of_mem_erase hb', fun heq => by
      subst heq
      exact h.nodup.not_mem_erase hb'⟩
  have hout : ∀ b' ∈ live.erase b, ∀ i, i ∈ b' → i ∉ b := fun b' hb' i hi hib =>
    (hmem b' hb').2 (h.eq_of_mem (hmem b' hb').1 hb hi hib)
  have hstart : ∀ b' ∈ live.erase b, b'.start ∉ b := fun b' hb' =>
    hout b' hb' _ (start_mem (h.pos b' (hmem b' hb').1))
  refine ⟨fun b' hb' => h.pos b' (hmem b' hb').1, fun b' hb' => h.bound b' (hmem b' hb').1,
    h.disj.sublist List.erase_sublist, ?_, ?_, ?_, ?_⟩
  · intro b' hb' i hi
    simp only [hout b' hb' i hi, hstart b' hb', ite_false]
    exact h.mono b' (hmem b' hb').1 i hi
  · intro b' hb'
    simp only [hstart b' hb', ite_false]
    exact h.colored b' (hmem b' hb').1
  · intro i hi hc
    by_cases hib : i ∈ b
    · simp [hib] at hc
    · simp only [hib, ite_false] at hc
      obtain ⟨b', hb', hm⟩ := h.owned i hi hc
      have hne : b' ≠ b := by
        rintro rfl
        exact hib hm
      exact ⟨b', (List.mem_erase_of_ne hne).2 hb', hm⟩
  · intro b₁ hb₁ b₂ hb₂ hend
    simp only [hstart b₁ hb₁, hstart b₂ hb₂, ite_false]
    exact h.sep b₁ (hmem b₁ hb₁).1 b₂ (hmem b₂ hb₂).1 hend

end Painted

/-! ## Counting free cells -/

section
variable [DecidableEq κ]

/-- The number of cells of colour `w` among the first `n`. -/
def count (n : Nat) (w : κ) (c : Nat → κ) : Nat := ((Finset.range n).filter fun i => c i = w).card

theorem count_congr {c' : Nat → κ} (hc : ∀ i < n, c' i = c i) : count n w c' = count n w c := by
  unfold count
  congr 1
  refine Finset.filter_congr fun i hi => ?_
  rw [hc i (Finset.mem_range.1 hi)]

theorem count_le (n : Nat) (w : κ) (c : Nat → κ) : count n w c ≤ n :=
  (Finset.card_filter_le _ _).trans_eq (Finset.card_range _)

theorem card_block {b : Block} (hbn : b.start + b.len ≤ n) :
    ((Finset.range n).filter fun i => i ∈ b).card = b.len := by
  have : (Finset.range n).filter (fun i => i ∈ b) = Finset.Ico b.start (b.start + b.len) := by
    ext i
    simp only [Finset.mem_filter, Finset.mem_range, Finset.mem_Ico, mem_def]
    omega
  rw [this, Nat.card_Ico]
  omega

/-- Freeing a block adds its length to the count. -/
theorem count_free {b : Block} (hbn : b.start + b.len ≤ n) (hcol : ∀ i, i ∈ b → c i ≠ w) :
    count n w (fun i => if i ∈ b then w else c i) = count n w c + b.len := by
  rw [← card_block hbn]
  unfold count
  rw [← Finset.card_union_of_disjoint]
  · congr 1
    ext i
    simp only [Finset.mem_union, Finset.mem_filter, Finset.mem_range]
    by_cases hi : i ∈ b
    · simp only [hi, ite_true, and_true]
      tauto
    · simp [hi]
  · exact Finset.disjoint_filter.2 fun i _ hc hib => hcol i hib hc

/-- Recolouring the cells of a block from free to `k` takes its length off the count. -/
theorem count_paint {b : Block} {k : κ} (hbn : b.start + b.len ≤ n) (hfree : ∀ i, i ∈ b → c i = w)
    (hk : k ≠ w) : count n w (fun i => if i ∈ b then k else c i) + b.len = count n w c := by
  -- freeing the block afterwards gives the old colours back
  rw [← count_free hbn fun i hi => by rwa [if_pos hi]]
  congr 1
  funext i
  by_cases hi : i ∈ b
  · rw [if_pos hi, hfree i hi]
  · rw [if_neg hi, if_neg hi]

end

end Blocks
