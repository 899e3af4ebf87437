import Mathlib.Data.List.Perm.Basic
import RedMagic.Lib.Blocks

/-!
# Tilings of an interval

`Tiles a b bs`: the blocks of the list `bs`, in any order, are non-empty, pairwise disjoint, and
together are exactly the cells `a, …, b - 1`. A tile may be cut in two and two tiles that touch may be
joined (`Tiles.split`, `Tiles.join`); the order of the list does not matter (`Tiles.perm`). Tiles that do
not touch are the longest runs outside the others (`Tiles.maxRun_iff`).
-/

namespace Blocks

structure Tiles (a b : Nat) (bs : List Block) : Prop where
  pos : ∀ x ∈ bs, 0 < x.len
  disj : bs.Pairwise fun x y => ∀ i, i ∈ x → i ∉ y
  cover : ∀ i, (∃ x ∈ bs, i ∈ x) ↔ a ≤ i ∧ i < b

namespace Tiles

variable {a b s k l : Nat} {bs bs' : List Block}

theorem single (h : a < b) : Tiles a b [⟨a, b - a⟩] where
  pos := by simpa using by omega
  disj := List.pairwise_singleton _ _
  cover := by
    intro i
    simp only [List.mem_singleton, exists_eq_left, mem_def]
    omega

theorem perm (h : Tiles a b bs) (hp : bs.Perm bs') : Tiles a b bs' where
  pos := fun x hx => h.pos x (hp.mem_iff.2 hx)
  disj := h.disj.perm hp fun hd i hi hi' => hd i hi' hi
  cover := by
    intro i
    rw [← h.cover i]
    constructor
    · rintro ⟨x, hx, hi⟩; exact ⟨x, hp.mem_iff.2 hx, hi⟩
    · rintro ⟨x, hx, hi⟩; exact ⟨x, hp.mem_iff.1 hx, hi⟩

/-- A tile cut in two. -/
theorem split (h : Tiles a b (⟨s, l⟩ :: bs)) (hk : 0 < k) (hkl : k < l) :
    Tiles a b (⟨s, k⟩ :: ⟨s + k, l - k⟩ :: bs) := by
  have hpart : ∀ i, (i ∈ (⟨s, l⟩ : Block)) ↔ i ∈ (⟨s, k⟩ : Block) ∨ i ∈ (⟨s + k, l - k⟩ : Block) := by
    intro i
    simp only [mem_def]
    omega
  obtain ⟨hd, hdbs⟩ := List.pairwise_cons.1 h.disj
  refine ⟨?_, ?_, ?_⟩
  · intro x hx
    rcases List.mem_cons.1 hx with rfl | hx
    · exact hk
    · rcases List.mem_cons.1 hx with rfl | hx
      · show 0 < l - k; omega
      · exact h.pos x (by simp [hx])
  · refine List.pairwise_cons.2 ⟨?_, List.pairwise_cons.2 ⟨?_, hdbs⟩⟩
    · intro y hy i hi
      rcases List.mem_cons.1 hy with rfl | hy
      · simp only [mem_def] at hi ⊢; omega
      · exact hd y hy i ((hpart i).2 (.inl hi))
    · intro y hy i hi
      exact hd y hy i ((hpart i).2 (.inr hi))
  · intro i
    rw [← h.cover i]
    simp only [List.mem_cons, exists_eq_or_imp, hpart i, or_assoc]

/-- Two tiles that touch, joined. -/
theorem join (h : Tiles a b (⟨s, k⟩ :: ⟨s + k, l⟩ :: bs)) : Tiles a b (⟨s, k + l⟩ :: bs) := by
  have hpart : ∀ i, (i ∈ (⟨s, k + l⟩ : Block)) ↔ i ∈ (⟨s, k⟩ : Block) ∨ i ∈ (⟨s + k, l⟩ : Block) := by
    intro i
    simp only [mem_def]
    omega
  obtain ⟨hd, hd'⟩ := List.pairwise_cons.1 h.disj
  obtain ⟨hd', hdbs⟩ := List.pairwise_cons.1 hd'
  refine ⟨?_, ?_, ?_⟩
  · intro x hx
    rcases List.mem_cons.1 hx with rfl | hx
    · have : 0 < k := h.pos ⟨s, k⟩ (by simp)
      show 0 < k + l; omega
    · exact h.pos x (by simp [hx])
  · refine List.pairwise_cons.2 ⟨?_, hdbs⟩
    intro y hy i hi
    rcases (hpart i).1 hi with hi | hi
    · exact hd y (by simp [hy]) i hi
    · exact hd' y hy i hi
  · intro i
    rw [← h.cover i]
    simp only [List.mem_cons, exists_eq_or_imp, hpart i, or_assoc]

/-- Every tile lies inside the interval. -/
theorem inside (h : Tiles a b bs) {x : Block} (hx : x ∈ bs) : a ≤ x.start ∧ x.start + x.len ≤ b := by
  have hp := h.pos x hx
  have h1 := (h.cover x.start).1 ⟨x, hx, start_mem hp⟩
  have h2 := (h.cover (x.start + x.len - 1)).1 ⟨x, hx, ⟨by omega, by omega⟩⟩
  omega

/-- Two tiles at different places of the list are apart. -/
theorem apart {x y : Block} (h : Tiles a b (x :: bs)) (hy : y ∈ bs) :
    x.start + x.len ≤ y.start ∨ y.start + y.len ≤ x.start := by
  have hd := (List.pairwise_cons.1 h.disj).1 y hy
  have hx := h.pos x (by simp)
  have hyp := h.pos y (by simp [hy])
  have h1 := hd x.start (start_mem hx)
  have h2 : y.start ∉ x := fun hin => hd y.start hin (start_mem hyp)
  simp only [mem_def] at h1 h2
  omega

theorem apart_of_ne {x y : Block} (h : Tiles a b bs) (hx : x ∈ bs) (hy : y ∈ bs) (hne : y ≠ x) :
    x.start + x.len ≤ y.start ∨ y.start + y.len ≤ x.start :=
  (h.perm (List.perm_cons_erase hx)).apart ((List.mem_erase_of_ne hne).2 hy)

/-- A tiling in which no tile ends where another begins is one tile. -/
theorem eq_single_of_gaps (h : Tiles a b bs) (hab : a < b) (hgaps : ∀ x ∈ bs, ∀ y ∈ bs, x.start + x.len ≠ y.start) :
    bs = [⟨a, b - a⟩] := by
  obtain ⟨x, hx, hax⟩ := (h.cover a).2 ⟨Nat.le_refl a, hab⟩
  have hin := h.inside hx
  have hfront := h.perm (List.perm_cons_erase hx)
  -- no tile follows the first one, so it reaches the end
  have hend : x.start + x.len = b := by
    by_contra hne
    obtain ⟨y, hy, hiy⟩ := (h.cover (x.start + x.len)).2 (by omega)
    rcases List.mem_cons.1 ((List.perm_cons_erase hx).mem_iff.1 hy) with rfl | hy'
    · simp only [mem_def] at hiy
      omega
    · have hapart := hfront.apart hy'
      have hne' := hgaps x hx y hy
      simp only [mem_def] at hiy
      omega
  have hrest : bs.erase x = [] := by
    rw [List.eq_nil_iff_forall_not_mem]
    intro y hy
    have hyin := h.inside (List.mem_of_mem_erase hy)
    have hpos := h.pos y (List.mem_of_mem_erase hy)
    have hapart := hfront.apart hy
    simp only [mem_def] at hax
    omega
  have hx' : x = ⟨a, b - a⟩ := by
    obtain ⟨s, l⟩ := x
    simp only [mem_def] at hax hin hend
    rw [Block.mk.injEq]
    omega
  have hperm := List.perm_cons_erase hx
  rw [hrest, hx'] at hperm
  exact List.perm_singleton.1 hperm

end Tiles

/-! ## Longest runs -/

/-- A longest non-empty block of cells that all have `P`. -/
structure MaxRun (P : Nat → Prop) (b : Block) : Prop where
  pos : 0 < b.len
  all : ∀ i, i ∈ b → P i
  longest : ∀ b' : Block, (∀ i, i ∈ b' → P i) → (∀ i, i ∈ b → i ∈ b') → b' = b

section
variable {a b : Nat} {xs ys : List Block}

/-- A block all of whose neighbours lack `P` is a longest run. -/
theorem MaxRun.of_ends {P : Nat → Prop} {x : Block} (hpos : 0 < x.len) (hall : ∀ i, i ∈ x → P i)
    (hleft : 0 < x.start → ¬ P (x.start - 1)) (hright : ¬ P (x.start + x.len)) : MaxRun P x := by
  refine ⟨hpos, hall, ?_⟩
  rintro ⟨s, l⟩ hP hsub
  have hfirst := hsub x.start (start_mem hpos)
  have hlast := hsub (x.start + x.len - 1) ⟨by omega, by omega⟩
  simp only [mem_def] at hfirst hlast
  have hs : s = x.start := by
    by_contra hne
    refine hleft (by omega) (hP _ ?_)
    simp only [mem_def]
    omega
  have hl : s + l = x.start + x.len := by
    by_contra hne
    refine hright (hP _ ?_)
    simp only [mem_def]
    omega
  subst hs
  rw [show l = x.len by omega]

/-- Two longest runs with a common cell are one. -/
theorem MaxRun.eq_of_mem {P : Nat → Prop} {x y : Block} (hx : MaxRun P x) (hy : MaxRun P y) {i : Nat} (hi : i ∈ x)
    (hi' : i ∈ y) : x = y := by
  -- the run from the first to the last cell of the two
  obtain ⟨u, hu⟩ : ∃ u : Block, ∀ j, j ∈ u ↔ j ∈ x ∨ j ∈ y := by
    refine ⟨⟨min x.start y.start, max (x.start + x.len) (y.start + y.len) - min x.start y.start⟩, fun j => ?_⟩
    simp only [mem_def] at *
    omega
  have hall : ∀ j, j ∈ u → P j := by
    intro j hj
    rcases (hu j).1 hj with h | h
    · exact hx.all j h
    · exact hy.all j h
  have hux := hx.longest u hall fun j hj => (hu j).2 (.inl hj)
  have huy := hy.longest u hall fun j hj => (hu j).2 (.inr hj)
  exact hux.symm.trans huy

/-- The tiles of `xs`, no two of which touch, are the longest runs outside the tiles of `ys`. -/
theorem Tiles.maxRun_iff (h : Tiles a b (xs ++ ys)) (hgaps : ∀ x ∈ xs, ∀ y ∈ xs, x.start + x.len ≠ y.start)
    (r : Block) : MaxRun (fun i => (a ≤ i ∧ i < b) ∧ ∀ y ∈ ys, i ∉ y) r ↔ r ∈ xs := by
  have hfree : ∀ i, (a ≤ i ∧ i < b) ∧ (∀ y ∈ ys, i ∉ y) ↔ ∃ x ∈ xs, i ∈ x := by
    intro i
    constructor
    · rintro ⟨hin, hno⟩
      obtain ⟨x, hx, hix⟩ := (h.cover i).2 hin
      rcases List.mem_append.1 hx with hx | hy
      · exact ⟨x, hx, hix⟩
      · exact absurd hix (hno x hy)
    · rintro ⟨x, hx, hix⟩
      refine ⟨(h.cover i).1 ⟨x, List.mem_append_left _ hx, hix⟩, fun y hy => ?_⟩
      exact (List.pairwise_append.1 h.disj).2.2 x hx y hy i hix
  have hrun : ∀ x ∈ xs, MaxRun (fun i => (a ≤ i ∧ i < b) ∧ ∀ y ∈ ys, i ∉ y) x := by
    intro x hx
    have hpos := h.pos x (List.mem_append_left _ hx)
    -- a tile over the cell next to `x` would touch `x`
    refine MaxRun.of_ends hpos (fun i hi => (hfree i).2 ⟨x, hx, hi⟩) ?_ ?_
    · intro h0 hc
      obtain ⟨z, hz, hiz⟩ := (hfree _).1 hc
      have hne : z ≠ x := by
        rintro rfl
        simp only [mem_def] at hiz
        omega
      have hapart := h.apart_of_ne (List.mem_append_left _ hx) (List.mem_append_left _ hz) hne
      have hgap := hgaps z hz x hx
      simp only [mem_def] at hiz
      omega
    · intro hc
      obtain ⟨z, hz, hiz⟩ := (hfree _).1 hc
      have hne : z ≠ x := by
        rintro rfl
        simp only [mem_def] at hiz
        omega
      have hapart := h.apart_of_ne (List.mem_append_left _ hx) (List.mem_append_left _ hz) hne
      have hgap := hgaps x hx z hz
      simp only [mem_def] at hiz
      omega
  constructor
  · intro hr
    obtain ⟨x, hx, hix⟩ := (hfree r.start).1 (hr.all _ (start_mem hr.pos))
    rw [hr.eq_of_mem (hrun x hx) (start_mem hr.pos) hix]
    exact hx
  · exact hrun r

end

end Blocks
