import Mathlib.Data.Set.Basic
import RedMagic.Heap.OnFrames

/-!
# `__kfree` after `__kmalloc`, with sizes of 0

`__kmalloc(0)` cuts an empty block off the front of the best free block, so two nodes begin at one address, and
`__kfree` of an empty block takes the block for its own left neighbour. Free blocks get lost that way, and the
heap is no partition of its range any more. What all calls keep is `Loose`: the blocks that are not empty are
apart, the free ones are not empty and do not touch. It is enough for a call with a positive size to be
undone (`kfree_undoes_kmalloc`).
-/

namespace RedMagic.Heap

open Mm Blocks Lts

/-- The bytes that the free blocks cover. -/
def freeBytes (h : HeapDesc) : Set Nat := {x | ∃ n ∈ h.free, x ∈ blockOf h.blk n}

/-- The reserved blocks. -/
def resBlocks (h : HeapDesc) : List Block := h.res.map (blockOf h.blk)

structure Loose (h : HeapDesc) : Prop where
  fits : h.endAddr < 2 ^ 32
  nodes : (h.free ++ h.res ++ h.avail).Perm (pageNodes h.pages)
  pages : PagesOk h.pages
  inside : ∀ n ∈ h.free ++ h.res, h.start ≤ (h.blk n).base ∧ endOf h.blk n ≤ h.endAddr
  disj : ∀ n ∈ h.free ++ h.res, ∀ k ∈ h.free ++ h.res, k ≠ n → ∀ x, x ∈ blockOf h.blk n → x ∉ blockOf h.blk k
  pos : ∀ n ∈ h.free, 0 < (h.blk n).size
  gaps : ∀ n ∈ h.free, ∀ k ∈ h.free, endOf h.blk n ≠ (h.blk k).base

theorem HeapInv.loose {h : HeapDesc} (hi : HeapInv h) : Loose h where
  fits := hi.fits
  nodes := hi.nodes
  pages := hi.pages
  inside := fun _ hn => hi.inside hn
  disj := by
    intro n hn k hk hne x hx hx'
    have hapart := hi.apart hn hk hne
    simp only [endOf, blockOf, mem_def] at *
    omega
  pos := fun _ hn => hi.pos (List.mem_append_left _ hn)
  gaps := hi.gaps

section
variable {h h' : HeapDesc} (hl : Loose h) {n : Nat}
include hl

theorem Loose.nodup : (h.free ++ h.res ++ h.avail).Nodup := hl.nodes.nodup_iff.2 (nodup_pageNodes hl.pages)

theorem Loose.used_nodup : (h.free ++ h.res).Nodup := (List.nodup_append.1 hl.nodup).1

theorem Loose.free_nodup : h.free.Nodup := (List.nodup_append.1 hl.used_nodup).1

theorem Loose.not_free_of_res (hn : n ∈ h.res) : n ∉ h.free := fun hf =>
  (List.nodup_append.1 hl.used_nodup).2.2 n hf n hn rfl

theorem Loose.not_used_of_avail (hn : n ∈ h.avail) : n ∉ h.free ++ h.res := fun hf =>
  (List.nodup_append.1 hl.nodup).2.2 n hf n hn rfl

/-- Two used blocks that are not empty lie one after the other. -/
theorem Loose.apart {k : Nat} (hn : n ∈ h.free ++ h.res) (hk : k ∈ h.free ++ h.res) (hne : k ≠ n)
    (hpn : 0 < (h.blk n).size) (hpk : 0 < (h.blk k).size) :
    endOf h.blk n ≤ (h.blk k).base ∨ endOf h.blk k ≤ (h.blk n).base := by
  have hdisj := hl.disj n hn k hk hne (max (h.blk n).base (h.blk k).base)
  simp only [endOf, blockOf, mem_def] at *
  omega

/-- A heap that uses fewer nodes, with the same blocks. -/
theorem Loose.of_used (hstart : h'.start = h.start) (hend : h'.endAddr = h.endAddr)
    (hnodes : (h'.free ++ h'.res ++ h'.avail).Perm (pageNodes h'.pages)) (hpages : PagesOk h'.pages)
    (hfree : ∀ n ∈ h'.free, n ∈ h.free) (hused : ∀ n ∈ h'.free ++ h'.res, n ∈ h.free ++ h.res)
    (hblk : ∀ n ∈ h'.free ++ h'.res, h'.blk n = h.blk n) : Loose h' := by
  refine ⟨hend ▸ hl.fits, hnodes, hpages, ?_, ?_, ?_, ?_⟩
  · intro n hn
    rw [endOf, hblk n hn, hstart, hend]
    exact hl.inside n (hused n hn)
  · intro n hn k hk
    rw [blockOf, blockOf, hblk n hn, hblk k hk]
    exact hl.disj n (hused n hn) k (hused k hk)
  · intro n hn
    rw [hblk n (List.mem_append_left _ hn)]
    exact hl.pos n (hfree n hn)
  · intro n hn k hk
    rw [endOf, hblk n (List.mem_append_left _ hn), hblk k (List.mem_append_left _ hk)]
    exact hl.gaps n (hfree n hn) k (hfree k hk)

/-- A heap in which the free node `x` has another block, apart from the blocks of the other nodes. -/
theorem Loose.replace {x : Nat} (hstart : h'.start = h.start) (hend : h'.endAddr = h.endAddr)
    (hnodes : (h'.free ++ h'.res ++ h'.avail).Perm (pageNodes h'.pages)) (hpages : PagesOk h'.pages)
    (hfree : ∀ n ∈ h'.free, n ≠ x → n ∈ h.free)
    (hold : ∀ n ∈ h'.free ++ h'.res, n ≠ x → n ∈ h.free ++ h.res ∧ h'.blk n = h.blk n)
    (hin : h.start ≤ (h'.blk x).base ∧ endOf h'.blk x ≤ h.endAddr) (hpos : 0 < (h'.blk x).size)
    (hdisj : ∀ n ∈ h'.free ++ h'.res, n ≠ x → ∀ y, y ∈ blockOf h.blk n → y ∉ blockOf h'.blk x)
    (hgaps : ∀ n ∈ h'.free, ∀ k ∈ h'.free, endOf h'.blk n ≠ (h'.blk k).base) : Loose h' := by
  have hother : ∀ n ∈ h'.free ++ h'.res, n ≠ x → blockOf h'.blk n = blockOf h.blk n := by
    intro n hn hne
    rw [blockOf, blockOf, (hold n hn hne).2]
  refine ⟨hend ▸ hl.fits, hnodes, hpages, ?_, ?_, ?_, hgaps⟩
  · intro n hn
    rw [hstart, hend]
    by_cases hnx : n = x
    · rw [hnx]
      exact hin
    · rw [endOf, (hold n hn hnx).2]
      exact hl.inside n (hold n hn hnx).1
  · intro n hn k hk hne y hy hy'
    by_cases hnx : n = x
    · have hkx : k ≠ x := hnx ▸ hne
      rw [hother k hk hkx] at hy'
      exact hdisj k hk hkx y hy' (hnx ▸ hy)
    · rw [hother n hn hnx] at hy
      by_cases hkx : k = x
      · exact hdisj n hn hnx y hy (hkx ▸ hy')
      · rw [hother k hk hkx] at hy'
        exact hl.disj n (hold n hn hnx).1 k (hold k hk hkx).1 hne y hy hy'
  · intro n hn
    by_cases hnx : n = x
    · rw [hnx]
      exact hpos
    · rw [(hold n (List.mem_append_left _ hn) hnx).2]
      exact hl.pos n (hfree n hn hnx)

/-- A heap with one more reserved block, apart from the blocks of the other nodes. -/
theorem Loose.reserve {b : Blk} (hn : n ∈ h.avail) (hin : h.start ≤ b.base ∧ b.base + b.size ≤ h.endAddr)
    (hdisj : ∀ k ∈ h.free ++ h.res, ∀ x, x ∈ blockOf h.blk k → x ∉ (⟨b.base, b.size⟩ : Block)) :
    Loose { h with blk := Function.update h.blk n b, avail := h.avail.erase n, res := n :: h.res } := by
  have hnu := hl.not_used_of_avail hn
  have hold : ∀ k ∈ h.free ++ h.res, Function.update h.blk n b k = h.blk k := by
    intro k hk
    refine Function.update_of_ne ?_ _ _
    rintro rfl
    exact hnu hk
  -- a used node is the new one or an old one
  have hused : ∀ k ∈ h.free ++ n :: h.res, k = n ∨ k ∈ h.free ++ h.res := by
    intro k hk
    simpa only [List.mem_append, List.mem_cons, or_left_comm] using hk
  refine ⟨hl.fits, (perm_avail_res hn).trans hl.nodes, hl.pages, ?_, ?_, ?_, ?_⟩
  · intro k hk
    rcases hused k hk with rfl | hk
    · simpa only [endOf, Function.update_self] using hin
    · simpa only [endOf, hold k hk] using hl.inside k hk
  · intro i hi k hk hne x hx hx'
    rcases hused i hi with rfl | hi'
    · rcases hused k hk with rfl | hk'
      · exact absurd rfl hne
      · simp only [blockOf, Function.update_self, hold k hk'] at hx hx'
        exact hdisj k hk' x hx' hx
    · rcases hused k hk with rfl | hk'
      · simp only [blockOf, Function.update_self, hold i hi'] at hx hx'
        exact hdisj i hi' x hx hx'
      · simp only [blockOf, hold i hi', hold k hk'] at hx hx'
        exact hl.disj i hi' k hk' hne x hx hx'
  · intro k hk
    simpa only [hold k (List.mem_append_left _ hk)] using hl.pos k hk
  · intro i hi k hk
    simpa only [endOf, hold i (List.mem_append_left _ hi), hold k (List.mem_append_left _ hk)] using hl.gaps i hi k hk

end

/-! ## `__kmalloc` -/

/-- What a call with result `r` adds to the reserved list and takes from the free bytes. A block of size 0 lies
at the front of a free block. -/
structure Taken (h h' : HeapDesc) (r size n : Nat) : Prop extends Reserved h h' r size n where
  bytes : freeBytes h = freeBytes h' ∪ {x | x ∈ (⟨r, size⟩ : Block)}
  front : size = 0 → ∃ k ∈ h'.free, (h'.blk k).base = r

section
variable {h : HeapDesc} (hl : Loose h) {hbp found size : Nat} (hf : found ∈ h.free) (hlt : size < (h.blk found).size)
include hl hf hlt

theorem Loose.base_add_lt : (h.blk found).base + size < 2 ^ 32 := by
  have hin := hl.inside found (List.mem_append_left _ hf)
  have hfit := hl.fits
  unfold endOf at hin
  omega

/-- A free block gives up its front. -/
theorem Loose.shrink :
    Loose { h with blk := Function.update h.blk found ⟨(h.blk found).base + size, (h.blk found).size - size⟩ } := by
  have hfu : found ∈ h.free ++ h.res := List.mem_append_left _ hf
  have hin := hl.inside found hfu
  refine hl.replace (x := found) rfl rfl hl.nodes hl.pages (fun n hn _ => hn)
    (fun n hn hnf => ⟨hn, Function.update_of_ne hnf _ _⟩) ?_ ?_ ?_ ?_
  · simp only [endOf, Function.update_self] at hin ⊢
    omega
  · simp only [Function.update_self]
    omega
  · intro n hn hnf x hx
    have hno := hl.disj n hn found hfu hnf.symm x hx
    simp only [blockOf, mem_def, Function.update_self] at hno ⊢
    omega
  · intro n hn k hk
    have hgap := hl.gaps n hn k hk
    have hpn := hl.pos n hn
    by_cases hnf : n = found
    · subst hnf
      by_cases hkf : k = n
      · subst hkf
        simp only [endOf, Function.update_self]
        omega
      · simp only [endOf, Function.update_self, Function.update_of_ne hkf] at hgap ⊢
        omega
    · by_cases hkf : k = found
      · subst hkf
        have := hl.apart (List.mem_append_left _ hn) hfu (Ne.symm hnf) hpn (by omega)
        simp only [endOf, Function.update_self, Function.update_of_ne hnf] at this hgap ⊢
        omega
      · simp only [endOf, Function.update_of_ne hnf, Function.update_of_ne hkf] at hgap ⊢
        exact hgap

variable (hh : hbp ∈ h.avail)
include hh

/-- The blocks after a cut. -/
theorem Loose.carve_blk : (carve h hbp found size).blk found = ⟨(h.blk found).base + size, (h.blk found).size - size⟩ ∧
    (carve h hbp found size).blk hbp = ⟨(h.blk found).base, size⟩ ∧
      ∀ n ∈ h.free ++ h.res, n ≠ found → (carve h hbp found size).blk n = h.blk n := by
  have hfu : found ∈ h.free ++ h.res := List.mem_append_left _ hf
  have hnu := hl.not_used_of_avail hh
  have hne : hbp ≠ found := by
    rintro rfl
    exact hnu hfu
  obtain ⟨hfound, hnew, hother⟩ := Heap.carve_blk hne (hl.base_add_lt hf hlt)
  exact ⟨hfound, hnew, fun n hn hnf => hother n hnf fun hc => hnu (hc ▸ hn)⟩

/-- First `found` gives up its front, then the new node gets it. -/
theorem carve_loose : Loose (carve h hbp found size) := by
  have hfu : found ∈ h.free ++ h.res := List.mem_append_left _ hf
  have hne : found ≠ hbp := fun hc => hl.not_used_of_avail hh (hc ▸ hfu)
  have hin := hl.inside found hfu
  have hbase := hl.base_add_lt hf hlt
  have hres := (hl.shrink hf hlt).reserve (b := ⟨(h.blk found).base, size⟩) hh
    (by unfold endOf at hin; dsimp only; omega) ?_
  · rw [Function.update_comm hne] at hres
    simp only [carve, u32_of_lt hbase]
    exact hres
  · intro n hn x hx
    by_cases hnf : n = found
    · simp only [hnf, blockOf, mem_def, Function.update_self] at hx ⊢
      omega
    · simp only [blockOf, Function.update_of_ne hnf] at hx
      have hno := hl.disj n hn found hfu (Ne.symm hnf) x hx
      simp only [blockOf, mem_def] at hno ⊢
      omega

theorem carve_bytes :
    freeBytes h = freeBytes (carve h hbp found size) ∪ {x | x ∈ (⟨(h.blk found).base, size⟩ : Block)} := by
  obtain ⟨hfound, -, hold⟩ := hl.carve_blk hf hlt hh
  ext x
  simp only [freeBytes, Set.mem_union, Set.mem_ofPred_eq, blockOf, mem_def]
  constructor
  · rintro ⟨n, hn, hx⟩
    by_cases hnf : n = found
    · subst hnf
      by_cases hlow : x < (h.blk n).base + size
      · exact .inr ⟨hx.1, hlow⟩
      · refine .inl ⟨n, hn, ?_⟩
        rw [hfound]
        dsimp only
        omega
    · refine .inl ⟨n, hn, ?_⟩
      rwa [hold n (List.mem_append_left _ hn) hnf]
  · rintro (⟨n, hn, hx⟩ | hx)
    · by_cases hnf : n = found
      · subst hnf
        rw [hfound] at hx
        dsimp only at hx
        exact ⟨n, hn, by omega⟩
      · rw [hold n (List.mem_append_left _ hn) hnf] at hx
        exact ⟨n, hn, hx⟩
    · exact ⟨found, hf, by omega⟩

theorem carve_taken : Taken h (carve h hbp found size) (h.blk found).base size hbp := by
  obtain ⟨hfound, hnew, hold⟩ := hl.carve_blk hf hlt hh
  refine ⟨⟨rfl, hnew, fun n hn => hold n (List.mem_append_right _ hn) ?_⟩, carve_bytes hl hf hlt hh, ?_⟩
  · rintro rfl
    exact hl.not_free_of_res hn hf
  · rintro rfl
    exact ⟨found, hf, by rw [hfound]; rfl⟩

end

theorem take_loose {h : HeapDesc} (hl : Loose h) {n : Nat} (hn : n ∈ h.free) :
    Loose { h with free := h.free.erase n, res := n :: h.res } ∧
      Taken h { h with free := h.free.erase n, res := n :: h.res } (h.blk n).base (h.blk n).size n := by
  have hpos := hl.pos n hn
  refine ⟨?_, ⟨rfl, rfl, fun _ _ => rfl⟩, ?_, fun hzero => by omega⟩
  · refine hl.of_used rfl rfl ((perm_free_res hn).trans hl.nodes) hl.pages (fun k hk => List.mem_of_mem_erase hk) ?_
      (fun _ _ => rfl)
    intro k hk
    rcases List.mem_append.1 hk with hk | hk
    · exact List.mem_append_left _ (List.mem_of_mem_erase hk)
    · rcases List.mem_cons.1 hk with rfl | hk
      · exact List.mem_append_left _ hn
      · exact List.mem_append_right _ hk
  · ext x
    simp only [freeBytes, Set.mem_union, Set.mem_ofPred_eq]
    constructor
    · rintro ⟨k, hk, hx⟩
      by_cases hkn : k = n
      · subst hkn
        exact .inr hx
      · exact .inl ⟨k, (List.mem_erase_of_ne hkn).2 hk, hx⟩
    · rintro (⟨k, hk, hx⟩ | hx)
      · exact ⟨k, List.mem_of_mem_erase hk, hx⟩
      · exact ⟨n, hn, hx⟩

theorem addPage_loose {h : HeapDesc} (hl : Loose h) (hne : h.pages ≠ []) {pg : Nat}
    (hf : FreshPage h.start h.endAddr h.pages pg) :
    Loose (addPage h pg) ∧ ∀ n ∈ h.free ++ h.res, (addPage h pg).blk n = h.blk n := by
  obtain ⟨hnodes, hpages, hkeep⟩ := addPage_nodes hl.nodes hl.pages hne hf
  have hblk : ∀ n ∈ h.free ++ h.res, (addPage h pg).blk n = h.blk n :=
    fun n hn => hkeep n (List.mem_append_left _ hn)
  exact ⟨hl.of_used rfl rfl hnodes hpages (fun _ hn => hn) (fun _ hn => hn) hblk, hblk⟩

theorem Loose.pages_ne_nil {h : HeapDesc} (hl : Loose h) {n : Nat} (hn : n ∈ h.free ++ h.res) : h.pages ≠ [] := by
  intro hnil
  have hmem : n ∈ pageNodes h.pages := hl.nodes.mem_iff.1 (List.mem_append_left _ hn)
  rw [hnil] at hmem
  cases hmem

theorem kmalloc_loose {σ : Type} {alloc : σ → Except String (Option Nat × σ)} {h h' : HeapDesc} {s s' : σ}
    {size r : Nat} (hl : Loose h)
    (hfresh : ∀ pg s', alloc s = .ok (some pg, s') → FreshPage h.start h.endAddr h.pages pg)
    (hk : kmalloc alloc size h s = .ok (r, h', s')) : Loose h' ∧ (r ≠ 0 → ∃ n, Taken h h' r size n) := by
  cases kmalloc_outcome hk with
  | @whole n hscan =>
    obtain ⟨hmem, rfl⟩ := scanFree_exact hscan
    obtain ⟨hl', htaken⟩ := take_loose hl hmem
    exact ⟨hl', fun _ => ⟨n, htaken⟩⟩
  | full => exact ⟨hl, fun hr => absurd rfl hr⟩
  | @cut found n rest hscan havail =>
    obtain ⟨hmem, hlt⟩ := scanFree_found hscan
    have hn : n ∈ h.avail := by simp [havail]
    exact ⟨carve_loose hl hmem hlt hn, fun _ => ⟨n, carve_taken hl hmem hlt hn⟩⟩
  | noFrame => exact ⟨hl, fun hr => absurd rfl hr⟩
  | @refill found pg n rest _ hscan _ hal havail =>
    obtain ⟨hmem, hlt⟩ := scanFree_found hscan
    have hused : found ∈ h.free ++ h.res := List.mem_append_left _ hmem
    obtain ⟨hadd, hblk⟩ := addPage_loose hl (hl.pages_ne_nil hused) (hfresh pg s' hal)
    rw [← hblk found hused] at hlt
    have hn : n ∈ (addPage h pg).avail := by simp [havail]
    have htaken := carve_taken hadd hmem hlt hn
    refine ⟨carve_loose hadd hmem hlt hn, fun _ => ⟨n, ⟨htaken.res, htaken.block, fun k hk => ?_⟩, ?_, htaken.front⟩⟩
    · exact (htaken.blk k hk).trans (hblk k (List.mem_append_right _ hk))
    · rw [← htaken.bytes]
      ext x
      simp only [freeBytes, Set.mem_ofPred_eq, blockOf]
      refine exists_congr fun k => and_congr_right fun hk => ?_
      rw [hblk k (List.mem_append_left _ hk)]
  | @noNode found pg _ hscan _ hal _ =>
    obtain ⟨hmem, -⟩ := scanFree_found hscan
    exact ⟨(addPage_loose hl (hl.pages_ne_nil (List.mem_append_left _ hmem)) (hfresh pg s' hal)).1,
      fun hr => absurd rfl hr⟩

/-! ## `__kfree` of a block that is not empty -/

theorem mem_toAvail_free {h : HeapDesc} (hd : h.free.Nodup) {o : Option Nat} {n : Nat} :
    n ∈ (toAvail h o).free ↔ n ∈ h.free ∧ o ≠ some n := by
  cases o with
  | none => simp [toAvail]
  | some k => simp [toAvail, hd.mem_erase_iff, and_comm, eq_comm]

theorem toAvail_nodup {h : HeapDesc} (hd : h.free.Nodup) (o : Option Nat) : (toAvail h o).free.Nodup := by
  cases o with
  | none => exact hd
  | some k => exact hd.erase k

theorem toAvail_nodes {h : HeapDesc} {o : Option Nat} (ho : ∀ n, o = some n → n ∈ h.free) :
    ((toAvail h o).free ++ (toAvail h o).res ++ (toAvail h o).avail).Perm (h.free ++ h.res ++ h.avail) := by
  cases o with
  | none => exact List.Perm.refl _
  | some n => exact perm_free_avail (ho n rfl)

/-- What lies between the start of the joined block and the released one is the left neighbour. -/
theorem LeftDone.mem_iff {blk : Nat → Blk} {s b : Nat} {free : List Nat} {o : Option Nat} (h : LeftDone blk s free o b)
    (x : Nat) : b ≤ x ∧ x < s ↔ ∃ l, o = some l ∧ x ∈ blockOf blk l := by
  cases o with
  | none =>
    obtain rfl := h.1
    simp only [reduceCtorEq, false_and, exists_false, iff_false]
    omega
  | some l =>
    obtain ⟨-, rfl, rfl⟩ := h
    simp [blockOf, mem_def, endOf]

theorem RightDone.mem_iff {blk : Nat → Blk} {e t : Nat} {free : List Nat} {o : Option Nat}
    (h : RightDone blk e free o t) (x : Nat) : e ≤ x ∧ x < t ↔ ∃ r, o = some r ∧ x ∈ blockOf blk r := by
  cases o with
  | none =>
    obtain rfl := h.1
    simp only [reduceCtorEq, false_and, exists_false, iff_false]
    omega
  | some r =>
    obtain ⟨-, rfl, rfl⟩ := h
    simp [blockOf, mem_def, endOf]

section
variable {h : HeapDesc} (hl : Loose h) {found b t : Nat} {lp rp : Option Nat} (hmem : found ∈ h.res)
  (hpos : 0 < (h.blk found).size) (hleft : LeftDone h.blk (h.blk found).base h.free lp b)
  (hright : RightDone h.blk (endOf h.blk found) h.free rp t)

include hpos hleft hright in
theorem joined_mem_iff (x : Nat) : x ∈ (⟨b, t - b⟩ : Block) ↔
    (∃ l, lp = some l ∧ x ∈ blockOf h.blk l) ∨ x ∈ blockOf h.blk found ∨ ∃ r, rp = some r ∧ x ∈ blockOf h.blk r := by
  have hbs := hleft.le
  have het := hright.le
  rw [← hleft.mem_iff, ← hright.mem_iff]
  simp only [blockOf, mem_def]
  unfold endOf at *
  omega

include hleft in
theorem left_free {l : Nat} (hlp : lp = some l) : l ∈ h.free := by
  subst hlp
  exact hleft.1

include hright in
theorem right_free {r : Nat} (hrp : rp = some r) : r ∈ h.free := by
  subst hrp
  exact hright.1

include hl hmem in
theorem mem_merged_free {n : Nat} :
    n ∈ (merged h found lp rp b t).free ↔ (n = found ∨ n ∈ h.free) ∧ lp ≠ some n ∧ rp ≠ some n := by
  have hnodup : (found :: h.free).Nodup := List.nodup_cons.2 ⟨hl.not_free_of_res hmem, hl.free_nodup⟩
  rw [merged, mem_toAvail_free (toAvail_nodup hnodup lp), mem_toAvail_free hnodup, and_assoc]
  simp [release]

include hl hmem hpos hleft hright in
theorem merged_nodes : ((merged h found lp rp b t).free ++ (merged h found lp rp b t).res ++
    (merged h found lp rp b t).avail).Perm (pageNodes h.pages) := by
  have hnodup : (found :: h.free).Nodup := List.nodup_cons.2 ⟨hl.not_free_of_res hmem, hl.free_nodup⟩
  refine (toAvail_nodes fun n hrp => ?_).trans ((toAvail_nodes fun n hlp => ?_).trans
    ((perm_res_free hmem).trans hl.nodes))
  · refine (mem_toAvail_free hnodup).2 ⟨List.mem_cons_of_mem _ (right_free hright hrp), ?_⟩
    -- the left neighbour ends before the right one begins
    rintro rfl
    subst hrp
    obtain ⟨-, hend, -⟩ := hleft
    obtain ⟨-, hbeg, -⟩ := hright
    unfold endOf at *
    omega
  · exact List.mem_cons_of_mem _ (left_free hleft hlp)

include hl hmem hleft hright in
/-- A node of the merged heap other than the released one was used before, and is none of the neighbours. -/
theorem merged_used {n : Nat} (hn : n ∈ (merged h found lp rp b t).free ++ (merged h found lp rp b t).res)
    (hne : n ≠ found) : n ∈ h.free ++ h.res ∧ lp ≠ some n ∧ rp ≠ some n := by
  rcases List.mem_append.1 hn with hn | hn
  · obtain ⟨hor, hnl, hnr⟩ := (mem_merged_free hl hmem).1 hn
    exact ⟨List.mem_append_left _ (hor.resolve_left hne), hnl, hnr⟩
  · have hnres : n ∈ h.res := by
      simp only [merged, toAvail_res, release] at hn
      exact List.mem_of_mem_erase hn
    have hnfree := hl.not_free_of_res hnres
    exact ⟨List.mem_append_right _ hnres, fun hlp => hnfree (left_free hleft hlp),
      fun hrp => hnfree (right_free hright hrp)⟩

theorem merged_blk_self : (merged h found lp rp b t).blk found = ⟨b, t - b⟩ := by simp [merged]

theorem merged_blk_of_ne {n : Nat} (hne : n ≠ found) : (merged h found lp rp b t).blk n = h.blk n := by
  simp [merged, Function.update_of_ne hne]

include hl hmem hpos hleft hright in
/-- Each byte of the joined block is one of a used block. -/
theorem joined_inside (x : Nat) (hx : x ∈ (⟨b, t - b⟩ : Block)) : h.start ≤ x ∧ x < h.endAddr := by
  have hbytes : ∀ n ∈ h.free ++ h.res, x ∈ blockOf h.blk n → h.start ≤ x ∧ x < h.endAddr := by
    intro n hn hx
    have := hl.inside n hn
    simp only [endOf, blockOf, mem_def] at *
    omega
  rcases (joined_mem_iff hpos hleft hright x).1 hx with ⟨l, hlp, hx⟩ | hx | ⟨r, hrp, hx⟩
  · exact hbytes l (List.mem_append_left _ (left_free hleft hlp)) hx
  · exact hbytes found (List.mem_append_right _ hmem) hx
  · exact hbytes r (List.mem_append_left _ (right_free hright hrp)) hx

include hl hmem hpos hleft hright in
theorem merged_loose : Loose (merged h found lp rp b t) := by
  have hused : found ∈ h.free ++ h.res := List.mem_append_right _ hmem
  have hnf := hl.not_free_of_res hmem
  have hbs := hleft.le
  have het := hright.le
  have hjoined := joined_mem_iff hpos hleft hright
  refine hl.replace (x := found) (by simp [merged, release]) (by simp [merged, release]) ?_ ?_ ?_ ?_ ?_ ?_ ?_ ?_
  · have hp : (merged h found lp rp b t).pages = h.pages := by simp [merged, release]
    rw [hp]
    exact merged_nodes hl hmem hpos hleft hright
  · simpa [merged, release] using hl.pages
  · intro n hn hne
    exact ((mem_merged_free hl hmem).1 hn).1.resolve_left hne
  · intro n hn hne
    exact ⟨(merged_used hl hmem hleft hright hn hne).1, merged_blk_of_ne hne⟩
  · have hlow := joined_inside hl hmem hpos hleft hright b
    have hhigh := joined_inside hl hmem hpos hleft hright (t - 1)
    rw [endOf, merged_blk_self]
    simp only [mem_def] at hlow hhigh
    unfold endOf at *
    dsimp only
    omega
  · rw [merged_blk_self]
    unfold endOf at het
    dsimp only
    omega
  · intro n hn hne x hx hx'
    obtain ⟨hnu, hnl, hnr⟩ := merged_used hl hmem hleft hright hn hne
    rw [blockOf, merged_blk_self] at hx'
    rcases (hjoined x).1 hx' with ⟨l, hlp, hxl⟩ | hxf | ⟨r, hrp, hxr⟩
    · have hln : l ≠ n := by
        rintro rfl
        exact hnl hlp
      exact hl.disj n hnu l (List.mem_append_left _ (left_free hleft hlp)) hln x hx hxl
    · exact hl.disj n hnu found hused hne.symm x hx hxf
    · have hrn : r ≠ n := by
        rintro rfl
        exact hnr hrp
      exact hl.disj n hnu r (List.mem_append_left _ (right_free hright hrp)) hrn x hx hxr
  · intro n hn k hk
    have hbt : b < t := by
      unfold endOf at het
      omega
    have hgaps := merged_gaps hbt hl.gaps hleft hright hnf n (List.mem_cons.2 ((mem_merged_free hl hmem).1 hn).1) k
      (List.mem_cons.2 ((mem_merged_free hl hmem).1 hk).1)
    simpa only [merged, toAvail_blk] using hgaps

include hl hmem hleft hright in
theorem found_mem_merged : found ∈ (merged h found lp rp b t).free := by
  have hnf := hl.not_free_of_res hmem
  refine (mem_merged_free hl hmem).2 ⟨.inl rfl, ?_, ?_⟩
  · intro hlp
    exact hnf (left_free hleft hlp)
  · intro hrp
    exact hnf (right_free hright hrp)

include hl hmem hpos hleft hright in
theorem merged_bytes : freeBytes (merged h found lp rp b t) = freeBytes h ∪ {x | x ∈ blockOf h.blk found} := by
  have hnf := hl.not_free_of_res hmem
  have hjoined := joined_mem_iff hpos hleft hright
  have hself := found_mem_merged hl hmem hleft hright
  have hfound : ∀ x, x ∈ (⟨b, t - b⟩ : Block) → x ∈ freeBytes (merged h found lp rp b t) := by
    intro x hx
    refine ⟨found, hself, ?_⟩
    rw [blockOf, merged_blk_self]
    exact hx
  ext x
  constructor
  · rintro ⟨n, hn, hx⟩
    by_cases hne : n = found
    · rw [hne, blockOf, merged_blk_self] at hx
      rcases (hjoined x).1 hx with ⟨l, hlp, hxl⟩ | hxf | ⟨r, hrp, hxr⟩
      · exact .inl ⟨l, left_free hleft hlp, hxl⟩
      · exact .inr hxf
      · exact .inl ⟨r, right_free hright hrp, hxr⟩
    · rw [blockOf, merged_blk_of_ne hne] at hx
      exact .inl ⟨n, ((mem_merged_free hl hmem).1 hn).1.resolve_left hne, hx⟩
  · rintro (⟨n, hn, hx⟩ | hx)
    · have hne : n ≠ found := fun hc => hnf (hc ▸ hn)
      by_cases hlp : lp = some n
      · exact hfound x ((hjoined x).2 (.inl ⟨n, hlp, hx⟩))
      · by_cases hrp : rp = some n
        · exact hfound x ((hjoined x).2 (.inr (.inr ⟨n, hrp, hx⟩)))
        · refine ⟨n, (mem_merged_free hl hmem).2 ⟨.inr hn, hlp, hrp⟩, ?_⟩
          rw [blockOf, merged_blk_of_ne hne]
          exact hx
    · exact hfound x ((hjoined x).2 (.inr (.inl hx)))

end

/-- What a call that finds the block of `found` does to the reserved list. -/
structure Given (h h' : HeapDesc) (found : Nat) : Prop where
  loose : Loose h'
  res : h'.res = h.res.erase found
  blk : ∀ n ∈ h'.res, h'.blk n = h.blk n

/-- Only the released node and free nodes are written. -/
theorem Loose.given {h h' : HeapDesc} (hl : Loose h) (hl' : Loose h') {found : Nat} (hres : h'.res = h.res.erase found)
    (hblk : ∀ n, n ≠ found → h'.blk n = h.blk n) : Given h h' found := by
  refine ⟨hl', hres, fun n hn => hblk n ?_⟩
  rintro rfl
  rw [hres] at hn
  exact (List.nodup_append.1 hl.used_nodup).2.1.not_mem_erase hn

theorem kfree_loose_pos {h : HeapDesc} (hl : Loose h) {p found : Nat}
    (hfind : (h.res.find? fun n => (h.blk n).base == p) = some found) (hpos : 0 < (h.blk found).size) :
    ∃ h', kfree p h = (0, h') ∧ Given h h' found ∧ freeBytes h' = freeBytes h ∪ {x | x ∈ blockOf h.blk found} := by
  have hmem : found ∈ h.res := List.mem_of_find?_eq_some hfind
  have hin := hl.inside found (List.mem_append_right _ hmem)
  have hfit := hl.fits
  have hblk : h.blk found = ⟨(h.blk found).base, endOf h.blk found - (h.blk found).base⟩ := by
    rw [endOf, Nat.add_sub_cancel_left]
  have hpre : MergePre h.blk found (h.blk found).base (endOf h.blk found) h.free := by
    refine ⟨hl.not_free_of_res hmem, Nat.lt_add_of_pos_right hpos, by omega, fun n hn => ?_, hl.gaps⟩
    have := hl.inside n (List.mem_append_left _ hn)
    omega
  obtain ⟨lp, rp, b, t, hloop, hleft, hright⟩ := mergeLoop_found hpre hblk
  refine ⟨merged h found lp rp b t, ?_, ?_, merged_bytes hl hmem hpos hleft hright⟩
  · simp only [kfree, hfind, hloop, merged, release]
  · refine hl.given (merged_loose hl hmem hpos hleft hright) ?_ fun n hne => merged_blk_of_ne hne
    simp [merged, release]

/-! ## `__kfree` of an empty block -/

/-- Blocks that touch `found` on neither side leave the loop as it was. -/
theorem mergeLoop_quiet {blk : Nat → Blk} {found : Nat} {lp rp : Option Nat} (hone : (lp.isSome && rp.isSome) = false)
    (rest : List Nat) (hq : ∀ n ∈ rest, u32 ((blk n).base + (blk n).size) ≠ (blk found).base ∧
      (blk n).base ≠ u32 ((blk found).base + (blk found).size)) :
    mergeLoop found rest blk lp rp = (blk, lp, rp) := by
  induction rest with
  | nil => rfl
  | cons n rest ih =>
    obtain ⟨hl, hr⟩ := hq n List.mem_cons_self
    rw [mergeLoop]
    simp only [if_neg hl, if_neg hr, hone]
    exact ih fun k hk => hq k (List.mem_cons_of_mem _ hk)

/-- The loop on an empty block that counts as its own left neighbour. -/
theorem mergeLoop_zero_walk {blk : Nat → Blk} {found b : Nat} {free : List Nat} (hblk : blk found = ⟨b, 0⟩)
    (hnf : found ∉ free) (hb : b < 2 ^ 32) (hends : ∀ n ∈ free, endOf blk n < 2 ^ 32)
    (hgaps : ∀ n ∈ free, ∀ k ∈ free, endOf blk n ≠ (blk k).base) (rest : List Nat) (hsub : ∀ n ∈ rest, n ∈ free) :
    (mergeLoop found rest blk (some found) none = (blk, some found, none) ∧ ∀ n ∈ rest, (blk n).base ≠ b) ∨
    (∃ l ∈ free, endOf blk l = b ∧
      mergeLoop found rest blk (some found) none = (Function.update blk found (blk l), some l, none)) ∨
    ∃ r ∈ free, (blk r).base = b ∧
      mergeLoop found rest blk (some found) none
        = (Function.update blk found ⟨b, (blk r).size⟩, some found, some r) := by
  induction rest with
  | nil => exact .inl ⟨rfl, by simp⟩
  | cons n rest ih =>
    have hn := hsub n List.mem_cons_self
    have hend : u32 ((blk n).base + (blk n).size) = endOf blk n := u32_of_lt (hends n hn)
    have hsize : u32 (blk n).size = (blk n).size := by
      have := hends n hn
      unfold endOf at this
      exact u32_of_lt (by omega)
    rw [mergeLoop]
    by_cases hleft : endOf blk n = b
    · right; left
      refine ⟨n, hn, hleft, ?_⟩
      simp only [hend, hblk, if_pos hleft, Nat.zero_add, hsize]
      refine mergeLoop_quiet rfl rest fun k hk => ?_
      have hkf : k ≠ found := fun hc => hnf (hc ▸ hsub k (List.mem_cons_of_mem _ hk))
      have hkm := hsub k (List.mem_cons_of_mem _ hk)
      have hendk : u32 ((blk k).base + (blk k).size) = endOf blk k := u32_of_lt (hends k hkm)
      simp only [Function.update_self, Function.update_of_ne hkf, hend, hendk]
      exact ⟨hgaps k hkm n hn, (hgaps n hn k hkm).symm⟩
    · by_cases hright : (blk n).base = b
      · right; right
        refine ⟨n, hn, hright, ?_⟩
        simp only [hend, hblk, if_neg hleft, Nat.add_zero, u32_of_lt hb, if_pos hright, Nat.zero_add, hsize]
        rfl
      · simp only [hend, hblk, if_neg hleft, Nat.add_zero, u32_of_lt hb, if_neg hright]
        rcases ih fun k hk => hsub k (List.mem_cons_of_mem _ hk) with ⟨hloop, hno⟩ | hl | hr
        · refine .inl ⟨hloop, ?_⟩
          intro k hk
          rcases List.mem_cons.1 hk with rfl | hk
          · exact hright
          · exact hno k hk
        · exact .inr (.inl hl)
        · exact .inr (.inr hr)

/-- The loop on an empty block: the block itself counts as its left neighbour, until a free block that ends
there takes the place; a free block that begins there ends the loop. -/
theorem mergeLoop_zero {blk : Nat → Blk} {found b : Nat} {free : List Nat} (hblk : blk found = ⟨b, 0⟩)
    (hnf : found ∉ free) (hb : b < 2 ^ 32) (hends : ∀ n ∈ free, endOf blk n < 2 ^ 32)
    (hgaps : ∀ n ∈ free, ∀ k ∈ free, endOf blk n ≠ (blk k).base) :
    (mergeLoop found (found :: free) blk none none = (blk, some found, none) ∧ ∀ n ∈ free, (blk n).base ≠ b) ∨
    (∃ l ∈ free, endOf blk l = b ∧
      mergeLoop found (found :: free) blk none none = (Function.update blk found (blk l), some l, none)) ∨
    ∃ r ∈ free, (blk r).base = b ∧
      mergeLoop found (found :: free) blk none none
        = (Function.update blk found ⟨b, (blk r).size⟩, some found, some r) := by
  have hfirst : mergeLoop found (found :: free) blk none none = mergeLoop found free blk (some found) none := by
    have hself : Function.update blk found ⟨b, 0⟩ = blk := by rw [← hblk, Function.update_eq_self]
    rw [mergeLoop]
    simp [hblk, u32_of_lt hb, hself, show u32 0 = 0 from rfl]
  rw [hfirst]
  -- the rest of the list is walked with `lp` = `found`, the block still empty
  exact mergeLoop_zero_walk hblk hnf hb hends hgaps free fun _ hn => hn

/-- The heap after the loop on an empty block. -/
def zeroFreed (h : HeapDesc) (found : Nat) (blk : Nat → Blk) (lp rp : Option Nat) : HeapDesc :=
  toAvail (toAvail { release h found with blk := blk } lp) rp

theorem zeroFreed_res (h : HeapDesc) (found : Nat) (blk : Nat → Blk) (lp rp : Option Nat) :
    (zeroFreed h found blk lp rp).res = h.res.erase found := by
  simp [zeroFreed, release]

section
variable {h : HeapDesc} (hl : Loose h) {found : Nat} (hmem : found ∈ h.res)
include hl hmem

/-- No free block is there: the node goes to `avail`. -/
theorem zeroFreed_alone : Loose (zeroFreed h found h.blk (some found) none) := by
  have hnodes := (perm_res_free hmem).trans hl.nodes
  refine hl.of_used rfl rfl ((perm_free_avail List.mem_cons_self).trans hnodes) hl.pages ?_ ?_ fun _ _ => rfl
  · simp [zeroFreed, release, toAvail]
  · intro n hn
    simp only [zeroFreed, release, toAvail, List.erase_cons_head] at hn
    exact List.mem_append.2 ((List.mem_append.1 hn).imp_right List.mem_of_mem_erase)

/-- `found` takes over the block of `l`. -/
theorem zeroFreed_left {l : Nat} (hlf : l ∈ h.free) :
    Loose (zeroFreed h found (Function.update h.blk found (h.blk l)) (some l) none) := by
  have hnf := hl.not_free_of_res hmem
  have hnodes := (perm_res_free hmem).trans hl.nodes
  have hlu : l ∈ h.free ++ h.res := List.mem_append_left _ hlf
  have hfree : ∀ n, n ∈ (found :: h.free).erase l → n ≠ found → n ∈ h.free ∧ n ≠ l := by
    intro n hn hne
    have hnl : n ≠ l := by
      rintro rfl
      exact (List.nodup_cons.2 ⟨hnf, hl.free_nodup⟩).not_mem_erase hn
    exact ⟨(List.mem_cons.1 (List.mem_of_mem_erase hn)).resolve_left hne, hnl⟩
  have hused : ∀ n, n ∈ (found :: h.free).erase l ++ h.res.erase found → n ≠ found → n ∈ h.free ++ h.res ∧ n ≠ l := by
    intro n hn hne
    rcases List.mem_append.1 hn with hn | hn
    · exact ⟨List.mem_append_left _ (hfree n hn hne).1, (hfree n hn hne).2⟩
    · have hnres := List.mem_of_mem_erase hn
      exact ⟨List.mem_append_right _ hnres, fun hc => hl.not_free_of_res hnres (hc ▸ hlf)⟩
  -- the free blocks are those from before
  have hsame : ∀ n ∈ (found :: h.free).erase l, ∃ k ∈ h.free, Function.update h.blk found (h.blk l) n = h.blk k := by
    intro n hn
    by_cases hne : n = found
    · exact ⟨l, hlf, by rw [hne, Function.update_self]⟩
    · exact ⟨n, (hfree n hn hne).1, Function.update_of_ne hne _ _⟩
  refine hl.replace (x := found) rfl rfl
    ((perm_free_avail (List.mem_cons_of_mem _ hlf)).trans hnodes) hl.pages (fun n hn hne => (hfree n hn hne).1)
    (fun n hn hne => ⟨(hused n hn hne).1, Function.update_of_ne hne _ _⟩) ?_ ?_ ?_ ?_
  · simpa only [zeroFreed, toAvail, release, endOf, Function.update_self] using hl.inside l hlu
  · simpa only [zeroFreed, toAvail, release, Function.update_self] using hl.pos l hlf
  · intro n hn hne
    obtain ⟨hnu, hnl⟩ := hused n hn hne
    simpa only [zeroFreed, toAvail, release, blockOf, Function.update_self] using hl.disj n hnu l hlu hnl.symm
  · intro n hn k hk
    obtain ⟨n', hn', hbn⟩ := hsame n hn
    obtain ⟨k', hk', hbk⟩ := hsame k hk
    show (Function.update h.blk found (h.blk l) n).base + (Function.update h.blk found (h.blk l) n).size
      ≠ (Function.update h.blk found (h.blk l) k).base
    rw [hbn, hbk]
    exact hl.gaps n' hn' k' hk'

variable {r : Nat} (hrf : r ∈ h.free) (b : Blk)
include hrf

/-- `found` and `r` both go to `avail`. -/
theorem zeroFreed_right : Loose (zeroFreed h found (Function.update h.blk found b) (some found) (some r)) := by
  have hnf := hl.not_free_of_res hmem
  have hnodes := (perm_res_free hmem).trans hl.nodes
  have hfreed : (zeroFreed h found (Function.update h.blk found b) (some found) (some r)).free = h.free.erase r := by
    simp [zeroFreed, release, toAvail]
  have hused : ∀ n, n ∈ h.free.erase r ++ h.res.erase found → n ∈ h.free ++ h.res ∧ n ≠ found := by
    intro n hn
    rcases List.mem_append.1 hn with hn | hn
    · have hnf' := List.mem_of_mem_erase hn
      exact ⟨List.mem_append_left _ hnf', fun hc => hnf (hc ▸ hnf')⟩
    · refine ⟨List.mem_append_right _ (List.mem_of_mem_erase hn), ?_⟩
      rintro rfl
      exact (List.nodup_append.1 hl.used_nodup).2.1.not_mem_erase hn
  refine hl.of_used rfl rfl ?_ hl.pages ?_ ?_ ?_
  · have hr : r ∈ (found :: h.free).erase found := by simpa using hrf
    exact (perm_free_avail hr).trans ((perm_free_avail List.mem_cons_self).trans hnodes)
  · intro n hn
    rw [hfreed] at hn
    exact List.mem_of_mem_erase hn
  · intro n hn
    rw [hfreed, zeroFreed_res] at hn
    exact (hused n hn).1
  · intro n hn
    rw [hfreed, zeroFreed_res] at hn
    exact Function.update_of_ne (hused n hn).2 _ _

/-- The bytes of `r` are lost: no other free block covers the first of them. -/
theorem base_not_mem_zeroFreed_right :
    (h.blk r).base ∉ freeBytes (zeroFreed h found (Function.update h.blk found b) (some found) (some r)) := by
  have hnf := hl.not_free_of_res hmem
  rintro ⟨n, hn, hx⟩
  simp only [zeroFreed, release, toAvail, List.erase_cons_head] at hn
  have hnfree := List.mem_of_mem_erase hn
  have hnf' : n ≠ found := fun hc => hnf (hc ▸ hnfree)
  have hrn : r ≠ n := by
    rintro rfl
    exact hl.free_nodup.not_mem_erase hn
  have hx' : (h.blk r).base ∈ blockOf h.blk n := by
    simpa only [zeroFreed, toAvail, release, blockOf, Function.update_of_ne hnf'] using hx
  refine hl.disj n (List.mem_append_left _ hnfree) r (List.mem_append_left _ hrf) hrn _ hx' ?_
  have hpos := hl.pos r hrf
  simp only [blockOf, mem_def]
  omega

end

/-- Freeing an empty block: a free block that begins there is gone. -/
theorem kfree_loose_zero {h : HeapDesc} (hl : Loose h) {p found : Nat}
    (hfind : (h.res.find? fun n => (h.blk n).base == p) = some found) (hzero : (h.blk found).size = 0) :
    ∃ h', kfree p h = (0, h') ∧ Given h h' found ∧ ((∃ k ∈ h.free, (h.blk k).base = p) → p ∉ freeBytes h') := by
  have hmem : found ∈ h.res := List.mem_of_find?_eq_some hfind
  have hbase : (h.blk found).base = p := by simpa using List.find?_some hfind
  have hin := hl.inside found (List.mem_append_right _ hmem)
  have hfit := hl.fits
  have hblk : h.blk found = ⟨p, 0⟩ := by rw [← hbase, ← hzero]
  have hends : ∀ n ∈ h.free, endOf h.blk n < 2 ^ 32 := by
    intro n hn
    have := hl.inside n (List.mem_append_left _ hn)
    omega
  have hcall : ∀ blk lp rp, mergeLoop found (found :: h.free) h.blk none none = (blk, lp, rp) →
      kfree p h = (0, zeroFreed h found blk lp rp) := by
    intro blk lp rp hloop
    simp only [kfree, hfind, hloop, zeroFreed, release]
  rcases mergeLoop_zero hblk (hl.not_free_of_res hmem) (by unfold endOf at hin; omega) hends hl.gaps with
    ⟨hloop, hno⟩ | ⟨l, hlf, hend, hloop⟩ | ⟨r, hrf, rfl, hloop⟩
  · refine ⟨_, hcall _ _ _ hloop, hl.given (zeroFreed_alone hl hmem) (zeroFreed_res ..) fun _ _ => rfl, ?_⟩
    rintro ⟨k, hk, hbk⟩
    exact absurd hbk (hno k hk)
  · refine ⟨_, hcall _ _ _ hloop, hl.given (zeroFreed_left hl hmem hlf) (zeroFreed_res ..)
      fun n hne => Function.update_of_ne hne _ _, ?_⟩
    rintro ⟨k, hk, hbk⟩
    exact absurd (hend.trans hbk.symm) (hl.gaps l hlf k hk)
  · exact ⟨_, hcall _ _ _ hloop, hl.given (zeroFreed_right hl hmem hrf _) (zeroFreed_res ..)
      fun n hne => Function.update_of_ne hne _ _, fun _ => base_not_mem_zeroFreed_right hl hmem hrf _⟩

/-! ## All calls -/

theorem kfree_loose {h : HeapDesc} (hl : Loose h) (p : Nat) : Loose (kfree p h).2 := by
  cases hfind : h.res.find? fun n => (h.blk n).base == p with
  | none => simpa only [kfree, hfind] using hl
  | some found =>
    rcases Nat.eq_zero_or_pos (h.blk found).size with hzero | hpos
    · obtain ⟨h', hk, hgiven, -⟩ := kfree_loose_zero hl hfind hzero
      rw [hk]
      exact hgiven.loose
    · obtain ⟨h', hk, hgiven, -⟩ := kfree_loose_pos hl hfind hpos
      rw [hk]
      exact hgiven.loose

theorem reaches_loose {m : Mmc} {st₀ st : Kst} (hb : Boot m st₀) (hrun : Reaches kStep Spares st₀ st) :
    Loose st.heap := by
  obtain ⟨L, hbase⟩ := hb.layout
  refine hrun.invariant_of (I := OnFrames m) (J := fun st => Loose st.heap) (fun u hu => reaches_onFrames hb hu)
    hb.inv.1.loose ?_
  intro u op v hf hl _ hs
  cases op with
  | kmalloc size =>
    obtain ⟨r, h', mp', hk, rfl⟩ := kStep_kmalloc hs
    exact (kmalloc_loose hl (fun pg mp' hal => hf.fresh L hbase hal) hk).1
  | kfree p =>
    cases hs
    exact kfree_loose hl p
  | other op =>
    obtain ⟨s, -, rfl⟩ := Option.map_eq_some_iff.1 hs
    exact hl

/-- The call of `__kfree` on a block just returned finds that block: it is the first of the reserved list. -/
theorem Taken.find {h h' : HeapDesc} {r size n : Nat} (ht : Taken h h' r size n) :
    (h'.res.find? fun k => (h'.blk k).base == r) = some n := by
  simp [ht.res, ht.block]

theorem Taken.resBlocks {h h' h'' : HeapDesc} {r size n : Nat} (ht : Taken h h' r size n) (hg : Given h' h'' n) :
    resBlocks h'' = resBlocks h := by
  have hres : h''.res = h.res := by rw [hg.res, ht.res, List.erase_cons_head]
  rw [Heap.resBlocks, Heap.resBlocks, hres]
  refine map_blockOf_congr fun k hk => ?_
  have hk' : k ∈ h'.res := ht.res ▸ List.mem_cons_of_mem _ hk
  exact (hg.blk k (hres ▸ hk)).trans (ht.blk k hk)

/-- **`__kfree` undoes `__kmalloc`.** In every state that calls with any sizes reach, 0 included: if `__kmalloc`
returns a block, a `__kfree` of it right after returns 0 and leaves the free bytes and the reserved blocks as
they were if, and only if, the size is not 0. -/
theorem kfree_undoes_kmalloc {m : Mmc} {st₀ st : Kst} (hb : Boot m st₀) (hrun : Reaches kStep Spares st₀ st)
    (size p : Nat) (h' : HeapDesc) (mp' : Mmc) (hk : kmalloc allocFrame size st.heap st.mmc = .ok (p, h', mp'))
    (hp : p ≠ 0) :
    0 < size ↔ (kfree p h').1 = 0 ∧ freeBytes (kfree p h').2 = freeBytes st.heap ∧
      resBlocks (kfree p h').2 = resBlocks st.heap := by
  obtain ⟨L, hbase⟩ := hb.layout
  have hf := reaches_onFrames hb hrun
  obtain ⟨hl', htaken⟩ := kmalloc_loose (reaches_loose hb hrun) (fun pg mp' hal => hf.fresh L hbase hal) hk
  obtain ⟨n, ht⟩ := htaken hp
  constructor
  · intro hpos
    obtain ⟨h'', hfree, hgiven, hbytes⟩ := kfree_loose_pos hl' ht.find (by rw [ht.block]; exact hpos)
    rw [hfree]
    refine ⟨rfl, ?_, ht.resBlocks hgiven⟩
    rw [hbytes, ht.bytes, blockOf, ht.block]
  · rintro ⟨-, hsame, -⟩
    by_contra hzero
    obtain rfl : size = 0 := by omega
    -- the empty block lay at the front of a free one, which is gone now
    have hfront := ht.front rfl
    obtain ⟨h'', hfree, -, hgone⟩ := kfree_loose_zero hl' ht.find (by rw [ht.block])
    rw [hfree] at hsame
    refine hgone hfront (hsame ▸ ht.bytes ▸ .inl ?_)
    obtain ⟨k, hkf, hbk⟩ := hfront
    have hpos := hl'.pos k hkf
    refine ⟨k, hkf, ?_⟩
    simp only [blockOf, mem_def]
    omega

/-- A block of 16 bytes in a heap in which an empty block is in use. -/
theorem kfree_undoes_kmalloc_small :
    ∃ st₀ st, Boot (freshMmc 0x100000 0x5000 1 4) st₀ ∧ Reaches kStep Spares st₀ st ∧
      ∃ h' mp', kmalloc allocFrame 0x10 st.heap st.mmc = .ok (0x101000, h', mp') ∧
        freeBytes (kfree 0x101000 h').2 = freeBytes st.heap ∧ resBlocks (kfree 0x101000 h').2 = resBlocks st.heap := by
  have h0 : mmPageTable 0x100000 0x5000 = .ok (some (freshMmc 0x100000 0x5000 1 4)) := rfl
  obtain ⟨st₀, st, hb, hrun, hst⟩ := exists_boot_reaches (.of_aligned (by decide) (by decide)) h0 Spares 0x1800
    (by decide) [.kmalloc 0] (fun st => (kmalloc allocFrame 0x10 st.heap st.mmc).toOption.any fun r => r.1 == 0x101000)
    (by decide +kernel)
  cases hk : kmalloc allocFrame 0x10 st.heap st.mmc with
  | error e => simp [hk, Except.toOption] at hst
  | ok r =>
    obtain ⟨p, h', mp'⟩ := r
    obtain rfl : p = 0x101000 := by simpa [hk, Except.toOption] using hst
    obtain ⟨-, hbytes, hres⟩ := (kfree_undoes_kmalloc hb hrun 0x10 0x101000 h' mp' hk (by decide)).1 (by decide)
    exact ⟨st₀, st, hb, hrun, h', mp', hk, hbytes, hres⟩

/-- On the fresh heap: `__kmalloc(0)` and `__kfree` of what it returned leave no free block at all. -/
theorem heap_lost :
    ∃ st₀ st, Boot (freshMmc 0x100000 0x5000 1 4) st₀ ∧ Reaches kStep Spares st₀ st ∧
      ∃ h' mp', kmalloc allocFrame 0 st.heap st.mmc = .ok (0x101000, h', mp') ∧ 0x101000 ∈ freeBytes st.heap ∧
        freeBytes (kfree 0x101000 h').2 = ∅ := by
  have h0 : mmPageTable 0x100000 0x5000 = .ok (some (freshMmc 0x100000 0x5000 1 4)) := rfl
  obtain ⟨st₀, st, hb, hrun, hst⟩ := exists_boot_reaches (.of_aligned (by decide) (by decide)) h0 Spares 0x1800
    (by decide) [] (fun st => decide (∃ n ∈ st.heap.free, 0x101000 ∈ blockOf st.heap.blk n) &&
      (kmalloc allocFrame 0 st.heap st.mmc).toOption.any fun r =>
        r.1 == 0x101000 && (kfree 0x101000 r.2.1).2.free.isEmpty) (by decide +kernel)
  simp only [Bool.and_eq_true, decide_eq_true_eq] at hst
  obtain ⟨hfree, hst⟩ := hst
  cases hk : kmalloc allocFrame 0 st.heap st.mmc with
  | error e => simp [hk, Except.toOption] at hst
  | ok r =>
    obtain ⟨p, h', mp'⟩ := r
    obtain ⟨rfl, hnil⟩ : p = 0x101000 ∧ (kfree 0x101000 h').2.free = [] := by simpa [hk, Except.toOption] using hst
    refine ⟨st₀, st, hb, hrun, h', mp', hk, hfree, ?_⟩
    rw [freeBytes, hnil]
    simp

end RedMagic.Heap
