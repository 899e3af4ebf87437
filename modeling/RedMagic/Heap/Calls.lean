import RedMagic.Heap.BestFit

/-!
# What a caller of the heap sees

The reserved blocks as a list, newest first: a `__kmalloc` that returns a block puts it in front (`kmalloc_call`), and a
`__kfree` takes the first block with the base it is given out again (`kfree_call`). What is in neither is as it was: the
free bytes lose the block, and get it back.
-/

namespace RedMagic.Heap

open Mm Blocks Lts

theorem Taken.resBlocks_eq {h h' : HeapDesc} {r size n : Nat} (ht : Taken h h' r size n) :
    Heap.resBlocks h' = ⟨r, size⟩ :: Heap.resBlocks h := by
  rw [Heap.resBlocks, ht.res, List.map_cons, blockOf, ht.block, map_blockOf_congr ht.blk]
  rfl

section
variable {m : Mmc} {st : Kst} (L : Layout m) (hbase : 0 < m.frameBase) (h0 : 0 < m.metaBase) (hf : OnFrames m st)
  (hl : Loose st.heap) (size : Nat)
include L hbase h0 hf hl

/-- **A call of `__kmalloc`.** It returns NULL and changes nothing, or it puts a block in front of the reserved
ones. -/
theorem kmalloc_call :
    ∃ p h' mp', kmalloc allocFrame size st.heap st.mmc = .ok (p, h', mp') ∧
      ((p = 0 ∧ h' = st.heap ∧ mp' = st.mmc ∧ Refuses size st.heap st.mmc) ∨
        (p ≠ 0 ∧ ¬ Refuses size st.heap st.mmc ∧ resBlocks h' = ⟨p, size⟩ :: resBlocks st.heap ∧
          freeBytes st.heap = freeBytes h' ∪ {x | x ∈ (⟨p, size⟩ : Block)})) := by
  have hfresh : ∀ pg mp', allocFrame st.mmc = .ok (some pg, mp') →
      FreshPage st.heap.start st.heap.endAddr st.heap.pages pg := fun pg mp' hal => hf.fresh L hbase hal
  obtain ⟨p, h', mp', hk⟩ := hf.kmalloc_returns L h0 size
  refine ⟨p, h', mp', hk, ?_⟩
  rcases hf.kmalloc_choice L h0 hbase hl hk with hnull | ⟨hp, hnot, -⟩
  · exact .inl hnull
  · obtain ⟨-, htaken⟩ := kmalloc_loose hl hfresh hk
    obtain ⟨n, ht⟩ := htaken hp
    exact .inr ⟨hp, hnot, ht.resBlocks_eq, ht.bytes⟩

end

/-- The reserved blocks are disjoint. -/
theorem Loose.resBlocks_disjoint {h : HeapDesc} (hl : Loose h) :
    (resBlocks h).Pairwise fun a b => ∀ x, x ∈ a → x ∉ b := by
  refine List.pairwise_map.2 ?_
  refine ((List.nodup_append.1 hl.used_nodup).2.1).imp_of_mem ?_
  intro n k hn hk hne
  exact hl.disj n (List.mem_append_right _ hn) k (List.mem_append_right _ hk) (Ne.symm hne)

/-- **A call of `__kfree`** on the base of a reserved block that is not empty: the first such block is gone, and its bytes
are free. -/
theorem kfree_call {h : HeapDesc} (hl : Loose h) {p : Nat} {b : Block}
    (hfind : ((resBlocks h).find? fun b => b.start = p) = some b) (hpos : 0 < b.len) :
    Loose (kfree p h).2 ∧ resBlocks (kfree p h).2 = (resBlocks h).eraseP (fun b => b.start = p) ∧
      freeBytes (kfree p h).2 = freeBytes h ∪ {x | x ∈ b} := by
  rw [resBlocks, List.find?_map, Option.map_eq_some_iff] at hfind
  obtain ⟨found, hfound, rfl⟩ := hfind
  have hfound' : (h.res.find? fun n => (h.blk n).base == p) = some found := hfound
  obtain ⟨h', hk, hgiven, hbytes⟩ := kfree_loose_pos hl hfound' hpos
  rw [hk]
  refine ⟨hgiven.loose, ?_, hbytes⟩
  -- the node that is found is the first with the base, so erasing the node is erasing the block
  obtain ⟨-, as, bs, hsplit, has⟩ := List.find?_eq_some_iff_append.1 hfound
  have hnd := (List.nodup_append.1 hl.used_nodup).2.1
  have hnot : found ∉ as := by
    intro hmem
    rw [hsplit] at hnd
    exact (List.nodup_append.1 hnd).2.2 found hmem found List.mem_cons_self rfl
  have hres : h'.res = as ++ bs := by
    rw [hgiven.res, hsplit, List.erase_append_right _ hnot, List.erase_cons_head]
  have hblocks : resBlocks h' = (as ++ bs).map (blockOf h.blk) := by
    rw [resBlocks, map_blockOf_congr hgiven.blk, hres]
  have hbase : (blockOf h.blk found).start = p := by simpa using List.find?_some hfound
  rw [hblocks, resBlocks, hsplit, List.map_append, List.map_append, List.map_cons, List.eraseP_append_right,
    List.eraseP_cons_of_pos]
  · simpa using hbase
  · intro x hx
    obtain ⟨n, hn, rfl⟩ := List.mem_map.1 hx
    simpa using has n hn

/-- The newest block is freed. -/
theorem kfree_newest {h : HeapDesc} (hl : Loose h) {p size : Nat} {bs : List Block}
    (hres : resBlocks h = ⟨p, size⟩ :: bs) (hpos : 0 < size) :
    Loose (kfree p h).2 ∧ resBlocks (kfree p h).2 = bs ∧
      freeBytes (kfree p h).2 = freeBytes h ∪ {x | x ∈ (⟨p, size⟩ : Block)} := by
  have hfind : ((resBlocks h).find? fun b => b.start = p) = some ⟨p, size⟩ := by
    rw [hres, List.find?_cons_of_pos]
    simp
  obtain ⟨hl', hres', hbytes⟩ := kfree_call hl hfind hpos
  refine ⟨hl', ?_, hbytes⟩
  rw [hres', hres, List.eraseP_cons_of_pos]
  simp

/-- The block before the newest is freed. -/
theorem kfree_second {h : HeapDesc} (hl : Loose h) {p size : Nat} {b : Block} {bs : List Block}
    (hres : resBlocks h = b :: ⟨p, size⟩ :: bs) (hb : 0 < b.len) (hpos : 0 < size) :
    Loose (kfree p h).2 ∧ resBlocks (kfree p h).2 = b :: bs ∧
      freeBytes (kfree p h).2 = freeBytes h ∪ {x | x ∈ (⟨p, size⟩ : Block)} := by
  have hne : b.start ≠ p := by
    rintro rfl
    have hdisj := hl.resBlocks_disjoint
    rw [hres, List.pairwise_cons] at hdisj
    exact hdisj.1 _ List.mem_cons_self b.start ⟨Nat.le_refl _, by omega⟩ ⟨Nat.le_refl _, Nat.lt_add_of_pos_right hpos⟩
  have hfind : ((resBlocks h).find? fun b => b.start = p) = some ⟨p, size⟩ := by
    rw [hres, List.find?_cons_of_neg, List.find?_cons_of_pos]
    · simp
    · simpa using hne
  obtain ⟨hl', hres', hbytes⟩ := kfree_call hl hfind hpos
  refine ⟨hl', ?_, hbytes⟩
  rw [hres', hres, List.eraseP_cons_of_neg, List.eraseP_cons_of_pos]
  · simp
  · simpa using hne

end RedMagic.Heap
