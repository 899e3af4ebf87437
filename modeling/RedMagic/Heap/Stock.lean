import RedMagic.Heap.Calls
import RedMagic.Lib.Stock

/-!
# What the heap has left

`stockOf` forgets where the blocks of the heap are. What is left decides which requests are served: a `__kmalloc` returns
NULL exactly if the stock does not serve the request, and takes from the stock what it takes from the heap
(`not_served_of_refuses`, `kmalloc_takes`). The free blocks are the longest runs of free bytes, so a heap with the
same free bytes and the same reserved blocks has the same stock again, but for the nodes of pages taken meanwhile
(`Restored.served_iff`).
-/

namespace RedMagic.Heap

open Mm Blocks Lts BestFit

def sizes (h : HeapDesc) : Multiset Nat := (h.free : Multiset Nat).map fun n => (h.blk n).size

def stockOf (st : Kst) : Stock := ⟨sizes st.heap, st.heap.avail.length, st.mmc.nfree⟩

/-- The requests `rs` are served from `st` on. -/
abbrev Served (rs : List Request) (st : Kst) : Prop := Serves hblkNumPPg rs (stockOf st)

theorem mem_sizes {h : HeapDesc} {b : Nat} : b ∈ sizes h ↔ ∃ n ∈ h.free, (h.blk n).size = b := by
  simp [sizes]

theorem not_served_of_refuses {st : Kst} {size : Nat} (hex : Exhausted st.mmc ↔ st.mmc.nfree = 0)
    (href : Refuses size st.heap st.mmc) (rs : List Request) : ¬ Served (.block size :: rs) st := by
  rintro ⟨b, hmem, hbest, hcut, -⟩
  obtain ⟨n, hn, rfl⟩ := mem_sizes.1 hmem
  refine not_refuses hn hbest.2.1 ?_ href
  rcases hcut with heq | hnodes | hpages
  · exact .inl heq
  · exact .inr (.inl (List.ne_nil_of_length_pos hnodes))
  · exact .inr (.inr fun h => (Nat.ne_of_gt hpages) (hex.1 h))

theorem BestFree.best {st : Kst} {size n : Nat} (h : BestFree st.heap size n) :
    (stockOf st).Best size (st.heap.blk n).size := by
  refine ⟨mem_sizes.2 ⟨n, h.free, rfl⟩, h.fits, ?_⟩
  intro b hb hfit
  obtain ⟨k, hk, rfl⟩ := mem_sizes.1 hb
  exact h.least k hk hfit

/-! ## `__kmalloc` -/

theorem sizes_take (h : HeapDesc) {n : Nat} (hn : n ∈ h.free) (res : List Nat) :
    sizes { h with free := h.free.erase n, res := res } = (sizes h).erase (h.blk n).size := by
  show (↑(h.free.erase n) : Multiset Nat).map _ = _
  rw [← Multiset.coe_erase, Multiset.map_erase_of_mem _ _ hn]
  rfl

theorem sizes_carve {h : HeapDesc} (hl : Loose h) {hbp found size : Nat} (hf : found ∈ h.free)
    (hlt : size < (h.blk found).size) (hh : hbp ∈ h.avail) :
    sizes (carve h hbp found size) = ((h.blk found).size - size) ::ₘ (sizes h).erase (h.blk found).size := by
  obtain ⟨hfound, -, hold⟩ := hl.carve_blk hf hlt hh
  have hcons : (found ::ₘ (h.free : Multiset Nat).erase found) = h.free := Multiset.cons_erase hf
  have hrest : ((h.free : Multiset Nat).erase found).map (fun n => ((carve h hbp found size).blk n).size) =
      ((h.free : Multiset Nat).erase found).map fun n => (h.blk n).size := by
    refine Multiset.map_congr rfl fun n hn => ?_
    have hnd : (h.free : Multiset Nat).Nodup := Multiset.coe_nodup.2 hl.free_nodup
    obtain ⟨hne, hmem⟩ := hnd.mem_erase_iff.1 hn
    rw [hold n (List.mem_append_left _ hmem) hne]
  calc sizes (carve h hbp found size)
      = (found ::ₘ (h.free : Multiset Nat).erase found).map fun n => ((carve h hbp found size).blk n).size := by
        rw [hcons]
        rfl
    _ = ((h.blk found).size - size) ::ₘ ((h.free : Multiset Nat).erase found).map fun n => (h.blk n).size := by
        rw [Multiset.map_cons, hrest, hfound]
    _ = _ := by
        rw [Multiset.map_erase_of_mem _ _ (Multiset.mem_coe.2 hf)]
        rfl

theorem length_nodesFrom {pg : Nat} (hfit : pg + pageSize < 2 ^ 32) : (nodesFrom pg pg).length = hblkNumPPg := by
  have hnodes := nodesFrom_eq (k := 0) hfit
  rw [Nat.mul_zero, Nat.add_zero] at hnodes
  rw [hnodes, List.length_range', Nat.sub_zero]

/-- A new page adds its nodes. -/
theorem length_pageNodes_lt {pg : Nat} {pages : List Nat} (hne : pages ≠ []) (hfit : pg + pageSize < 2 ^ 32) :
    (pageNodes pages).length < (pageNodes (pg :: pages)).length := by
  cases pages with
  | nil => exact absurd rfl hne
  | cons pg' pgs =>
    rw [pageNodes, List.length_append, length_nodesFrom hfit]
    exact Nat.lt_add_of_pos_left (by decide)

/-- The frames and the metadata pages are the old ones, or a page was taken. -/
def Paged (st st' : Kst) : Prop :=
  (st'.mmc = st.mmc ∧ st'.heap.pages = st.heap.pages) ∨
    ((pageNodes st.heap.pages).length < (pageNodes st'.heap.pages).length ∧ 0 < st.mmc.nfree)

theorem Paged.trans {st st₁ st₂ : Kst} (h : Paged st st₁) (h' : Paged st₁ st₂) : Paged st st₂ := by
  rcases h with ⟨hmmc, hpages⟩ | ⟨hlt, hfree⟩
  · rcases h' with ⟨hmmc', hpages'⟩ | ⟨hlt', hfree'⟩
    · exact .inl ⟨hmmc'.trans hmmc, hpages'.trans hpages⟩
    · exact .inr ⟨hpages ▸ hlt', hmmc ▸ hfree'⟩
  · rcases h' with ⟨-, hpages'⟩ | ⟨hlt', -⟩
    · exact .inr ⟨hpages'.symm ▸ hlt, hfree⟩
    · exact .inr ⟨hlt.trans hlt', hfree⟩

section
variable {m : Mmc} {st : Kst} (L : Layout m) (hbase : 0 < m.frameBase) (h0 : 0 < m.metaBase) (hf : OnFrames m st)
  (hl : Loose st.heap)
include L h0 hf

theorem OnFrames.nfree_alloc {pg : Nat} {mp' : Mmc} (hal : allocFrame st.mmc = .ok (some pg, mp')) :
    mp'.nfree + 1 = st.mmc.nfree := by
  obtain ⟨live, -, hinv⟩ := hf.frames
  rcases hinv.alloc_cases L h0 Nat.one_pos with ⟨hnone, -⟩ | ⟨p, mp'', hsome, -, hfree, -⟩
  · rw [allocFrame, hnone] at hal
    cases hal
  · rw [allocFrame, hsome] at hal
    cases hal
    exact hfree

include hbase hl

/-- **A `__kmalloc` that returns a block** takes from the stock what a request takes. -/
theorem OnFrames.kmalloc_takes {size r : Nat} {h' : HeapDesc} {mp' : Mmc}
    (hk : Heap.kmalloc allocFrame size st.heap st.mmc = .ok (r, h', mp')) (hr : r ≠ 0) :
    Paged st { st with heap := h', mmc := mp' } ∧ ∃ b, (stockOf st).Best size b ∧ (stockOf st).CanCut size b ∧
      stockOf { st with heap := h', mmc := mp' } = (stockOf st).take hblkNumPPg size b := by
  cases kmalloc_outcome hk with
  | @whole n hscan =>
    obtain ⟨hmem, heq⟩ := scanFree_exact hscan
    have hbest : BestFree st.heap size n := ⟨hmem, heq.ge, fun k _ hfits => heq ▸ hfits⟩
    refine ⟨.inl ⟨rfl, rfl⟩, _, hbest.best, .inl heq, ?_⟩
    rw [Stock.take, if_pos heq, stockOf, sizes_take st.heap hmem]
    rfl
  | full => exact absurd rfl hr
  | @cut found n rest hscan havail =>
    obtain ⟨hmem, hlt⟩ := scanFree_found hscan
    have hn : n ∈ st.heap.avail := by simp [havail]
    have hpos : 0 < (stockOf st).nodes := List.length_pos_of_mem hn
    refine ⟨.inl ⟨rfl, rfl⟩, _, (bestFree_of_scan hscan).best, .inr (.inl hpos), ?_⟩
    rw [Stock.take, if_neg hlt.ne', if_pos hpos, stockOf, sizes_carve hl hmem hlt hn]
    show Stock.mk _ (st.heap.avail.erase n).length _ = _
    rw [List.length_erase_of_mem hn]
    rfl
  | noFrame => exact absurd rfl hr
  | @refill found pg n rest _ hscan hnil hal havail =>
    obtain ⟨hmem, hlt⟩ := scanFree_found hscan
    have hused : found ∈ st.heap.free ++ st.heap.res := List.mem_append_left _ hmem
    have hfresh := hf.fresh L hbase hal
    have hpages := hl.pages_ne_nil hused
    obtain ⟨hadd, hblk⟩ := addPage_loose hl hpages hfresh
    have hn : n ∈ (addPage st.heap pg).avail := by simp [havail]
    have hfree := hf.nfree_alloc L h0 hal
    have hpos : 0 < st.mmc.nfree := by omega
    have hsizes : sizes (addPage st.heap pg) = sizes st.heap := by
      refine Multiset.map_congr rfl fun k hk => ?_
      rw [hblk k (List.mem_append_left _ hk)]
    have hlen : ((addPage st.heap pg).avail.erase n).length = hblkNumPPg - 1 := by
      rw [List.length_erase_of_mem hn, ← length_nodesFrom hfresh.fits]
      simp [addPage, hnil]
    have hnode : ¬ 0 < (stockOf st).nodes := by simp [stockOf, hnil]
    refine ⟨.inr ⟨length_pageNodes_lt hpages hfresh.fits, hpos⟩, _, (bestFree_of_scan hscan).best, .inr (.inr hpos), ?_⟩
    rw [Stock.take, if_neg hlt.ne', if_neg hnode, stockOf, sizes_carve hadd hmem (by rwa [hblk found hused]) hn, hsizes,
      hblk found hused]
    show Stock.mk _ ((addPage st.heap pg).avail.erase n).length mp'.nfree = Stock.mk _ _ (st.mmc.nfree - 1)
    rw [hlen, ← hfree]
    rfl
  | noNode => exact absurd rfl hr

end

/-! ## The free blocks from the free bytes -/

section
variable {h : HeapDesc} (hl : Loose h)
include hl

/-- The free blocks are the longest runs of free bytes. -/
theorem Loose.maxRun_iff (g : Block) : MaxRun (· ∈ freeBytes h) g ↔ ∃ n ∈ h.free, blockOf h.blk n = g := by
  have hrun : ∀ n ∈ h.free, MaxRun (· ∈ freeBytes h) (blockOf h.blk n) := by
    intro n hn
    have hpos := hl.pos n hn
    have hapart : ∀ k ∈ h.free, k ≠ n → endOf h.blk n < (h.blk k).base ∨ endOf h.blk k < (h.blk n).base := by
      intro k hk hne
      have hlr := hl.apart (List.mem_append_left _ hn) (List.mem_append_left _ hk) hne hpos (hl.pos k hk)
      have hgap := hl.gaps n hn k hk
      have hgap' := hl.gaps k hk n hn
      omega
    refine .of_ends hpos (fun x hx => ⟨n, hn, hx⟩) ?_ ?_
    · rintro hstart ⟨k, hk, hx⟩
      by_cases hne : k = n
      · subst hne
        simp only [blockOf, mem_def] at hx hstart
        omega
      · have := hapart k hk hne
        simp only [blockOf, mem_def, endOf] at *
        omega
    · rintro ⟨k, hk, hx⟩
      by_cases hne : k = n
      · subst hne
        simp only [blockOf, mem_def] at hx
        omega
      · have := hapart k hk hne
        simp only [blockOf, mem_def, endOf] at *
        omega
  constructor
  · intro hg
    have hstart := start_mem hg.pos
    obtain ⟨n, hn, hx⟩ := hg.all g.start hstart
    exact ⟨n, hn, (hrun n hn).eq_of_mem hg hx hstart⟩
  · rintro ⟨n, hn, rfl⟩
    exact hrun n hn

theorem Loose.blocks_nodup : ((h.free : Multiset Nat).map (blockOf h.blk)).Nodup := by
  refine Multiset.Nodup.map_on ?_ (Multiset.coe_nodup.2 hl.free_nodup)
  intro n hn k hk heq
  by_contra hne
  have hx : (h.blk n).base ∈ blockOf h.blk n := start_mem (b := blockOf h.blk n) (hl.pos n hn)
  exact hl.disj n (List.mem_append_left _ hn) k (List.mem_append_left _ hk) (Ne.symm hne) _ hx (heq ▸ hx)

theorem Loose.count : h.free.length + h.res.length + h.avail.length = (pageNodes h.pages).length := by
  rw [← hl.nodes.length_eq, List.length_append, List.length_append]

theorem Loose.sizes_eq {h' : HeapDesc} (hl' : Loose h') (hbytes : freeBytes h' = freeBytes h) : sizes h' = sizes h := by
  have hblocks : (h'.free : Multiset Nat).map (blockOf h'.blk) = (h.free : Multiset Nat).map (blockOf h.blk) := by
    refine (Multiset.Nodup.ext hl'.blocks_nodup hl.blocks_nodup).2 fun g => ?_
    rw [Multiset.mem_map, Multiset.mem_map]
    refine (hl'.maxRun_iff g).symm.trans ?_
    rw [hbytes]
    exact hl.maxRun_iff g
  have hlen := congrArg (Multiset.map fun b : Block => b.len) hblocks
  rw [Multiset.map_map, Multiset.map_map] at hlen
  exact hlen

end

/-- The blocks are those of `st` again, free and reserved. -/
structure Restored (st st' : Kst) : Prop where
  res : resBlocks st'.heap = resBlocks st.heap
  bytes : freeBytes st'.heap = freeBytes st.heap
  paged : Paged st st'

section
variable {st st' : Kst} (hl : Loose st.heap) (hl' : Loose st'.heap) (h : Restored st st')
include hl hl' h

theorem Restored.nodes_add : (stockOf st').nodes + (pageNodes st.heap.pages).length =
    (stockOf st).nodes + (pageNodes st'.heap.pages).length := by
  have hfree := congrArg Multiset.card (hl.sizes_eq hl' h.bytes)
  have hres := congrArg List.length h.res
  simp only [sizes, Multiset.card_map, Multiset.coe_card] at hfree
  simp only [resBlocks, List.length_map] at hres
  have hcount := hl.count
  have hcount' := hl'.count
  show st'.heap.avail.length + _ = st.heap.avail.length + _
  omega

/-- **The stock afterwards.** Where a block large enough was free, a request for one is served again exactly if it was,
and if it was not then no page was taken. -/
theorem Restored.served_iff {size : Nat} (hroom : ∃ b ∈ sizes st.heap, size ≤ b) :
    (Served [.block size] st' ↔ Served [.block size] st) ∧ (¬ Served [.block size] st → st'.mmc = st.mmc) := by
  have hsizes := hl.sizes_eq hl' h.bytes
  have hnodes := h.nodes_add hl hl'
  rcases h.paged with ⟨hmmc, hpages⟩ | ⟨hlt, hfree⟩
  · have hstock : stockOf st' = stockOf st := by
      rw [hpages, Nat.add_right_cancel_iff] at hnodes
      show Stock.mk _ (stockOf st').nodes _ = Stock.mk _ (stockOf st).nodes _
      rw [hsizes, hnodes, hmmc]
    exact ⟨by rw [Served, hstock], fun _ => hmmc⟩
  · have hserved : Served [.block size] st := serves_of_room hroom (.inr hfree)
    refine ⟨iff_of_true (serves_of_room ?_ (.inl (by omega))) hserved, fun hno => absurd hserved hno⟩
    show ∃ b ∈ sizes st'.heap, size ≤ b
    rwa [hsizes]

end

end RedMagic.Heap
