import RedMagic.Lib.Tiling
import RedMagic.Heap.Nodes

/-!
# The heap is a partition of its range

`Partition`: the blocks of the free and the reserved list tile `[start, end)`, and every metadata node
is on exactly one list. `HeapInv` adds that no two free blocks touch, which is what makes the merge
loop of `__kfree` correct: it rewrites `found` while it walks the list, and a second block that
touches the grown `found` would be merged over the first (`Heap/Merge.lean`).
-/

namespace RedMagic.Heap

open Mm Blocks Lts

/-- The bytes of a node's block. -/
def blockOf (blk : Nat → Blk) (n : Nat) : Block := ⟨(blk n).base, (blk n).size⟩

/-- The end of a node's block. -/
def endOf (blk : Nat → Blk) (n : Nat) : Nat := (blk n).base + (blk n).size

structure Partition (h : HeapDesc) : Prop where
  fits : h.endAddr < 2 ^ 32
  tiles : Tiles h.start h.endAddr ((h.free ++ h.res).map (blockOf h.blk))
  nodes : (h.free ++ h.res ++ h.avail).Perm (pageNodes h.pages)
  pages : PagesOk h.pages

structure HeapInv (h : HeapDesc) : Prop extends Partition h where
  gaps : ∀ n ∈ h.free, ∀ m ∈ h.free, endOf h.blk n ≠ (h.blk m).base

/-- A page the heap may be given: a whole page outside its range that it does not have yet. -/
structure FreshPage (start endAddr : Nat) (pages : List Nat) (pg : Nat) : Prop where
  new : pg ∉ pages
  aligned : pg % pageSize = 0
  fits : pg + pageSize < 2 ^ 32
  notNull : 0 < pg
  outside : pg + pageSize ≤ start ∨ endAddr ≤ pg

/-! ## What a partition gives -/

section
variable {h : HeapDesc} (hp : Partition h) {n m : Nat}
include hp

theorem Partition.nodup : (h.free ++ h.res ++ h.avail).Nodup :=
  hp.nodes.nodup_iff.2 (nodup_pageNodes hp.pages)

theorem Partition.used_nodup : (h.free ++ h.res).Nodup := (List.nodup_append.1 hp.nodup).1

theorem Partition.not_free_of_res (hn : n ∈ h.res) : n ∉ h.free := fun hf =>
  (List.nodup_append.1 hp.used_nodup).2.2 n hf n hn rfl

theorem Partition.not_used_of_avail (hn : n ∈ h.avail) : n ∉ h.free ++ h.res := fun hf =>
  (List.nodup_append.1 hp.nodup).2.2 n hf n hn rfl

theorem Partition.pos (hn : n ∈ h.free ++ h.res) : 0 < (h.blk n).size :=
  hp.tiles.pos _ (List.mem_map_of_mem hn)

theorem Partition.inside (hn : n ∈ h.free ++ h.res) :
    h.start ≤ (h.blk n).base ∧ endOf h.blk n ≤ h.endAddr :=
  hp.tiles.inside (List.mem_map_of_mem (f := blockOf h.blk) hn)

/-- The tiling with the block of a used node in front. -/
theorem Partition.front (hn : n ∈ h.free ++ h.res) :
    Tiles h.start h.endAddr
      (⟨(h.blk n).base, (h.blk n).size⟩ :: ((h.free ++ h.res).erase n).map (blockOf h.blk)) :=
  hp.tiles.perm ((List.perm_cons_erase hn).map _)

/-- The blocks of two used nodes are apart. -/
theorem Partition.apart (hn : n ∈ h.free ++ h.res) (hm : m ∈ h.free ++ h.res) (hne : m ≠ n) :
    endOf h.blk n ≤ (h.blk m).base ∨ endOf h.blk m ≤ (h.blk n).base :=
  (hp.front hn).apart (List.mem_map_of_mem (f := blockOf h.blk) ((List.mem_erase_of_ne hne).2 hm))

/-- A heap with a used node has a metadata page. -/
theorem Partition.pages_ne_nil (hn : n ∈ h.free ++ h.res) : h.pages ≠ [] := by
  intro hnil
  have hmem : n ∈ pageNodes h.pages := hp.nodes.mem_iff.1 (List.mem_append_left _ hn)
  rw [hnil] at hmem
  cases hmem

theorem Partition.base_inj (hn : n ∈ h.free ++ h.res) (hm : m ∈ h.free ++ h.res)
    (hb : (h.blk n).base = (h.blk m).base) : n = m := by
  by_contra hne
  have h1 := hp.pos hn
  have h2 := hp.pos hm
  have := hp.apart hn hm (Ne.symm hne)
  unfold endOf at this
  omega

end

/-- A list keeps its blocks when the store changes at nodes that are not on it. -/
theorem map_blockOf_congr {blk blk' : Nat → Blk} {ns : List Nat} (h : ∀ n ∈ ns, blk' n = blk n) :
    ns.map (blockOf blk') = ns.map (blockOf blk) :=
  List.map_congr_left fun n hn => by rw [blockOf, blockOf, h n hn]

/-! ## `HEAP_FB` -/

theorem heapFb_inv {σ : Type} {alloc : σ → Except String (Option Nat × σ)} {mem : Nat → Blk}
    {start endAddr : Nat} {s s' : σ} {h : HeapDesc} (hlt : start < endAddr) (hend : endAddr < 2 ^ 32)
    (hfresh : ∀ pg s', alloc s = .ok (some pg, s') → FreshPage start endAddr [] pg)
    (hfb : heapFb alloc mem start endAddr s = .ok (some h, s')) :
    HeapInv h ∧ h.start = start ∧ h.endAddr = endAddr ∧ h.res = [] := by
  unfold heapFb at hfb
  split at hfb
  · cases hfb
  · cases hfb
  · rename_i metap s₁ hal
    have hf := hfresh metap s₁ hal
    cases hfb
    have hsize : u32 (endAddr + 2 ^ 32 - start) = endAddr - start := by
      unfold u32
      omega
    have hpages : PagesOk [metap] := by
      refine ⟨List.nodup_singleton _, ?_, ?_⟩
      · intro pg hpg
        rw [List.mem_singleton.1 hpg]
        exact hf.aligned
      · intro pg hpg
        rw [List.mem_singleton.1 hpg]
        exact hf.fits
    refine ⟨⟨⟨hend, ?_, ?_, hpages⟩, ?_⟩, rfl, rfl, rfl⟩
    · simp only [List.append_nil, List.map_cons, List.map_nil, blockOf, Function.update_self, hsize]
      exact Tiles.single hlt
    · -- the block's node and the nodes after it are the page without its first three nodes
      show ([metap + hblkSize * 3] ++ [] ++ nodesFrom metap (metap + hblkSize * 3 + hblkSize)).Perm
        (nodesFrom metap (metap + hblkSize * 3))
      have hnext : metap + hblkSize * 3 + hblkSize = metap + hblkSize * 4 := by
        unfold hblkSize
        omega
      rw [hnext, nodesFrom_eq hf.fits, nodesFrom_eq hf.fits, ← hnext]
      rfl
    · intro n hn m hm
      rw [List.mem_singleton.1 hn, List.mem_singleton.1 hm]
      simp only [endOf, Function.update_self, hsize]
      omega

/-! ## `__kmalloc` -/

theorem scanFree_exact {blk : Nat → Blk} {size n : Nat} {ns : List Nat} {delta : Nat} {found : Option Nat}
    (h : scanFree blk size ns delta found = .exact n) : n ∈ ns ∧ (blk n).size = size := by
  fun_induction scanFree blk size ns delta found with
  | case1 => cases h
  | case2 delta found x rest hgt hlt ih => simp [ih h]
  | case3 delta found x rest hgt hlt ih => simp [ih h]
  | case4 delta found x rest hgt heq =>
    cases h
    exact ⟨List.mem_cons_self, heq⟩
  | case5 delta found x rest hgt hne ih => simp [ih h]

theorem scanFree_best {blk : Nat → Blk} {size n : Nat} {ns : List Nat} {delta : Nat} {found : Option Nat}
    (h : scanFree blk size ns delta found = .best (some n)) :
    (n ∈ ns ∧ size < (blk n).size) ∨ found = some n := by
  fun_induction scanFree blk size ns delta found with
  | case1 => exact .inr (by simpa using h)
  | case2 delta found x rest hgt hlt ih =>
    rcases ih h with ⟨hm, hs⟩ | hx
    · exact .inl ⟨List.mem_cons_of_mem _ hm, hs⟩
    · cases hx
      exact .inl ⟨List.mem_cons_self, hgt⟩
  | case3 delta found x rest hgt hlt ih => exact (ih h).imp_left fun hm => ⟨List.mem_cons_of_mem _ hm.1, hm.2⟩
  | case4 => cases h
  | case5 delta found x rest hgt hne ih => exact (ih h).imp_left fun hm => ⟨List.mem_cons_of_mem _ hm.1, hm.2⟩

/-- A fresh metadata page adds its nodes to `avail` and writes no node that is on a list. -/
theorem addPage_nodes {h : HeapDesc} {pg : Nat} (hnodes : (h.free ++ h.res ++ h.avail).Perm (pageNodes h.pages))
    (hpages : PagesOk h.pages) (hne : h.pages ≠ []) (hf : FreshPage h.start h.endAddr h.pages pg) :
    (h.free ++ h.res ++ (addPage h pg).avail).Perm (pageNodes (pg :: h.pages)) ∧ PagesOk (pg :: h.pages) ∧
      ∀ n ∈ h.free ++ h.res ++ h.avail, (addPage h pg).blk n = h.blk n := by
  refine ⟨?_, ⟨List.nodup_cons.2 ⟨hf.new, hpages.nodup⟩, ?_, ?_⟩, ?_⟩
  · show (h.free ++ h.res ++ (h.avail ++ nodesFrom pg pg)).Perm (pageNodes (pg :: h.pages))
    cases hpgs : h.pages with
    | nil => exact absurd hpgs hne
    | cons q qs =>
      rw [pageNodes, ← hpgs, ← List.append_assoc]
      exact (List.perm_append_comm).trans (hnodes.append_left _)
  · intro q hq
    rcases List.mem_cons.1 hq with rfl | hq
    · exact hf.aligned
    · exact hpages.aligned q hq
  · intro q hq
    rcases List.mem_cons.1 hq with rfl | hq
    · exact hf.fits
    · exact hpages.fits q hq
  · intro n hn
    obtain ⟨q, hq, hin⟩ := pageNodes_inside hpages (hnodes.mem_iff.1 hn)
    refine if_neg fun hc => hf.new ?_
    rw [page_eq hf.aligned (hpages.aligned q hq) hc hin]
    exact hq

theorem addPage_inv {h : HeapDesc} (hi : HeapInv h) (hne : h.pages ≠ []) {pg : Nat}
    (hf : FreshPage h.start h.endAddr h.pages pg) :
    HeapInv (addPage h pg) ∧ ∀ n ∈ h.free ++ h.res, (addPage h pg).blk n = h.blk n := by
  obtain ⟨hnodes, hpages, hkeep⟩ := addPage_nodes hi.nodes hi.pages hne hf
  have hblk : ∀ n ∈ h.free ++ h.res, (addPage h pg).blk n = h.blk n :=
    fun n hn => hkeep n (List.mem_append_left _ hn)
  refine ⟨⟨⟨hi.fits, ?_, hnodes, hpages⟩, ?_⟩, hblk⟩
  · exact map_blockOf_congr hblk ▸ hi.tiles
  · intro n hn m hm
    rw [endOf, hblk n (List.mem_append_left _ hn), hblk m (List.mem_append_left _ hm)]
    exact hi.gaps n hn m hm

/-- Handing out a whole free block (`list_move(&hbp->lh, &hd_res->lh)`). -/
theorem take_inv {h : HeapDesc} (hi : HeapInv h) {n : Nat} (hn : n ∈ h.free) :
    HeapInv { h with free := h.free.erase n, res := n :: h.res } := by
  refine ⟨⟨hi.fits, ?_, (perm_free_res hn).trans hi.nodes, hi.pages⟩, ?_⟩
  · have hp : (h.free ++ h.res).Perm (h.free.erase n ++ n :: h.res) := by
      simpa using (perm_free_res (r := h.res) (t := []) hn).symm
    exact hi.tiles.perm (hp.map _)
  · intro x hx y hy
    exact hi.gaps x (List.mem_of_mem_erase hx) y (List.mem_of_mem_erase hy)

/-- The nodes after `hbp` got the first `size` bytes of `found`. -/
theorem carve_blk {h : HeapDesc} {hbp found size : Nat} (hne : hbp ≠ found) (hfit : (h.blk found).base + size < 2 ^ 32) :
    (carve h hbp found size).blk found = ⟨(h.blk found).base + size, (h.blk found).size - size⟩ ∧
      (carve h hbp found size).blk hbp = ⟨(h.blk found).base, size⟩ ∧
      ∀ n, n ≠ found → n ≠ hbp → (carve h hbp found size).blk n = h.blk n := by
  refine ⟨?_, ?_, fun n hnf hnh => ?_⟩
  · simp only [carve, Function.update_self, u32_of_lt hfit]
  · simp only [carve, Function.update_of_ne hne, Function.update_self]
  · simp only [carve, Function.update_of_ne hnf, Function.update_of_ne hnh]

/-- Splitting a larger free block: `hbp` gets the first `size` bytes of `found`. -/
theorem carve_inv {h : HeapDesc} (hi : HeapInv h) {hbp found size : Nat} (hh : hbp ∈ h.avail)
    (hf : found ∈ h.free) (hs : 0 < size) (hlt : size < (h.blk found).size) :
    HeapInv (carve h hbp found size) ∧
      (carve h hbp found size).blk hbp = ⟨(h.blk found).base, size⟩ ∧
      ∀ n ∈ h.res, (carve h hbp found size).blk n = h.blk n := by
  have hfu : found ∈ h.free ++ h.res := List.mem_append_left _ hf
  have hnu := hi.not_used_of_avail hh
  have hne : hbp ≠ found := by
    rintro rfl
    exact hnu hfu
  have hin := hi.inside hfu
  have hfit := hi.fits
  obtain ⟨hfound, hnew, hother⟩ := carve_blk hne (show (h.blk found).base + size < 2 ^ 32 by unfold endOf at hin; omega)
  have hold : ∀ n ∈ h.free ++ h.res, n ≠ found → (carve h hbp found size).blk n = h.blk n := by
    intro n hn hnf
    refine hother n hnf ?_
    rintro rfl
    exact hnu hn
  refine ⟨⟨⟨hi.fits, ?_, (perm_avail_res hh).trans hi.nodes, hi.pages⟩, ?_⟩, hnew, ?_⟩
  · -- `found` is cut in two, and the nodes other than `found` and `hbp` keep their blocks
    have hrest : ((h.free ++ h.res).erase found).map (blockOf (carve h hbp found size).blk)
        = ((h.free ++ h.res).erase found).map (blockOf h.blk) := by
      refine map_blockOf_congr fun n hn => hold n (List.mem_of_mem_erase hn) ?_
      rintro rfl
      exact hi.used_nodup.not_mem_erase hn
    have hp : (h.free ++ hbp :: h.res).Perm (hbp :: found :: (h.free ++ h.res).erase found) :=
      List.perm_middle.trans ((List.perm_cons_erase hfu).cons hbp)
    refine ((hi.front hfu).split hs hlt).perm (List.Perm.symm ?_)
    have hmap := hp.map (blockOf (carve h hbp found size).blk)
    simp only [List.map_cons, hrest, blockOf, hnew, hfound] at hmap
    exact hmap
  · intro n hn m hm
    have hgap := hi.gaps n hn m hm
    have hnu' : n ∈ h.free ++ h.res := List.mem_append_left _ hn
    have hmu' : m ∈ h.free ++ h.res := List.mem_append_left _ hm
    have hpos := hi.pos hnu'
    by_cases hnf : n = found
    · subst hnf
      by_cases hmf : m = n
      · subst hmf
        rw [endOf, hfound]
        dsimp only
        omega
      · rw [endOf, hfound, hold m hmu' hmf]
        unfold endOf at hgap
        dsimp only
        omega
    · by_cases hmf : m = found
      · subst hmf
        have hap := hi.apart hmu' hnu' hnf
        rw [endOf, hold n hnu' hnf, hfound]
        unfold endOf at hap
        dsimp only
        omega
      · rw [endOf, hold n hnu' hnf, hold m hmu' hmf]
        exact hgap
  · intro n hn
    refine hold n (List.mem_append_right _ hn) ?_
    rintro rfl
    exact hi.not_free_of_res hn hf

/-- A call that returns a block: its node `n` is new on the reserved list, and the reserved blocks stay. -/
structure Reserved (h h' : HeapDesc) (r size n : Nat) : Prop where
  res : h'.res = n :: h.res
  block : h'.blk n = ⟨r, size⟩
  blk : ∀ m ∈ h.res, h'.blk m = h.blk m

/-- A call that returns NULL leaves the reserved list and its blocks. -/
structure Refused (h h' : HeapDesc) (r : Nat) : Prop where
  null : r = 0
  res : h'.res = h.res
  blk : ∀ m ∈ h.res, h'.blk m = h.blk m

theorem carve_reserved {h : HeapDesc} (hi : HeapInv h) {hbp found size : Nat} (hh : hbp ∈ h.avail)
    (hf : found ∈ h.free) (hs : 0 < size) (hlt : size < (h.blk found).size) :
    HeapInv (carve h hbp found size) ∧ Reserved h (carve h hbp found size) (h.blk found).base size hbp := by
  obtain ⟨hinv, hblock, hblk⟩ := carve_inv hi hh hf hs hlt
  exact ⟨hinv, rfl, hblock, hblk⟩

/-- The ways a call of `__kmalloc` can go. -/
inductive Outcome {σ : Type} (alloc : σ → Except String (Option Nat × σ)) (size : Nat) (h : HeapDesc) (s : σ) :
    Nat → HeapDesc → σ → Prop
  /-- A free block has exactly the size. -/
  | whole {n : Nat} : scanFree h.blk size h.free (2 ^ 32 - 1) none = .exact n →
      Outcome alloc size h s (h.blk n).base { h with free := h.free.erase n, res := n :: h.res } s
  /-- No free block is large enough. -/
  | full : scanFree h.blk size h.free (2 ^ 32 - 1) none = .best none → Outcome alloc size h s 0 h s
  /-- The best larger block is cut. -/
  | cut {found n : Nat} {rest : List Nat} : scanFree h.blk size h.free (2 ^ 32 - 1) none = .best (some found) →
      h.avail = n :: rest → Outcome alloc size h s (h.blk found).base (carve h n found size) s
  /-- There is no node for the new block, and no frame for a metadata page. -/
  | noFrame {found : Nat} {s' : σ} : scanFree h.blk size h.free (2 ^ 32 - 1) none = .best (some found) →
      h.avail = [] → alloc s = .ok (none, s') → Outcome alloc size h s 0 h s'
  /-- A metadata page is added first. -/
  | refill {found pg n : Nat} {rest : List Nat} {s' : σ} :
      scanFree h.blk size h.free (2 ^ 32 - 1) none = .best (some found) → h.avail = [] →
      alloc s = .ok (some pg, s') → (addPage h pg).avail = n :: rest →
      Outcome alloc size h s ((addPage h pg).blk found).base (carve (addPage h pg) n found size) s'
  /-- The metadata page has no node. -/
  | noNode {found pg : Nat} {s' : σ} : scanFree h.blk size h.free (2 ^ 32 - 1) none = .best (some found) →
      h.avail = [] → alloc s = .ok (some pg, s') → (addPage h pg).avail = [] →
      Outcome alloc size h s 0 (addPage h pg) s'

theorem kmalloc_outcome {σ : Type} {alloc : σ → Except String (Option Nat × σ)} {h h' : HeapDesc} {s s' : σ}
    {size r : Nat} (hk : kmalloc alloc size h s = .ok (r, h', s')) : Outcome alloc size h s r h' s' := by
  unfold kmalloc at hk
  cases hscan : scanFree h.blk size h.free (2 ^ 32 - 1) none with
  | exact n =>
    simp only [hscan] at hk
    cases hk
    exact .whole hscan
  | best o =>
    cases o with
    | none =>
      simp only [hscan] at hk
      cases hk
      exact .full hscan
    | some found =>
      simp only [hscan] at hk
      cases havail : h.avail with
      | cons n rest =>
        simp only [havail] at hk
        cases hk
        exact .cut hscan havail
      | nil =>
        simp only [havail] at hk
        split at hk
        · cases hk
        · rename_i hal
          cases hk
          exact .noFrame hscan havail hal
        · rename_i hal
          split at hk
          · rename_i hnone
            cases hk
            exact .noNode hscan havail hal hnone
          · rename_i hsome
            cases hk
            exact .refill hscan havail hal hsome

theorem scanFree_found {blk : Nat → Blk} {size found : Nat} {ns : List Nat}
    (h : scanFree blk size ns (2 ^ 32 - 1) none = .best (some found)) : found ∈ ns ∧ size < (blk found).size := by
  simpa using scanFree_best h

theorem kmalloc_spec {σ : Type} {alloc : σ → Except String (Option Nat × σ)} {h h' : HeapDesc} {s s' : σ}
    {size r : Nat} (hi : HeapInv h) (hs : 0 < size)
    (hfresh : ∀ pg s', alloc s = .ok (some pg, s') → FreshPage h.start h.endAddr h.pages pg)
    (hk : kmalloc alloc size h s = .ok (r, h', s')) :
    HeapInv h' ∧ h'.start = h.start ∧ h'.endAddr = h.endAddr ∧
      (Refused h h' r ∨ ∃ n, Reserved h h' r size n) := by
  cases kmalloc_outcome hk with
  | @whole n hscan =>
    obtain ⟨hmem, hsize⟩ := scanFree_exact hscan
    exact ⟨take_inv hi hmem, rfl, rfl, .inr ⟨n, rfl, by rw [← hsize], fun _ _ => rfl⟩⟩
  | full => exact ⟨hi, rfl, rfl, .inl ⟨rfl, rfl, fun _ _ => rfl⟩⟩
  | @cut found n rest hscan havail =>
    obtain ⟨hmem, hlt⟩ := scanFree_found hscan
    have hn : n ∈ h.avail := by simp [havail]
    obtain ⟨hinv, hres⟩ := carve_reserved hi hn hmem hs hlt
    exact ⟨hinv, rfl, rfl, .inr ⟨n, hres⟩⟩
  | noFrame => exact ⟨hi, rfl, rfl, .inl ⟨rfl, rfl, fun _ _ => rfl⟩⟩
  | @refill found pg n rest _ hscan _ hal havail =>
    obtain ⟨hmem, hlt⟩ := scanFree_found hscan
    have hused : found ∈ h.free ++ h.res := List.mem_append_left _ hmem
    obtain ⟨hadd, hblk⟩ := addPage_inv hi (hi.pages_ne_nil hused) (hfresh pg s' hal)
    rw [← hblk found hused] at hlt
    have hn : n ∈ (addPage h pg).avail := by simp [havail]
    obtain ⟨hinv, hres⟩ := carve_reserved hadd hn hmem hs hlt
    refine ⟨hinv, rfl, rfl, .inr ⟨n, hres.res, hres.block, fun m hm => ?_⟩⟩
    exact (hres.blk m hm).trans (hblk m (List.mem_append_right _ hm))
  | @noNode found pg _ hscan _ hal _ =>
    obtain ⟨hmem, -⟩ := scanFree_found hscan
    obtain ⟨hadd, hblk⟩ := addPage_inv hi (hi.pages_ne_nil (List.mem_append_left _ hmem)) (hfresh pg s' hal)
    exact ⟨hadd, rfl, rfl, .inl ⟨rfl, rfl, fun m hm => hblk m (List.mem_append_right _ hm)⟩⟩

end RedMagic.Heap
