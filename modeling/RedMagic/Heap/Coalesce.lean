import RedMagic.Heap.Runs

/-!
# Freed blocks are joined

`HeapInv.gaps` says that no free block ends where another begins. Once all blocks are freed the free
blocks alone tile `[start, end)`, and a tiling without touching tiles is a single tile: in whatever order
the blocks are freed, the heap is whole again.
-/

namespace RedMagic.Heap

open Mm Blocks Lts

/-- `__kfree` of one pointer after the other; the first component is what the calls return. -/
def kfreeAll : List Nat → HeapDesc → List Nat × HeapDesc
  | [], h => ([], h)
  | p :: ps, h =>
    let r := kfree p h
    let rs := kfreeAll ps r.2
    (r.1 :: rs.1, rs.2)

/-- The bases of the blocks in use. -/
def resBases (h : HeapDesc) : List Nat := h.res.map fun n => (h.blk n).base

/-- The free list is the one block `[start, end)` and nothing is reserved. -/
def Whole (start endAddr : Nat) (h : HeapDesc) : Prop :=
  h.res = [] ∧ ∃ n, h.free = [n] ∧ h.blk n = ⟨start, endAddr - start⟩

theorem HeapInv.whole {h : HeapDesc} (hi : HeapInv h) (hlt : h.start < h.endAddr) (hres : h.res = []) :
    Whole h.start h.endAddr h := by
  have htiles := hi.tiles
  rw [hres, List.append_nil] at htiles
  have hone : h.free.map (blockOf h.blk) = [⟨h.start, h.endAddr - h.start⟩] := by
    apply htiles.eq_single_of_gaps hlt
    intro x hx y hy
    obtain ⟨n, hn, rfl⟩ := List.mem_map.1 hx
    obtain ⟨m, hm, rfl⟩ := List.mem_map.1 hy
    exact hi.gaps n hn m hm
  obtain ⟨n, hfree, hblk⟩ := List.map_eq_singleton_iff.1 hone
  refine ⟨hres, n, hfree, ?_⟩
  rw [blockOf, Block.mk.injEq] at hblk
  obtain ⟨hbase, hsize⟩ := hblk
  rw [← hsize, ← hbase]

/-- What one `__kfree` leaves in use. -/
theorem Freed.resBases {h h' : HeapDesc} {p found : Nat} (hf : Freed h h' p found) :
    (p :: resBases h').Perm (resBases h) := by
  have hrest : Heap.resBases h' = (h.res.erase found).map fun n => (h.blk n).base := by
    rw [Heap.resBases, hf.res]
    refine List.map_congr_left fun n hn => ?_
    rw [hf.blk n (hf.res ▸ hn)]
  rw [hrest, ← hf.base]
  exact ((List.perm_cons_erase hf.mem).map fun n => (h.blk n).base).symm

theorem kfreeAll_spec (ps : List Nat) {h : HeapDesc} (hi : HeapInv h) (hps : ps.Perm (resBases h)) :
    (∀ r ∈ (kfreeAll ps h).1, r = 0) ∧ HeapInv (kfreeAll ps h).2 ∧ (kfreeAll ps h).2.res = [] ∧
      (kfreeAll ps h).2.start = h.start ∧ (kfreeAll ps h).2.endAddr = h.endAddr := by
  induction ps generalizing h with
  | nil =>
    have hnil : h.res = [] := List.map_eq_nil_iff.1 hps.nil_eq.symm
    exact ⟨by simp [kfreeAll], hi, hnil, rfl, rfl⟩
  | cons p ps ih =>
    rcases kfree_spec hi p with ⟨-, hnone⟩ | ⟨h', found, hk, hf⟩
    · -- the pointer is one of those in use
      exfalso
      obtain ⟨n, hn, hbase⟩ := List.mem_map.1 (hps.subset List.mem_cons_self)
      exact hnone n hn hbase
    · obtain ⟨hzero, hinv, hres, hstart, hend⟩ := ih hf.inv ((hps.trans hf.resBases.symm).cons_inv)
      rw [kfreeAll, hk]
      refine ⟨?_, hinv, hres, hstart.trans hf.start, hend.trans hf.endAddr⟩
      intro r hr
      rcases List.mem_cons.1 hr with rfl | hr
      · rfl
      · exact hzero r hr

/-- **Maximal coalescing.** After `HEAP_FB` and any run of calls, over any frame source that hands out fresh
pages: no block of the free list ends where another one begins; and if all blocks in use are freed, in any
order, every call succeeds, the free list is the one block `[start, end)` and the reserved list is empty. -/
theorem heap_coalesces {σ : Type} {alloc : σ → Except String (Option Nat × σ)} {mem : Nat → Blk}
    {start endAddr : Nat} {s s' : σ} {h : HeapDesc} {st : HeapSt σ} (hlt : start < endAddr)
    (hend : endAddr < 2 ^ 32) (hfirst : Supplies alloc start endAddr [] s)
    (hfb : heapFb alloc mem start endAddr s = .ok (some h, s'))
    (hrun : Reaches (heapStep alloc) (FreshSteps alloc) ⟨h, s', []⟩ st) :
    (∀ n ∈ st.heap.free, ∀ m ∈ st.heap.free, (st.heap.blk n).base + (st.heap.blk n).size ≠ (st.heap.blk m).base) ∧
      ∀ ps : List Nat, ps.Perm (resBases st.heap) →
        (∀ r ∈ (kfreeAll ps st.heap).1, r = 0) ∧ Whole start endAddr (kfreeAll ps st.heap).2 := by
  have hi := reaches_runInv hlt hend hfirst hfb hrun
  refine ⟨hi.inv.gaps, ?_⟩
  intro ps hps
  obtain ⟨hzero, hinv, hres, hstart, hendAddr⟩ := kfreeAll_spec ps hi.inv hps
  rw [hi.start] at hstart
  rw [hi.endAddr] at hendAddr
  have hwhole := hinv.whole (by rwa [hstart, hendAddr]) hres
  rw [hstart, hendAddr] at hwhole
  exact ⟨hzero, hwhole⟩

/-- Three blocks, the middle one freed first. -/
theorem heap_coalesces_three_blocks :
    ∃ st, Reaches (heapStep pageList) (FreshSteps pageList) ⟨heap64k, [], []⟩ st ∧
      resBases st.heap = [0x10050, 0x10020, 0x10000] ∧
      Whole 0x10000 0x20000 (kfreeAll [0x10020, 0x10050, 0x10000] st.heap).2 := by
  have hfb : heapFb pageList (fun _ => ⟨0, 0⟩) 0x10000 0x20000 [0x1000] = .ok (some heap64k, []) := rfl
  obtain ⟨st, hrun, hres⟩ := exists_reaches (heapStep pageList) (FreshSteps pageList) ⟨heap64k, [], []⟩
    [.kmalloc 0x20, .kmalloc 0x30, .kmalloc 0x40] (fun st => resBases st.heap = [0x10050, 0x10020, 0x10000])
    (by decide +kernel)
  have hres := of_decide_eq_true hres
  obtain ⟨-, hall⟩ := heap_coalesces (by decide) (by decide) (by decide) hfb hrun
  exact ⟨st, hrun, hres, (hall [0x10020, 0x10050, 0x10000] (by rw [hres]; decide)).2⟩

end RedMagic.Heap
