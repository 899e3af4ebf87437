import RedMagic.Lib.Transition
import RedMagic.Heap.Merge

/-!
# Whole runs of the heap

A run starts from the heap `HEAP_FB` sets up and is any sequence of `__kmalloc` and `__kfree` calls. The
pointers that `__kmalloc` returned and `__kfree` has not taken back are kept in a ghost list.
-/

namespace RedMagic.Heap

open Mm Blocks Lts

structure HeapSt (σ : Type) where
  heap : HeapDesc
  /-- The state of the frame source. -/
  src : σ
  /-- The pointers in use, each with the size it was requested with. -/
  live : List (Nat × Nat)

inductive HeapOp where
  | kmalloc (size : Nat)
  | kfree (p : Nat)
deriving DecidableEq, Repr

section
variable {σ : Type} (alloc : σ → Except String (Option Nat × σ))

/-- One call. A size is positive; a NULL result is no pointer in use, a failed `__kfree` takes none back. -/
def heapStep (st : HeapSt σ) : HeapOp → Option (HeapSt σ)
  | .kmalloc size =>
    if 0 < size then
      match kmalloc alloc size st.heap st.src with
      | .error _ => none
      | .ok (r, h, s) => some ⟨h, s, if r = 0 then st.live else (r, size) :: st.live⟩
    else none
  | .kfree p =>
    match kfree p st.heap with
    | (0, h) => some ⟨h, st.src, st.live.filter fun l => l.1 != p⟩
    | (_, h) => some ⟨h, st.src, st.live⟩

/-- If the frame source hands out a page now, it is a fresh one. -/
def Supplies (start endAddr : Nat) (pages : List Nat) (s : σ) : Prop :=
  match alloc s with
  | .ok (some pg, _) => FreshPage start endAddr pages pg
  | _ => True

/-- The condition on the frame source in a run: the pages it hands out are fresh. -/
def FreshSteps (st : HeapSt σ) : HeapOp → Prop
  | .kmalloc _ => Supplies alloc st.heap.start st.heap.endAddr st.heap.pages st.src
  | .kfree _ => True

variable {alloc}

theorem Supplies.fresh {start endAddr : Nat} {pages : List Nat} {s s' : σ} {pg : Nat}
    (h : Supplies alloc start endAddr pages s) (hal : alloc s = .ok (some pg, s')) :
    FreshPage start endAddr pages pg := by
  simpa only [Supplies, hal] using h

end

instance (start endAddr : Nat) (pages : List Nat) (pg : Nat) : Decidable (FreshPage start endAddr pages pg) :=
  decidable_of_iff (pg ∉ pages ∧ pg % pageSize = 0 ∧ pg + pageSize < 2 ^ 32 ∧ 0 < pg ∧
      (pg + pageSize ≤ start ∨ endAddr ≤ pg))
    ⟨fun ⟨h1, h2, h3, h4, h5⟩ => ⟨h1, h2, h3, h4, h5⟩,
      fun h => ⟨h.new, h.aligned, h.fits, h.notNull, h.outside⟩⟩

instance {σ : Type} (alloc : σ → Except String (Option Nat × σ)) (start endAddr : Nat) (pages : List Nat) (s : σ) :
    Decidable (Supplies alloc start endAddr pages s) :=
  match h : alloc s with
  | .ok (some pg, _) => decidable_of_iff (FreshPage start endAddr pages pg) (by simp only [Supplies, h])
  | .ok (none, _) => .isTrue (by simp only [Supplies, h])
  | .error _ => .isTrue (by simp only [Supplies, h])

instance {σ : Type} (alloc : σ → Except String (Option Nat × σ)) (st : HeapSt σ) (op : HeapOp) :
    Decidable (FreshSteps alloc st op) :=
  match op with
  | .kmalloc _ => inferInstanceAs (Decidable (Supplies _ _ _ _ _))
  | .kfree _ => inferInstanceAs (Decidable True)

/-- The pointers in use are distinct and each is the base of a reserved block of its size. -/
structure LiveOk (h : HeapDesc) (live : List (Nat × Nat)) : Prop where
  nodup : (live.map Prod.fst).Nodup
  reserved : ∀ l ∈ live, ∃ n ∈ h.res, h.blk n = ⟨l.1, l.2⟩

structure RunInv (start endAddr : Nat) {σ : Type} (st : HeapSt σ) : Prop where
  inv : HeapInv st.heap
  start : st.heap.start = start
  endAddr : st.heap.endAddr = endAddr
  live : LiveOk st.heap st.live

/-! ## Steps -/

theorem LiveOk.refused {h h' : HeapDesc} {live : List (Nat × Nat)} {r : Nat} (hl : LiveOk h live)
    (hr : Refused h h' r) : LiveOk h' live := by
  refine ⟨hl.nodup, fun l hmem => ?_⟩
  obtain ⟨n, hn, hblk⟩ := hl.reserved l hmem
  exact ⟨n, hr.res ▸ hn, (hr.blk n hn).trans hblk⟩

theorem LiveOk.reserved_of {h h' : HeapDesc} {live : List (Nat × Nat)} {r size n : Nat} (hl : LiveOk h live)
    (hr : Reserved h h' r size n) : ∀ l ∈ live, ∃ m ∈ h'.res, h'.blk m = ⟨l.1, l.2⟩ := by
  intro l hmem
  obtain ⟨m, hm, hblk⟩ := hl.reserved l hmem
  exact ⟨m, hr.res ▸ List.mem_cons_of_mem _ hm, (hr.blk m hm).trans hblk⟩

/-- A new block is at none of the pointers in use. -/
theorem LiveOk.add {h h' : HeapDesc} {live : List (Nat × Nat)} {r size n : Nat} (hl : LiveOk h live)
    (hi : HeapInv h') (hr : Reserved h h' r size n) : LiveOk h' ((r, size) :: live) := by
  have hn : n ∈ h'.res := hr.res ▸ List.mem_cons_self
  refine ⟨List.nodup_cons.2 ⟨?_, hl.nodup⟩, ?_⟩
  · intro hmem
    obtain ⟨l, hlm, hlr⟩ := List.mem_map.1 hmem
    obtain ⟨m, hm, hblk⟩ := hl.reserved l hlm
    have hm' : m ∈ h'.res := hr.res ▸ List.mem_cons_of_mem _ hm
    have hbase : (h'.blk m).base = (h'.blk n).base := by
      rw [hr.blk m hm, hblk, hr.block]
      exact hlr
    have hmn : m = n := hi.base_inj (List.mem_append_right _ hm') (List.mem_append_right _ hn) hbase
    have hdup := (List.nodup_append.1 hi.used_nodup).2.1
    rw [hr.res] at hdup
    exact (List.nodup_cons.1 hdup).1 (hmn ▸ hm)
  · intro l hmem
    rcases List.mem_cons.1 hmem with rfl | hmem
    · exact ⟨n, hn, hr.block⟩
    · exact hl.reserved_of hr l hmem

/-- `__kfree` takes exactly the pointer it is given out of use. -/
theorem LiveOk.freed {h h' : HeapDesc} {live : List (Nat × Nat)} {p found : Nat} (hl : LiveOk h live)
    (hf : Freed h h' p found) : LiveOk h' (live.filter fun l => l.1 != p) := by
  refine ⟨hl.nodup.sublist (List.filter_sublist.map _), fun l hmem => ?_⟩
  obtain ⟨hlm, hne⟩ := List.mem_filter.1 hmem
  obtain ⟨n, hn, hblk⟩ := hl.reserved l hlm
  have hnf : n ≠ found := by
    rintro rfl
    rw [← hf.base, hblk] at hne
    simp at hne
  have hn' : n ∈ h'.res := hf.res ▸ (List.mem_erase_of_ne hnf).2 hn
  exact ⟨n, hn', (hf.blk n hn').trans hblk⟩

theorem heapStep_inv {σ : Type} {alloc : σ → Except String (Option Nat × σ)} {start endAddr : Nat}
    {st st' : HeapSt σ} {op : HeapOp} (hi : RunInv start endAddr st) (hok : FreshSteps alloc st op)
    (hstep : heapStep alloc st op = some st') : RunInv start endAddr st' := by
  cases op with
  | kmalloc size =>
    simp only [heapStep] at hstep
    split at hstep
    · rename_i hs
      split at hstep
      · cases hstep
      · rename_i r h s hk
        cases hstep
        obtain ⟨hinv, hstart, hend, hcase⟩ := kmalloc_spec hi.inv hs (fun pg s' hal => hok.fresh hal) hk
        refine ⟨hinv, hstart.trans hi.start, hend.trans hi.endAddr, ?_⟩
        rcases hcase with href | ⟨n, hres⟩
        · dsimp only
          rw [if_pos href.null]
          exact hi.live.refused href
        · dsimp only
          split
          · exact ⟨hi.live.nodup, hi.live.reserved_of hres⟩
          · exact hi.live.add hinv hres
    · cases hstep
  | kfree p =>
    simp only [heapStep] at hstep
    rcases kfree_spec hi.inv p with ⟨hk, -⟩ | ⟨h', found, hk, hf⟩
    · rw [hk] at hstep
      cases hstep
      exact hi
    · rw [hk] at hstep
      cases hstep
      exact ⟨hf.inv, hf.start.trans hi.start, hf.endAddr.trans hi.endAddr, hi.live.freed hf⟩

/-! ## Runs -/

theorem reaches_runInv {σ : Type} {alloc : σ → Except String (Option Nat × σ)} {mem : Nat → Blk}
    {start endAddr : Nat} {s s' : σ} {h : HeapDesc} {st : HeapSt σ} (hlt : start < endAddr)
    (hend : endAddr < 2 ^ 32) (hfirst : Supplies alloc start endAddr [] s)
    (hfb : heapFb alloc mem start endAddr s = .ok (some h, s'))
    (hrun : Reaches (heapStep alloc) (FreshSteps alloc) ⟨h, s', []⟩ st) : RunInv start endAddr st := by
  have hinit : RunInv start endAddr (⟨h, s', []⟩ : HeapSt σ) := by
    obtain ⟨hinv, hs, he, -⟩ := heapFb_inv hlt hend (fun pg s' hal => hfirst.fresh hal) hfb
    exact ⟨hinv, hs, he, List.nodup_nil, fun l hl => by cases hl⟩
  exact hrun.invariant hinit fun _ _ _ hinv hok hstep => heapStep_inv hinv hok hstep

/-- **Heap partition.** After `HEAP_FB` and any run of calls, over any frame source that hands out fresh
pages: the blocks of the free and the reserved list are non-empty, disjoint and cover exactly
`[start, end)`; each pointer in use is the base of exactly one reserved block, which has the size asked
for; and each metadata node other than the three heads is on exactly one of the three lists. -/
theorem heap_partition {σ : Type} {alloc : σ → Except String (Option Nat × σ)} {mem : Nat → Blk}
    {start endAddr : Nat} {s s' : σ} {h : HeapDesc} {st : HeapSt σ} (hlt : start < endAddr)
    (hend : endAddr < 2 ^ 32) (hfirst : Supplies alloc start endAddr [] s)
    (hfb : heapFb alloc mem start endAddr s = .ok (some h, s'))
    (hrun : Reaches (heapStep alloc) (FreshSteps alloc) ⟨h, s', []⟩ st) :
    Tiles start endAddr ((st.heap.free ++ st.heap.res).map (blockOf st.heap.blk)) ∧
      (st.live.map Prod.fst).Nodup ∧
      (∀ l ∈ st.live, ∃ n ∈ st.heap.res, st.heap.blk n = ⟨l.1, l.2⟩ ∧
        ∀ m ∈ st.heap.res, (st.heap.blk m).base = l.1 → m = n) ∧
      (st.heap.free ++ st.heap.res ++ st.heap.avail).Nodup ∧
      ∀ n, n ∈ st.heap.free ++ st.heap.res ++ st.heap.avail ↔ MetaNode st.heap.pages n := by
  have hi := reaches_runInv hlt hend hfirst hfb hrun
  refine ⟨?_, hi.live.nodup, ?_, hi.inv.nodup, fun n => ?_⟩
  · rw [← hi.start, ← hi.endAddr]
    exact hi.inv.tiles
  · intro l hl
    obtain ⟨n, hn, hblk⟩ := hi.live.reserved l hl
    refine ⟨n, hn, hblk, fun m hm hbase => ?_⟩
    exact hi.inv.base_inj (List.mem_append_right _ hm) (List.mem_append_right _ hn) (by rw [hbase, hblk])
  · rw [hi.inv.nodes.mem_iff]
    exact mem_pageNodes hi.inv.pages

/-- A frame source that hands out the pages of a list. -/
def pageList : List Nat → Except String (Option Nat × List Nat)
  | [] => .ok (none, [])
  | pg :: pgs => .ok (some pg, pgs)

/-- The heap over `[0x10000, 0x20000)` with its first metadata page at `0x1000`. -/
def heap64k : HeapDesc where
  start := 0x10000
  endAddr := 0x20000
  blk := Function.update (fun _ => ⟨0, 0⟩) 0x1030 ⟨0x10000, 0x10000⟩
  free := [0x1030]
  res := []
  avail := nodesFrom 0x1000 0x1040
  pages := [0x1000]

/-- Three blocks, the outer two freed again: the hole between them is still in use. -/
theorem heap_partition_five_calls :
    ∃ st, Reaches (heapStep pageList) (FreshSteps pageList) ⟨heap64k, [], []⟩ st ∧
      st.live = [(0x10020, 0x30)] ∧
      Tiles 0x10000 0x20000 ((st.heap.free ++ st.heap.res).map (blockOf st.heap.blk)) ∧
      ∃ n ∈ st.heap.res, st.heap.blk n = ⟨0x10020, 0x30⟩ ∧
        ∀ m ∈ st.heap.res, (st.heap.blk m).base = 0x10020 → m = n := by
  have hfb : heapFb pageList (fun _ => ⟨0, 0⟩) 0x10000 0x20000 [0x1000] = .ok (some heap64k, []) := rfl
  obtain ⟨st, hrun, hlive⟩ := exists_reaches (heapStep pageList) (FreshSteps pageList) ⟨heap64k, [], []⟩
    [.kmalloc 0x20, .kmalloc 0x30, .kmalloc 0x40, .kfree 0x10000, .kfree 0x10050]
    (fun st => st.live = [(0x10020, 0x30)]) (by decide +kernel)
  have hlive := of_decide_eq_true hlive
  obtain ⟨htiles, -, hres, -⟩ := heap_partition (by decide) (by decide) (by decide) hfb hrun
  exact ⟨st, hrun, hlive, htiles, hres (0x10020, 0x30) (by rw [hlive]; simp)⟩

end RedMagic.Heap
