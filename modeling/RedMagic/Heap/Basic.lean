import Mathlib.Logic.Function.Basic
import RedMagic.Mm.Basic

/-!
# The first-best heap: `HEAP_FB`, `__kmalloc`, `__kfree` (src/kmalloc.c:69-218)

| here | there |
| --- | --- |
| `Blk`, `HeapDesc.blk`    | the `base` and `size` of the `heap_block_t` node at an address (`heap.h:26-30`, 16 bytes, packed) |
| `HeapDesc`           | `heap_desc_t` (`heap.h:36-48`); each list is the node addresses in list order from `head->next` |
| `heapFb`             | `HEAP_FB`, i.e. `fb_heap_init` (`kmalloc.c:69-102`) |
| `scanFree`, `kmalloc`| `__kmalloc` (`kmalloc.c:104-166`) |
| `mergeLoop`, `kfree` | `__kfree` (`kmalloc.c:168-218`) |

The frame source behind `alloc_frame(heap->mmcp)` is a parameter `alloc` on a state `σ`, so that the
results hold for any of them; `Mm.allocFrame` is one. A pointer is its address, 0 is NULL. `list_move`
takes a node off the list it is on and puts it behind another head: an `erase` and a `cons`.
-/

namespace RedMagic.Heap

open Mm

structure Blk where
  base : Nat
  size : Nat
deriving DecidableEq, Repr

structure HeapDesc where
  start : Nat
  endAddr : Nat
  blk : Nat → Blk
  free : List Nat
  res : List Nat
  avail : List Nat
  /-- The metadata pages taken so far, the first one last. No function reads it. -/
  pages : List Nat

def hblkSize : Nat := 16

/-- The nodes `p, p + 1, …` while `(addr_t) p < (addr_t) metap + PAGE_SIZE`. -/
def nodesFrom (metap p : Nat) : List Nat :=
  List.range' p ((u32 (metap + pageSize) - p + (hblkSize - 1)) / hblkSize) hblkSize

section
variable {σ : Type} (alloc : σ → Except String (Option Nat × σ))

/-- `HEAP_FB` on a heap whose `start` and `end` are set; `none` = it returned 1. `mem` is what the
metadata page holds before it is written. -/
def heapFb (mem : Nat → Blk) (start endAddr : Nat) (s : σ) : Except String (Option HeapDesc × σ) :=
  match alloc s with
  | .error e => .error e
  | .ok (none, s) => .ok (none, s)
  | .ok (some metap, s) =>
    -- the heads of `free`, `res` and `avail` are the first three nodes of the page
    let p := metap + hblkSize * 3
    .ok (some
      { start := start, endAddr := endAddr,
        blk := Function.update mem p ⟨start, u32 (endAddr + 2 ^ 32 - start)⟩,
        free := [p], res := [], avail := nodesFrom metap (p + hblkSize), pages := [metap] }, s)

/-! ## `__kmalloc` -/

/-- How the search ends: at a block of exactly the size, or with the best larger one, if any. -/
inductive Scan where
  | exact (hbp : Nat)
  | best (found : Option Nat)
deriving DecidableEq, Repr

/-- `list_for_each_entry(hbp, &hd_free->lh, lh)` with its `delta` and `found`. -/
def scanFree (blk : Nat → Blk) (size : Nat) : List Nat → Nat → Option Nat → Scan
  | [], _, found => .best found
  | hbp :: rest, delta, found =>
    if (blk hbp).size > size then
      if (blk hbp).size - size < delta then scanFree blk size rest ((blk hbp).size - size) (some hbp)
      else scanFree blk size rest delta found
    else if (blk hbp).size = size then .exact hbp
    else scanFree blk size rest delta found

/-- The new node `hbp` takes the first `size` bytes of `found` (`kmalloc.c:152-156`). -/
def carve (h : HeapDesc) (hbp found size : Nat) : HeapDesc :=
  let base := (h.blk found).base
  { h with
    blk := Function.update (Function.update h.blk hbp ⟨base, size⟩) found
      ⟨u32 (base + size), (h.blk found).size - size⟩,
    avail := h.avail.erase hbp, res := hbp :: h.res }

/-- A zeroed metadata page, all of whose nodes go to the tail of `avail` (`kmalloc.c:139-143`). -/
def addPage (h : HeapDesc) (metap : Nat) : HeapDesc :=
  { h with
    blk := fun n => if metap ≤ n ∧ n < metap + pageSize then ⟨0, 0⟩ else h.blk n,
    avail := h.avail ++ nodesFrom metap metap, pages := metap :: h.pages }

def kmalloc (size : Nat) (h : HeapDesc) (s : σ) : Except String (Nat × HeapDesc × σ) :=
  match scanFree h.blk size h.free (2 ^ 32 - 1) none with
  | .exact hbp =>
    .ok ((h.blk hbp).base, { h with free := h.free.erase hbp, res := hbp :: h.res }, s)
  | .best none => .ok (0, h, s)
  | .best (some found) =>
    match h.avail with
    | hbp :: _ => .ok ((h.blk found).base, carve h hbp found size, s)
    | [] =>
      match alloc s with
      | .error e => .error e
      | .ok (none, s) => .ok (0, h, s)
      | .ok (some metap, s) =>
        let h := addPage h metap
        match h.avail with
        | [] => .ok (0, h, s)
        | hbp :: _ => .ok ((h.blk found).base, carve h hbp found size, s)

end

/-! ## `__kfree` -/

/-- The merge loop (`kmalloc.c:190-204`) on the rest of the free list. -/
def mergeLoop (found : Nat) :
    List Nat → (Nat → Blk) → Option Nat → Option Nat → (Nat → Blk) × Option Nat × Option Nat
  | [], blk, lp, rp => (blk, lp, rp)
  | hbp :: rest, blk, lp, rp =>
    let st :=
      if u32 ((blk hbp).base + (blk hbp).size) = (blk found).base then
        (Function.update blk found ⟨(blk hbp).base, u32 ((blk found).size + (blk hbp).size)⟩, some hbp, rp)
      else if (blk hbp).base = u32 ((blk found).base + (blk found).size) then
        (Function.update blk found ⟨(blk found).base, u32 ((blk found).size + (blk hbp).size)⟩, lp, some hbp)
      else (blk, lp, rp)
    if st.2.1.isSome && st.2.2.isSome then st else mergeLoop found rest st.1 st.2.1 st.2.2

/-- `list_move(&n->lh, &hd_avail->lh)` for a merged node of the free list, if there is one. -/
def toAvail (h : HeapDesc) : Option Nat → HeapDesc
  | none => h
  | some n => { h with free := h.free.erase n, avail := n :: h.avail }

def kfree (p : Nat) (h : HeapDesc) : Nat × HeapDesc :=
  match h.res.find? fun n => (h.blk n).base == p with
  | none => (1, h)
  | some found =>
    let free := found :: h.free
    let st := mergeLoop found free h.blk none none
    let h := { h with res := h.res.erase found, free := free, blk := st.1 }
    (0, toAvail (toAvail h st.2.1) st.2.2)

end RedMagic.Heap
