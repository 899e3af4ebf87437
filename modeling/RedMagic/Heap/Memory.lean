import RedMagic.Heap.Stock
import RedMagic.Lib.Fallible

/-!
# The memory of the kernel (src/kmalloc.c:53-64, src/mm.c:100-123)

| here | there |
| --- | --- |
| `MemM` | a call on `kheap` and `mm_phys` |
| `kmalloc`, `kfree` | `kmalloc`, `kfree` (`kmalloc.c:53-64`) |
| `getFreePages`, `freePages` | `get_free_pages`, `free_pages` (`mm.c:100-103`, `:120-123`) |

`get_zeroed_page` is `getFreePages 1`; what is in the page is left out. A call that stops at an `ASSERT` is an error of the
monad. In a state that calls reach none does (`Reachable.kmalloc_run`, `Reachable.kfree_run`, `Reachable.getFreePages_run`).
-/

namespace RedMagic.Kmem

open Mm Heap Blocks Lts Fallible BestFit

abbrev MemM := EStateM String Kst

/-- `ASSERT(kheap.start && kheap.end)`. -/
def assertHeap : MemM Unit := fun st =>
  if st.heap.start = 0 ∨ st.heap.endAddr = 0 then .error "ASSERTION-FAILED: kheap.start && kheap.end" st else .ok () st

/-- `__kmalloc(size, &kheap)`. -/
def kheapMalloc (size : Nat) : MemM Nat := fun st =>
  match Heap.kmalloc allocFrame size st.heap st.mmc with
  | .error e => .error e st
  | .ok (p, h, mp) => .ok p { st with heap := h, mmc := mp }

/-- `__kfree(p, &kheap)`. -/
def kheapFree (p : Nat) : MemM Nat := fun st =>
  let r := Heap.kfree p st.heap
  .ok r.1 { st with heap := r.2 }

def kmalloc (size : Nat) : MemM Nat := do
  assertHeap
  kheapMalloc size

def kfree (p : Nat) : MemM Nat := do
  assertHeap
  kheapFree p

def getFreePages (npg : Nat) : MemM Nat := fun st =>
  match allocFrames st.mmc npg with
  | .error e => .error e st
  | .ok (none, mp) => .ok 0 { st with mmc := mp }
  | .ok (some p, mp) => .ok p { st with mmc := mp, others := ⟨p, npg⟩ :: st.others }

def freePages (page : Nat) : MemM Nat := fun st =>
  let r := freeFrames st.mmc page
  .ok r.1 { st with mmc := r.2, others := st.others.eraseP fun a => a.owns page }

/-! ## Calls from reachable states -/

/-- The heap and the frame table are in a state that their calls reach. -/
def Reachable (st : Kst) : Prop := ∃ m st₀, Boot m st₀ ∧ Reaches kStep Spares st₀ st

/-- `kmalloc` has taken a block. -/
structure Allocated (st st' : Kst) (p size : Nat) : Prop where
  notNull : p ≠ 0
  reach : Reachable st'
  res : resBlocks st'.heap = ⟨p, size⟩ :: resBlocks st.heap
  bytes : freeBytes st.heap = freeBytes st'.heap ∪ {x | x ∈ (⟨p, size⟩ : Block)}
  paged : Paged st st'
  stock : ∃ b, (stockOf st).Best size b ∧ (stockOf st).CanCut size b ∧ stockOf st' = (stockOf st).take hblkNumPPg size b

namespace Reachable

variable {st : Kst} (hr : Reachable st)
include hr

theorem loose : Loose st.heap := by
  obtain ⟨m, st₀, hb, hrun⟩ := hr
  exact reaches_loose hb hrun

theorem exhausted_iff : Exhausted st.mmc ↔ st.mmc.nfree = 0 := by
  obtain ⟨m, st₀, hb, hrun⟩ := hr
  exact (reaches_onFrames hb hrun).exhausted_iff

theorem assertHeap_ok : assertHeap st = .ok () st := by
  obtain ⟨m, st₀, hb, hrun⟩ := hr
  obtain ⟨L, hbase⟩ := hb.layout
  have hf := reaches_onFrames hb hrun
  have hstart := hf.start_pos L hbase
  have hlt := hf.lt
  rw [assertHeap, if_neg (by omega)]

theorem kmalloc_run (size : Nat) (hsize : size < 2 ^ 32) :
    (kmalloc size st = .ok 0 st ∧ Refuses size st.heap st.mmc) ∨
      ∃ p st', kmalloc size st = .ok p st' ∧ Allocated st st' p size ∧ ¬ Refuses size st.heap st.mmc := by
  have hassert := hr.assertHeap_ok
  obtain ⟨m, st₀, hb, hrun⟩ := hr
  obtain ⟨L, hbase⟩ := hb.layout
  have hf := reaches_onFrames hb hrun
  have hl := reaches_loose hb hrun
  obtain ⟨p, h', mp', hk, hcase⟩ := kmalloc_call L hbase hb.metaBase_pos hf hl size
  have hcall : Kmem.kmalloc size st = .ok p { st with heap := h', mmc := mp' } := by
    rw [Kmem.kmalloc, bind_ok hassert, kheapMalloc, hk]
  rcases hcase with ⟨rfl, rfl, rfl, href⟩ | ⟨hp, hnot, hres, hbytes⟩
  · exact .inl ⟨hcall, href⟩
  · have hstep : kStep st (.kmalloc size) = some { st with heap := h', mmc := mp' } := by
      simp only [kStep, if_pos hsize, hk]
    obtain ⟨hpaged, hstock⟩ := hf.kmalloc_takes L hbase hb.metaBase_pos hl hk hp
    exact .inr ⟨p, _, hcall, ⟨hp, ⟨m, st₀, hb, hrun.tail ⟨.kmalloc size, trivial, hstep⟩⟩, hres, hbytes, hpaged, hstock⟩,
      hnot⟩

theorem kfree (p : Nat) : Reachable { st with heap := (Heap.kfree p st.heap).2 } := by
  obtain ⟨m, st₀, hb, hrun⟩ := hr
  exact ⟨m, st₀, hb, hrun.tail ⟨.kfree p, trivial, rfl⟩⟩

theorem kfree_run (p : Nat) :
    Kmem.kfree p st = .ok (Heap.kfree p st.heap).1 { st with heap := (Heap.kfree p st.heap).2 } := by
  rw [Kmem.kfree, bind_ok hr.assertHeap_ok]
  rfl

/-- Another caller takes frames. -/
theorem alloc {npages p : Nat} {mp' : Mmc} (hal : allocFrames st.mmc npages = .ok (some p, mp')) :
    Reachable ⟨st.heap, mp', ⟨p, npages⟩ :: st.others⟩ := by
  obtain ⟨m, st₀, hb, hrun⟩ := hr
  have hstep : kStep st (.other (.alloc npages)) = some ⟨st.heap, mp', ⟨p, npages⟩ :: st.others⟩ := by
    simp only [kStep, frameCall, frameStep, hal, Option.map_some]
  exact ⟨m, st₀, hb, hrun.tail ⟨.other (.alloc npages), trivial, hstep⟩⟩

end Reachable

/-- Another caller has taken the `npg` pages at `p`, and `free_pages` would put the table back as it was. -/
structure GotPages (st st' : Kst) (p npg : Nat) : Prop where
  notNull : p ≠ 0
  fits : p + pageSize * npg < 2 ^ 32
  reach : Reachable st'
  heap : st'.heap = st.heap
  white : ∃ i, WhiteRun st.mmc npg i
  nfree : st'.mmc.nfree + npg = st.mmc.nfree
  undo : freeFrames st'.mmc p = (0, st.mmc)

theorem Reachable.getFreePages_run {st : Kst} (hr : Reachable st) {npg : Nat} (hpos : 0 < npg) :
    (getFreePages npg st = .ok 0 st ∧ ¬ ∃ i, WhiteRun st.mmc npg i) ∨
      ∃ p st', getFreePages npg st = .ok p st' ∧ GotPages st st' p npg := by
  obtain ⟨m, st₀, hb, hrun⟩ := hr
  obtain ⟨L, hbase⟩ := hb.layout
  obtain ⟨live, -, hinv⟩ := (reaches_onFrames hb hrun).frames
  rcases hinv.alloc_cases L hb.metaBase_pos hpos with ⟨hal, hno⟩ | ⟨p, mp', hal, hwhite, hnfree, hfree⟩
  · left
    rw [getFreePages, hal]
    exact ⟨rfl, hno⟩
  · obtain ⟨-, hge, -, hfit⟩ := (hinv.alloc L hal).frame L List.mem_cons_self
    have hr' := Reachable.alloc ⟨m, st₀, hb, hrun⟩ hal
    refine .inr ⟨p, _, ?_, (hbase.trans_le hge).ne', hfit, hr', rfl, hwhite, hnfree, hfree⟩
    rw [getFreePages, hal]

/-! ## Requests -/

section
variable {st st' : Kst} {p size : Nat} (ha : Allocated st st' p size)
include ha

theorem Allocated.served_iff (rs : List Request) : Served (.block size :: rs) st ↔ Served rs st' := by
  obtain ⟨b, hbest, hcut, hstock⟩ := ha.stock
  rw [Served, Served, serves_block hbest hcut, hstock]

theorem Allocated.nfree_le : st'.mmc.nfree ≤ st.mmc.nfree := by
  obtain ⟨b, -, -, hstock⟩ := ha.stock
  have hle : (stockOf st').pages ≤ (stockOf st).pages := by
    rw [hstock]
    exact Stock.take_pages_le
  exact hle

/-- There was a block for a smaller request too. -/
theorem Allocated.room {size' : Nat} (hle : size' ≤ size) : ∃ b ∈ sizes st.heap, size' ≤ b := by
  obtain ⟨b, hbest, -⟩ := ha.stock
  exact ⟨b, hbest.1, hle.trans hbest.2.1⟩

/-- The block is freed again. -/
theorem Allocated.restored (hpos : 0 < size) : Restored st { st' with heap := (Heap.kfree p st'.heap).2 } := by
  obtain ⟨-, hres, hbytes⟩ := kfree_newest ha.reach.loose ha.res hpos
  refine ⟨hres, hbytes.trans ha.bytes.symm, ha.paged.trans (.inl ⟨rfl, ?_⟩)⟩
  exact (kfree_frame p st'.heap).2.2

/-- Two blocks are freed again, the older one first. -/
theorem Allocated.restored_both {st₂ : Kst} {q size' : Nat} (ha' : Allocated st' st₂ q size') (hpos : 0 < size)
    (hpos' : 0 < size') : Restored st { st₂ with heap := (Heap.kfree q (Heap.kfree p st₂.heap).2).2 } := by
  have hres : resBlocks st₂.heap = ⟨q, size'⟩ :: ⟨p, size⟩ :: resBlocks st.heap := by rw [ha'.res, ha.res]
  obtain ⟨hl, hres₁, hbytes₁⟩ := kfree_second ha'.reach.loose hres hpos' hpos
  obtain ⟨-, hres₂, hbytes₂⟩ := kfree_newest hl hres₁ hpos'
  refine ⟨hres₂, ?_, (ha.paged.trans ha'.paged).trans (.inl ⟨rfl, ?_⟩)⟩
  · rw [hbytes₂, hbytes₁, ha.bytes, ha'.bytes, Set.union_right_comm]
  · exact (kfree_frame q _).2.2.trans (kfree_frame p _).2.2

end

theorem GotPages.served_iff {st st' : Kst} {p : Nat} (h : GotPages st st' p 1) (rs : List Request) :
    Served (.page :: rs) st ↔ Served rs st' := by
  have hfree := h.nfree
  have hstock : stockOf st' = { stockOf st with pages := (stockOf st).pages - 1 } := by
    show Stock.mk (sizes st'.heap) st'.heap.avail.length st'.mmc.nfree = Stock.mk _ _ (st.mmc.nfree - 1)
    rw [h.heap, ← hfree]
    rfl
  rw [Served, Served, hstock]
  constructor
  · exact fun hs => hs.2
  · refine fun hs => ⟨?_, hs⟩
    show 0 < st.mmc.nfree
    omega

/-- Without a frame no page is served. -/
theorem Reachable.not_served_page {st : Kst} (hr : Reachable st) (hno : ¬ ∃ i, WhiteRun st.mmc 1 i) (rs : List Request) :
    ¬ Served (.page :: rs) st := by
  rintro ⟨hpos, -⟩
  have hex : Exhausted st.mmc := by
    intro i hi hwhite
    refine hno ⟨i, hi, fun j hle hlt => ?_⟩
    obtain rfl : j = i := by omega
    exact hwhite
  exact Nat.ne_of_gt hpos (hr.exhausted_iff.1 hex)

end RedMagic.Kmem
