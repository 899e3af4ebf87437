import RedMagic.Heap.Merge
import RedMagic.Mm.FirstFit

/-!
# The heap on its frames

| here | there |
| --- | --- |
| `pageContain` | `PAGE_CONTAIN` (`mm.h:12`) |
| `initHeap`    | `init_heap` (`kmalloc.c:31-45`) |
| `Kst`, `kStep` | the heap, the `mmc_t` it takes its frames from, and the other callers of that `mmc_t` |

The frames of the heap are the area `[start, end)` and its metadata pages (`heldBy`). Each is an allocation of
its own, so a page that `alloc_frame` hands out is apart from them: what `Heap/Partition.lean` assumes of
the frame source (`FreshPage`) holds of `mm.c`.
-/

namespace RedMagic.Heap

open Mm Blocks Lts

def pageContain (mem : Nat) : Nat := mem / pageSize + if mem % pageSize = 0 then 0 else 1

theorem le_pageContain (mem : Nat) : mem ≤ pageSize * pageContain mem := by
  unfold pageContain pageSize
  split <;> omega

theorem pageContain_zero : pageContain 0 = 0 := rfl

/-- `init_heap`; `none` = it returned 1. `mem` is what the heap's first metadata page holds before. -/
def initHeap (mem : Nat → Blk) (size : Nat) (mp : Mmc) : Except String (Option HeapDesc × Mmc) :=
  match allocFrames mp (pageContain size) with
  | .error e => .error e
  | .ok (none, mp) => .ok (none, mp)
  | .ok (some start, mp) => heapFb allocFrame mem start (u32 (start + size)) mp

/-- The allocations of the heap: its area and its metadata pages. -/
def heldBy (h : HeapDesc) : List Alloc :=
  ⟨h.start, pageContain (h.endAddr - h.start)⟩ :: h.pages.map fun pg => ⟨pg, 1⟩

structure Kst where
  heap : HeapDesc
  mmc : Mmc
  /-- What the other callers of `alloc_frames` hold. -/
  others : List Alloc

inductive Kop where
  | kmalloc (size : Nat)
  | kfree (p : Nat)
  | other (op : FrameOp)

def kStep (st : Kst) : Kop → Option Kst
  | .kmalloc size =>
    if size < 2 ^ 32 then
      match kmalloc allocFrame size st.heap st.mmc with
      | .error _ => none
      | .ok (_, h, mp) => some { st with heap := h, mmc := mp }
    else none
  | .kfree p => some { st with heap := (kfree p st.heap).2 }
  | .other op => (frameCall ⟨st.mmc, st.others⟩ op).map fun s => ⟨st.heap, s.mmc, s.live⟩

theorem kStep_kmalloc {st st' : Kst} {size : Nat} (hs : kStep st (.kmalloc size) = some st') :
    ∃ r h' mp', kmalloc allocFrame size st.heap st.mmc = .ok (r, h', mp') ∧ st' = { st with heap := h', mmc := mp' } := by
  simp only [kStep] at hs
  split at hs
  · split at hs
    · cases hs
    · rename_i r h' mp' hk
      cases hs
      exact ⟨r, h', mp', hk, rfl⟩
  · cases hs

/-- The other callers do not free the frames of the heap. -/
def Spares (st : Kst) : Kop → Prop
  | .other (.free p) => ∀ a ∈ heldBy st.heap, ¬ a.owns p
  | _ => True

/-- Sizes are positive too. -/
def Positive (st : Kst) : Kop → Prop
  | .kmalloc size => 0 < size
  | op => Spares st op

theorem Positive.spares {st : Kst} {op : Kop} (h : Positive st op) : Spares st op := by
  cases op with
  | kmalloc size => exact trivial
  | kfree p => exact h
  | other op => exact h

instance (st : Kst) (op : Kop) : Decidable (Spares st op) :=
  match op with
  | .kmalloc _ => inferInstanceAs (Decidable True)
  | .kfree _ => inferInstanceAs (Decidable True)
  | .other (.alloc _) => inferInstanceAs (Decidable True)
  | .other (.free p) => inferInstanceAs (Decidable (∀ a ∈ heldBy st.heap, ¬ a.owns p))

instance (st : Kst) (op : Kop) : Decidable (Positive st op) :=
  match op with
  | .kmalloc size => inferInstanceAs (Decidable (0 < size))
  | .kfree p => inferInstanceAs (Decidable (Spares st (.kfree p)))
  | .other op => inferInstanceAs (Decidable (Spares st (.other op)))

/-- `st` is the state after `init_heap`, on a table that `alloc_frames` and `free_frames` were used on before. -/
structure Boot (m : Mmc) (st : Kst) : Prop where
  table : ∃ base length, Region base length ∧ mmPageTable base length = .ok (some m)
  init : ∃ mem size s, Reaches frameCall Any ⟨m, []⟩ s ∧ size < 2 ^ 32 ∧
    initHeap mem size s.mmc = .ok (some st.heap, st.mmc) ∧ st.others = s.live

/-- `init_heap` in a state of the frame table. -/
def boot (mem : Nat → Blk) (size : Nat) (s : FrameSt) : Option Kst :=
  match initHeap mem size s.mmc with
  | .ok (some h, mp) => some ⟨h, mp, s.live⟩
  | _ => none

/-- A run on the heap that `init_heap` makes, in the form in which concrete runs are evaluated. -/
theorem exists_boot_reaches {base length : Nat} {m : Mmc} (hr : Region base length)
    (h0 : mmPageTable base length = .ok (some m)) (ok : Kst → Kop → Prop) [∀ u a, Decidable (ok u a)] (size : Nat)
    (hsize : size < 2 ^ 32) (ops : List Kop) (P : Kst → Bool)
    (h : ((boot (fun _ => ⟨0, 0⟩) size ⟨m, []⟩).any fun st₀ => (execOk kStep ok st₀ ops).any P) = true) :
    ∃ st₀ st, Boot m st₀ ∧ Reaches kStep ok st₀ st ∧ P st = true := by
  cases hb : boot (fun _ => ⟨0, 0⟩) size ⟨m, []⟩ with
  | none => simp [hb] at h
  | some st₀ =>
    rw [hb, Option.any_some] at h
    obtain ⟨st, hrun, hst⟩ := exists_reaches kStep ok st₀ ops P h
    refine ⟨st₀, st, ⟨⟨base, length, hr, h0⟩, fun _ => ⟨0, 0⟩, size, ⟨m, []⟩, .refl _, hsize, ?_⟩, hrun, hst⟩
    unfold boot at hb
    split at hb
    · rename_i hinit
      cases hb
      exact ⟨hinit, rfl⟩
    · cases hb

/-! ## Frames that are held -/

/-- The heap's frames are allocations of the table, beside those of the other callers. -/
structure OnFrames (m : Mmc) (st : Kst) : Prop where
  lt : st.heap.start < st.heap.endAddr
  frames : ∃ live, live.Perm (heldBy st.heap ++ st.others) ∧ FrameInv m ⟨st.mmc, live⟩

section
variable {m : Mmc} {st : Kst} (L : Layout m) (hbase : 0 < m.frameBase) (h : OnFrames m st)
include L hbase h

theorem OnFrames.start_pos : 0 < st.heap.start := by
  obtain ⟨live, hperm, hinv⟩ := h.frames
  have harea := hinv.frame L (hperm.symm.subset (List.mem_append_left _ List.mem_cons_self))
  exact Nat.lt_of_lt_of_le hbase harea.2.1

/-- A frame handed out now is fresh for the heap. -/
theorem OnFrames.fresh {pg : Nat} {mp' : Mmc} (hal : allocFrame st.mmc = .ok (some pg, mp')) :
    FreshPage st.heap.start st.heap.endAddr st.heap.pages pg := by
  obtain ⟨live, hperm, hinv⟩ := h.frames
  have hnew := hinv.alloc L hal
  obtain ⟨hmod, hge, -, hfit⟩ := hnew.frame L List.mem_cons_self
  have hapart := (List.pairwise_cons.1 hnew.disjoint).1
  have hheld : ∀ a ∈ heldBy st.heap, ∀ x, (⟨pg, 1⟩ : Alloc).owns x → ¬ a.owns x :=
    fun a ha => hapart a (hperm.symm.subset (List.mem_append_left _ ha))
  have hself : (⟨pg, 1⟩ : Alloc).owns pg := by
    simp only [Alloc.owns, pageSize]
    omega
  refine ⟨?_, hmod, by simpa using hfit, Nat.lt_of_lt_of_le hbase hge, ?_⟩
  · intro hmem
    exact hheld ⟨pg, 1⟩ (List.mem_cons_of_mem _ (List.mem_map_of_mem (f := fun pg => (⟨pg, 1⟩ : Alloc)) hmem)) pg
      hself hself
  · -- an address in the area and in the page would be owned twice
    have hlt := h.lt
    have hle := le_pageContain (st.heap.endAddr - st.heap.start)
    have harea := hheld _ List.mem_cons_self (max pg st.heap.start)
    simp only [Alloc.owns] at harea
    unfold pageSize at *
    omega

end

/-! ## Steps -/

/-- What a call of `__kmalloc` does to the frame source and to the list of metadata pages. -/
theorem kmalloc_source {σ : Type} {alloc : σ → Except String (Option Nat × σ)} {h h' : HeapDesc} {s s' : σ}
    {size r : Nat} (hk : kmalloc alloc size h s = .ok (r, h', s')) :
    h'.start = h.start ∧ h'.endAddr = h.endAddr ∧
      ((s' = s ∧ h'.pages = h.pages) ∨ (alloc s = .ok (none, s') ∧ h'.pages = h.pages) ∨
        ∃ pg, alloc s = .ok (some pg, s') ∧ h'.pages = pg :: h.pages) := by
  cases kmalloc_outcome hk with
  | whole _ => exact ⟨rfl, rfl, .inl ⟨rfl, rfl⟩⟩
  | full _ => exact ⟨rfl, rfl, .inl ⟨rfl, rfl⟩⟩
  | cut _ _ => exact ⟨rfl, rfl, .inl ⟨rfl, rfl⟩⟩
  | noFrame _ _ hal => exact ⟨rfl, rfl, .inr (.inl ⟨hal, rfl⟩)⟩
  | refill _ _ hal _ => exact ⟨rfl, rfl, .inr (.inr ⟨_, hal, rfl⟩)⟩
  | noNode _ _ hal _ => exact ⟨rfl, rfl, .inr (.inr ⟨_, hal, rfl⟩)⟩

theorem kfree_frame (p : Nat) (h : HeapDesc) :
    (kfree p h).2.start = h.start ∧ (kfree p h).2.endAddr = h.endAddr ∧ (kfree p h).2.pages = h.pages := by
  unfold kfree
  split
  · exact ⟨rfl, rfl, rfl⟩
  · simp

theorem heldBy_congr {h h' : HeapDesc} (hs : h'.start = h.start) (he : h'.endAddr = h.endAddr)
    (hp : h'.pages = h.pages) : heldBy h' = heldBy h := by
  rw [heldBy, heldBy, hs, he, hp]

theorem OnFrames.kmalloc {m : Mmc} {st : Kst} (L : Layout m) (h : OnFrames m st) {size r : Nat} {h' : HeapDesc}
    {mp' : Mmc} (hk : kmalloc allocFrame size st.heap st.mmc = .ok (r, h', mp')) :
    OnFrames m { st with heap := h', mmc := mp' } := by
  obtain ⟨hstart, hend, hsource⟩ := kmalloc_source hk
  obtain ⟨live, hperm, hinv⟩ := h.frames
  refine ⟨by show h'.start < h'.endAddr; rw [hstart, hend]; exact h.lt, ?_⟩
  rcases hsource with ⟨rfl, hpages⟩ | ⟨hal, hpages⟩ | ⟨pg, hal, hpages⟩
  · exact ⟨live, heldBy_congr hstart hend hpages ▸ hperm, hinv⟩
  · rw [hinv.alloc_none L hal]
    exact ⟨live, heldBy_congr hstart hend hpages ▸ hperm, hinv⟩
  · refine ⟨⟨pg, 1⟩ :: live, ?_, hinv.alloc L hal⟩
    simp only [heldBy, hstart, hend, hpages, List.map_cons]
    exact (hperm.cons _).trans (List.Perm.swap _ _ _)

theorem OnFrames.kfree {m : Mmc} {st : Kst} (h : OnFrames m st) (p : Nat) :
    OnFrames m { st with heap := (kfree p st.heap).2 } := by
  obtain ⟨hstart, hend, hpages⟩ := kfree_frame p st.heap
  obtain ⟨live, hperm, hinv⟩ := h.frames
  refine ⟨?_, live, heldBy_congr hstart hend hpages ▸ hperm, hinv⟩
  show (Heap.kfree p st.heap).2.start < (Heap.kfree p st.heap).2.endAddr
  rw [hstart, hend]
  exact h.lt

/-- A call of another user of the frames. -/
theorem OnFrames.other {m : Mmc} {st : Kst} (L : Layout m) (h : OnFrames m st) {op : FrameOp} {s : FrameSt}
    (hok : Spares st (.other op)) (hs : frameCall ⟨st.mmc, st.others⟩ op = some s) :
    OnFrames m ⟨st.heap, s.mmc, s.live⟩ := by
  obtain ⟨live, hperm, hinv⟩ := h.frames
  refine ⟨h.lt, ?_⟩
  cases op with
  | alloc npages =>
    simp only [frameCall, frameStep] at hs
    split at hs
    · rename_i p mp' hal
      cases hs
      exact ⟨⟨p, npages⟩ :: live, (hperm.cons _).trans List.perm_middle.symm, hinv.alloc L hal⟩
    · rename_i mp' hal
      cases hs
      rw [hinv.alloc_none L hal]
      exact ⟨live, hperm, hinv⟩
    · cases hs
  | free p =>
    obtain ⟨hp, ⟨a, ha, hown, rfl⟩ | ⟨hnone, rfl⟩⟩ := frameCall_free hs
    · have hmem : a ∈ heldBy st.heap ++ st.others := List.mem_append_right _ ha
      refine ⟨live.erase a, ?_, hinv.free L (hperm.symm.subset hmem) hown⟩
      refine (hperm.erase a).trans ?_
      rw [List.erase_append_right _ fun hheld => hok a hheld hown]
    · have hno : ∀ a ∈ live, ¬ a.owns p := by
        intro a ha
        rcases List.mem_append.1 (hperm.subset ha) with hheld | hother
        · exact hok a hheld
        · exact hnone a hother
      rw [hinv.refused L hp hno]
      exact ⟨live, hperm, hinv⟩

theorem kStep_onFrames {m : Mmc} (L : Layout m) {st st' : Kst} {op : Kop} (h : OnFrames m st) (hok : Spares st op)
    (hs : kStep st op = some st') : OnFrames m st' := by
  cases op with
  | kmalloc size =>
    obtain ⟨r, h', mp', hk, rfl⟩ := kStep_kmalloc hs
    exact h.kmalloc L hk
  | kfree p =>
    cases hs
    exact h.kfree p
  | other op =>
    obtain ⟨s, hcall, rfl⟩ := Option.map_eq_some_iff.1 hs
    exact h.other L hok hcall

/-! ## `init_heap` -/

/-- The area is allocated first, and the heap is made in it. -/
theorem initHeap_some {mem : Nat → Blk} {size : Nat} {mp mp' : Mmc} {h : HeapDesc}
    (hinit : initHeap mem size mp = .ok (some h, mp')) : ∃ start mp₁,
      allocFrames mp (pageContain size) = .ok (some start, mp₁) ∧
      heapFb allocFrame mem start (u32 (start + size)) mp₁ = .ok (some h, mp') := by
  unfold initHeap at hinit
  split at hinit
  · cases hinit
  · cases hinit
  · rename_i start mp₁ hal
    exact ⟨start, mp₁, hal, hinit⟩

theorem Boot.layout {m : Mmc} {st : Kst} (hb : Boot m st) : Layout m ∧ 0 < m.frameBase := by
  obtain ⟨base, length, hr, h0⟩ := hb.table
  obtain ⟨L, -, hbase⟩ := hr.spec h0
  exact ⟨L, hbase⟩

theorem Boot.inv {m : Mmc} {st : Kst} (hb : Boot m st) : HeapInv st.heap ∧ OnFrames m st := by
  obtain ⟨L, hbase⟩ := hb.layout
  obtain ⟨base, length, hr, h0⟩ := hb.table
  obtain ⟨mem, size, s, hrun, hsize, hinit, hothers⟩ := hb.init
  obtain ⟨-, hinv⟩ := reaches_frameInv hr h0 hrun
  obtain ⟨start, mp, hal, hinit⟩ := initHeap_some hinit
  have harea := hinv.alloc L hal
  obtain ⟨hmod, hge, hpos, hfit⟩ := harea.frame L List.mem_cons_self
  have hle := le_pageContain size
  have hsize0 : 0 < size := by
    by_contra hzero
    obtain rfl : size = 0 := by omega
    exact absurd hpos (by simp [pageContain_zero])
  have hend : u32 (start + size) = start + size := by
    refine u32_of_lt ?_
    dsimp only at hfit
    omega
  rw [hend] at hinit
  have hmeta : ∀ pg mp', allocFrame mp = .ok (some pg, mp') → FreshPage start (start + size) [] pg := by
    intro pg mp' hpg
    have hnew := harea.alloc L hpg
    obtain ⟨hmod', hge', -, hfit'⟩ := hnew.frame L List.mem_cons_self
    have hapart := (List.pairwise_cons.1 hnew.disjoint).1 _ List.mem_cons_self (max pg start)
    refine ⟨by simp, hmod', by simpa using hfit', Nat.lt_of_lt_of_le hbase hge', ?_⟩
    simp only [Alloc.owns] at hapart
    unfold pageSize at *
    omega
  obtain ⟨hheap, hstart, hendAddr, -⟩ := heapFb_inv (by omega) (by dsimp only at hfit; omega) hmeta hinit
  refine ⟨hheap, by omega, ?_⟩
  unfold heapFb at hinit
  split at hinit
  · cases hinit
  · cases hinit
  · rename_i metap mp' hpg
    simp only [Except.ok.injEq, Prod.mk.injEq, Option.some.injEq] at hinit
    obtain ⟨hdesc, rfl⟩ := hinit
    refine ⟨⟨metap, 1⟩ :: ⟨start, pageContain size⟩ :: s.live, ?_, harea.alloc L hpg⟩
    rw [hothers, heldBy, hstart, hendAddr, Nat.add_sub_cancel_left, ← hdesc]
    exact List.Perm.swap _ _ _

/-- The table of a heap is not at address 0, where nothing can be allocated. -/
theorem Boot.metaBase_pos {m : Mmc} {st : Kst} (hb : Boot m st) : 0 < m.metaBase := by
  by_contra hzero
  obtain ⟨base, length, hr, h0⟩ := hb.table
  obtain ⟨mem, size, s, hrun, hsize, hinit, -⟩ := hb.init
  have hnull : m.metaBase = 0 := by omega
  obtain ⟨start, mp, hal, -⟩ := initHeap_some hinit
  have hstep : frameCall s (.alloc (pageContain size)) = some ⟨mp, ⟨start, pageContain size⟩ :: s.live⟩ := by
    simp only [frameCall, frameStep, hal]
  have hlive := reaches_null_table hr h0 hnull (hrun.tail ⟨_, trivial, hstep⟩)
  cases hlive

theorem reaches_onFrames {m : Mmc} {st₀ st : Kst} (hb : Boot m st₀) (hrun : Reaches kStep Spares st₀ st) :
    OnFrames m st :=
  hrun.invariant hb.inv.2 fun _ _ _ h hok hs => kStep_onFrames hb.layout.1 h hok hs

/-- What positive sizes keep. -/
theorem reaches_heapInv {m : Mmc} {st₀ st : Kst} (hb : Boot m st₀) (hrun : Reaches kStep Positive st₀ st) :
    HeapInv st.heap ∧ OnFrames m st := by
  obtain ⟨L, hbase⟩ := hb.layout
  refine hrun.invariant (I := fun st => HeapInv st.heap ∧ OnFrames m st) hb.inv ?_
  rintro u op v ⟨hi, hf⟩ hok hs
  refine ⟨?_, kStep_onFrames L hf hok.spares hs⟩
  cases op with
  | kmalloc size =>
    obtain ⟨r, h', mp', hk, rfl⟩ := kStep_kmalloc hs
    exact (kmalloc_spec hi hok (fun pg mp' hal => hf.fresh L hbase hal) hk).1
  | kfree p =>
    cases hs
    rcases kfree_spec hi p with ⟨hk, -⟩ | ⟨h', found, hk, hfreed⟩
    · rw [hk]
      exact hi
    · rw [hk]
      exact hfreed.inv
  | other op =>
    obtain ⟨s, -, rfl⟩ := Option.map_eq_some_iff.1 hs
    exact hi

end RedMagic.Heap
