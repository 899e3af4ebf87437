import RedMagic.Heap.ZeroSize
import RedMagic.ListHead.Refine

/-!
# The heap on its links (src/kmalloc.c:69-218)

`Heap/Basic.lean` keeps the three lists of a heap as lists of addresses. Here they are what they are in the source: the
`list_head`s inside the nodes, 8 bytes into each, and the heads are the first three nodes of the first metadata page.

| here | there |
| --- | --- |
| `HeapMem` | `heap_desc_t` and the memory of its nodes, one map for `base` and `size` and one for `lh` |
| `heapFbLinks`, `kmallocLinks`, `kfreeLinks` | `HEAP_FB`, `__kmalloc`, `__kfree`; `n` bounds the rounds of each loop over a list |

`Rep hm h` says that the memory `hm` holds the heap `h`. Every call then does the same to both (`kmallocLinks_eq`, `kfreeLinks_eq`), and
each of its loops ends, so what holds of the lists holds of the links (`heap_links_refine`).
-/

namespace RedMagic.Heap

open Function ListHead Loop Lts Mm Ring

structure HeapMem where
  start : Nat
  endAddr : Nat
  blk : Nat → Blk
  links : Links Nat
  free : Nat
  res : Nat
  avail : Nat

def lhOffset : Nat := 8
def lhOf (p : Nat) : Nat := memberOf lhOffset p

/-- `for (…; (addr_t) p < (addr_t) metap + PAGE_SIZE; p++) list_add_tail(&p->lh, &(heap->avail->lh))` -/
def addNodes (links : Links Nat) (avail : Nat) (ps : List Nat) : Links Nat :=
  ps.foldl (fun m p => listAddTail m (lhOf p) (lhOf avail)) links

section
variable {σ : Type} (alloc : σ → Except String (Option Nat × σ))

def heapFbLinks (mem : Nat → Blk) (links : Links Nat) (start endAddr : Nat) (s : σ) :
    Except String (Option HeapMem × σ) :=
  match alloc s with
  | .error e => .error e
  | .ok (none, s) => .ok (none, s)
  | .ok (some metap, s) =>
    let free := metap
    let res := free + hblkSize
    let avail := res + hblkSize
    let p := avail + hblkSize
    let links := initListHead links (lhOf free)
    let links := initListHead links (lhOf res)
    let links := initListHead links (lhOf avail)
    let blk := update mem p ⟨start, u32 (endAddr + 2 ^ 32 - start)⟩
    let links := listAdd links (lhOf p) (lhOf free)
    let links := addNodes links avail (nodesFrom metap (p + hblkSize))
    .ok (some ⟨start, endAddr, blk, links, free, res, avail⟩, s)

/-! ## `__kmalloc` -/

/-- The body of the search, on `delta` and `found`; `.inr` is the block of the size. -/
def scanBody (blk : Nat → Blk) (size : Nat) (st : Nat × Nat) (hbp : Nat) : (Nat × Nat) ⊕ Nat :=
  if (blk hbp).size > size then
    if (blk hbp).size - size < st.1 then .inl ((blk hbp).size - size, hbp) else .inl st
  else if (blk hbp).size = size then .inr hbp
  else .inl st

/-- `bzero(metap, PAGE_SIZE)` and the loop behind it. -/
def addPageLinks (hm : HeapMem) (metap : Nat) : HeapMem :=
  let blk := fun a => if metap ≤ a ∧ a < metap + pageSize then ⟨0, 0⟩ else hm.blk a
  let links : Links Nat :=
    ⟨fun a => if metap ≤ a ∧ a < metap + pageSize then 0 else hm.links.next a,
      fun a => if metap ≤ a ∧ a < metap + pageSize then 0 else hm.links.prev a⟩
  { hm with blk := blk, links := addNodes links hm.avail (nodesFrom metap metap) }

/-- The node `hbp` takes the first `size` bytes of `found`. -/
def carveLinks (hm : HeapMem) (hbp found size : Nat) : HeapMem :=
  let blk := update hm.blk hbp ⟨(hm.blk hbp).base, size⟩
  let blk := update blk hbp ⟨(blk found).base, (blk hbp).size⟩
  let blk := update blk found ⟨(blk found).base, u32 ((blk found).size + 2 ^ 32 - size)⟩
  let blk := update blk found ⟨u32 ((blk found).base + size), (blk found).size⟩
  { hm with blk := blk, links := listMove hm.links (lhOf hbp) (lhOf hm.res) }

/-- `__kmalloc` behind its loop. -/
def kmallocScanned (size : Nat) (hm : HeapMem) (s : σ) : (Nat × Nat) ⊕ Nat → Except String (Nat × HeapMem × σ)
  | .inr hbp => .ok ((hm.blk hbp).base, { hm with links := listMove hm.links (lhOf hbp) (lhOf hm.res) }, s)
  | .inl (_, found) =>
    if found = 0 then .ok (0, hm, s)
    else
      let hbp := listFirstEntryOrNull hm.links lhOffset (lhOf hm.avail)
      if hbp = 0 then
        match alloc s with
        | .error e => .error e
        | .ok (none, s) => .ok (0, hm, s)
        | .ok (some metap, s) =>
          let hm := addPageLinks hm metap
          let hbp := listFirstEntryOrNull hm.links lhOffset (lhOf hm.avail)
          if hbp = 0 then .ok (0, hm, s)
          else
            let hm := carveLinks hm hbp found size
            .ok ((hm.blk hbp).base, hm, s)
      else
        let hm := carveLinks hm hbp found size
        .ok ((hm.blk hbp).base, hm, s)

/-- `__kmalloc`; `none` = its loop is not done after `n` rounds. -/
def kmallocLinks (n size : Nat) (hm : HeapMem) (s : σ) : Option (Except String (Nat × HeapMem × σ)) :=
  (listForEachEntry hm.links lhOffset (lhOf hm.free) (scanBody hm.blk size) (2 ^ 32 - 1, 0) n).map (kmallocScanned alloc size hm s)

end

/-! ## `__kfree` -/

/-- The body of the merge loop, on the memory of the nodes, `lp` and `rp`; `.inr` is its `break`. -/
def mergeBody (found : Nat) (st : (Nat → Blk) × Nat × Nat) (hbp : Nat) :
    ((Nat → Blk) × Nat × Nat) ⊕ ((Nat → Blk) × Nat × Nat) :=
  let blk := st.1
  let st :=
    if u32 ((blk hbp).base + (blk hbp).size) = (blk found).base then
      let blk := update blk found ⟨(blk hbp).base, (blk found).size⟩
      (update blk found ⟨(blk found).base, u32 ((blk found).size + (blk hbp).size)⟩, hbp, st.2.2)
    else if (blk hbp).base = u32 ((blk found).base + (blk found).size) then
      (update blk found ⟨(blk found).base, u32 ((blk found).size + (blk hbp).size)⟩, st.2.1, hbp)
    else st
  if st.2.1 ≠ 0 ∧ st.2.2 ≠ 0 then .inr st else .inl st

/-- `if (p) list_move(&p->lh, &hd_avail->lh)` -/
def toAvailLinks (hm : HeapMem) (p : Nat) : HeapMem :=
  if p ≠ 0 then { hm with links := listMove hm.links (lhOf p) (lhOf hm.avail) } else hm

/-- The body of the search for the block at `p`. -/
def findBody (blk : Nat → Blk) (p : Nat) (_ : Unit) (hbp : Nat) : Unit ⊕ Nat :=
  if (blk hbp).base = p then .inr hbp else .inl ()

def kfreeLinks (n p : Nat) (hm : HeapMem) : Option (Nat × HeapMem) :=
  match listForEachEntry hm.links lhOffset (lhOf hm.res) (findBody hm.blk p) () n with
  | none => none
  | some (.inl _) => some (1, hm)
  | some (.inr found) =>
    let hm := { hm with links := listMove hm.links (lhOf found) (lhOf hm.free) }
    match listForEachEntry hm.links lhOffset (lhOf hm.free) (mergeBody found) (hm.blk, 0, 0) n with
    | none => none
    | some st =>
      let st := st.elim id id
      let hm := { hm with blk := st.1 }
      some (0, toAvailLinks (toAvailLinks hm st.2.1) st.2.2)

/-! ## The loops -/

theorem visit_scanBody (blk : Nat → Blk) (size : Nat) (ns : List Nat) (delta : Nat) (found : Option Nat) :
    match scanFree blk size ns delta found with
    | .exact k => visit (scanBody blk size) ns (delta, found.getD 0) = .inr k
    | .best o => ∃ d, visit (scanBody blk size) ns (delta, found.getD 0) = .inl (d, o.getD 0) := by
  induction ns generalizing delta found with
  | nil => exact ⟨delta, rfl⟩
  | cons k ns ih =>
    rw [scanFree, visit, scanBody]
    by_cases h1 : (blk k).size > size
    · rw [if_pos h1, if_pos h1]
      by_cases h2 : (blk k).size - size < delta
      · rw [if_pos h2, if_pos h2]
        exact ih ((blk k).size - size) (some k)
      · rw [if_neg h2, if_neg h2]
        exact ih delta found
    · rw [if_neg h1, if_neg h1]
      by_cases h3 : (blk k).size = size
      · rw [if_pos h3, if_pos h3]
      · rw [if_neg h3, if_neg h3]
        exact ih delta found

theorem visit_findBody (blk : Nat → Blk) (p : Nat) (ns : List Nat) :
    visit (findBody blk p) ns () = (match ns.find? fun k => (blk k).base == p with
      | none => .inl ()
      | some k => .inr k) := by
  induction ns with
  | nil => rfl
  | cons k ns ih =>
    rw [visit, findBody, List.find?_cons]
    by_cases h : (blk k).base = p
    · simp [h]
    · rw [if_neg h, beq_false_of_ne h]
      exact ih

/-- A round of the merge loop, on the state of `mergeLoop`. -/
def mergeOnce (found hbp : Nat) (blk : Nat → Blk) (lp rp : Option Nat) : (Nat → Blk) × Option Nat × Option Nat :=
  if u32 ((blk hbp).base + (blk hbp).size) = (blk found).base then
    (update blk found ⟨(blk hbp).base, u32 ((blk found).size + (blk hbp).size)⟩, some hbp, rp)
  else if (blk hbp).base = u32 ((blk found).base + (blk found).size) then
    (update blk found ⟨(blk found).base, u32 ((blk found).size + (blk hbp).size)⟩, lp, some hbp)
  else (blk, lp, rp)

/-- The pointers of a state; `none` is NULL. -/
def ptrs (st : (Nat → Blk) × Option Nat × Option Nat) : (Nat → Blk) × Nat × Nat := (st.1, st.2.1.getD 0, st.2.2.getD 0)

/-- Neither pointer is that of a node at address 0. -/
def NoNull (st : (Nat → Blk) × Option Nat × Option Nat) : Prop := st.2.1 ≠ some 0 ∧ st.2.2 ≠ some 0

theorem mergeOnce_noNull (found : Nat) {k : Nat} {blk : Nat → Blk} {lp rp : Option Nat} (hk : k ≠ 0) (h : NoNull (blk, lp, rp)) :
    NoNull (mergeOnce found k blk lp rp) := by
  unfold mergeOnce
  split
  · exact ⟨by simpa using hk, h.2⟩
  · split
    · exact ⟨h.1, by simpa using hk⟩
    · exact h

theorem mergeBody_eq {found k : Nat} {blk : Nat → Blk} {lp rp : Option Nat} (hk : k ≠ 0) (h : NoNull (blk, lp, rp)) :
    mergeBody found (ptrs (blk, lp, rp)) k =
      let st := mergeOnce found k blk lp rp
      if (st.2.1.isSome && st.2.2.isSome) = true then .inr (ptrs st) else .inl (ptrs st) := by
  -- the stores of a round, one after the other
  have hstores : mergeBody found (ptrs (blk, lp, rp)) k =
      let st := ptrs (mergeOnce found k blk lp rp)
      if st.2.1 ≠ 0 ∧ st.2.2 ≠ 0 then .inr st else .inl st := by
    unfold mergeBody mergeOnce ptrs
    dsimp only
    split
    · have hblk : update (update blk found ⟨(blk k).base, (blk found).size⟩) found
          ⟨(update blk found ⟨(blk k).base, (blk found).size⟩ found).base,
            u32 ((update blk found ⟨(blk k).base, (blk found).size⟩ found).size +
              (update blk found ⟨(blk k).base, (blk found).size⟩ k).size)⟩ =
          update blk found ⟨(blk k).base, u32 ((blk found).size + (blk k).size)⟩ := by
        by_cases hkf : k = found
        · simp [hkf]
        · simp [update_of_ne hkf]
      rw [hblk]
      rfl
    · split <;> rfl
  have hnz : ∀ o : Option Nat, o ≠ some 0 → (o.getD 0 ≠ 0 ↔ o.isSome = true) := by
    intro o ho
    cases o with
    | none => simp
    | some x => simpa using ho
  obtain ⟨hl, hr⟩ := mergeOnce_noNull found hk h
  rw [hstores]
  simp only [ptrs, hnz _ hl, hnz _ hr, Bool.and_eq_true]

theorem visit_mergeBody (found : Nat) (ns : List Nat) (blk : Nat → Blk) (lp rp : Option Nat) (hns : ∀ k ∈ ns, k ≠ 0)
    (h : NoNull (blk, lp, rp)) :
    (visit (mergeBody found) ns (ptrs (blk, lp, rp))).elim id id = ptrs (mergeLoop found ns blk lp rp) := by
  induction ns generalizing blk lp rp with
  | nil => rfl
  | cons k ns ih =>
    have hk := hns k List.mem_cons_self
    have hloop : mergeLoop found (k :: ns) blk lp rp =
        let st := mergeOnce found k blk lp rp
        if (st.2.1.isSome && st.2.2.isSome) = true then st else mergeLoop found ns st.1 st.2.1 st.2.2 := rfl
    rw [hloop, visit, mergeBody_eq hk h]
    dsimp only
    by_cases hboth : ((mergeOnce found k blk lp rp).2.1.isSome && (mergeOnce found k blk lp rp).2.2.isSome) = true
    · rw [if_pos hboth, if_pos hboth]
      rfl
    · rw [if_neg hboth, if_neg hboth]
      exact ih _ _ _ (fun x hx => hns x (List.mem_cons_of_mem _ hx)) (mergeOnce_noNull found hk h)

/-- The merged nodes are two different nodes of the list. -/
theorem mergeLoop_nodes (found : Nat) {ns : List Nat} (hnd : ns.Nodup) (blk : Nat → Blk) (lp rp : Option Nat)
    (hlp : ∀ l ∈ lp, l ∉ ns) (hrp : ∀ r ∈ rp, r ∉ ns) (hne : ∀ l ∈ lp, ∀ r ∈ rp, l ≠ r) :
    (∀ l ∈ (mergeLoop found ns blk lp rp).2.1, l ∈ ns ∨ l ∈ lp) ∧ (∀ r ∈ (mergeLoop found ns blk lp rp).2.2, r ∈ ns ∨ r ∈ rp) ∧
      ∀ l ∈ (mergeLoop found ns blk lp rp).2.1, ∀ r ∈ (mergeLoop found ns blk lp rp).2.2, l ≠ r := by
  induction ns generalizing blk lp rp with
  | nil => exact ⟨fun l hl => .inr hl, fun r hr => .inr hr, hne⟩
  | cons k ns ih =>
    have hloop : mergeLoop found (k :: ns) blk lp rp =
        let st := mergeOnce found k blk lp rp
        if (st.2.1.isSome && st.2.2.isSome) = true then st else mergeLoop found ns st.1 st.2.1 st.2.2 := rfl
    obtain ⟨hk, hnd⟩ := List.nodup_cons.1 hnd
    -- a pointer after this round is one from before or `k`
    have hst : ∃ blk' lp' rp', mergeOnce found k blk lp rp = (blk', lp', rp') ∧
        ((lp' = lp ∧ rp' = rp) ∨ (lp' = some k ∧ rp' = rp) ∨ (lp' = lp ∧ rp' = some k)) := by
      unfold mergeOnce
      split
      · exact ⟨_, _, _, rfl, .inr (.inl ⟨rfl, rfl⟩)⟩
      · split
        · exact ⟨_, _, _, rfl, .inr (.inr ⟨rfl, rfl⟩)⟩
        · exact ⟨_, _, _, rfl, .inl ⟨rfl, rfl⟩⟩
    obtain ⟨blk', lp', rp', hst, hptr⟩ := hst
    have hlp' : ∀ l ∈ lp', l ∉ ns ∧ (l ∈ k :: ns ∨ l ∈ lp) := by grind
    have hrp' : ∀ r ∈ rp', r ∉ ns ∧ (r ∈ k :: ns ∨ r ∈ rp) := by grind
    have hne' : ∀ l ∈ lp', ∀ r ∈ rp', l ≠ r := by grind
    rw [hloop, hst]
    dsimp only
    split
    · exact ⟨fun l hl => (hlp' l hl).2, fun r hr => (hrp' r hr).2, hne'⟩
    · obtain ⟨h1, h2, h3⟩ := ih hnd blk' lp' rp' (fun l hl => (hlp' l hl).1) (fun r hr => (hrp' r hr).1) hne'
      exact ⟨fun l hl => (h1 l hl).elim (fun h => .inl (List.mem_cons_of_mem _ h)) fun h => (hlp' l h).2,
        fun r hr => (h2 r hr).elim (fun h => .inl (List.mem_cons_of_mem _ h)) fun h => (hrp' r h).2, h3⟩

/-! ## The memory of a heap -/

inductive Which where
  | free
  | res
  | avail
deriving DecidableEq

def HeapMem.head (hm : HeapMem) : Which → Nat
  | .free => hm.free
  | .res => hm.res
  | .avail => hm.avail

def HeapDesc.list (h : HeapDesc) : Which → List Nat
  | .free => h.free
  | .res => h.res
  | .avail => h.avail

/-- The links hold the lists `xs` behind the heads. -/
def Holds (links : Links Nat) (head : Which → Nat) (xs : Which → List Nat) : Prop :=
  Rings links (family (fun w => lhOf (head w)) fun w => (xs w).map lhOf)

/-- The heads are the first three nodes of the oldest page. -/
def Heads (pages : List Nat) (head : Which → Nat) : Prop :=
  ∃ pg, pages.getLast? = some pg ∧ head .free = pg ∧ head .res = pg + hblkSize ∧ head .avail = pg + hblkSize + hblkSize

structure Rep (hm : HeapMem) (h : HeapDesc) : Prop where
  start : hm.start = h.start
  endAddr : hm.endAddr = h.endAddr
  blk : hm.blk = h.blk
  heads : Heads h.pages hm.head
  notNull : ∀ pg ∈ h.pages, 0 < pg
  holds : Holds hm.links hm.head h.list

/-- A node, or a head, of a page. -/
def InPage (pg n : Nat) : Prop := pg ≤ n ∧ n + hblkSize ≤ pg + pageSize

theorem lhOf_of_inPage {pg n : Nat} (hfit : pg + pageSize < 2 ^ 32) (h : InPage pg n) : lhOf n = n + 8 := by
  refine u32_of_lt ?_
  unfold InPage hblkSize at h
  unfold lhOffset
  omega

theorem inPage_of_mem {pages : List Nat} {n : Nat} (hok : PagesOk pages) (h : n ∈ pageNodes pages) : ∃ pg ∈ pages, InPage pg n := by
  obtain ⟨pg, hpg, i, hi, rfl, -⟩ := (mem_pageNodes hok).1 h
  refine ⟨pg, hpg, Nat.le_add_right _ _, ?_⟩
  unfold hblkNumPPg pageSize hblkSize at *
  omega

theorem Heads.inPage {pages : List Nat} {head : Which → Nat} (h : Heads pages head) (w : Which) :
    ∃ pg ∈ pages, InPage pg (head w) := by
  obtain ⟨pg, hpg, h1, h2, h3⟩ := h
  refine ⟨pg, List.mem_of_getLast? hpg, ?_⟩
  unfold InPage hblkSize pageSize at *
  cases w <;> omega

theorem Heads.injective {pages : List Nat} {head : Which → Nat} (hok : PagesOk pages) (h : Heads pages head) :
    Injective fun w => lhOf (head w) := by
  intro w w' heq
  obtain ⟨pg, hpg, hin⟩ := h.inPage w
  obtain ⟨pg', hpg', hin'⟩ := h.inPage w'
  dsimp only at heq
  rw [lhOf_of_inPage (hok.fits pg hpg) hin, lhOf_of_inPage (hok.fits pg' hpg') hin'] at heq
  obtain ⟨p, -, h1, h2, h3⟩ := h
  unfold hblkSize at *
  cases w <;> cases w' <;> first | rfl | omega

section
variable {links : Links Nat} {head : Which → Nat} {xs : Which → List Nat} {w w' : Which} {n : Nat}

theorem map_update_list (ys : List Nat) :
    (fun v => (update xs w ys v).map lhOf) = update (fun v => (xs v).map lhOf) w (ys.map lhOf) := by
  funext v
  by_cases hv : v = w
  · rw [hv, update_self, update_self]
  · rw [update_of_ne hv, update_of_ne hv]

theorem Holds.move (h : Holds links head xs) (hinj : Injective fun w => lhOf (head w)) (hn : n ∈ xs w) (hnd : (xs w).Nodup)
    (hw : w ≠ w') :
    Holds (listMove links (lhOf n) (lhOf (head w'))) head (update (update xs w ((xs w).erase n)) w' (n :: xs w')) := by
  obtain ⟨as, bs, hx⟩ := List.append_of_mem hn
  have hout : n ∉ as := by
    rw [hx] at hnd
    exact fun hmem => (List.nodup_append.1 hnd).2.2 n hmem n List.mem_cons_self rfl
  have herase : (xs w).erase n = as ++ bs := by rw [hx, List.erase_append_right _ hout, List.erase_cons_head]
  rw [Holds, map_update_list, map_update_list, herase, List.map_append, List.map_cons]
  exact rings_family_move hinj h (by rw [hx, List.map_append, List.map_cons]) hw

theorem Holds.addNodes (h : Holds links head xs) (ps : List Nat) (hinj : Injective fun w => lhOf (head w))
    (hfree : ∀ p ∈ ps, Free (family (fun w => lhOf (head w)) fun w => (xs w).map lhOf) (lhOf p))
    (hnd : (ps.map lhOf).Nodup) : Holds (addNodes links (head .avail) ps) head (update xs .avail (xs .avail ++ ps)) := by
  induction ps generalizing links xs with
  | nil =>
    have hsame : update xs .avail (xs .avail ++ []) = xs := by rw [List.append_nil, update_eq_self]
    rw [hsame]
    exact h
  | cons p ps ih =>
    obtain ⟨hp, hnd⟩ := List.nodup_cons.1 hnd
    have hadd : Holds (listAddTail links (lhOf p) (lhOf (head .avail))) head (update xs .avail (xs .avail ++ [p])) := by
      rw [Holds, map_update_list, List.map_append]
      exact rings_family_addTail hinj h (hfree p List.mem_cons_self)
    have hrest := ih hadd (fun q hq r ys hr hmem => ?_) hnd
    · rwa [update_idem, update_self, List.append_assoc, List.singleton_append] at hrest
    · -- the other nodes are still on no list
      have hq' := hfree q (List.mem_cons_of_mem _ hq)
      have hqp : lhOf q ≠ lhOf p := fun heq => hp (heq ▸ List.mem_map_of_mem hq)
      obtain ⟨v, rfl, rfl⟩ := family_eq_some hinj hr
      have hv := hq' _ _ (family_head hinj _ v)
      by_cases hva : v = .avail
      · subst hva
        rw [update_self, List.map_append, ← List.cons_append] at hmem
        rcases List.mem_append.1 hmem with hmem | hmem
        · exact hv hmem
        · exact hqp (by simpa using hmem)
      · rw [update_of_ne hva] at hmem
        exact hv hmem

end

/-- The nodes of the pages are on the three lists. -/
structure OnPages (h : HeapDesc) : Prop where
  nodes : (h.free ++ h.res ++ h.avail).Perm (pageNodes h.pages)
  pages : PagesOk h.pages

theorem Loose.onPages {h : HeapDesc} (hl : Loose h) : OnPages h := ⟨hl.nodes, hl.pages⟩

theorem OnPages.inPage {h : HeapDesc} (hl : OnPages h) {n : Nat} {w : Which} (hn : n ∈ h.list w) : ∃ pg ∈ h.pages, InPage pg n := by
  refine inPage_of_mem hl.pages (hl.nodes.mem_iff.1 ?_)
  cases w with
  | free => exact List.mem_append_left _ (List.mem_append_left _ hn)
  | res => exact List.mem_append_left _ (List.mem_append_right _ hn)
  | avail => exact List.mem_append_right _ hn

theorem OnPages.list_nodup {h : HeapDesc} (hl : OnPages h) (w : Which) : (h.list w).Nodup := by
  obtain ⟨h1, h2, -⟩ := List.nodup_append.1 (hl.nodes.nodup_iff.2 (nodup_pageNodes hl.pages))
  cases w with
  | free => exact (List.nodup_append.1 h1).1
  | res => exact (List.nodup_append.1 h1).2.1
  | avail => exact h2

section
variable {hm : HeapMem} {h : HeapDesc} (hr : Rep hm h) (hl : OnPages h)
include hr hl

theorem Rep.injective : Injective fun w => lhOf (hm.head w) := hr.heads.injective hl.pages

theorem Rep.fits {n : Nat} {w : Which} (hn : n ∈ h.list w) : 0 < n ∧ n + lhOffset < 2 ^ 32 := by
  obtain ⟨pg, hpg, hin⟩ := hl.inPage hn
  have hfit := hl.pages.fits pg hpg
  have hpos := hr.notNull pg hpg
  unfold InPage hblkSize at hin
  unfold lhOffset
  omega

/-- What is on a list is a node of a page, or a head, which is one too. -/
theorem Rep.on_page {q : Nat} (hq : ¬ Free (family (fun w => lhOf (hm.head w)) fun w => (h.list w).map lhOf) q) :
    ∃ pg ∈ h.pages, ∃ n, InPage pg n ∧ q = n + 8 := by
  simp only [Free, not_forall, not_not] at hq
  obtain ⟨r, ys, hL, hmem⟩ := hq
  obtain ⟨w, rfl, rfl⟩ := family_eq_some (hr.injective hl) hL
  rcases List.mem_cons.1 hmem with rfl | hmem
  · obtain ⟨pg, hpg, hin⟩ := hr.heads.inPage w
    exact ⟨pg, hpg, _, hin, lhOf_of_inPage (hl.pages.fits pg hpg) hin⟩
  · obtain ⟨n, hn, rfl⟩ := List.mem_map.1 hmem
    obtain ⟨pg, hpg, hin⟩ := hl.inPage hn
    exact ⟨pg, hpg, n, hin, lhOf_of_inPage (hl.pages.fits pg hpg) hin⟩

/-- A loop over one of the lists. -/
theorem Rep.forEach {σ ρ : Type} (w : Which) (body : σ → Nat → σ ⊕ ρ) (s : σ) {n : Nat} (hn : (h.list w).length < n) :
    listForEachEntry hm.links lhOffset (lhOf (hm.head w)) body s n = some (visit body (h.list w) s) :=
  listForEachEntry_eq body s hr.holds (family_head (hr.injective hl) _ w) (fun _ hx => (hr.fits hl hx).2)
    (Nat.mod_lt _ (by decide)) (by decide) hn

theorem Rep.first (w : Which) : listFirstEntryOrNull hm.links lhOffset (lhOf (hm.head w)) = (h.list w).headD 0 :=
  listFirstEntryOrNull_eq hr.holds (family_head (hr.injective hl) _ w) fun _ hx => (hr.fits hl hx).2

/-- A node goes to another list. -/
theorem Rep.move (h' : HeapDesc) {n : Nat} (w w' : Which) (hn : n ∈ h.list w) (hw : w ≠ w') (hstart : h'.start = h.start)
    (hend : h'.endAddr = h.endAddr) (hpages : h'.pages = h.pages)
    (hlist : h'.list = update (update h.list w ((h.list w).erase n)) w' (n :: h.list w')) :
    Rep { hm with blk := h'.blk, links := listMove hm.links (lhOf n) (lhOf (hm.head w')) } h' where
  start := hr.start.trans hstart.symm
  endAddr := hr.endAddr.trans hend.symm
  blk := rfl
  heads := hpages ▸ hr.heads
  notNull := hpages ▸ hr.notNull
  holds := by
    rw [hlist]
    exact hr.holds.move (hr.injective hl) hn (hl.list_nodup w) hw

end

section
variable {hm : HeapMem} {h : HeapDesc}

/-- The pages of a heap and a fresh one have no address in common. -/
theorem apart_of_fresh {pages : List Nat} {start endAddr pg q n x : Nat} (hok : PagesOk pages)
    (hf : FreshPage start endAddr pages pg) (hq : q ∈ pages) (hin : InPage q n) (hx : x = n ∨ x = n + 8)
    (hpg : pg ≤ x ∧ x < pg + pageSize) : False := by
  refine hf.new ?_
  have hqx : q ≤ x ∧ x < q + pageSize := by
    unfold InPage hblkSize at hin
    omega
  rw [page_eq hf.aligned (hok.aligned q hq) hpg hqx]
  exact hq

theorem nodesFrom_inPage {pg p : Nat} (hfit : pg + pageSize < 2 ^ 32) (hp : p ∈ nodesFrom pg pg) : InPage pg p := by
  obtain ⟨i, -, hi, rfl⟩ := (mem_nodesFrom (k := 0) hfit).1 hp
  unfold hblkNumPPg pageSize hblkSize at *
  unfold InPage hblkSize pageSize
  omega

theorem addPageLinks_rep (hr : Rep hm h) (hl : OnPages h) {pg : Nat} (hf : FreshPage h.start h.endAddr h.pages pg) :
    Rep (addPageLinks hm pg) (addPage h pg) where
  start := hr.start
  endAddr := hr.endAddr
  blk := by
    show (fun a => if pg ≤ a ∧ a < pg + pageSize then (⟨0, 0⟩ : Blk) else hm.blk a) = _
    rw [hr.blk]
    rfl
  heads := by
    obtain ⟨q, hq, hheads⟩ := hr.heads
    refine ⟨q, ?_, hheads⟩
    show (pg :: h.pages).getLast? = some q
    cases hp : h.pages with
    | nil => simp [hp] at hq
    | cons a l => rw [List.getLast?_cons_cons, ← hp, hq]
  notNull := by
    intro q hq
    rcases List.mem_cons.1 hq with rfl | hq
    · exact hf.notNull
    · exact hr.notNull q hq
  holds := by
    have hinj := hr.injective hl
    -- no list is on the page that is cleared
    have hzero : Holds ⟨fun a => if pg ≤ a ∧ a < pg + pageSize then 0 else hm.links.next a,
        fun a => if pg ≤ a ∧ a < pg + pageSize then 0 else hm.links.prev a⟩ hm.head h.list := by
      refine hr.holds.congr (fun a ha => if_neg fun hin => ?_) fun a ha => if_neg fun hin => ?_
      all_goals
        obtain ⟨q, hq, n, hn, rfl⟩ := hr.on_page hl ha
        exact apart_of_fresh hl.pages hf hq hn (.inr rfl) hin
    have hadd := hzero.addNodes (nodesFrom pg pg) hinj ?_ ?_
    · have hlist : (addPage h pg).list = update h.list .avail (h.list .avail ++ nodesFrom pg pg) := by
        funext w
        cases w <;> simp [HeapDesc.list, addPage]
      rw [hlist]
      exact hadd
    · intro p hp
      by_contra hmem
      obtain ⟨q, hq, n, hn, heq⟩ := hr.on_page hl hmem
      have hin := nodesFrom_inPage hf.fits hp
      rw [lhOf_of_inPage hf.fits hin] at heq
      obtain rfl : p = n := by omega
      refine apart_of_fresh hl.pages hf hq hn (.inl rfl) ⟨hin.1, ?_⟩
      unfold InPage hblkSize at hin
      omega
    · refine (nodup_nodesFrom (k := 0) hf.fits).map_on fun x hx y hy heq => ?_
      rw [lhOf_of_inPage hf.fits (nodesFrom_inPage hf.fits hx), lhOf_of_inPage hf.fits (nodesFrom_inPage hf.fits hy)] at heq
      omega

theorem carveLinks_blk (hr : Rep hm h) (hl : Loose h) {hbp found size : Nat} (hfound : found ∈ h.free) (hne : hbp ≠ found)
    (hlt : size < (h.blk found).size) : (carveLinks hm hbp found size).blk = (carve h hbp found size).blk := by
  have hfits : (h.blk found).size < 2 ^ 32 := by
    have hend := (hl.inside found (List.mem_append_left _ hfound)).2
    have := hl.fits
    unfold endOf at hend
    omega
  have hsize : u32 ((h.blk found).size + 2 ^ 32 - size) = (h.blk found).size - size := by
    unfold u32
    omega
  simp only [carveLinks, carve, hr.blk, update_self, update_of_ne hne.symm, update_idem, hsize]

theorem carveLinks_rep (hr : Rep hm h) (hl : Loose h) {hbp found size : Nat} {rest : List Nat} (havail : h.avail = hbp :: rest)
    (hfound : found ∈ h.free) (hlt : size < (h.blk found).size) :
    Rep (carveLinks hm hbp found size) (carve h hbp found size) ∧
      ((carveLinks hm hbp found size).blk hbp).base = (h.blk found).base := by
  have hin : hbp ∈ h.list .avail := by simp [HeapDesc.list, havail]
  have hne : hbp ≠ found := by
    rintro rfl
    exact hl.not_used_of_avail hin (List.mem_append_left _ hfound)
  have hblk := carveLinks_blk hr hl hfound hne hlt
  constructor
  · have hmove := hr.move hl.onPages (carve h hbp found size) .avail .res hin (by decide) rfl rfl rfl (by
      funext w
      cases w <;> simp [HeapDesc.list, carve])
    rw [← hblk] at hmove
    exact hmove
  · rw [hblk]
    simp [carve, update_of_ne hne]

end

/-! ## The calls -/

section
variable {hm : HeapMem} {h : HeapDesc}

/-- A call on the links does what the call on the lists does. -/
def SameCall {σ : Type} (r : Except String (Nat × HeapDesc × σ)) (r' : Except String (Nat × HeapMem × σ)) : Prop :=
  match r with
  | .error e => r' = .error e
  | .ok (v, h', s') => ∃ hm', r' = .ok (v, hm', s') ∧ Rep hm' h'

theorem kmallocLinks_eq {σ : Type} (alloc : σ → Except String (Option Nat × σ)) (s : σ) (size : Nat) (hr : Rep hm h)
    (hl : Loose h) (hfresh : ∀ pg s', alloc s = .ok (some pg, s') → FreshPage h.start h.endAddr h.pages pg) :
    ∃ r, (∀ n, h.free.length < n → kmallocLinks alloc n size hm s = some r) ∧ SameCall (kmalloc alloc size h s) r := by
  have hloop := fun n hn => hr.forEach hl.onPages .free (scanBody hm.blk size) (2 ^ 32 - 1, 0) (n := n) hn
  have hvisit := visit_scanBody h.blk size h.free (2 ^ 32 - 1) none
  have hfirst := hr.first hl.onPages .avail
  simp only [HeapMem.head, HeapDesc.list] at hloop hfirst
  refine ⟨_, fun n hn => by rw [kmallocLinks, hloop n hn, Option.map_some], ?_⟩
  rw [hr.blk]
  unfold kmalloc
  cases hscan : scanFree h.blk size h.free (2 ^ 32 - 1) none with
  | exact k =>
    simp only [hscan, Option.getD_none] at hvisit
    obtain ⟨hk, -⟩ := scanFree_exact hscan
    have hmove := hr.move hl.onPages { h with free := h.free.erase k, res := k :: h.res } .free .res hk (by decide)
      rfl rfl rfl (by funext w; cases w <;> simp [HeapDesc.list])
    exact ⟨_, by rw [hvisit, kmallocScanned, hr.blk]; rfl, hmove⟩
  | best o =>
    simp only [hscan, Option.getD_none] at hvisit
    obtain ⟨d, hvisit⟩ := hvisit
    rw [hvisit]
    cases o with
    | none => exact ⟨hm, rfl, hr⟩
    | some found =>
      obtain ⟨hfound, hlt⟩ := scanFree_found hscan
      have hpos : found ≠ 0 := Nat.ne_of_gt (hr.fits hl.onPages (w := .free) hfound).1
      simp only [Option.getD_some, kmallocScanned, if_neg hpos, hfirst]
      cases havail : h.avail with
      | cons hbp rest =>
        have hbp0 : hbp ≠ 0 := Nat.ne_of_gt (hr.fits hl.onPages (w := .avail) (by simp [HeapDesc.list, havail])).1
        obtain ⟨hrep, hbase⟩ := carveLinks_rep hr hl havail hfound hlt
        refine ⟨_, ?_, hrep⟩
        rw [List.headD_cons, if_neg hbp0, hbase]
      | nil =>
        simp only [List.headD_nil, if_true]
        cases hal : alloc s with
        | error e => rfl
        | ok r =>
          obtain ⟨_ | pg, s'⟩ := r
          · exact ⟨hm, rfl, hr⟩
          · have hf := hfresh pg s' hal
            have hrep := addPageLinks_rep hr hl.onPages hf
            have hmem : found ∈ h.free ++ h.res := List.mem_append_left _ hfound
            obtain ⟨hloose, hblk⟩ := addPage_loose hl (hl.pages_ne_nil hmem) hf
            have hfirst' := hrep.first hloose.onPages .avail
            simp only [HeapMem.head, HeapDesc.list] at hfirst'
            simp only [hfirst']
            cases havail' : (addPage h pg).avail with
            | nil => exact ⟨_, rfl, hrep⟩
            | cons hbp rest =>
              have hbp0 : hbp ≠ 0 := Nat.ne_of_gt (hrep.fits hloose.onPages (w := .avail) (by simp [HeapDesc.list, havail'])).1
              obtain ⟨hrep', hbase⟩ := carveLinks_rep hrep hloose havail' hfound (by rw [hblk found hmem]; exact hlt)
              refine ⟨_, ?_, hrep'⟩
              rw [List.headD_cons, if_neg hbp0, hbase]

/-- `toAvailLinks` for a node of the free list, or for NULL. -/
theorem toAvailLinks_rep (hr : Rep hm h) (hl : OnPages h) {o : Option Nat} (ho : ∀ k ∈ o, k ∈ h.free) :
    Rep (toAvailLinks hm (o.getD 0)) (toAvail h o) ∧ OnPages (toAvail h o) := by
  cases o with
  | none => exact ⟨hr, hl⟩
  | some k =>
    have hk : k ∈ h.list .free := ho k rfl
    have hk0 : k ≠ 0 := Nat.ne_of_gt (hr.fits hl hk).1
    refine ⟨?_, ⟨(perm_free_avail (ho k rfl)).trans hl.nodes, hl.pages⟩⟩
    have hmove := hr.move hl (toAvail h (some k)) .free .avail hk (by decide) rfl rfl rfl (by
      funext w
      cases w <;> simp [HeapDesc.list, toAvail])
    rw [Option.getD_some, toAvailLinks, if_pos hk0]
    have hblk : (toAvail h (some k)).blk = hm.blk := hr.blk.symm
    rw [hblk] at hmove
    exact hmove

theorem kfreeLinks_eq (p : Nat) (hr : Rep hm h) (hl : OnPages h) :
    ∃ hm', (∀ n, h.res.length < n → h.free.length + 1 < n → kfreeLinks n p hm = some ((kfree p h).1, hm')) ∧
      Rep hm' (kfree p h).2 := by
  have hfind := fun n hn => hr.forEach hl .res (findBody hm.blk p) () (n := n) hn
  simp only [HeapMem.head, HeapDesc.list, visit_findBody, hr.blk] at hfind
  unfold kfree
  cases hfound : h.res.find? fun k => (h.blk k).base == p with
  | none =>
    rw [hfound] at hfind
    exact ⟨hm, fun n hn _ => by rw [kfreeLinks, hr.blk, hfind n hn], hr⟩
  | some found =>
    have hin : found ∈ h.list .res := List.mem_of_find?_eq_some hfound
    -- the block is on the free list, and not merged yet
    let h₁ : HeapDesc := { h with res := h.res.erase found, free := found :: h.free }
    have hl₁ : OnPages h₁ := ⟨(perm_res_free hin).trans hl.nodes, hl.pages⟩
    have hr₁ : Rep { hm with blk := h.blk, links := listMove hm.links (lhOf found) (lhOf hm.free) } h₁ :=
      hr.move hl h₁ .res .free hin (by decide) rfl rfl rfl (by
        funext w
        cases w <;> simp [h₁, HeapDesc.list])
    have hmerge := fun n hn => hr₁.forEach hl₁ .free (mergeBody found) (h.blk, 0, 0) (n := n) hn
    have hvisit := visit_mergeBody found (found :: h.free) h.blk none none
      (fun k hk => Nat.ne_of_gt (hr₁.fits hl₁ (w := .free) hk).1) ⟨by simp, by simp⟩
    obtain ⟨hlp, hrp, hne⟩ := mergeLoop_nodes found (hl₁.list_nodup .free) h.blk none none nofun nofun nofun
    simp only [HeapMem.head, HeapDesc.list, h₁, List.length_cons] at hmerge hlp hrp hne
    rw [hfound] at hfind
    dsimp only
    generalize hst : mergeLoop found (found :: h.free) h.blk none none = st at *
    obtain ⟨blk', lp, rp⟩ := st
    have hvisit' : (visit (mergeBody found) (found :: h.free) (h.blk, 0, 0)).elim id id = (blk', lp.getD 0, rp.getD 0) := hvisit
    -- the merge changes blocks only
    have hr₂ : Rep { hm with blk := blk', links := listMove hm.links (lhOf found) (lhOf hm.free) } { h₁ with blk := blk' } :=
      ⟨hr₁.start, hr₁.endAddr, rfl, hr₁.heads, hr₁.notNull, hr₁.holds⟩
    have hl₂ : OnPages { h₁ with blk := blk' } := ⟨hl₁.nodes, hl₁.pages⟩
    obtain ⟨hr₃, hl₃⟩ := toAvailLinks_rep hr₂ hl₂ (o := lp) fun k hk => (hlp k hk).resolve_right nofun
    obtain ⟨hr₄, -⟩ := toAvailLinks_rep hr₃ hl₃ (o := rp) fun k hk => by
      have hkin : k ∈ found :: h.free := (hrp k hk).resolve_right nofun
      cases lp with
      | none => exact hkin
      | some l => exact (List.mem_erase_of_ne (hne l rfl k hk).symm).2 hkin
    refine ⟨_, fun n hres hfree => ?_, hr₄⟩
    simp only [kfreeLinks, hr.blk, hfind n hres, hmerge n hfree, hvisit']

end

/-! ## `HEAP_FB` -/

def initHeapLinks (mem : Nat → Blk) (links : Links Nat) (size : Nat) (mp : Mmc) : Except String (Option HeapMem × Mmc) :=
  match allocFrames mp (pageContain size) with
  | .error e => .error e
  | .ok (none, mp) => .ok (none, mp)
  | .ok (some start, mp) => heapFbLinks allocFrame mem links start (u32 (start + size)) mp

/-- The three heads of a page, made one after the other. -/
theorem holds_nil {head : Which → Nat} (links : Links Nat) (hinj : Injective fun w => lhOf (head w)) :
    Holds (initListHead (initListHead (initListHead links (lhOf (head .free))) (lhOf (head .res))) (lhOf (head .avail))) head
      fun _ => [] := by
  have h0 : Rings links noLists := ⟨nofun, nofun⟩
  have h1 : Rings (initListHead links (lhOf (head .free))) _ := rings_initListHead h0 nofun
  have h2 : Rings (initListHead _ (lhOf (head .res))) _ := rings_initListHead h1 (by grind [NoEntry, noLists])
  have h3 : Rings (initListHead _ (lhOf (head .avail))) _ := rings_initListHead h2 (by grind [NoEntry, noLists])
  have hfam : update (update (update noLists (lhOf (head .free)) (some [])) (lhOf (head .res)) (some [])) (lhOf (head .avail)) (some [])
      = family (fun w => lhOf (head w)) fun _ => [] := by
    funext r
    by_cases hr : ∃ w, lhOf (head w) = r
    · obtain ⟨w, rfl⟩ := hr
      refine Eq.trans ?_ (family_head hinj _ w).symm
      cases w <;> simp [update_apply]
    · have hne : ∀ w, r ≠ lhOf (head w) := fun w heq => hr ⟨w, heq.symm⟩
      rw [update_of_ne (hne _), update_of_ne (hne _), update_of_ne (hne _), family, dif_neg hr]
      rfl
  rw [Holds, List.map_nil, ← hfam]
  exact h3

/-- The heads that `HEAP_FB` makes in its page. -/
def fbHead (metap : Nat) : Which → Nat
  | .free => metap
  | .res => metap + hblkSize
  | .avail => metap + hblkSize + hblkSize

theorem head_eq_fbHead {hm : HeapMem} (metap : Nat) (h1 : hm.free = metap) (h2 : hm.res = metap + hblkSize)
    (h3 : hm.avail = metap + hblkSize + hblkSize) : hm.head = fbHead metap := by
  funext w
  cases w with
  | free => exact h1
  | res => exact h2
  | avail => exact h3

section
variable {metap : Nat} (hok : PagesOk [metap])
include hok

theorem fbHead_injective : Injective fun w => lhOf (fbHead metap w) :=
  Heads.injective hok ⟨metap, rfl, rfl, rfl, rfl⟩

theorem lhOf_node {i : Nat} (hi : i < hblkNumPPg) : lhOf (metap + hblkSize * i) = metap + hblkSize * i + 8 := by
  refine lhOf_of_inPage (hok.fits metap (List.mem_singleton_self _)) ⟨Nat.le_add_right _ _, ?_⟩
  unfold hblkNumPPg pageSize hblkSize at *
  omega

theorem lhOf_fbHead (w : Which) : ∃ i < 3, lhOf (fbHead metap w) = metap + hblkSize * i + 8 := by
  cases w with
  | free => exact ⟨0, by decide, lhOf_node hok (i := 0) (by decide)⟩
  | res => exact ⟨1, by decide, lhOf_node hok (i := 1) (by decide)⟩
  | avail => exact ⟨2, by decide, lhOf_node hok (i := 2) (by decide)⟩

/-- A node is on no list that only has heads and the nodes before it. -/
theorem free_node (xs : Which → List Nat) {i : Nat} (h3 : 3 ≤ i) (hi : i < hblkNumPPg)
    (hxs : ∀ w, ∀ k ∈ xs w, ∃ j < i, k = metap + hblkSize * j) :
    Free (family (fun w => lhOf (fbHead metap w)) fun w => (xs w).map lhOf) (lhOf (metap + hblkSize * i)) := by
  intro r ys hr hmem
  obtain ⟨w, rfl, rfl⟩ := family_eq_some (fbHead_injective hok) hr
  rw [lhOf_node hok hi] at hmem
  rcases List.mem_cons.1 hmem with heq | hmem
  · obtain ⟨j, hj, hw⟩ := lhOf_fbHead hok w
    unfold hblkSize at *
    omega
  · obtain ⟨k, hk, heq⟩ := List.mem_map.1 hmem
    obtain ⟨j, hji, rfl⟩ := hxs w k hk
    rw [lhOf_node hok (by omega)] at heq
    unfold hblkSize at *
    omega

/-- The lists that `HEAP_FB` makes. -/
theorem holds_fb (links : Links Nat) :
    Holds (addNodes (listAdd (initListHead (initListHead (initListHead links (lhOf (fbHead metap .free))) (lhOf (fbHead metap .res)))
        (lhOf (fbHead metap .avail))) (lhOf (metap + hblkSize * 3)) (lhOf (fbHead metap .free))) (fbHead metap .avail)
        (nodesFrom metap (metap + hblkSize * 4))) (fbHead metap)
      (update (update (fun _ => []) .free [metap + hblkSize * 3]) .avail (nodesFrom metap (metap + hblkSize * 4))) := by
  have hinj := fbHead_injective hok
  have hfits := hok.fits metap (List.mem_singleton_self _)
  have hadd : Holds (listAdd (initListHead (initListHead (initListHead links (lhOf (fbHead metap .free))) (lhOf (fbHead metap .res)))
      (lhOf (fbHead metap .avail))) (lhOf (metap + hblkSize * 3)) (lhOf (fbHead metap .free))) (fbHead metap)
      (update (fun _ => []) .free [metap + hblkSize * 3]) := by
    rw [Holds, map_update_list]
    exact rings_family_add hinj (holds_nil links hinj) (free_node hok (fun _ => []) (Nat.le_refl _) (by decide) nofun)
  refine hadd.addNodes _ hinj (fun p hp => ?_) ?_
  · obtain ⟨i, h4, hi, rfl⟩ := (mem_nodesFrom hfits).1 hp
    refine free_node hok _ (by omega) hi fun w k hk => ?_
    by_cases hw : w = .free
    · rw [hw, update_self, List.mem_singleton] at hk
      exact ⟨3, by omega, hk⟩
    · rw [update_of_ne hw] at hk
      exact absurd hk List.not_mem_nil
  · refine (nodup_nodesFrom hfits).map_on fun x hx y hy heq => ?_
    obtain ⟨i, -, hi, rfl⟩ := (mem_nodesFrom hfits).1 hx
    obtain ⟨j, -, hj, rfl⟩ := (mem_nodesFrom hfits).1 hy
    rw [lhOf_node hok hi, lhOf_node hok hj] at heq
    omega

end

theorem heapFbLinks_rep {σ : Type} {alloc : σ → Except String (Option Nat × σ)} {mem : Nat → Blk} {start endAddr : Nat} {s s' : σ}
    {h : HeapDesc} (links : Links Nat) (hfb : heapFb alloc mem start endAddr s = .ok (some h, s')) (hok : PagesOk h.pages)
    (hpos : ∀ pg ∈ h.pages, 0 < pg) : ∃ hm, heapFbLinks alloc mem links start endAddr s = .ok (some hm, s') ∧ Rep hm h := by
  unfold heapFb at hfb
  unfold heapFbLinks
  cases hal : alloc s with
  | error e => simp [hal] at hfb
  | ok r =>
    obtain ⟨_ | metap, s₁⟩ := r
    · simp [hal] at hfb
    rw [hal] at hfb
    cases hfb
    have h3 : metap + hblkSize + hblkSize + hblkSize = metap + hblkSize * 3 := by
      unfold hblkSize
      omega
    have h4 : metap + hblkSize * 3 + hblkSize = metap + hblkSize * 4 := by
      unfold hblkSize
      omega
    dsimp only
    rw [h3, h4]
    refine ⟨_, rfl, rfl, rfl, rfl, ?_, hpos, ?_⟩
    · exact ⟨metap, rfl, rfl, rfl, rfl⟩
    · rw [head_eq_fbHead metap rfl rfl rfl]
      have hlist : HeapDesc.list ⟨start, endAddr, update mem (metap + hblkSize * 3) ⟨start, u32 (endAddr + 2 ^ 32 - start)⟩,
          [metap + hblkSize * 3], [], nodesFrom metap (metap + hblkSize * 4), [metap]⟩ =
          update (update (fun _ => []) .free [metap + hblkSize * 3]) .avail (nodesFrom metap (metap + hblkSize * 4)) := by
        funext w
        cases w <;> simp [HeapDesc.list]
      rw [hlist]
      exact holds_fb hok links

/-! ## Runs -/

/-- The memory of a heap, beside what the other users of the frames hold. -/
structure Lst where
  heap : HeapMem
  mmc : Mmc
  others : List Alloc

/-- A call of `kStep`, and what it returns. -/
def kCall (st : Kst) : Kop → Option (Nat × Kst)
  | .kmalloc size =>
    if size < 2 ^ 32 then
      match kmalloc allocFrame size st.heap st.mmc with
      | .error _ => none
      | .ok (r, h, mp) => some (r, { st with heap := h, mmc := mp })
    else none
  | .kfree p => some ((kfree p st.heap).1, { st with heap := (kfree p st.heap).2 })
  | .other op => (frameCall ⟨st.mmc, st.others⟩ op).map fun s => (0, ⟨st.heap, s.mmc, s.live⟩)

/-- The same call on the links. -/
def lCall (n : Nat) (st : Lst) : Kop → Option (Nat × Lst)
  | .kmalloc size =>
    if size < 2 ^ 32 then
      match kmallocLinks allocFrame n size st.heap st.mmc with
      | none => none
      | some (.error _) => none
      | some (.ok (r, hm, mp)) => some (r, { st with heap := hm, mmc := mp })
    else none
  | .kfree p => (kfreeLinks n p st.heap).map fun r => (r.1, { st with heap := r.2 })
  | .other op => (frameCall ⟨st.mmc, st.others⟩ op).map fun s => (0, ⟨st.heap, s.mmc, s.live⟩)

/-- The values that calls return, one after the other, and the last state. -/
def calls {σ : Type} (call : σ → Kop → Option (Nat × σ)) : σ → List Kop → Option (List Nat × σ)
  | s, [] => some ([], s)
  | s, op :: ops =>
    match call s op with
    | none => none
    | some (v, t) => (calls call t ops).map fun r => (v :: r.1, r.2)

/-- The calls that `Spares` lets the other users make. -/
def sparingCall (st : Kst) (op : Kop) : Option (Nat × Kst) := if Spares st op then kCall st op else none

theorem kStep_eq (st : Kst) (op : Kop) : kStep st op = (kCall st op).map Prod.snd := by
  cases op with
  | kmalloc size =>
    simp only [kStep, kCall]
    by_cases hsize : size < 2 ^ 32
    · rw [if_pos hsize, if_pos hsize]
      cases kmalloc allocFrame size st.heap st.mmc <;> rfl
    · rw [if_neg hsize, if_neg hsize]
      rfl
  | kfree p => rfl
  | other op =>
    simp only [kStep, kCall, Option.map_map]
    rfl

/-- One call. -/
theorem lCall_eq {m : Mmc} {st : Kst} {hm : HeapMem} {op : Kop} {v : Nat} {st' : Kst} (L : Layout m) (hbase : 0 < m.frameBase)
    (hr : Rep hm st.heap) (hl : Loose st.heap) (hf : OnFrames m st) (hc : kCall st op = some (v, st')) :
    ∃ hm', (∀ n, st.heap.res.length < n → st.heap.free.length + 1 < n →
      lCall n ⟨hm, st.mmc, st.others⟩ op = some (v, ⟨hm', st'.mmc, st'.others⟩)) ∧ Rep hm' st'.heap := by
  cases op with
  | kmalloc size =>
    obtain ⟨r, hr', hsame⟩ := kmallocLinks_eq allocFrame st.mmc size hr hl fun pg mp hal => hf.fresh L hbase hal
    simp only [kCall] at hc
    split at hc
    · rename_i hsize
      split at hc
      · cases hc
      · rename_i r h' mp' hk
        cases hc
        rw [hk] at hsame
        obtain ⟨hm', rfl, hrep⟩ := hsame
        exact ⟨hm', fun n _ hn => by simp only [lCall, if_pos hsize, hr' n (Nat.lt_of_succ_lt hn)], hrep⟩
    · cases hc
  | kfree p =>
    obtain ⟨hm', heq, hrep⟩ := kfreeLinks_eq p hr hl.onPages
    cases hc
    exact ⟨hm', fun n hres hfree => by rw [lCall, heq n hres hfree]; rfl, hrep⟩
  | other op =>
    obtain ⟨s, hs, heq⟩ := Option.map_eq_some_iff.1 hc
    cases heq
    exact ⟨hm, fun n _ _ => by rw [lCall, hs]; rfl, hr⟩

/-- The heap just made by `init_heap`, as lists and as links. -/
structure BootLinks (m : Mmc) (st : Kst) (hm : HeapMem) : Prop where
  table : ∃ base length, Region base length ∧ mmPageTable base length = .ok (some m)
  init : ∃ mem links size s, Reaches frameCall Any ⟨m, []⟩ s ∧ size < 2 ^ 32 ∧ st.others = s.live ∧
    initHeap mem size s.mmc = .ok (some st.heap, st.mmc) ∧ initHeapLinks mem links size s.mmc = .ok (some hm, st.mmc)

theorem OnFrames.pages_pos {m : Mmc} {st : Kst} (L : Layout m) (hbase : 0 < m.frameBase) (h : OnFrames m st) :
    ∀ pg ∈ st.heap.pages, 0 < pg := by
  intro pg hpg
  obtain ⟨live, hperm, hinv⟩ := h.frames
  have hheld : (⟨pg, 1⟩ : Alloc) ∈ heldBy st.heap :=
    List.mem_cons_of_mem _ (List.mem_map_of_mem (f := fun pg => (⟨pg, 1⟩ : Alloc)) hpg)
  exact Nat.lt_of_lt_of_le hbase (hinv.frame L (hperm.symm.subset (List.mem_append_left _ hheld))).2.1

/-- `init_heap` on the links. -/
theorem Boot.initHeapLinks {m : Mmc} {st : Kst} (hb : Boot m st) {mem : Nat → Blk} {size : Nat} {mp : Mmc} (links : Links Nat)
    (hinit : initHeap mem size mp = .ok (some st.heap, st.mmc)) :
    ∃ hm, initHeapLinks mem links size mp = .ok (some hm, st.mmc) ∧ Rep hm st.heap := by
  obtain ⟨L, hbase⟩ := hb.layout
  obtain ⟨hinv, hf⟩ := hb.inv
  obtain ⟨start, mp', hal, hfb⟩ := initHeap_some hinit
  obtain ⟨hm, heq, hrep⟩ := heapFbLinks_rep links hfb hinv.pages (hf.pages_pos L hbase)
  exact ⟨hm, by rw [Heap.initHeapLinks, hal]; exact heq, hrep⟩

section
variable {m : Mmc} {st₀ : Kst} {hm₀ : HeapMem} (hb : BootLinks m st₀ hm₀)
include hb

theorem BootLinks.boot : Boot m st₀ := by
  obtain ⟨mem, links, size, s, hrun, hsize, hothers, hinit, -⟩ := hb.init
  exact ⟨hb.table, mem, size, s, hrun, hsize, hinit, hothers⟩

theorem BootLinks.rep : Rep hm₀ st₀.heap := by
  obtain ⟨mem, links, size, s, -, -, -, hinit, hlinks⟩ := hb.init
  obtain ⟨hm, heq, hrep⟩ := hb.boot.initHeapLinks links hinit
  cases heq.symm.trans hlinks
  exact hrep

/-- **The links hold the heap.** Whatever the memory of its pages held before, any calls of the heap and of the other users of the
frames return on the links what they return on the lists, each loop over a list ends, and the links hold the lists then. -/
theorem heap_links_refine {st : Kst} {ops : List Kop} {vs : List Nat} (hrun : calls sparingCall st₀ ops = some (vs, st)) :
    ∃ n₀, ∀ n ≥ n₀, ∃ hm, calls (lCall n) ⟨hm₀, st₀.mmc, st₀.others⟩ ops = some (vs, ⟨hm, st.mmc, st.others⟩) ∧
      Rep hm st.heap := by
  obtain ⟨L, hbase⟩ := hb.boot.layout
  -- from any state that is reached, the induction is on the calls that are left
  have hrest : ∀ (ops : List Kop) (u : Kst) (hm : HeapMem) (vs : List Nat), Reaches kStep Spares st₀ u → Rep hm u.heap →
      calls sparingCall u ops = some (vs, st) → ∃ n₀, ∀ n ≥ n₀, ∃ hm',
        calls (lCall n) ⟨hm, u.mmc, u.others⟩ ops = some (vs, ⟨hm', st.mmc, st.others⟩) ∧ Rep hm' st.heap := by
    intro ops
    induction ops with
    | nil =>
      intro u hm vs hreach hrep hrun
      cases hrun
      exact ⟨0, fun n _ => ⟨hm, rfl, hrep⟩⟩
    | cons op ops ih =>
      intro u hm vs hreach hrep hrun
      rw [calls, sparingCall] at hrun
      split at hrun
      · cases hrun
      · rename_i v u' hcall
        by_cases hspare : Spares u op
        · rw [if_pos hspare] at hcall
          obtain ⟨⟨vs', w⟩, htail, heq⟩ := Option.map_eq_some_iff.1 hrun
          obtain ⟨rfl, rfl⟩ := Prod.mk.inj heq
          have hstep : kStep u op = some u' := by rw [kStep_eq, hcall, Option.map_some]
          have hreach' : Reaches kStep Spares st₀ u' := hreach.trans (Reaches.head hspare hstep (Reaches.refl _))
          obtain ⟨hm₁, hone, hrep₁⟩ := lCall_eq L hbase hrep (reaches_loose hb.boot hreach) (reaches_onFrames hb.boot hreach) hcall
          obtain ⟨n₁, htail'⟩ := ih u' hm₁ vs' hreach' hrep₁ htail
          refine ⟨max n₁ (u.heap.res.length + u.heap.free.length + 2), fun n hn => ?_⟩
          obtain ⟨hm', hcalls, hrep'⟩ := htail' n (Nat.le_trans (Nat.le_max_left _ _) hn)
          have hlen := Nat.le_trans (Nat.le_max_right _ _) hn
          refine ⟨hm', ?_, hrep'⟩
          rw [calls, hone n (by omega) (by omega)]
          dsimp only
          rw [hcalls, Option.map_some]
        · rw [if_neg hspare] at hcall
          cases hcall
  exact hrest ops st₀ hm₀ vs (Reaches.refl _) hb.rep hrun

end

/-- Two blocks, the first of which is freed again. -/
theorem heap_links_refine_three_calls :
    ∃ st₀, ∀ links : Links Nat, ∃ hm₀, BootLinks (freshMmc 0x100000 0x5000 1 4) st₀ hm₀ ∧
      initHeapLinks (fun _ => ⟨0, 0⟩) links 0x1800 (freshMmc 0x100000 0x5000 1 4) = .ok (some hm₀, st₀.mmc) ∧
      ∃ n₀, ∀ n ≥ n₀, ∃ st, calls (lCall n) ⟨hm₀, st₀.mmc, st₀.others⟩ [.kmalloc 16, .kmalloc 32, .kfree 0x101000] =
        some ([0x101000, 0x101010, 0], st) := by
  have h0 : mmPageTable 0x100000 0x5000 = .ok (some (freshMmc 0x100000 0x5000 1 4)) := rfl
  have hsome : ((boot (fun _ => ⟨0, 0⟩) 0x1800 ⟨freshMmc 0x100000 0x5000 1 4, []⟩).any fun st₀ =>
      (calls sparingCall st₀ [.kmalloc 16, .kmalloc 32, .kfree 0x101000]).any fun r => r.1 == [0x101000, 0x101010, 0]) = true := by
    decide +kernel
  cases hb : boot (fun _ => ⟨0, 0⟩) 0x1800 ⟨freshMmc 0x100000 0x5000 1 4, []⟩ with
  | none => simp [hb] at hsome
  | some st₀ =>
    have hinit := hb
    unfold boot at hinit
    split at hinit
    · rename_i h mp hinit'
      cases hinit
      rw [hb, Option.any_some] at hsome
      have hregion : Region 0x100000 0x5000 := .of_aligned (by decide) (by decide)
      have hboot : Boot (freshMmc 0x100000 0x5000 1 4) ⟨h, mp, []⟩ :=
        ⟨⟨_, _, hregion, h0⟩, _, _, ⟨_, []⟩, .refl _, by decide, hinit', rfl⟩
      refine ⟨⟨h, mp, []⟩, fun links => ?_⟩
      obtain ⟨hm₀, hlinks, -⟩ := hboot.initHeapLinks links hinit'
      have hbl : BootLinks (freshMmc 0x100000 0x5000 1 4) ⟨h, mp, []⟩ hm₀ :=
        ⟨⟨_, _, hregion, h0⟩, _, links, _, ⟨_, []⟩, .refl _, by decide, rfl, hinit', hlinks⟩
      cases hc : calls sparingCall ⟨h, mp, []⟩ [.kmalloc 16, .kmalloc 32, .kfree 0x101000] with
      | none => simp [hc] at hsome
      | some r =>
        obtain ⟨vs, st⟩ := r
        obtain rfl : vs = [0x101000, 0x101010, 0] := by simpa [hc] using hsome
        obtain ⟨n₀, hn⟩ := heap_links_refine hbl hc
        refine ⟨hm₀, hbl, hlinks, n₀, fun n hle => ?_⟩
        obtain ⟨hm, hcalls, -⟩ := hn n hle
        exact ⟨_, hcalls⟩
    · cases hinit

end RedMagic.Heap
