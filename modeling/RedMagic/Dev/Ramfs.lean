import RedMagic.Bbuf.Startup
import RedMagic.Heap.Memory

/-!
# Starting the RAM disk (src/ramfs.c:66-110, src/bbuf.c:35-59)

| here | there |
| --- | --- |
| `DevSt` | the kernel heap and `mm_phys`, and the `blk_dev_t` of the disk |
| `initBlkDevCommon` | `__init_blk_dev_common` (`device.c:71-87`), on the fields of `BlkDev` |
| `kmalloc`, `kfree`, `getFreePages`, `freePages` | the calls of `Heap/Memory.lean`, made by the driver |
| `initBuffers`, `bdevInitBufferCache` | the loop of `bdev_init_buffer_cache`, and the whole (`bbuf.c:35-59`) |
| `bbufFailed`, `heapFailed` | the labels of `init_ramfs` |
| `initMeta`, `initRamfs` | the end of `init_ramfs`, and the whole (`ramfs.c:66-110`) |

`Bbuf/Basic.lean` has `bdev_init_buffer_cache` as a function of what its `kmalloc` calls return; here they are calls of
the heap, and `initBuffers_spec` says that the two agree. A start-up that fails gives the pages back but not the buffers, so
it leaves no trace only if it got none (`ramfs_failure_undone`).
-/

namespace RedMagic.Dev

open Mm Heap Blocks Lts Fallible
open Bbuf hiding Block
open Kmem (MemM Reachable Allocated GotPages)

/-- `sizeof(buf_cache_t)`. -/
def bufCacheSize : Nat := 552
/-- `sizeof(dev_ramfs_t)`. -/
def devRamfsSize : Nat := 40
def ramfsPages : Nat := 10
def ramfsBufBlks : Nat := 100

structure DevSt (τ : Type) where
  mem : Kst
  dev : BlkDev τ

abbrev DevM (τ : Type) := EStateM String (DevSt τ)

variable {τ : Type}

/-- The fields of the new device; `ramhead` is the one of `meta`, which is not set yet. -/
def initBlkDevCommon (d : BlkDev τ) : BlkDev τ := { d with bufNum := 0, totalBlks := 0, list := [], io := [] }

/-! ## Memory -/

/-- A call on the memory. -/
def onMem {α : Type} (x : MemM α) : DevM τ α := zoom DevSt.mem (fun st s => { s with mem := st }) x

def kmalloc (size : Nat) : DevM τ Nat := onMem (Kmem.kmalloc size)

def kfree (p : Nat) : DevM τ Nat := onMem (Kmem.kfree p)

def getFreePages (npg : Nat) : DevM τ Nat := onMem (Kmem.getFreePages npg)

def freePages (page : Nat) : DevM τ Nat := onMem (Kmem.freePages page)

theorem onMem_ok {α : Type} {x : MemM α} {s : DevSt τ} {a : α} {st : Kst} (h : x s.mem = .ok a st) :
    onMem x s = .ok a { s with mem := st } := by
  rw [onMem, zoom_ok h]

/-! ## Start-up -/

/-- The body of the loop behind `kmalloc`. -/
def linkBuffer (b : Nat) (s : DevSt τ) : DevSt τ :=
  { s with dev := { s.dev with buf := Function.update s.dev.buf b freshBuf, list := s.dev.list ++ [b] } }

def initBuffers : Nat → DevM τ Int
  | 0 => return 0
  | blks + 1 => do
    let buf ← kmalloc bufCacheSize
    if buf = 0 then
      -- the buffers so far stay linked and reserved
      return -1
    else
      modify (linkBuffer buf)
      initBuffers blks

def setBufNum (blks : Nat) (s : DevSt τ) : DevSt τ := { s with dev := { s.dev with bufNum := blks } }

def bdevInitBufferCache (blks : Nat) : DevM τ Int := do
  modify (setBufNum blks)
  initBuffers blks

def bbufFailed (fsHead : Nat) (err : Int) : DevM τ Int := do
  if fsHead ≠ 0 then
    let _ ← freePages fsHead
  return err

def heapFailed (ramfs fsHead : Nat) (err : Int) : DevM τ Int := do
  if ramfs ≠ 0 then
    let _ ← kfree ramfs
  bbufFailed fsHead err

def setTotalBlks (s : DevSt τ) : DevSt τ :=
  { s with dev := { s.dev with totalBlks := u32 (ramfsPages * pageSize) / blockSize } }

/-- `ramfs->ramhead = fs_head`, and `ramfs` is the `meta` of the device. -/
def setRamhead (fsHead : Nat) (s : DevSt τ) : DevSt τ := { s with dev := { s.dev with ramhead := fsHead } }

/-- From `// init device specific metadata` on. -/
def initMeta (fsHead : Nat) : DevM τ Int := do
  let ramfs ← kmalloc devRamfsSize
  if ramfs = 0 then
    heapFailed ramfs fsHead (-3)
  else
    modify (setRamhead fsHead)
    return 0

def initRamfs : DevM τ Int := do
  let fsHead ← getFreePages ramfsPages
  if fsHead = 0 then
    return -2
  else
    modify setTotalBlks
    let err ← bdevInitBufferCache ramfsBufBlks
    if err ≠ 0 then
      bbufFailed fsHead err
    else
      initMeta fsHead

/-! ## The buffers -/

/-- What `n` calls of `kmalloc` return if they get the buffers `bs`. -/
def answers (n : Nat) (bs : List Nat) : List (Option Nat) := bs.map some ++ List.replicate (n - bs.length) none

theorem answers_succ (n b : Nat) (bs : List Nat) : answers (n + 1) (b :: bs) = some b :: answers n bs := by
  rw [answers, List.length_cons, Nat.add_sub_add_right]
  rfl

/-- The heap block of a buffer. -/
def bufBlock (b : Nat) : Block := ⟨b, bufCacheSize⟩

theorem mem_bufBlock (b : Nat) : b ∈ bufBlock b := ⟨Nat.le_refl b, Nat.lt_add_of_pos_right (show 0 < 552 by decide)⟩

/-- The buffers `bs` are got, one after the other. -/
structure GotBuffers (st st' : Kst) (bs : List Nat) : Prop where
  reach : Reachable st'
  res : resBlocks st'.heap = bs.reverse.map bufBlock ++ resBlocks st.heap
  none : bs = [] → st' = st

/-- **The loop of `bdev_init_buffer_cache`** is the one on the answers of `kmalloc`. It gets no buffer exactly if the heap
refuses the first. -/
theorem initBuffers_spec (n : Nat) (s : DevSt τ) (hr : Reachable s.mem) :
    ∃ bs st', bs.length ≤ n ∧ GotBuffers s.mem st' bs ∧
      initBuffers n s = .ok (initLoop (answers n bs) s.dev).1 ⟨st', (initLoop (answers n bs) s.dev).2⟩ ∧
      (0 < n → (bs = [] ↔ Refuses bufCacheSize s.mem.heap s.mem.mmc)) := by
  induction n generalizing s with
  | zero => exact ⟨[], s.mem, Nat.le_refl 0, ⟨hr, rfl, fun _ => rfl⟩, rfl, fun h => absurd h (Nat.lt_irrefl 0)⟩
  | succ n ih =>
    rcases hr.kmalloc_run bufCacheSize (by decide) with ⟨hk, href⟩ | ⟨b, st₁, hk, ha, hnot⟩
    · refine ⟨[], s.mem, Nat.zero_le _, ⟨hr, rfl, fun _ => rfl⟩, ?_, fun _ => iff_of_true rfl href⟩
      rw [initBuffers, bind_ok (x := kmalloc bufCacheSize) (onMem_ok hk), if_pos rfl]
      rfl
    · obtain ⟨bs, st', hlen, hgot, hrun, -⟩ := ih (linkBuffer b { s with mem := st₁ }) ha.reach
      refine ⟨b :: bs, st', Nat.succ_le_succ hlen, ⟨hgot.reach, ?_, nofun⟩, ?_, fun _ => iff_of_false nofun hnot⟩
      · rw [hgot.res]
        show _ ++ resBlocks st₁.heap = _
        rw [ha.res]
        simp [bufBlock]
      · rw [initBuffers, bind_ok (x := kmalloc bufCacheSize) (onMem_ok hk), if_neg ha.notNull, bind_modify, hrun,
          answers_succ]
        rfl

theorem answers_length {n : Nat} {bs : List Nat} (hlen : bs.length ≤ n) : (answers n bs).length = n := by
  rw [answers, List.length_append, List.length_map, List.length_replicate]
  omega

theorem bdevInitBufferCache_spec {n : Nat} (hpos : 0 < n) (s : DevSt τ) (hr : Reachable s.mem) :
    ∃ bs st', bs.length ≤ n ∧ GotBuffers s.mem st' bs ∧
      bdevInitBufferCache n s = .ok (Bbuf.bdevInitBufferCache (answers n bs) s.dev).1
        ⟨st', (Bbuf.bdevInitBufferCache (answers n bs) s.dev).2⟩ ∧
      (bs = [] ↔ Refuses bufCacheSize s.mem.heap s.mem.mmc) := by
  obtain ⟨bs, st', hlen, hgot, hrun, hnil⟩ := initBuffers_spec n (setBufNum n s) hr
  refine ⟨bs, st', hlen, hgot, ?_, hnil hpos⟩
  rw [bdevInitBufferCache, bind_modify, hrun, Bbuf.bdevInitBufferCache, answers_length hlen]
  rfl

section
variable {st st' : Kst} {bs : List Nat} (h : GotBuffers st st' bs)
include h

theorem GotBuffers.nodup : bs.Nodup := by
  have hdisj := h.reach.loose.resBlocks_disjoint
  rw [h.res, List.pairwise_append, List.pairwise_map] at hdisj
  refine List.nodup_reverse.1 (hdisj.1.imp ?_)
  rintro b _ hapart rfl
  exact hapart b (mem_bufBlock b) (mem_bufBlock b)

/-- A buffer is a new reserved block. -/
theorem GotBuffers.new {b : Nat} (hb : b ∈ bs) : bufBlock b ∈ resBlocks st'.heap ∧ bufBlock b ∉ resBlocks st.heap := by
  have hdisj := h.reach.loose.resBlocks_disjoint
  rw [h.res, List.pairwise_append] at hdisj
  have hnew : bufBlock b ∈ bs.reverse.map bufBlock := List.mem_map_of_mem (List.mem_reverse.2 hb)
  refine ⟨?_, fun hold => ?_⟩
  · rw [h.res]
    exact List.mem_append_left _ hnew
  · exact hdisj.2.2 _ hnew _ hold b (mem_bufBlock b) (mem_bufBlock b)

end

/-- The status says whether all buffers were got. -/
theorem initLoop_answers (n : Nat) (bs : List Nat) (hlen : bs.length ≤ n) (d : BlkDev τ) :
    (initLoop (answers n bs) d).1 = if bs.length = n then 0 else -1 := by
  induction bs generalizing n d with
  | nil =>
    cases n with
    | zero => rfl
    | succ n => rfl
  | cons b bs ih =>
    obtain ⟨n, rfl⟩ : ∃ k, n = k + 1 := ⟨n - 1, by rw [List.length_cons] at hlen; omega⟩
    rw [answers_succ, initLoop, ih n (Nat.le_of_succ_le_succ hlen), List.length_cons]
    simp only [Nat.add_right_cancel_iff]

theorem answers_all {n : Nat} {bs : List Nat} (hlen : bs.length = n) : answers n bs = bs.map some := by
  rw [answers, hlen, Nat.sub_self, List.replicate_zero, List.append_nil]

/-- The loop does not look at `meta`. -/
theorem initLoop_ramhead (p : Nat) (bufs : List (Option Nat)) (d : BlkDev τ) :
    initLoop bufs { d with ramhead := p } = ((initLoop bufs d).1, { (initLoop bufs d).2 with ramhead := p }) := by
  induction bufs generalizing d with
  | nil => rfl
  | cons o bufs ih =>
    cases o with
    | none => rfl
    | some b => exact ih { d with buf := Function.update d.buf b freshBuf, list := d.list ++ [b] }

/-! ## `init_ramfs` -/

theorem bbufFailed_run {fsHead : Nat} (hne : fsHead ≠ 0) (err : Int) (s : DevSt τ) :
    ∃ s', bbufFailed fsHead err s = .ok err s' ∧ s'.mem.heap = s.mem.heap ∧
      s'.mem.mmc = (freeFrames s.mem.mmc fsHead).2 ∧ s'.dev = s.dev := by
  rw [bbufFailed, if_pos hne]
  exact ⟨_, rfl, rfl, rfl, rfl⟩

/-- The heap has no buffer to give once the pages are taken: no free block is large enough, or the one to cut needs a node
and the last frames went into the disk. -/
def NoBuffer (st : Kst) : Prop :=
  (¬ ∃ n ∈ st.heap.free, bufCacheSize ≤ (st.heap.blk n).size) ∨
    ((¬ ∃ n ∈ st.heap.free, (st.heap.blk n).size = bufCacheSize) ∧ st.heap.avail = [] ∧ st.mmc.nfree = ramfsPages)

/-- The device with the disk at `fsHead`. -/
def onDisk (fsHead : Nat) (d : BlkDev τ) : BlkDev τ :=
  { d with totalBlks := u32 (ramfsPages * pageSize) / blockSize, ramhead := fsHead }

/-- How a call ends. -/
inductive Outcome (s : DevSt τ) : Prop where
  | noPages (hrun : initRamfs s = .ok (-2) s) (hno : ¬ ∃ i, WhiteRun s.mem.mmc ramfsPages i)
  | undone (s' : DevSt τ) (hrun : initRamfs s = .ok (-1) s') (hno : NoBuffer s.mem) (hmmc : s'.mem.mmc = s.mem.mmc)
    (hheap : s'.mem.heap = s.mem.heap) (hlist : s'.dev.list = s.dev.list)
  | leaked (err : Int) (s' : DevSt τ) (b : Nat) (hrun : initRamfs s = .ok err s') (herr : err ≠ 0)
    (hpages : ∃ i, WhiteRun s.mem.mmc ramfsPages i) (hbuf : ¬ NoBuffer s.mem)
    (hnew : bufBlock b ∈ resBlocks s'.mem.heap ∧ bufBlock b ∉ resBlocks s.mem.heap)
  | started (s' : DevSt τ) (fsHead : Nat) (bs : List Nat) (hrun : initRamfs s = .ok 0 s') (hlen : bs.length = ramfsBufBlks)
    (hnd : bs.Nodup) (hfit : fsHead + pageSize * ramfsPages < 2 ^ 32)
    (hdev : Bbuf.bdevInitBufferCache (bs.map some) (onDisk fsHead s.dev) = (0, s'.dev))

/-- What follows the buffers ends well, or it gives the pages back and leaves the heap. -/
theorem initMeta_run {s : DevSt τ} (hr : Reachable s.mem) {fsHead : Nat} (hne : fsHead ≠ 0) :
    (∃ s', initMeta fsHead s = .ok (-3) s' ∧ s'.mem.heap = s.mem.heap) ∨
      ∃ st', initMeta fsHead s = .ok 0 (setRamhead fsHead { s with mem := st' }) := by
  rcases hr.kmalloc_run devRamfsSize (by decide) with ⟨hk, -⟩ | ⟨p, st', hk, ha, -⟩
  · obtain ⟨s', hrun, hheap, -, -⟩ := bbufFailed_run hne (-3) s
    refine .inl ⟨s', ?_, hheap⟩
    rw [initMeta, bind_ok (x := kmalloc devRamfsSize) (onMem_ok hk), if_pos rfl]
    exact hrun
  · refine .inr ⟨st', ?_⟩
    rw [initMeta, bind_ok (x := kmalloc devRamfsSize) (onMem_ok hk), if_neg ha.notNull]
    rfl

section
variable {s s₁ s₂ : DevSt τ} {p : Nat}

theorem initRamfs_run {err : Int} (hpages : getFreePages ramfsPages s = .ok p s₁) (hp : p ≠ 0)
    (hcache : bdevInitBufferCache ramfsBufBlks (setTotalBlks s₁) = .ok err s₂) :
    initRamfs s = (if err ≠ 0 then bbufFailed p err else initMeta p) s₂ := by
  rw [initRamfs, bind_ok hpages, if_neg hp, bind_modify, bind_ok hcache]

/-- The disk may as well be there before the buffers. -/
theorem bdevInit_onDisk (bufs : List (Option Nat)) (h : (Bbuf.bdevInitBufferCache bufs (setTotalBlks s).dev).1 = 0) :
    Bbuf.bdevInitBufferCache bufs (onDisk p s.dev) =
      (0, { (Bbuf.bdevInitBufferCache bufs (setTotalBlks s).dev).2 with ramhead := p }) := by
  have hmove := initLoop_ramhead p bufs { (setTotalBlks s).dev with bufNum := bufs.length }
  exact hmove.trans (Prod.ext h rfl)

/-- A call that got a buffer and leaves the heap has leaked it. -/
theorem Outcome.of_leak {bs : List Nat} (hgot : GotBuffers s₁.mem s₂.mem bs) (hne : bs ≠ [])
    (hheap : s₁.mem.heap = s.mem.heap) (hpages : ∃ i, WhiteRun s.mem.mmc ramfsPages i) (hbuf : ¬ NoBuffer s.mem) {err : Int}
    (herr : err ≠ 0) {s' : DevSt τ} (hrun : initRamfs s = .ok err s') (hsame : s'.mem.heap = s₂.mem.heap) : Outcome s := by
  obtain ⟨b, hb⟩ := List.exists_mem_of_ne_nil bs hne
  refine .leaked err s' b hrun herr hpages hbuf ?_
  rw [hsame, ← hheap]
  exact hgot.new hb

end

theorem initRamfs_outcome (s : DevSt τ) (hr : Reachable s.mem) : Outcome s := by
  rcases hr.getFreePages_run (show 0 < ramfsPages by decide) with ⟨hpages, hno⟩ | ⟨p, st₁, hpages, hgotPages⟩
  · refine .noPages ?_ hno
    rw [initRamfs, bind_ok (x := getFreePages ramfsPages) (onMem_ok hpages), if_pos rfl]
    rfl
  · obtain ⟨hp, hfit, hr₁, hheap, hwhite, hnfree, hfree⟩ := hgotPages
    obtain ⟨bs, st', hlen, hgot, hcache, hnil⟩ := bdevInitBufferCache_spec (n := ramfsBufBlks) (by decide)
      (setTotalBlks { s with mem := st₁ }) hr₁
    have hex : Exhausted st₁.mmc ↔ s.mem.mmc.nfree = ramfsPages := by
      rw [hr₁.exhausted_iff]
      omega
    replace hnil : bs = [] ↔ NoBuffer s.mem := by
      rw [hnil, NoBuffer, ← hex, ← hheap]
      rfl
    have hcall := initRamfs_run (onMem_ok hpages) hp hcache
    have hstatus : (Bbuf.bdevInitBufferCache (answers ramfsBufBlks bs) (setTotalBlks { s with mem := st₁ }).dev).1 =
        if bs.length = ramfsBufBlks then 0 else -1 := initLoop_answers ramfsBufBlks bs hlen _
    by_cases hall : bs.length = ramfsBufBlks
    · rw [if_pos hall] at hstatus
      rw [hstatus, if_neg (not_not.2 rfl)] at hcall
      have hne : bs ≠ [] := by
        rintro rfl
        cases hall
      rcases initMeta_run (s := ⟨st', _⟩) hgot.reach hp with ⟨s', hmeta, hsame⟩ | ⟨st₂, hmeta⟩
      · exact .of_leak hgot hne hheap hwhite (mt hnil.2 hne) (by decide) (hcall.trans hmeta) hsame
      · refine .started _ p bs (hcall.trans hmeta) hall hgot.nodup hfit ?_
        rw [← answers_all hall]
        exact bdevInit_onDisk (answers ramfsBufBlks bs) hstatus
    · rw [if_neg hall] at hstatus
      rw [hstatus, if_pos (by decide)] at hcall
      obtain ⟨s', hrun, hsame, hmmc, hdev⟩ := bbufFailed_run hp (-1) ⟨st', (Bbuf.bdevInitBufferCache
        (answers ramfsBufBlks bs) (setTotalBlks { s with mem := st₁ }).dev).2⟩
      by_cases hbs : bs = []
      · obtain rfl := hgot.none hbs
        subst hbs
        refine .undone s' (hcall.trans hrun) (hnil.1 rfl) ?_ (hsame.trans hheap) ?_
        · rw [hmmc]
          exact congrArg Prod.snd hfree
        · rw [hdev]
          rfl
      · exact .of_leak hgot hbs hheap hwhite (mt hnil.2 hbs) (by decide) (hcall.trans hrun) hsame

/-- Everything that was taken is given back. -/
structure Released (s s' : DevSt τ) : Prop where
  frames : s'.mem.mmc = s.mem.mmc
  reserved : ∀ b, b ∈ resBlocks s'.mem.heap ↔ b ∈ resBlocks s.mem.heap
  list : s'.dev.list = []

/-- **A failed start-up.** From every state of the heap and of the frame table, on a device without buffers: `init_ramfs`
returns, and if its status is not 0 then everything it took is given back exactly if there was no run of free frames for
the disk, or the heap refused the first buffer. -/
theorem ramfs_failure_undone (s : DevSt τ) (hr : Reachable s.mem) (hlist : s.dev.list = []) :
    ∃ err s', initRamfs s = .ok err s' ∧
      (err ≠ 0 → (Released s s' ↔ (¬ ∃ i, WhiteRun s.mem.mmc ramfsPages i) ∨ NoBuffer s.mem)) := by
  cases initRamfs_outcome s hr with
  | noPages hrun hno => exact ⟨_, s, hrun, fun _ => iff_of_true ⟨rfl, fun _ => Iff.rfl, hlist⟩ (.inl hno)⟩
  | undone s' hrun hno hmmc hheap hsame =>
    refine ⟨_, s', hrun, fun _ => iff_of_true ⟨hmmc, fun b => ?_, hsame.trans hlist⟩ (.inr hno)⟩
    rw [hheap]
  | leaked err s' b hrun _ hpages hbuf hnew =>
    refine ⟨err, s', hrun, fun _ => iff_of_false (fun hrel => ?_) ?_⟩
    · exact hnew.2 ((hrel.reserved (bufBlock b)).1 hnew.1)
    · rintro (hno | hno)
      · exact hno hpages
      · exact hbuf hno
  | started s' fsHead bs hrun => exact ⟨0, s', hrun, fun herr => absurd rfl herr⟩

/-- A device in a kernel with nothing but its heap. -/
def devOn (st : Kst) : DevSt Unit := ⟨st, initBlkDevCommon (zeroDisk Unit)⟩

/-- A call from there ends with `P`. -/
def ends (P : Int → DevSt Unit → Bool) (st : Kst) : Bool :=
  match initRamfs (devOn st) with
  | .ok err s' => P err s'
  | .error _ _ => false

/-- A heap of 512 bytes has no room for a buffer: the ten pages are taken and given back. -/
theorem ramfs_failure_undone_small :
    ∃ s : DevSt Unit, Reachable s.mem ∧ ∃ err s', initRamfs s = .ok err s' ∧ err ≠ 0 ∧ Released s s' := by
  have h0 : mmPageTable 0x100000 0xD000 = .ok (some (freshMmc 0x100000 0xD000 1 12)) := rfl
  obtain ⟨st₀, st, hb, hrun, hst⟩ := exists_boot_reaches (.of_aligned (by decide) (by decide)) h0 Spares 0x200
    (by decide) [] (fun st => st.heap.free.all (fun n => (st.heap.blk n).size < bufCacheSize) && ends (fun err _ => err != 0) st)
    (by decide +kernel)
  have hr : Reachable (devOn st).mem := ⟨_, st₀, hb, hrun⟩
  obtain ⟨err, s', hcall, hiff⟩ := ramfs_failure_undone (devOn st) hr rfl
  simp only [Bool.and_eq_true, List.all_eq_true, decide_eq_true_eq, ends, hcall, bne_iff_ne] at hst
  refine ⟨devOn st, hr, err, s', hcall, hst.2, (hiff hst.2).2 (.inr (.inl ?_))⟩
  rintro ⟨n, hn, hfit⟩
  exact absurd hfit (Nat.not_le.2 (hst.1 n hn))

/-- A heap of one page has room for seven buffers. They stay reserved and on the list of the device when the eighth
is refused. -/
theorem ramfs_buffers_leak :
    ∃ s : DevSt Unit, Reachable s.mem ∧ s.dev.list = [] ∧ ∃ err s', initRamfs s = .ok err s' ∧ err ≠ 0 ∧
      resBlocks s.mem.heap = [] ∧ (resBlocks s'.mem.heap).length = 7 ∧ s'.dev.list.length = 7 ∧ ¬ Released s s' := by
  have h0 : mmPageTable 0x100000 0xD000 = .ok (some (freshMmc 0x100000 0xD000 1 12)) := rfl
  obtain ⟨st₀, st, hb, hrun, hst⟩ := exists_boot_reaches (.of_aligned (by decide) (by decide)) h0 Spares 0x1000
    (by decide) [] (fun st => ends (fun err s' => err == -1 && decide (st.heap.res = []) && decide (s'.mem.heap.res.length = 7) &&
      decide (s'.dev.list.length = 7)) st) (by decide +kernel)
  unfold ends at hst
  split at hst
  · rename_i err s' hcall
    simp only [Bool.and_eq_true, beq_iff_eq, decide_eq_true_eq] at hst
    obtain ⟨⟨⟨rfl, hbefore⟩, hres⟩, hlist⟩ := hst
    have hblocks : (resBlocks s'.mem.heap).length = 7 := by rw [resBlocks, List.length_map, hres]
    refine ⟨devOn st, ⟨_, st₀, hb, hrun⟩, rfl, -1, s', hcall, by decide, ?_, hblocks, hlist, fun hrel => ?_⟩
    · rw [resBlocks, show (devOn st).mem.heap.res = [] from hbefore, List.map_nil]
    · rw [hrel.list] at hlist
      cases hlist
  · cases hst

/-! ## The cache of a disk that was started -/

/-- **A start-up that succeeds** leaves the device as `Bbuf.bdevInitBufferCache` does, with a hundred different buffers and a
disk that does not wrap around: what the results about the cache start from. -/
theorem ramfs_started (s : DevSt τ) (hr : Reachable s.mem) (hbare : Bare s.dev) {s' : DevSt τ}
    (hrun : initRamfs s = .ok 0 s') :
    ∃ bufs d, Bare d ∧ Fits d ∧ d.totalBlks = 80 ∧ bufs.Nodup ∧ bufs.length = ramfsBufBlks ∧
      Bbuf.bdevInitBufferCache bufs d = (0, s'.dev) := by
  cases initRamfs_outcome s hr with
  | noPages h =>
    rw [h] at hrun
    cases hrun
  | undone s₁ h =>
    rw [h] at hrun
    cases hrun
  | leaked err s₁ b h herr =>
    rw [h] at hrun
    cases hrun
    exact absurd rfl herr
  | started s₁ fsHead bs h hlen hnd hfit hdev =>
    rw [h] at hrun
    cases hrun
    have hfits : Fits (onDisk fsHead s.dev) := by
      show fsHead + 512 * 80 ≤ 2 ^ 32
      unfold pageSize ramfsPages at hfit
      omega
    have hbufs : (bs.map some).Nodup := hnd.map (Option.some_injective _)
    refine ⟨bs.map some, onDisk fsHead s.dev, ⟨hbare.list, hbare.io⟩, hfits, rfl, hbufs, ?_, hdev⟩
    rw [List.length_map, hlen]

end RedMagic.Dev
