import Mathlib.Data.Fintype.Basic
import RedMagic.Bbuf.Identity

/-!
# What the reads of several threads return

The writes of a block are ordered by when `get_buffer` gave them the buffer (`CacheSt.writes`). A read that
returns `OK` should yield the last of them, unless another write of the block came in between. `Coherent`
carries this over every step but one: `sync_buffer` clears `B_DIRTY` of a buffer some time after it has
written it to the device, and when a writer, who does not take the lock to mark its buffer, marks it in
between, its data is in a clean buffer and not on the device. The next reader fetches the old block.
-/

namespace RedMagic.Bbuf

open Lts

/-! ## What a program point says about the data -/

def SyncBy.asks : SyncBy → Option Nat
  | .retry c _ => some c.blkno
  | .user | .reader _ _ => none

/-- The block that the thread asks `get_buffer` for. -/
def Pc.asks : Pc → Option Nat
  | .get c _ _ | .enqueue c _ _ | .sleep c _ _ => some c.blkno
  | .syncLock who | .syncTest who _ _ | .syncWrite who _ _ _ | .syncDequeue who _ _ _ | .syncClear who _ _ _ =>
    who.asks
  | _ => none

def Call.reads : Call → Option Nat
  | .read k => some k
  | .write _ _ => none

def Ret.reads : Ret → Option Nat
  | .read k _ _ => some k
  | .write _ | .sync _ => none

def SyncBy.reads : SyncBy → Option Nat
  | .user => none
  | .retry c _ => c.reads
  | .reader k _ => some k

/-- The block that the thread's call, or the call it has returned from, reads. -/
def Pc.reads : Pc → Option Nat
  | .get c _ _ | .enqueue c _ _ | .sleep c _ _ => c.reads
  | .syncLock who | .syncTest who _ _ | .syncWrite who _ _ _ | .syncDequeue who _ _ _ | .syncClear who _ _ _ =>
    who.reads
  | .readTest k _ | .readTestDirty k _ | .readUpdate k _ | .readSetValid k _ | .readCopy k _ _ => some k
  | .leave _ _ r | .release _ _ r | .notify _ r | .done r => r.reads
  | .idle | .writeCopy _ _ _ | .writeDirty _ _ _ | .writeCache _ _ _ => none

/-- A write that has its buffer and has not yet marked it dirty. -/
def Pc.writing : Pc → Option (Nat × Block)
  | .writeCopy k v _ | .writeDirty k v _ => some (k, v)
  | _ => none

/-- A read that has found or fetched its block, and the buffer. -/
def Pc.loaded : Pc → Option (Nat × Nat)
  | .readSetValid k b => some (b, k)
  | .readCopy k b status => if status = 0 then some (b, k) else none
  | _ => none

def Ret.yields : Ret → Option (Nat × Option Block)
  | .read k status data => if status = 0 then some (k, data) else none
  | .write _ | .sync _ => none

/-- What a read that returns `OK` gives its caller. -/
def Pc.yields : Pc → Option (Nat × Option Block)
  | .leave _ _ r | .release _ _ r | .notify _ r | .done r => r.yields
  | _ => none

/-- The buffer into which the thread is about to copy its data. -/
def Pc.copying : Pc → Option Nat
  | .writeCopy _ _ b => some b
  | _ => none

/-- The buffer that the thread is about to mark dirty. -/
def Pc.marking : Pc → Option Nat
  | .writeCopy _ _ b | .writeDirty _ _ b => some b
  | _ => none

/-- The buffer that `sync_buffer` has written to the device and not yet marked clean. -/
def Pc.flushed : Pc → Option Nat
  | .syncDequeue _ b _ _ | .syncClear _ b _ _ => some b
  | _ => none

/-- A program point `p` of a thread whose call started after `since` writes of its block, when the device has
`n` blocks, the last write of block `k` was `L k`, the `count k`-th one, and buffer `b` has `data b`. -/
structure PcData (n : Nat) (L : Nat → Block) (count : Nat → Nat) (since : Nat) (data : Nat → Block) (p : Pc) :
    Prop where
  asks : ∀ k, p.asks = some k → k < n
  reads : ∀ k, p.reads = some k → since ≤ count k
  writing : ∀ k v, p.writing = some (k, v) → L k = v
  loaded : ∀ b k, p.loaded = some (b, k) → data b = L k
  yields : ∀ k o, p.yields = some (k, o) → count k = since → o = some (L k)

theorem Pc.holds_of_writing {p : Pc} {k : Nat} {v : Block} (h : p.writing = some (k, v)) :
    ∃ b, p.holds = some (b, k) := by
  cases p <;> cases h <;> exact ⟨_, rfl⟩

theorem Pc.holds_of_loaded {p : Pc} {b k : Nat} (h : p.loaded = some (b, k)) : p.holds = some (b, k) := by
  cases p with
  | readSetValid => exact h
  | readCopy =>
    simp only [Pc.loaded] at h
    split at h
    · exact h
    · cases h
  | _ => cases h

theorem Pc.marking_of_copying {p : Pc} {b : Nat} (h : p.copying = some b) : p.marking = some b := by
  cases p <;> first | exact h | cases h

theorem Pc.holds_of_marking {p : Pc} {b : Nat} (h : p.marking = some b) : ∃ k, p.holds = some (b, k) := by
  cases p <;> cases h <;> exact ⟨_, rfl⟩

theorem Pc.flushing_of_flushed {p : Pc} {b : Nat} (h : p.flushed = some b) : p.flushing = some b := by
  cases p <;> cases h <;> rfl

theorem Ret.reads_of_yields {r : Ret} {k : Nat} {o : Option Block} (h : r.yields = some (k, o)) :
    r.reads = some k := by
  cases r with
  | read j status data =>
    simp only [Ret.yields] at h
    split at h
    · cases h
      rfl
    · cases h
  | _ => cases h

theorem Pc.reads_of_yields {p : Pc} {k : Nat} {o : Option Block} (h : p.yields = some (k, o)) : p.reads = some k := by
  cases p with
  | leave | release | notify | done => exact Ret.reads_of_yields h
  | _ => cases h

theorem Pc.writers_of_free {p : Pc} (h : p.free = true) : p.copying = none ∧ p.marking = none := by
  cases p <;> first | exact ⟨rfl, rfl⟩ | cases h

/-- `q` says no more about the data than `p`. -/
structure Pc.NoMore (q p : Pc) : Prop where
  asks : ∀ k, q.asks = some k → p.asks = some k
  reads : ∀ k, q.reads = some k → p.reads = some k
  writing : ∀ k v, q.writing = some (k, v) → p.writing = some (k, v)
  loaded : ∀ b k, q.loaded = some (b, k) → p.loaded = some (b, k)
  yields : ∀ k o, q.yields = some (k, o) → p.yields = some (k, o)

section
variable {q p : Pc}

theorem Pc.NoMore.of_eq (hasks : q.asks = p.asks) (hreads : q.reads = p.reads) (hwriting : q.writing = p.writing)
    (hloaded : q.loaded = p.loaded) (hyields : q.yields = p.yields) : q.NoMore p :=
  ⟨fun _ h => hasks ▸ h, fun _ h => hreads ▸ h, fun _ _ h => hwriting ▸ h, fun _ _ h => hloaded ▸ h,
    fun _ _ h => hyields ▸ h⟩

/-- A point that says nothing about the data. -/
theorem Pc.NoMore.of_none (hasks : q.asks = none) (hreads : q.reads = none) (hwriting : q.writing = none)
    (hloaded : q.loaded = none) (hyields : q.yields = none) : q.NoMore p := by
  constructor <;> simp [hasks, hreads, hwriting, hloaded, hyields]

end

theorem Pc.wake_noMore (p : Pc) : p.wake.NoMore p := by
  cases p <;> exact .of_eq rfl rfl rfl rfl rfl

theorem Pc.wake_writers (p : Pc) : p.wake.copying = p.copying ∧ p.wake.marking = p.marking ∧
    p.wake.flushed = p.flushed := by
  cases p <;> exact ⟨rfl, rfl, rfl⟩

namespace PcData

variable {n : Nat} {L L' : Nat → Block} {count count' : Nat → Nat} {since : Nat} {data data' : Nat → Block} {p q : Pc}

theorem weaken (h : PcData n L count since data p) (hq : q.NoMore p) : PcData n L count since data q :=
  ⟨fun k hk => h.asks k (hq.asks k hk), fun k hk => h.reads k (hq.reads k hk),
    fun k v hk => h.writing k v (hq.writing k v hk), fun b k hk => h.loaded b k (hq.loaded b k hk),
    fun k o hk => h.yields k o (hq.yields k o hk)⟩

/-- Another thread's step: the block and the data of a buffer that the thread has stay as they are, and
elsewhere the last write changes with a further write only. -/
theorem frame (h : PcData n L count since data p)
    (hheld : ∀ b k, p.holds = some (b, k) → L' k = L k ∧ data' b = data b) (hcount : ∀ k, count k ≤ count' k)
    (hlast : ∀ k, count' k = count k → L' k = L k) : PcData n L' count' since data' p := by
  refine ⟨h.asks, fun k hk => (h.reads k hk).trans (hcount k), fun k v hk => ?_, fun b k hk => ?_, fun k o hk hc => ?_⟩
  · obtain ⟨b, hb⟩ := Pc.holds_of_writing hk
    rw [(hheld b k hb).1, h.writing k v hk]
  · obtain ⟨h1, h2⟩ := hheld b k (Pc.holds_of_loaded hk)
    rw [h1, h2, h.loaded b k hk]
  · have hle := h.reads k (Pc.reads_of_yields hk)
    have := hcount k
    rw [hlast k (by omega), h.yields k o hk (by omega)]

end PcData

/-! ## The invariant -/

section
variable {τ : Type}

/-- The last write of each block, or what the device had at the start. -/
def CacheSt.last (s : CacheSt τ) (L₀ : Nat → Block) (k : Nat) : Block := (s.writes k).headD (L₀ k)

def CacheSt.count (s : CacheSt τ) (k : Nat) : Nat := (s.writes k).length

def CacheSt.data (s : CacheSt τ) (b : Nat) : Block := (s.dev.buf b).data

def CacheSt.copying (s : CacheSt τ) (b : Nat) : Prop := ∃ t, (s.pc t).copying = some b

def CacheSt.marking (s : CacheSt τ) (b : Nat) : Prop := ∃ t, (s.pc t).marking = some b

structure DataInv (L₀ : Nat → Block) (s : CacheSt τ) : Prop where
  coh : Coherent s.dev (s.last L₀) s.copying s.marking
  pcs : ∀ t, PcData s.dev.totalBlks (s.last L₀) s.count (s.since t) s.data (s.pc t)
  flushed : ∀ t b, (s.pc t).flushed = some b →
    s.marking b ∨ devBlock s.dev (s.dev.buf b).blkno = s.last L₀ (s.dev.buf b).blkno

theorem DataInv.pcAt {L₀ : Nat → Block} {s : CacheSt τ} (hi : DataInv L₀ s) {t : τ} {p : Pc} (hpc : s.pc t = p) :
    PcData s.dev.totalBlks (s.last L₀) s.count (s.since t) s.data p := by
  rw [← hpc]
  exact hi.pcs t

/-- The block numbers of the calls are in range. -/
def InRange (s : CacheSt τ) : CacheAct τ → Prop
  | .call _ c => c.blkno < s.dev.totalBlks
  | _ => True

/-- What a run has to keep to: no writer marks a buffer dirty between `write_block` and the clearing of
`B_DIRTY` in `sync_buffer`, unless what is on the device is what it writes. -/
def NoLateMark (s : CacheSt τ) : CacheAct τ → Prop
  | .step t =>
    match s.pc t with
    | .writeDirty k v b => (∀ u, (s.pc u).flushed ≠ some b) ∨ devBlock s.dev k = v
    | _ => True
  | _ => True

/-- Nobody but the thread that has the buffer is about to copy to it or mark it. -/
theorem CacheInv.marking_held {l : List Nat} {s : CacheSt τ} (hci : CacheInv l s) {t u : τ} {b k : Nat}
    (ht : (s.pc t).holds = some (b, k)) (hu : (s.pc u).marking = some b) : u = t := by
  obtain ⟨j, hj⟩ := Pc.holds_of_marking hu
  have h1 := ((hci.pcs t).holds b k ht).usr
  rw [((hci.pcs u).holds b j hj).usr] at h1
  exact Option.some.inj h1

theorem CacheInv.not_marking {l : List Nat} {s : CacheSt τ} (hci : CacheInv l s) {t : τ} {b k : Nat}
    (ht : (s.pc t).holds = some (b, k)) (hm : (s.pc t).marking = none) : ¬s.marking b := by
  rintro ⟨u, hu⟩
  rw [hci.marking_held ht hu, hm] at hu
  cases hu

/-- Two threads have different buffers. -/
theorem CacheInv.held_ne {l : List Nat} {s : CacheSt τ} (hci : CacheInv l s) {t u : τ} {b c k j : Nat}
    (ht : (s.pc t).holds = some (b, k)) (hut : u ≠ t) (hu : (s.pc u).holds = some (c, j)) : c ≠ b := by
  rintro rfl
  have h := ((hci.pcs u).holds c j hu).usr
  rw [((hci.pcs t).holds c k ht).usr] at h
  exact hut (Option.some.inj h).symm

theorem CacheSt.not_copying {s : CacheSt τ} {b : Nat} (h : ¬s.marking b) : ¬s.copying b := by
  rintro ⟨u, hu⟩
  exact h ⟨u, Pc.marking_of_copying hu⟩

/-- The general step. -/
theorem DataInv.next {L₀ : Nat → Block} {s s' : CacheSt τ} {t : τ} (hi : DataInv L₀ s)
    (hpc : ∀ u, u ≠ t → s'.pc u = s.pc u ∨ s'.pc u = (s.pc u).wake)
    (hn : s'.dev.totalBlks = s.dev.totalBlks) (hsince : ∀ u, u ≠ t → s'.since u = s.since u)
    (hcount : ∀ k, s.count k ≤ s'.count k) (hlast : ∀ k, s'.count k = s.count k → s'.last L₀ k = s.last L₀ k)
    (hheld : ∀ u, u ≠ t → ∀ b k, (s.pc u).holds = some (b, k) → s'.last L₀ k = s.last L₀ k ∧ s'.data b = s.data b)
    (hcoh : Coherent s'.dev (s'.last L₀) s'.copying s'.marking)
    (ht : PcData s'.dev.totalBlks (s'.last L₀) s'.count (s'.since t) s'.data (s'.pc t))
    (hfl : ∀ u, u ≠ t → ∀ b, (s.pc u).flushed = some b →
      s'.marking b ∨ devBlock s'.dev (s'.dev.buf b).blkno = s'.last L₀ (s'.dev.buf b).blkno)
    (htf : ∀ b, (s'.pc t).flushed = some b →
      s'.marking b ∨ devBlock s'.dev (s'.dev.buf b).blkno = s'.last L₀ (s'.dev.buf b).blkno) : DataInv L₀ s' := by
  refine ⟨hcoh, fun u => ?_, fun u b hb => ?_⟩
  · by_cases hut : u = t
    · rw [hut]
      exact ht
    · have h := (hi.pcs u).frame (hheld u hut) hcount hlast
      rw [hn, hsince u hut]
      rcases hpc u hut with he | he
      · rw [he]
        exact h
      · rw [he]
        exact h.weaken (Pc.wake_noMore _)
  · by_cases hut : u = t
    · exact htf b (hut ▸ hb)
    · refine hfl u hut b ?_
      rcases hpc u hut with he | he
      · rwa [he] at hb
      · rwa [he, (s.pc u).wake_writers.2.2] at hb

/-- The same threads are at a kind `f` of program points before and after the step, if `t` is. -/
theorem CacheSt.exists_pc_eq {s s' : CacheSt τ} {t : τ} {p₀ p : Pc} {f : Pc → Option Nat}
    (hf : ∀ p, f p.wake = f p) (hp₀ : s.pc t = p₀) (hp : s'.pc t = p)
    (hpc : ∀ u, u ≠ t → s'.pc u = s.pc u ∨ s'.pc u = (s.pc u).wake) (h : f p = f p₀) (b : Nat) :
    (∃ u, f (s'.pc u) = some b) = ∃ u, f (s.pc u) = some b := by
  have heq : ∀ u, f (s'.pc u) = f (s.pc u) := by
    intro u
    by_cases hut : u = t
    · rw [hut, hp, hp₀, h]
    · rcases hpc u hut with he | he
      · rw [he]
      · rw [he, hf]
  simp only [heq]

theorem CacheSt.copying_eq {s s' : CacheSt τ} {t : τ} {p₀ p : Pc} (hp₀ : s.pc t = p₀) (hp : s'.pc t = p)
    (hpc : ∀ u, u ≠ t → s'.pc u = s.pc u ∨ s'.pc u = (s.pc u).wake) (h : p.copying = p₀.copying) :
    s'.copying = s.copying :=
  funext (exists_pc_eq (fun p => p.wake_writers.1) hp₀ hp hpc h)

theorem CacheSt.marking_eq {s s' : CacheSt τ} {t : τ} {p₀ p : Pc} (hp₀ : s.pc t = p₀) (hp : s'.pc t = p)
    (hpc : ∀ u, u ≠ t → s'.pc u = s.pc u ∨ s'.pc u = (s.pc u).wake) (h : p.marking = p₀.marking) :
    s'.marking = s.marking :=
  funext (exists_pc_eq (fun p => p.wake_writers.2.1) hp₀ hp hpc h)

/-- A step that gives no buffer to a writer, and after which the same threads copy and mark. -/
theorem DataInv.quiet {L₀ : Nat → Block} {s s' : CacheSt τ} {t : τ} {p₀ p : Pc} (hi : DataInv L₀ s)
    (hp₀ : s.pc t = p₀) (hp : s'.pc t = p) (hpc : ∀ u, u ≠ t → s'.pc u = s.pc u ∨ s'.pc u = (s.pc u).wake)
    (hw : s'.writes = s.writes) (hsi : ∀ u, u ≠ t → s'.since u = s.since u)
    (hn : s'.dev.totalBlks = s.dev.totalBlks) (hc : p.copying = p₀.copying) (hm : p.marking = p₀.marking)
    (hcoh : Coherent s'.dev (s.last L₀) s.copying s.marking)
    (hdata : ∀ u, u ≠ t → ∀ b k, (s.pc u).holds = some (b, k) → s'.data b = s.data b)
    (hfl : ∀ u, u ≠ t → ∀ b, (s.pc u).flushed = some b → (s'.dev.buf b).blkno = (s.dev.buf b).blkno ∧
      ∀ k, devBlock s'.dev k = devBlock s.dev k)
    (ht : PcData s.dev.totalBlks (s.last L₀) s.count (s'.since t) s'.data p)
    (htf : ∀ b, p.flushed = some b →
      s.marking b ∨ devBlock s'.dev (s'.dev.buf b).blkno = s.last L₀ (s'.dev.buf b).blkno) : DataInv L₀ s' := by
  have hlast : s'.last L₀ = s.last L₀ := by
    funext k
    simp only [CacheSt.last, hw]
  have hcount : s'.count = s.count := by
    funext k
    simp only [CacheSt.count, hw]
  have hcop := CacheSt.copying_eq hp₀ hp hpc hc
  have hmark := CacheSt.marking_eq hp₀ hp hpc hm
  refine hi.next hpc hn hsi (fun k => by rw [hcount]) (fun k _ => by rw [hlast])
    (fun u hut b k hb => ⟨by rw [hlast], hdata u hut b k hb⟩) ?_ ?_ (fun u hut b hb => ?_) fun b hb => ?_
  · rw [hlast, hcop, hmark]
    exact hcoh
  · rw [hn, hlast, hcount, hp]
    exact ht
  · obtain ⟨h1, h2⟩ := hfl u hut b hb
    rw [hmark, h1, h2, hlast]
    exact hi.flushed u b hb
  · rw [hp] at hb
    rw [hmark, hlast]
    exact htf b hb

/-- A step that touches neither data nor `B_VALID` and `B_DIRTY`. -/
theorem DataInv.same {L₀ : Nat → Block} {s s' : CacheSt τ} {t : τ} {p₀ p : Pc} (hi : DataInv L₀ s)
    (hs : SameData s.dev s'.dev) (hp₀ : s.pc t = p₀) (hp : s'.pc t = p)
    (hpc : ∀ u, u ≠ t → s'.pc u = s.pc u ∨ s'.pc u = (s.pc u).wake) (hw : s'.writes = s.writes)
    (hsi : ∀ u, u ≠ t → s'.since u = s.since u) (hc : p.copying = p₀.copying) (hm : p.marking = p₀.marking)
    (hf : ∀ b, p.flushed = some b → p₀.flushed = some b)
    (ht : PcData s.dev.totalBlks (s.last L₀) s.count (s'.since t) s.data p) : DataInv L₀ s' := by
  have hdata : s'.data = s.data := funext hs.data
  refine hi.quiet hp₀ hp hpc hw hsi hs.totalBlks hc hm (hi.coh.congr hs) (fun u _ b k _ => hs.data b)
    (fun u _ b _ => ⟨hs.blkno b, hs.devBlock⟩) ?_ fun b hb => ?_
  · rw [hdata]
    exact ht
  · rw [hs.blkno, hs.devBlock]
    exact hi.flushed t b (hp₀ ▸ hf b hb)

/-! ## The steps -/

theorem addWaiter_sameData (b : Nat) (t : τ) (d : BlkDev τ) : SameData d (addWaiter b t d) := by
  constructor <;> first | rfl | (intro c; by_cases hc : c = b <;> simp [addWaiter, upd_buf_ne, hc])

end

section
variable {τ : Type} [DecidableEq τ] {l : List Nat} {L₀ : Nat → Block} {s : CacheSt τ} {t : τ}

theorem CacheSt.to_pc_wake (t : τ) (p : Pc) (d : BlkDev τ) (u : τ) (hut : u ≠ t) :
    (s.to t p d).pc u = s.pc u ∨ (s.to t p d).pc u = (s.pc u).wake :=
  .inl (CacheSt.to_pc_ne hut p d)

/-- `DataInv.same` for a step of `t` alone, to a point that says no more. -/
theorem DataInv.noMore (hi : DataInv L₀ s) (lk : Option τ) {d : BlkDev τ} {p₀ p : Pc} (hs : SameData s.dev d)
    (hp₀ : s.pc t = p₀) (hq : p.NoMore p₀) (hc : p.copying = p₀.copying) (hm : p.marking = p₀.marking)
    (hf : ∀ b, p.flushed = some b → p₀.flushed = some b) : DataInv L₀ { s.to t p d with lock := lk } := by
  refine hi.same hs hp₀ (CacheSt.to_pc_self p d) (CacheSt.to_pc_wake t p d) rfl (fun _ _ => rfl) hc hm hf ?_
  have ht := hi.pcAt hp₀
  exact ht.weaken hq

/-- The thread finds its block valid. -/
theorem DataInv.valid (hi : DataInv L₀ s) (hci : CacheInv l s) {k b : Nat} (hpc : s.pc t = .readTest k b)
    (hv : (s.dev.buf b).flags.valid = true) : DataInv L₀ (s.to t (.readCopy k b 0) s.dev) := by
  have hold : (s.pc t).holds = some (b, k) := by rw [hpc]; rfl
  have hnm : ¬s.marking b := hci.not_marking hold (by rw [hpc]; rfl)
  have hdata : s.data b = s.last L₀ k :=
    hi.coh.data b k (hci.held_caches hold) (.inl hv) (CacheSt.not_copying hnm)
  have ht := hi.pcAt hpc
  refine hi.same (.refl _) hpc (CacheSt.to_pc_self _ _) (CacheSt.to_pc_wake t _ _) rfl (fun _ _ => rfl) rfl rfl
    (fun _ => id) ⟨nofun, ht.reads, nofun, fun b' k' h => ?_, nofun⟩
  cases h
  exact hdata

/-- The thread copies the block to its caller's array. -/
theorem DataInv.copy (hi : DataInv L₀ s) {k b : Nat} {status : Int} (hpc : s.pc t = .readCopy k b status) :
    DataInv L₀ (s.to t (.leave k b (.read k status (some (s.dev.buf b).data))) s.dev) := by
  have ht := hi.pcAt hpc
  refine hi.same (.refl _) hpc (CacheSt.to_pc_self _ _) (CacheSt.to_pc_wake t _ _) rfl (fun _ _ => rfl) rfl rfl
    (fun _ => id) ⟨nofun, ht.reads, nofun, nofun, fun k' o h _ => ?_⟩
  simp only [Pc.yields, Ret.yields] at h
  split at h
  · rename_i hs
    cases h
    exact congrArg some (ht.loaded b k (by simp [Pc.loaded, hs]))
  · cases h

theorem DataInv.move (hi : DataInv L₀ s) (hci : CacheInv l s) {p : Pc} (hm : Move s.dev s.lock t (s.pc t) p) :
    DataInv L₀ (s.to t p s.dev) := by
  generalize hp₀ : s.pc t = p₀ at hm
  cases hm with
  | valid hv => exact hi.valid hci hp₀ hv
  | copy => exact hi.copy hp₀
  | unread hs =>
    refine hi.noMore s.lock (.refl _) hp₀ ⟨nofun, fun _ => id, nofun, fun b k h => ?_, nofun⟩ rfl rfl fun _ => id
    simp [Pc.loaded, hs] at h
  | wait | retry | dirty | skip | failed | invalid | stale | clean | leave =>
    exact hi.noMore s.lock (.refl _) hp₀ (.of_eq rfl rfl rfl rfl rfl)
      rfl rfl nofun

theorem DataInv.readUpdate (hi : DataInv L₀ s) (hci : CacheInv l s) {k b : Nat} (hpc : s.pc t = .readUpdate k b)
    (hd : (s.dev.buf b).flags.dirty = false) :
    DataInv L₀ (s.to t (.readSetValid k b) (setData b (devBlock s.dev (s.dev.buf b).blkno) s.dev)) := by
  have hold : (s.pc t).holds = some (b, k) := by rw [hpc]; rfl
  have hc : Caches s.dev b k := hci.held_caches hold
  -- the buffer is clean and no writer has it: the device has the last write
  have hdev : devBlock s.dev (s.dev.buf b).blkno = s.last L₀ k := by
    rw [hc.blkno]
    exact hi.coh.disk_of_clean hci.ident hc hd (hci.not_marking hold (by rw [hpc]; rfl))
  rw [hdev]
  have ht := hi.pcAt hpc
  refine hi.quiet hpc (CacheSt.to_pc_self _ _) (CacheSt.to_pc_wake t _ _) rfl (fun _ _ => rfl) rfl rfl rfl
    (hi.coh.store hci.ident hc fun _ _ => id)
    (fun u hut c j hu => setData_data_ne _ (hci.held_ne hold hut hu) _)
    (fun u _ c _ => ⟨setData_blkno .., fun _ => rfl⟩) ⟨nofun, ht.reads, nofun, fun c j h => ?_, nofun⟩ nofun
  cases h
  exact setData_data ..

theorem DataInv.readSetValid (hi : DataInv L₀ s) (hci : CacheInv l s) {k b : Nat}
    (hpc : s.pc t = .readSetValid k b) : DataInv L₀ (s.to t (.readCopy k b 0) (setValid b s.dev)) := by
  have hold : (s.pc t).holds = some (b, k) := by rw [hpc]; rfl
  have hc : Caches s.dev b k := hci.held_caches hold
  have ht := hi.pcAt hpc
  have hdata : (s.dev.buf b).data = s.last L₀ k := ht.loaded b k rfl
  refine hi.quiet hpc (CacheSt.to_pc_self _ _) (CacheSt.to_pc_wake t _ _) rfl (fun _ _ => rfl) rfl rfl rfl
    (hi.coh.markValid hci.ident fun j hj => ?_) (fun u _ c j _ => setValid_data ..)
    (fun u _ c _ => ⟨setValid_blkno .., fun _ => rfl⟩) ⟨nofun, ht.reads, nofun, fun c j h => ?_, nofun⟩ nofun
  · rw [hdata, ← hj.blkno, hc.blkno]
  · cases h
    exact (setValid_data ..).trans hdata

theorem DataInv.syncWrite (hi : DataInv L₀ s) (hci : CacheInv l s) {who : SyncBy} {b : Nat} {todo : List Nat}
    {rv : Nat} (hpc : s.pc t = .syncWrite who b todo rv) (hd : (s.dev.buf b).flags.dirty = true) :
    DataInv L₀ (s.to t (.syncDequeue who b todo rv)
      { s.dev with ram := copyTo s.dev.ram (seek s.dev (s.dev.buf b).blkno) (s.dev.buf b).data }) := by
  have hp := hci.pcAt hpc
  obtain ⟨hb, hused, -⟩ := hp.flushing b rfl
  have hc : Caches s.dev b (s.dev.buf b).blkno := ⟨hb, hused, rfl⟩
  have ht := hi.pcAt hpc
  refine hi.quiet hpc (CacheSt.to_pc_self _ _) (CacheSt.to_pc_wake t _ _) rfl (fun _ _ => rfl) rfl rfl rfl
    (hi.coh.flush hc hd) (fun _ _ _ _ _ => rfl)
    (fun u hut c hu => absurd (Pc.flushing_of_flushed hu) (hci.not_flushing (.inr (hp.locked rfl)) hut))
    ⟨ht.asks, ht.reads, ht.writing, ht.loaded, ht.yields⟩ fun c hcb => ?_
  cases hcb
  by_cases hm : s.marking b
  · exact .inl hm
  · -- nobody is about to write to the buffer: its data, now on the device, is the last write
    refine .inr ?_
    show copyFrom (copyTo s.dev.ram (seek s.dev (s.dev.buf b).blkno) (s.dev.buf b).data)
      (seek s.dev (s.dev.buf b).blkno) = _
    rw [copyFrom_copyTo_self]
    exact hi.coh.data b _ hc (.inr (.inl hd)) (CacheSt.not_copying hm)

theorem DataInv.syncClear (hi : DataInv L₀ s) (hci : CacheInv l s) {who : SyncBy} {b : Nat} {todo : List Nat}
    {rv : Nat} (hpc : s.pc t = .syncClear who b todo rv) :
    DataInv L₀ (s.to t (.syncTest who todo rv) (setDirty b false s.dev)) := by
  have hp := hci.pcAt hpc
  have ht := hi.pcAt hpc
  refine hi.quiet hpc (CacheSt.to_pc_self _ _) (CacheSt.to_pc_wake t _ _) rfl (fun _ _ => rfl) rfl rfl rfl
    (hi.coh.markClean fun k hk hm => ?_) (fun u _ c _ _ => setDirty_data ..)
    (fun u hut c hu => absurd (Pc.flushing_of_flushed hu) (hci.not_flushing (.inr (hp.locked rfl)) hut)) ?_ nofun
  · have := (hi.flushed t b (by rw [hpc]; rfl)).resolve_left hm
    rwa [hk.blkno] at this
  · have heq : (s.to t (.syncTest who todo rv) (setDirty b false s.dev)).data = s.data :=
      funext fun _ => setDirty_data ..
    rw [heq]
    exact ⟨ht.asks, ht.reads, ht.writing, ht.loaded, ht.yields⟩

theorem DataInv.writeCopy (hi : DataInv L₀ s) (hci : CacheInv l s) {k b : Nat} {v : Block}
    (hpc : s.pc t = .writeCopy k v b) : DataInv L₀ (s.to t (.writeDirty k v b) (setData b v s.dev)) := by
  have hold : (s.pc t).holds = some (b, k) := by rw [hpc]; rfl
  have hc : Caches s.dev b k := hci.held_caches hold
  have ht := hi.pcAt hpc
  have hv : s.last L₀ k = v := ht.writing k v rfl
  have hmark : (s.to t (.writeDirty k v b) (setData b v s.dev)).marking = s.marking :=
    CacheSt.marking_eq hpc (CacheSt.to_pc_self _ _) (CacheSt.to_pc_wake t _ _) rfl
  refine hi.next (t := t) (CacheSt.to_pc_wake t _ _) rfl (fun _ _ => rfl) (fun _ => le_refl _) (fun _ _ => rfl)
    (fun u hut c j hu => ⟨rfl, setData_data_ne _ (hci.held_ne hold hut hu) _⟩) ?_ ?_
    (fun u hut c hu => ?_) fun c h => ?_
  · rw [hmark]
    show Coherent (setData b v s.dev) (s.last L₀) _ _
    rw [← hv]
    refine hi.coh.store hci.ident hc ?_
    rintro c hcb ⟨u, hu⟩
    have hut : u ≠ t := by
      rintro rfl
      rw [hpc] at hu
      cases hu
      exact hcb rfl
    exact ⟨u, by rw [CacheSt.to_pc_ne hut, hu]⟩
  · rw [CacheSt.to_pc_self]
    exact ⟨nofun, nofun, ht.writing, nofun, nofun⟩
  · rw [hmark]
    show _ ∨ devBlock s.dev ((setData b v s.dev).buf c).blkno = s.last L₀ ((setData b v s.dev).buf c).blkno
    rw [setData_blkno]
    exact hi.flushed u c hu
  · rw [CacheSt.to_pc_self] at h
    cases h

theorem DataInv.writeDirty (hi : DataInv L₀ s) (hci : CacheInv l s) (hok : NoLateMark s (.step t)) {k b : Nat}
    {v : Block} (hpc : s.pc t = .writeDirty k v b) :
    DataInv L₀ (s.to t (.writeCache k v b) (setDirty b true s.dev)) := by
  have hold : (s.pc t).holds = some (b, k) := by rw [hpc]; rfl
  have hc : Caches s.dev b k := hci.held_caches hold
  have ht := hi.pcAt hpc
  have hv : s.last L₀ k = v := ht.writing k v rfl
  have hcop : (s.to t (.writeCache k v b) (setDirty b true s.dev)).copying = s.copying :=
    CacheSt.copying_eq hpc (CacheSt.to_pc_self _ _) (CacheSt.to_pc_wake t _ _) rfl
  have hmark : ∀ c, c ≠ b → ((s.to t (.writeCache k v b) (setDirty b true s.dev)).marking c ↔ s.marking c) := by
    intro c hcb
    constructor
    · rintro ⟨u, hu⟩
      have hut : u ≠ t := by
        rintro rfl
        rw [CacheSt.to_pc_self] at hu
        cases hu
      rw [CacheSt.to_pc_ne hut] at hu
      exact ⟨u, hu⟩
    · rintro ⟨u, hu⟩
      have hut : u ≠ t := by
        rintro rfl
        rw [hpc] at hu
        cases hu
        exact hcb rfl
      exact ⟨u, by rw [CacheSt.to_pc_ne hut, hu]⟩
  have hnc : ¬s.copying b := by
    rintro ⟨u, hu⟩
    rw [hci.marking_held hold (Pc.marking_of_copying hu), hpc] at hu
    cases hu
  refine hi.next (t := t) (CacheSt.to_pc_wake t _ _) rfl (fun _ _ => rfl) (fun _ => le_refl _) (fun _ _ => rfl)
    (fun u _ c j _ => ⟨rfl, setDirty_data ..⟩) ?_ ?_ (fun u hut c hu => ?_) fun c h => ?_
  · rw [hcop]
    exact hi.coh.markDirty ⟨t, by rw [hpc]; rfl⟩ hnc (fun _ => id) hmark
  · rw [CacheSt.to_pc_self]
    exact ⟨nofun, nofun, nofun, nofun, nofun⟩
  · show _ ∨ devBlock s.dev ((setDirty b true s.dev).buf c).blkno = s.last L₀ ((setDirty b true s.dev).buf c).blkno
    rw [setDirty_blkno]
    by_cases hcb : c = b
    · -- the thread in `sync_buffer` is going to clear the mark
      subst hcb
      simp only [NoLateMark, hpc] at hok
      rcases hok with hno | hdev
      · exact absurd hu (hno u)
      · exact .inr (by rw [hc.blkno, hdev, hv])
    · rw [hmark c hcb]
      exact hi.flushed u c hu
  · rw [CacheSt.to_pc_self] at h
    cases h

/-- `get_buffer` returns a buffer: a write of the block, if that is the call, is now the last one. -/
theorem DataInv.grant (hi : DataInv L₀ s) (hci : CacheInv l s) {c : Call} {left : Nat} {w : Option Nat} {b : Nat}
    {d : BlkDev τ} (hpc : s.pc t = .get c left w) (hl : s.lock = none)
    (hcoh : Coherent d (s.last L₀) s.copying s.marking) (hid : Ident d) (hc : Caches d b c.blkno)
    (hn : d.totalBlks = s.dev.totalBlks) (hdata : ∀ x, (d.buf x).data = (s.dev.buf x).data)
    (hfree : ∀ u x, (s.pc u).holds ≠ some (x, c.blkno)) : DataInv L₀ (s.grant t c b d) := by
  have hfl : ∀ u, u ≠ t → ∀ x, (s.pc u).flushed ≠ some x := fun u hut x hx =>
    hci.not_flushing (.inl hl) hut (Pc.flushing_of_flushed hx)
  have ht := hi.pcAt hpc
  cases c with
  | read k =>
    exact hi.quiet hpc (CacheSt.to_pc_self _ _) (CacheSt.to_pc_wake t _ _) rfl (fun _ _ => rfl) hn rfl rfl hcoh
      (fun u _ x _ _ => hdata x) (fun u hut x hx => absurd hx (hfl u hut x))
      ⟨nofun, ht.reads, nofun, nofun, nofun⟩ nofun
  | write k v =>
    have hself : (s.grant t (.write k v) b d).pc t = .writeCopy k v b := CacheSt.to_pc_self (.writeCopy k v b) d
    have hothers : ∀ u, u ≠ t → (s.grant t (.write k v) b d).pc u = s.pc u := fun u hut =>
      CacheSt.to_pc_ne hut (.writeCopy k v b) d
    have hwrites : (s.grant t (.write k v) b d).writes = Function.update s.writes k (v :: s.writes k) := rfl
    have hlast : (s.grant t (.write k v) b d).last L₀ = Function.update (s.last L₀) k v := by
      funext j
      by_cases hj : j = k
      · subst hj
        simp [CacheSt.last, hwrites]
      · simp [CacheSt.last, hwrites, Function.update_of_ne hj]
    have hcount : ∀ j, (s.grant t (.write k v) b d).count j = if j = k then s.count j + 1 else s.count j := by
      intro j
      by_cases hj : j = k
      · subst hj
        simp [CacheSt.count, hwrites]
      · simp [CacheSt.count, hwrites, hj]
    -- the writer is the one further thread to copy and to mark
    have hwriter : ∀ (f : Pc → Option Nat), f (.writeCopy k v b) = some b → f (s.pc t) = none → ∀ x,
        (∃ u, f ((s.grant t (.write k v) b d).pc u) = some x) ↔ x = b ∨ ∃ u, f (s.pc u) = some x := by
      intro f hf hnone x
      constructor
      · rintro ⟨u, hu⟩
        by_cases hut : u = t
        · rw [hut, hself, hf] at hu
          exact .inl (Option.some.inj hu).symm
        · rw [hothers u hut] at hu
          exact .inr ⟨u, hu⟩
      · rintro (rfl | ⟨u, hu⟩)
        · exact ⟨t, by rw [hself, hf]⟩
        · have hut : u ≠ t := by
            rintro rfl
            rw [hnone] at hu
            cases hu
          exact ⟨u, by rw [hothers u hut, hu]⟩
    have hcop : (s.grant t (.write k v) b d).copying = fun x => x = b ∨ s.copying x :=
      funext fun x => propext (hwriter Pc.copying rfl (by rw [hpc]; rfl) x)
    have hmark : (s.grant t (.write k v) b d).marking = fun x => x = b ∨ s.marking x :=
      funext fun x => propext (hwriter Pc.marking rfl (by rw [hpc]; rfl) x)
    refine hi.next (fun u hut => .inl (hothers u hut)) hn (fun _ _ => rfl) (fun j => ?_) (fun j hj => ?_)
      (fun u hut x j hx => ⟨?_, hdata x⟩) ?_ ?_ (fun u hut x hx => absurd hx (hfl u hut x)) fun x hx => ?_
    · rw [hcount]
      split <;> omega
    · have hjk : j ≠ k := by
        rintro rfl
        rw [hcount, if_pos rfl] at hj
        omega
      rw [hlast, Function.update_of_ne hjk]
    · have hjk : j ≠ k := by
        rintro rfl
        exact hfree u x hx
      rw [hlast, Function.update_of_ne hjk]
    · rw [hlast, hcop, hmark]
      exact hcoh.grant hid hc v
    · rw [hself, hlast]
      refine ⟨nofun, nofun, fun j x h => ?_, nofun, nofun⟩
      cases h
      exact Function.update_self ..
    · rw [hself] at hx
      cases hx

theorem CacheSt.notified_spec (s : CacheSt τ) (t : τ) (b : Nat) (r : Ret) :
    (s.notified t b r).dev = (notifySection b s.dev).2 ∧ (s.notified t b r).pc t = .done r ∧
      (s.notified t b r).writes = s.writes ∧ (s.notified t b r).since = s.since ∧
      ∀ u, u ≠ t → (s.notified t b r).pc u = s.pc u ∨ (s.notified t b r).pc u = (s.pc u).wake := by
  unfold CacheSt.notified
  generalize notifySection b s.dev = q
  obtain ⟨o, d⟩ := q
  cases o with
  | none => exact ⟨rfl, CacheSt.to_pc_self _ _, rfl, rfl, CacheSt.to_pc_wake t _ _⟩
  | some v =>
    refine ⟨rfl, CacheSt.to_pc_self _ _, rfl, rfl, fun u hut => ?_⟩
    rw [CacheSt.to_pc_ne hut]
    by_cases huv : u = v
    · rw [huv, CacheSt.to_pc_self]
      exact .inr rfl
    · rw [CacheSt.to_pc_ne huv]
      exact .inl rfl

theorem SyncBy.after_noMore (who : SyncBy) (rv : Nat) (todo : List Nat) :
    (who.after rv).NoMore (.syncTest who todo rv) ∧ (who.after rv).copying = none ∧
      (who.after rv).marking = none ∧ (who.after rv).flushed = none := by
  cases who with
  | user => exact ⟨.of_none rfl rfl rfl rfl rfl, rfl, rfl, rfl⟩
  | retry c left => exact ⟨.of_eq rfl rfl rfl rfl rfl, rfl, rfl, rfl⟩
  | reader k b =>
    simp only [SyncBy.after]
    split
    · exact ⟨.of_eq rfl rfl rfl rfl rfl, rfl, rfl, rfl⟩
    · exact ⟨.of_eq rfl rfl rfl rfl rfl, rfl, rfl, rfl⟩

/-- **One step keeps the data right**, if it is not a mark that `sync_buffer` is about to clear. -/
theorem DataInv.tstep (hi : DataInv L₀ s) (hci : CacheInv l s) (hok : NoLateMark s (.step t)) {s' : CacheSt τ}
    (h : TStep s t s') : DataInv L₀ s' := by
  cases h with
  | move hm => exact hi.move hci hm
  | @hit c left w b hpc hl hc hb hu =>
    have hs := takeBuf_sameData t b s.dev
    refine hi.grant hci hpc hl (hi.coh.congr hs) (hci.ident.take t hc.used) (hs.caches.2 hc) rfl hs.data ?_
    intro u x hx
    have hh := (hci.pcs u).holds x _ hx
    have husr := hh.usr
    rw [hci.ident.uniq x b _ hh.caches hc, hu] at husr
    cases husr
  | @recycle c left w b hpc hl hm hf hmiss =>
    have ht := hi.pcAt hpc
    have hnm : ¬s.marking b := by
      rintro ⟨u, hu⟩
      obtain ⟨k, hk⟩ := Pc.holds_of_marking hu
      have hh := (hci.pcs u).holds b k hk
      rcases isFree_iff.1 hf with ⟨hbusy, -⟩ | hun
      · rw [(hci.ident.usr b hm).2 (by rw [hh.usr]; simp)] at hbusy
        cases hbusy
      · rw [hh.caches.used] at hun
        cases hun
    refine hi.grant hci hpc hl (hi.coh.recycle t (ht.asks _ rfl) hm hf hnm hmiss) (hci.ident.recycle t hm hmiss)
      ((caches_recycle hm).2 (.inl ⟨rfl, rfl⟩)) rfl (fun x => upd_field _ _ _ _ fun _ => rfl) ?_
    intro u x hx
    exact hmiss x ((hci.pcs u).holds x _ hx).caches
  | @enqueue c left b hpc hl =>
    exact hi.noMore s.lock (addWaiter_sameData b t s.dev) hpc
      (.of_eq rfl rfl rfl rfl rfl) rfl rfl nofun
  | syncLock hpc hl =>
    exact hi.noMore (some t) (.refl _) hpc
      (.of_eq rfl rfl rfl rfl rfl) rfl rfl nofun
  | @syncDone who rv hpc =>
    obtain ⟨h1, h2, h3, h4⟩ := who.after_noMore rv []
    exact hi.noMore none (.refl _) hpc h1 h2 h3 fun b hb => by rw [h4] at hb; cases hb
  | syncWrite hpc hd hr => exact hi.syncWrite hci hpc hd
  | syncDequeue hpc =>
    exact hi.noMore s.lock (io_sameData _ _) hpc
      (.of_eq rfl rfl rfl rfl rfl) rfl rfl fun _ => id
  | syncClear hpc => exact hi.syncClear hci hpc
  | readUpdate hpc hl hd hr => exact hi.readUpdate hci hpc hd
  | readSetValid hpc => exact hi.readSetValid hci hpc
  | writeCopy hpc => exact hi.writeCopy hci hpc
  | writeDirty hpc => exact hi.writeDirty hci hok hpc
  | writeCache hpc hl =>
    rw [queueBuffer_eq]
    exact hi.noMore s.lock (io_sameData _ _) hpc
      (.of_eq rfl rfl rfl rfl rfl) rfl rfl nofun
  | @release k b r hpc hl =>
    have hh : Holds s.dev t b k := (hci.pcs t).holds b k (by rw [hpc]; rfl)
    exact hi.noMore s.lock (releaseSection_sameData hh.caches.mem) hpc
      (.of_eq rfl rfl rfl rfl rfl) rfl rfl nofun
  | @notify b r hpc hl =>
    obtain ⟨h1, h2, h3, h4, h5⟩ := s.notified_spec t b r
    have ht := hi.pcAt hpc
    refine hi.same (h1 ▸ notifySection_sameData b s.dev) hpc h2 h5 h3 (fun _ _ => by rw [h4]) rfl rfl nofun ?_
    rw [h4]
    exact ht.weaken (.of_eq rfl rfl rfl rfl rfl)

/-- A call starts. -/
theorem DataInv.call (hi : DataInv L₀ s) (hf : (s.pc t).free = true) {c : Call} (hr : c.blkno < s.dev.totalBlks) :
    DataInv L₀ { s.to t (.get c maxBgetRetry none) s.dev with
      since := Function.update s.since t (s.writes c.blkno).length } := by
  obtain ⟨h1, h2⟩ := Pc.writers_of_free hf
  refine hi.same (.refl _) rfl (CacheSt.to_pc_self (.get c maxBgetRetry none) s.dev)
    (CacheSt.to_pc_wake t (.get c maxBgetRetry none) s.dev) rfl (fun u hut => Function.update_of_ne hut ..)
    h1.symm h2.symm nofun ⟨?_, ?_, nofun, nofun, nofun⟩
  · rintro k hk
    cases hk
    exact hr
  · intro k hk
    have : c.blkno = k := by
      cases c with
      | read j => exact Option.some.inj hk
      | write j v => cases hk
    subst this
    show Function.update s.since t _ t ≤ _
    rw [Function.update_self]
    exact le_refl _

theorem dataInv_cacheStep (hi : DataInv L₀ s) (hci : CacheInv l s) {s' : CacheSt τ} {a : CacheAct τ}
    (hr : InRange s a) (hok : NoLateMark s a) (h : cacheStep s a = some s') : DataInv L₀ s' := by
  cases a with
  | call t c =>
    simp only [cacheStep] at h
    split at h
    · cases h
      exact hi.call ‹_› hr
    · cases h
  | sync t =>
    simp only [cacheStep] at h
    split at h
    · rename_i hf
      cases h
      obtain ⟨h1, h2⟩ := Pc.writers_of_free hf
      refine hi.noMore s.lock (.refl _) rfl (.of_none rfl rfl rfl rfl rfl) h1.symm h2.symm fun b hb => ?_
      cases hb
    · cases h
  | step t => exact hi.tstep hci hok (threadStep_cases h)

end

theorem Started.dataInv {τ : Type} {d d' : BlkDev τ} {bufs : List (Option Nat)} (h : Started d d' bufs)
    (hf : Fits d) : DataInv (devBlock d) (cacheStart d') :=
  ⟨h.coherent hf _ _, fun _ => ⟨nofun, nofun, nofun, nofun, nofun⟩, nofun⟩

/-- **No lost write**, in every run that keeps to `NoLateMark`: when a read of block `k` has returned `OK` and
no write of `k` has been given its buffer since the read started, what it yields is the last of the writes, in
the order in which they were given the buffer, or the block as it was on the device if there were none. -/
theorem read_last_write {τ : Type} [DecidableEq τ] {d d' : BlkDev τ} (bufs : List (Option Nat)) (hbare : Bare d)
    (hfits : Fits d) (hnd : bufs.Nodup) (hinit : bdevInitBufferCache bufs d = (0, d')) (s : CacheSt τ)
    (hrun : Reaches cacheStep (fun s a => InRange s a ∧ NoLateMark s a) (cacheStart d') s) (t : τ) (k : Nat)
    (data : Option Block) (hret : s.pc t = .done (.read k 0 data)) (hno : (s.writes k).length = s.since t) :
    data = some ((s.writes k).headD (devBlock d k)) := by
  have hst := bdevInit_spec hbare hinit
  have hi : DataInv (devBlock d) s :=
    hrun.invariant_of (fun u hu => reaches_cacheInv hst hnd hu) (hst.dataInv hfits)
      fun _ _ _ hci hi hok hs => dataInv_cacheStep hi hci hok.1 hok.2 hs
  have ht := hi.pcAt hret
  exact ht.yields k data rfl hno

instance {τ : Type} (s : CacheSt τ) (a : CacheAct τ) : Decidable (InRange s a) :=
  match a with
  | .call _ _ => inferInstanceAs (Decidable (_ < _))
  | .sync _ | .step _ => inferInstanceAs (Decidable True)

instance {τ : Type} [Fintype τ] (s : CacheSt τ) (a : CacheAct τ) : Decidable (NoLateMark s a) :=
  match a with
  | .call _ _ | .sync _ => inferInstanceAs (Decidable True)
  | .step t =>
    decidable_of_iff ((match s.pc t with
      | .writeDirty k v b => decide ((∀ u, (s.pc u).flushed ≠ some b) ∨ devBlock s.dev k = v)
      | _ => true) = true) (by
        simp only [NoLateMark]
        split <;> simp)

/-- The thread has returned `OK` from a read of block `k` with data that passes the test, and no write of
the block came in between. -/
def CacheSt.hasRead {τ : Type} (s : CacheSt τ) (t : τ) (k : Nat) (test : Block → Bool) : Bool :=
  match s.pc t with
  | .done (.read j 0 (some data)) => j = k && (s.writes k).length = s.since t && test data
  | _ => false

theorem CacheSt.hasRead_spec {τ : Type} {s : CacheSt τ} {t : τ} {k : Nat} {test : Block → Bool}
    (h : s.hasRead t k test = true) :
    ∃ data, s.pc t = .done (.read k 0 (some data)) ∧ (s.writes k).length = s.since t ∧ test data = true := by
  unfold CacheSt.hasRead at h
  split at h
  · rename_i j data hpc
    simp only [Bool.and_eq_true, decide_eq_true_eq] at h
    obtain ⟨⟨rfl, hn⟩, ht⟩ := h
    exact ⟨data, hpc, hn, ht⟩
  · cases h

/-- One thread writes block 0 and another reads it, through `sync_buffer`. -/
theorem read_last_write_through_sync :
    ∃ s data, Reaches cacheStep (fun s a => InRange s a ∧ NoLateMark s a)
        (cacheStart (bdevInitBufferCache [some 0x2000] (zeroDisk Bool)).2) s ∧
      s.pc true = .done (.read 0 0 (some data)) ∧ data = (s.writes 0).headD (devBlock (zeroDisk Bool) 0) := by
  obtain ⟨s, hrun, hs⟩ := exists_reaches cacheStep (fun s a => InRange s a ∧ NoLateMark s a)
    (cacheStart (bdevInitBufferCache [some 0x2000] (zeroDisk Bool)).2)
    ([.call false (.write 0 fun _ => 7)] ++ List.replicate 7 (.step false) ++ [.call true (.read 0)] ++
      List.replicate 15 (.step true))
    (fun s => s.hasRead true 0 fun _ => true) (by decide +kernel)
  obtain ⟨data, hpc, hn, -⟩ := CacheSt.hasRead_spec hs
  have h := read_last_write [some 0x2000] ⟨rfl, rfl⟩ (by simp [Fits, zeroDisk, blockSize]) (by decide) rfl s hrun
    true 0 (some data) hpc hn
  exact ⟨s, data, hrun, hpc, Option.some.inj h⟩

/-! ## The mark that is lost -/

/-- No write and no sync starts. -/
def OnlyReads {τ : Type} (_ : CacheSt τ) : CacheAct τ → Prop
  | .call _ (.write _ _) | .sync _ => False
  | _ => True

instance {τ : Type} (s : CacheSt τ) (a : CacheAct τ) : Decidable (OnlyReads s a) :=
  match a with
  | .call _ (.write _ _) | .sync _ => inferInstanceAs (Decidable False)
  | .call _ (.read _) | .step _ => inferInstanceAs (Decidable True)

def firstByte (v : Block) : UInt8 := v ⟨0, by decide⟩

/-- Thread `false` writes block 0 and then again; between its getting the buffer for the second write and its copying
the data, thread `true` in `sync_buffer` writes the first data to the device, and clears the mark of the second. -/
def lostMark : List (CacheAct Bool) :=
  [.call false (.write 0 fun _ => 1)] ++ List.replicate 7 (.step false) ++
    [.call false (.write 0 fun _ => 2), .step false, .sync true, .step true, .step true, .step true,
      .step false, .step false, .step true, .step true, .step true] ++ List.replicate 4 (.step false)

/-- **A lost write.** All calls have returned, and the last write of block 0 was of 2's; the read that then runs
alone returns `OK` with the 1's of the write before it. -/
theorem write_lost :
    ∃ s₁ s₂ data, Reaches cacheStep InRange (cacheStart (bdevInitBufferCache [some 0x2000] (zeroDisk Bool)).2) s₁ ∧
      (∀ u, (s₁.pc u).free = true) ∧ (s₁.writes 0).map firstByte = [2, 1] ∧
      Reaches cacheStep (fun s a => InRange s a ∧ OnlyReads s a) s₁ s₂ ∧
      s₂.pc true = .done (.read 0 0 (some data)) ∧ firstByte data = 1 := by
  obtain ⟨s₁, hrun, hs⟩ := exists_reaches cacheStep InRange
    (cacheStart (bdevInitBufferCache [some 0x2000] (zeroDisk Bool)).2) lostMark
    (fun s => decide ((∀ u, (s.pc u).free = true) ∧ (s.writes 0).map firstByte = [2, 1]) &&
      (execOk cacheStep (fun s a => InRange s a ∧ OnlyReads s a) s
        (.call true (.read 0) :: List.replicate 9 (.step true))).any
          fun s => s.hasRead true 0 fun data => firstByte data = 1) (by decide +kernel)
  rw [Bool.and_eq_true, decide_eq_true_eq] at hs
  obtain ⟨⟨hfree, hwrites⟩, hread⟩ := hs
  obtain ⟨s₂, hrun₂, h₂⟩ := exists_reaches cacheStep _ s₁ _ _ hread
  obtain ⟨data, hpc, -, hdata⟩ := CacheSt.hasRead_spec h₂
  exact ⟨s₁, s₂, data, hrun, hfree, hwrites, hrun₂, hpc, of_decide_eq_true hdata⟩

end RedMagic.Bbuf
