import RedMagic.Bbuf.Startup
import RedMagic.Bbuf.Threads

/-!
# Buffer identity and exclusive use, for any interleaving

`CacheInv` says what is true of the buffers and of each thread's program point in every reachable state.
A thread that `get_buffer` has returned a buffer to is its `usr` until `release_buffer`, and the buffer
keeps its block. A step other than these two leaves all of that alone (`CacheInv.next`).
-/

namespace RedMagic.Bbuf

open Lts

/-! ## What a program point says -/

def SyncBy.holds : SyncBy → Option (Nat × Nat)
  | .reader k b => some (b, k)
  | _ => none

/-- The buffer, and its block, that a thread has between the return of `get_buffer` and `release_buffer`. -/
def Pc.holds : Pc → Option (Nat × Nat)
  | .readTest k b | .readTestDirty k b | .readUpdate k b | .readSetValid k b | .readCopy k b _ => some (b, k)
  | .writeCopy k _ b | .writeDirty k _ b | .writeCache k _ b => some (b, k)
  | .leave k b _ | .release k b _ => some (b, k)
  | .syncLock who | .syncTest who _ _ | .syncWrite who _ _ _ | .syncDequeue who _ _ _ | .syncClear who _ _ _ =>
    who.holds
  | .idle | .get _ _ _ | .enqueue _ _ _ | .sleep _ _ _ | .notify _ _ | .done _ => none

/-- The buffers the loop of `sync_buffer` still has to look at. -/
def Pc.todo : Pc → List Nat
  | .syncTest _ todo _ | .syncWrite _ _ todo _ | .syncDequeue _ _ todo _ | .syncClear _ _ todo _ => todo
  | _ => []

/-- The buffer that the loop of `sync_buffer` is at. -/
def Pc.flushing : Pc → Option Nat
  | .syncWrite _ b _ _ | .syncDequeue _ b _ _ | .syncClear _ b _ _ => some b
  | _ => none

/-- The thread keeps `bdev->lock`. -/
def Pc.locked : Pc → Bool
  | .syncTest _ _ _ | .syncWrite _ _ _ _ | .syncDequeue _ _ _ _ | .syncClear _ _ _ _ => true
  | _ => false

theorem Pc.locked_of_flushing {p : Pc} {b : Nat} (h : p.flushing = some b) : p.locked = true := by
  cases p <;> first | rfl | cases h

theorem Call.after_holds (c : Call) (b : Nat) : (c.after b).holds = some (b, c.blkno) := by
  cases c <;> rfl

theorem SyncBy.after_holds (who : SyncBy) (rv : Nat) : (who.after rv).holds = who.holds := by
  cases who with
  | user => rfl
  | retry c left => rfl
  | reader k b =>
    simp only [SyncBy.after]
    split <;> rfl

theorem SyncBy.after_quiet (who : SyncBy) (rv : Nat) :
    (who.after rv).locked = false ∧ (who.after rv).todo = [] ∧ (who.after rv).flushing = none := by
  cases who with
  | user => exact ⟨rfl, rfl, rfl⟩
  | retry c left => exact ⟨rfl, rfl, rfl⟩
  | reader k b =>
    simp only [SyncBy.after]
    split <;> exact ⟨rfl, rfl, rfl⟩

section
variable {τ : Type}

structure PcOk (d : BlkDev τ) (lock : Option τ) (t : τ) (p : Pc) : Prop where
  holds : ∀ b k, p.holds = some (b, k) → Holds d t b k
  locked : p.locked = true → lock = some t
  todo : ∀ b ∈ p.todo, b ∈ d.list
  flushing : ∀ b, p.flushing = some b →
    b ∈ d.list ∧ (d.buf b).flags.unused = false ∧ (d.buf b).flags.dirty = true

/-- In every reachable state, with `l` the buffers that start-up made. -/
structure CacheInv (l : List Nat) (s : CacheSt τ) : Prop where
  ident : Ident s.dev
  perm : s.dev.list.Perm l
  bufNum : s.dev.bufNum = l.length
  io : ∀ b ∈ s.dev.io, b ∈ s.dev.list
  pcs : ∀ t, PcOk s.dev s.lock t (s.pc t)
  usrs : ∀ b ∈ s.dev.list, ∀ t, (s.dev.buf b).usr = some t → ∃ k, (s.pc t).holds = some (b, k)

theorem CacheInv.pcAt {l : List Nat} {s : CacheSt τ} (hi : CacheInv l s) {t : τ} {p : Pc} (hpc : s.pc t = p) :
    PcOk s.dev s.lock t p := by
  rw [← hpc]
  exact hi.pcs t

/-- The buffer that a thread has caches the block it asked for. -/
theorem CacheInv.held_caches {l : List Nat} {s : CacheSt τ} (hi : CacheInv l s) {t : τ} {b k : Nat}
    (hold : (s.pc t).holds = some (b, k)) : Caches s.dev b k :=
  ((hi.pcs t).holds b k hold).caches

/-- The buffers have the same blocks and users. -/
structure SameHold (d d' : BlkDev τ) : Prop where
  list : d'.list = d.list
  bufNum : d'.bufNum = d.bufNum
  blkno : ∀ b, (d'.buf b).blkno = (d.buf b).blkno
  unused : ∀ b, (d'.buf b).flags.unused = (d.buf b).flags.unused
  usr : ∀ b, (d'.buf b).usr = (d.buf b).usr

theorem SameHold.rfl {d : BlkDev τ} : SameHold d d := ⟨by rfl, by rfl, fun _ => by rfl, fun _ => by rfl, fun _ => by rfl⟩

/-- The flush touches the store of the device and its queue only. -/
theorem sameHold_ramIo (d : BlkDev τ) (ram : Nat → UInt8) (io : List Nat) :
    SameHold d { d with ram := ram, io := io } :=
  ⟨rfl, rfl, fun _ => rfl, fun _ => rfl, fun _ => rfl⟩

theorem SameHold.holds {d d' : BlkDev τ} (h : SameHold d d') {t : τ} {b k : Nat} (hh : Holds d t b k) :
    Holds d' t b k :=
  ⟨⟨h.list ▸ hh.caches.mem, (h.unused b).trans hh.caches.used, (h.blkno b).trans hh.caches.blkno⟩,
    (h.usr b).trans hh.usr⟩

theorem upd_sameHold {d : BlkDev τ} {f : BufCache τ → BufCache τ} (hf : KeepsBlock f) (hu : ∀ x, (f x).usr = x.usr)
    (b : Nat) : SameHold d (d.upd b f) := by
  refine ⟨by rfl, by rfl, fun c => ?_, fun c => ?_, fun c => ?_⟩
  · by_cases hc : c = b
    · rw [hc, upd_buf_self, (hf _).1]
    · rw [upd_buf_ne d f hc]
  · by_cases hc : c = b
    · rw [hc, upd_buf_self, (hf _).2]
    · rw [upd_buf_ne d f hc]
  · by_cases hc : c = b
    · rw [hc, upd_buf_self, hu]
    · rw [upd_buf_ne d f hc]

/-- While the lock is free, or `t` has it, no other thread is inside `sync_buffer`'s loop. -/
theorem CacheInv.not_flushing {l : List Nat} {s : CacheSt τ} {t : τ} (hi : CacheInv l s)
    (hl : s.lock = none ∨ s.lock = some t) {u : τ} (hut : u ≠ t)
    {b : Nat} : (s.pc u).flushing ≠ some b := by
  intro h
  have hu := (hi.pcs u).locked (Pc.locked_of_flushing h)
  rcases hl with hl | hl
  · rw [hl] at hu
    cases hu
  · rw [hl] at hu
    cases hu
    exact hut rfl

/-- The invariant does not depend on the record of writes and reads. -/
theorem CacheInv.ghost {l : List Nat} {s : CacheSt τ} (hi : CacheInv l s) (writes : Nat → List Block)
    (since : τ → Nat) :
    CacheInv l { s with writes := writes, since := since } :=
  ⟨hi.ident, hi.perm, hi.bufNum, hi.io, hi.pcs, hi.usrs⟩

/-- A dirty buffer of the device is in use. -/
theorem Ident.used_of_dirty {d : BlkDev τ} (hi : Ident d) {b : Nat} (hb : b ∈ d.list)
    (hd : (d.buf b).flags.dirty = true) : (d.buf b).flags.unused = false := by
  by_contra hu
  rw [Bool.not_eq_false] at hu
  rw [hi.fresh b hb hu] at hd
  cases hd

/-- A program point that only holds a buffer, or nothing. -/
theorem PcOk.plain {d : BlkDev τ} {lock : Option τ} {t : τ} {p : Pc}
    (hh : ∀ b k, p.holds = some (b, k) → Holds d t b k) (h1 : p.locked = false) (h2 : p.todo = [])
    (h3 : p.flushing = none) : PcOk d lock t p := by
  refine ⟨hh, fun h => ?_, fun b hb => ?_, fun b hb => ?_⟩
  · rw [h1] at h
    cases h
  · rw [h2] at hb
    cases hb
  · rw [h3] at hb
    cases hb

theorem Move.pcOk {d : BlkDev τ} {lock : Option τ} {t : τ} {p q : Pc} (h : Move d lock t p q) (hi : Ident d)
    (hp : PcOk d lock t p) : PcOk d lock t q ∧ q.holds = p.holds := by
  cases h with
  | wait | retry => exact ⟨.plain (fun _ _ h => by cases h) rfl rfl rfl, rfl⟩
  | @dirty who b todo rv hd =>
    have hb : b ∈ d.list := hp.todo b (by simp [Pc.todo])
    refine ⟨⟨hp.holds, hp.locked, fun c hc => hp.todo c (List.mem_cons_of_mem _ hc), ?_⟩, rfl⟩
    rintro c hc
    cases hc
    exact ⟨hb, hi.used_of_dirty hb hd, hd⟩
  | skip =>
    exact ⟨⟨hp.holds, hp.locked, fun c hc => hp.todo c (List.mem_cons_of_mem _ hc), fun c hc => by cases hc⟩, rfl⟩
  | failed => exact ⟨⟨hp.holds, hp.locked, hp.todo, fun c hc => by cases hc⟩, rfl⟩
  | valid | invalid | stale | clean | unread | copy | leave => exact ⟨.plain hp.holds rfl rfl rfl, rfl⟩

end

section
variable {τ : Type} [DecidableEq τ] {l : List Nat} {s : CacheSt τ} {t : τ}

theorem CacheSt.to_pc_self (p : Pc) (d : BlkDev τ) : (s.to t p d).pc t = p := Function.update_self ..

theorem CacheSt.to_pc_ne {u : τ} (h : u ≠ t) (p : Pc) (d : BlkDev τ) : (s.to t p d).pc u = s.pc u :=
  Function.update_of_ne h ..

/-- A step that leaves blocks and users alone: only the thread's own program point is to be checked. -/
theorem CacheInv.next (hi : CacheInv l s) (lk : Option τ) {p : Pc} {d : BlkDev τ} (hid : Ident d)
    (hio : ∀ b ∈ d.io, b ∈ d.list) (hs : SameHold s.dev d) (hp : PcOk d lk t p)
    (hh : p.holds = (s.pc t).holds) (hlk : ∀ u, u ≠ t → (s.pc u).locked = true → lk = some u)
    (hd : ∀ u, u ≠ t → ∀ b, (s.pc u).flushing = some b → (d.buf b).flags.dirty = true) :
    CacheInv l { s.to t p d with lock := lk } := by
  refine ⟨hid, ?_, ?_, hio, fun u => ?_, fun b hb u hu => ?_⟩
  · show d.list.Perm l
    rw [hs.list]
    exact hi.perm
  · exact hs.bufNum.trans hi.bufNum
  · by_cases hut : u = t
    · subst hut
      show PcOk d lk u ((s.to u p d).pc u)
      rw [CacheSt.to_pc_self]
      exact hp
    · have hu := hi.pcs u
      show PcOk d lk u ((s.to t p d).pc u)
      rw [CacheSt.to_pc_ne hut]
      refine ⟨fun b k hb => hs.holds (hu.holds b k hb), hlk u hut, fun b hb => hs.list ▸ hu.todo b hb,
        fun b hb => ?_⟩
      obtain ⟨h1, h2, -⟩ := hu.flushing b hb
      exact ⟨hs.list ▸ h1, (hs.unused b).trans h2, hd u hut b hb⟩
  · have hb' : b ∈ s.dev.list := hs.list ▸ hb
    obtain ⟨k, hk⟩ := hi.usrs b hb' u ((hs.usr b).symm.trans hu)
    refine ⟨k, ?_⟩
    show ((s.to t p d).pc u).holds = _
    by_cases hut : u = t
    · rw [hut, CacheSt.to_pc_self, hh, ← hut, hk]
    · rw [CacheSt.to_pc_ne hut, hk]

/-- A step without the lock that keeps every dirty buffer dirty. -/
theorem CacheInv.stepQuiet (hi : CacheInv l s) {p : Pc} {d : BlkDev τ} (hid : Ident d)
    (hio : ∀ b ∈ d.io, b ∈ d.list) (hs : SameHold s.dev d) (hp : PcOk d s.lock t p)
    (hh : p.holds = (s.pc t).holds)
    (hd : ∀ b, (s.dev.buf b).flags.dirty = true → (d.buf b).flags.dirty = true) : CacheInv l (s.to t p d) :=
  hi.next s.lock hid hio hs hp hh (fun u _ => (hi.pcs u).locked)
    fun u _ b hb => hd b ((hi.pcs u).flushing b hb).2.2

/-- A step of the thread that has the lock, or while nobody has it. -/
theorem CacheInv.stepLocked (hi : CacheInv l s) {p : Pc} {d : BlkDev τ} (hl : s.lock = none ∨ s.lock = some t)
    (hid : Ident d) (hio : ∀ b ∈ d.io, b ∈ d.list) (hs : SameHold s.dev d) (hp : PcOk d s.lock t p)
    (hh : p.holds = (s.pc t).holds) : CacheInv l (s.to t p d) :=
  hi.next s.lock hid hio hs hp hh (fun u _ => (hi.pcs u).locked)
    fun _ hut _ hb => absurd hb (hi.not_flushing hl hut)

/-- `get_buffer` returns a buffer that nobody has. -/
theorem CacheInv.grant (hi : CacheInv l s) {c : Call} {left : Nat} {w : Option Nat} {b : Nat} {d : BlkDev τ}
    (hpc : s.pc t = .get c left w) (hl : s.lock = none) (hid : Ident d) (hlist : d.list = s.dev.list)
    (hio : d.io = s.dev.io) (hnum : d.bufNum = s.dev.bufNum) (hne : ∀ x, x ≠ b → d.buf x = s.dev.buf x)
    (hfree : ∀ u k, ¬Holds s.dev u b k) (hb : Holds d t b c.blkno) : CacheInv l (s.grant t c b d) := by
  have hpcs : ∀ u, u ≠ t → (s.grant t c b d).pc u = s.pc u := fun u hut => CacheSt.to_pc_ne hut (c.after b) d
  have hself : (s.grant t c b d).pc t = c.after b := CacheSt.to_pc_self (c.after b) d
  have hlock : (s.grant t c b d).lock = none := hl
  refine ⟨hid, ?_, hnum.trans hi.bufNum, fun x hx => ?_, fun u => ?_, fun x hx u hu => ?_⟩
  · show d.list.Perm l
    rw [hlist]
    exact hi.perm
  · have hx' : x ∈ d.io := hx
    rw [hio] at hx'
    exact hlist ▸ hi.io x hx'
  · rw [hlock]
    by_cases hut : u = t
    · subst hut
      rw [hself]
      have hplain : (c.after b).locked = false ∧ (c.after b).todo = [] ∧ (c.after b).flushing = none := by
        cases c <;> exact ⟨rfl, rfl, rfl⟩
      refine .plain (fun x k hx => ?_) hplain.1 hplain.2.1 hplain.2.2
      rw [Call.after_holds, Option.some.injEq, Prod.mk.injEq] at hx
      obtain ⟨rfl, rfl⟩ := hx
      exact hb
    · rw [hpcs u hut]
      have hu := hi.pcs u
      rw [hl] at hu
      refine ⟨fun x k hx => ?_, hu.locked, fun x hx => hlist ▸ hu.todo x hx,
        fun x hx => absurd hx (hi.not_flushing (.inl hl) hut)⟩
      have hold := hu.holds x k hx
      have hxb : x ≠ b := by
        rintro rfl
        exact hfree u k hold
      exact ⟨⟨hlist ▸ hold.caches.mem, (hne x hxb).symm ▸ hold.caches.used, (hne x hxb).symm ▸ hold.caches.blkno⟩,
        (hne x hxb).symm ▸ hold.usr⟩
  · have hx' : x ∈ s.dev.list := hlist ▸ hx
    have hu' : (d.buf x).usr = some u := hu
    by_cases hxb : x = b
    · subst hxb
      rw [hb.usr] at hu'
      cases hu'
      exact ⟨c.blkno, by rw [hself, Call.after_holds]⟩
    · rw [hne x hxb] at hu'
      obtain ⟨k, hk⟩ := hi.usrs x hx' u hu'
      have hut : u ≠ t := by
        rintro rfl
        rw [hpc] at hk
        cases hk
      exact ⟨k, by rw [hpcs u hut, hk]⟩

/-- `release_buffer` gives up the buffer. -/
theorem CacheInv.release (hi : CacheInv l s) {k b : Nat} {r : Ret} (hpc : s.pc t = .release k b r)
    (hl : s.lock = none) : CacheInv l (s.to t (.notify b r) (releaseSection b s.dev)) := by
  have hh : Holds s.dev t b k := (hi.pcs t).holds b k (by rw [hpc]; rfl)
  have hmem : ∀ x, x ∈ (releaseSection b s.dev).list ↔ x ∈ s.dev.list :=
    (releaseSection_sameData hh.caches.mem).mem
  have hne : ∀ x, x ≠ b → (releaseSection b s.dev).buf x = s.dev.buf x := fun x hx => by
    simp [releaseSection, upd_buf_ne, hx]
  refine ⟨hi.ident.release hh.caches.mem hh.caches.used,
    (List.perm_cons_erase hh.caches.mem).symm.trans hi.perm, hi.bufNum,
    fun x hx => (hmem x).2 (hi.io x hx), fun u => ?_, fun x hx u hu => ?_⟩
  · by_cases hut : u = t
    · rw [hut, CacheSt.to_pc_self]
      exact .plain (fun _ _ h => by cases h) rfl rfl rfl
    · have hu := hi.pcs u
      rw [CacheSt.to_pc_ne hut]
      refine ⟨fun x j hx => ?_, hu.locked, fun x hx => (hmem x).2 (hu.todo x hx),
        fun x hx => absurd hx (hi.not_flushing (.inl hl) hut)⟩
      have hold := hu.holds x j hx
      have hxb : x ≠ b := by
        rintro rfl
        have := hold.usr
        rw [hh.usr] at this
        cases this
        exact hut rfl
      exact ⟨⟨(hmem x).2 hold.caches.mem, (hne x hxb).symm ▸ hold.caches.used, (hne x hxb).symm ▸ hold.caches.blkno⟩,
        (hne x hxb).symm ▸ hold.usr⟩
  · have hu' : ((releaseSection b s.dev).buf x).usr = some u := hu
    by_cases hxb : x = b
    · rw [hxb] at hu'
      simp [releaseSection] at hu'
    · rw [hne x hxb] at hu'
      obtain ⟨j, hj⟩ := hi.usrs x ((hmem x).1 hx) u hu'
      have hut : u ≠ t := by
        rintro rfl
        rw [hpc] at hj
        cases hj
        exact hxb rfl
      exact ⟨j, by rw [CacheSt.to_pc_ne hut, hj]⟩

theorem Pc.wake_eq (p : Pc) : p.wake.holds = p.holds ∧ p.wake.locked = p.locked ∧ p.wake.todo = p.todo ∧
    p.wake.flushing = p.flushing := by
  cases p <;> exact ⟨rfl, rfl, rfl, rfl⟩

theorem CacheInv.notify (hi : CacheInv l s) {b : Nat} {r : Ret} (hpc : s.pc t = .notify b r) :
    CacheInv l (s.notified t b r) := by
  have hkeep : KeepsBlock fun x : BufCache τ => { x with wq := x.wq.tail } := fun _ => ⟨rfl, rfl⟩
  have hs : SameHold s.dev (notifySection b s.dev).2 := upd_sameHold hkeep (fun _ => rfl) b
  have hid : Ident (notifySection b s.dev).2 := hi.ident.notify b
  have hd : ∀ x, (s.dev.buf x).flags.dirty = true → ((notifySection b s.dev).2.buf x).flags.dirty = true :=
    fun x hx => ((notifySection_sameData b s.dev).dirty x).trans hx
  have hdone : ∀ (d : BlkDev τ) (lk : Option τ), PcOk d lk t (.done r) :=
    fun _ _ => .plain (fun _ _ h => by cases h) rfl rfl rfl
  unfold CacheSt.notified
  generalize hn : notifySection b s.dev = q at hs hid hd
  obtain ⟨o, d⟩ := q
  have hio : ∀ x ∈ d.io, x ∈ d.list := by
    intro x hx
    have hd' : d = (notifySection b s.dev).2 := by rw [hn]
    rw [hd'] at hx ⊢
    exact hi.io x hx
  cases o with
  | none => exact hi.stepQuiet hid hio hs (hdone _ _) (by rw [hpc]; rfl) hd
  | some u =>
    obtain ⟨h1, h2, h3, h4⟩ := (s.pc u).wake_eq
    have hu := hi.pcs u
    have hwake : PcOk d s.lock u (s.pc u).wake := by
      refine ⟨fun x k hx => hs.holds (hu.holds x k (h1 ▸ hx)), fun hx => hu.locked (h2 ▸ hx),
        fun x hx => hs.list ▸ hu.todo x (h3 ▸ hx), fun x hx => ?_⟩
      obtain ⟨g1, g2, g3⟩ := hu.flushing x (h4 ▸ hx)
      exact ⟨hs.list ▸ g1, (hs.unused x).trans g2, hd x g3⟩
    have hi' := hi.stepQuiet hid hio hs hwake h1 hd
    refine hi'.stepQuiet (d := d) hid hio .rfl (hdone _ _) ?_ fun _ => id
    by_cases htu : t = u
    · rw [htu, CacheSt.to_pc_self, h1, ← htu, hpc]
      rfl
    · rw [CacheSt.to_pc_ne htu, hpc]
      rfl

/-- The thread that has a buffer writes its data or sets a flag of it. -/
theorem CacheInv.holderUpd (hi : CacheInv l s) {f : BufCache τ → BufCache τ} {p : Pc} {b k : Nat}
    (hf : KeepsBlock f) (hu : ∀ x, (f x).usr = x.usr) (hb : ∀ x, (f x).flags.busy = x.flags.busy)
    (hd : ∀ x, x.flags.dirty = true → (f x).flags.dirty = true) (hold : (s.pc t).holds = some (b, k))
    (hp : p.holds = some (b, k)) (hl : p.locked = false) (ht : p.todo = []) (hfl : p.flushing = none) :
    CacheInv l (s.to t p (s.dev.upd b f)) := by
  have hh := (hi.pcs t).holds b k hold
  have hs : SameHold s.dev (s.dev.upd b f) := upd_sameHold hf hu b
  have hid : Ident (s.dev.upd b f) := by
    refine hi.ident.upd hf hh.caches.used ?_
    rw [hb, hu]
    exact hi.ident.usr b hh.caches.mem
  refine hi.stepQuiet hid hi.io hs (.plain (fun x j hx => ?_) hl ht hfl) (hp.trans hold.symm) fun x hx => ?_
  · rw [hp] at hx
    cases hx
    exact hs.holds hh
  · by_cases hxb : x = b
    · subst hxb
      rw [upd_buf_self]
      exact hd _ hx
    · rw [upd_buf_ne _ _ hxb]
      exact hx

theorem CacheInv.tstep (hi : CacheInv l s) {s' : CacheSt τ} (h : TStep s t s') : CacheInv l s' := by
  have ht := hi.pcs t
  cases h with
  | move hm =>
    obtain ⟨hp, hh⟩ := hm.pcOk hi.ident ht
    exact hi.stepQuiet hi.ident hi.io .rfl hp hh fun _ => id
  | @hit c left w b hpc hl hc hb hu =>
    refine hi.grant hpc hl (hi.ident.take t hc.used) rfl rfl rfl (fun x hx => upd_buf_ne _ _ hx) ?_ ?_
    · rintro u k ⟨-, husr⟩
      rw [hu] at husr
      cases husr
    · exact ⟨(takeBuf_sameData t b s.dev).caches.2 hc, by simp [takeBuf]⟩
  | @recycle c left w b hpc hl hm hf hmiss =>
    refine hi.grant hpc hl (hi.ident.recycle t hm hmiss) rfl rfl rfl (fun x hx => upd_buf_ne _ _ hx) ?_ ?_
    · rintro u k ⟨hc, husr⟩
      rcases isFree_iff.1 hf with ⟨hbusy, -⟩ | hun
      · rw [(hi.ident.usr b hm).2 (by rw [husr]; simp)] at hbusy
        cases hbusy
      · rw [hc.used] at hun
        cases hun
    · exact ⟨(caches_recycle hm).2 (.inl ⟨rfl, rfl⟩), by simp [recycleBuf]⟩
  | @enqueue c left b hpc hl =>
    have hkeep : KeepsBlock fun x : BufCache τ => { x with wq := x.wq ++ [t] } := fun _ => ⟨rfl, rfl⟩
    exact hi.stepLocked (.inl hl) (hi.ident.setWq b (· ++ [t])) hi.io (upd_sameHold hkeep (fun _ => rfl) b)
      (.plain (fun _ _ h => by cases h) rfl rfl rfl) (by rw [hpc]; rfl)
  | @syncLock who hpc hl =>
    rw [hpc] at ht
    refine hi.next (some t) hi.ident hi.io .rfl ⟨ht.holds, fun _ => rfl, hi.io, fun _ h => by cases h⟩
      (by rw [hpc]; rfl) (fun u _ hu => ?_) fun u hut b hb => absurd hb (hi.not_flushing (.inl hl) hut)
    have := (hi.pcs u).locked hu
    rw [hl] at this
    cases this
  | @syncDone who rv hpc =>
    rw [hpc] at ht
    have hlock : s.lock = some t := ht.locked rfl
    obtain ⟨h1, h2, h3⟩ := who.after_quiet rv
    refine hi.next none hi.ident hi.io .rfl (.plain (fun b k h => ht.holds b k ?_) h1 h2 h3) ?_ ?_ ?_
    · rw [who.after_holds] at h
      exact h
    · rw [hpc, who.after_holds]
      rfl
    · intro u hut hu
      have := (hi.pcs u).locked hu
      rw [hlock] at this
      cases this
      exact absurd rfl hut
    · exact fun u hut b hb => absurd hb (hi.not_flushing (.inr hlock) hut)
  | @syncWrite who b todo rv hpc hd hr =>
    rw [hpc] at ht
    have hs := sameHold_ramIo s.dev (copyTo s.dev.ram (seek s.dev (s.dev.buf b).blkno) (s.dev.buf b).data) s.dev.io
    exact hi.stepLocked (.inr (ht.locked rfl)) (hi.ident.ramIo _ _) hi.io hs
      ⟨fun x k hx => hs.holds (ht.holds x k hx), ht.locked, ht.todo, ht.flushing⟩ (by rw [hpc]; rfl)
  | @syncDequeue who b todo rv hpc =>
    rw [hpc] at ht
    have hs := sameHold_ramIo s.dev s.dev.ram (s.dev.io.erase b)
    exact hi.stepLocked (.inr (ht.locked rfl)) (hi.ident.ramIo _ _)
      (fun x hx => hi.io x (List.mem_of_mem_erase hx)) hs
      ⟨fun x k hx => hs.holds (ht.holds x k hx), ht.locked, ht.todo, ht.flushing⟩ (by rw [hpc]; rfl)
  | @syncClear who b todo rv hpc =>
    rw [hpc] at ht
    obtain ⟨hb, hused, -⟩ := ht.flushing b rfl
    have hkeep : KeepsBlock fun x : BufCache τ => { x with flags := { x.flags with dirty := false } } :=
      fun _ => ⟨rfl, rfl⟩
    have hs : SameHold s.dev (setDirty b false s.dev) := upd_sameHold hkeep (fun _ => rfl) b
    exact hi.stepLocked (.inr (ht.locked rfl)) (hi.ident.upd hkeep hused (hi.ident.usr b hb)) hi.io hs
      ⟨fun x k hx => hs.holds (ht.holds x k hx), ht.locked, ht.todo, fun _ h => by cases h⟩ (by rw [hpc]; rfl)
  | @readUpdate k b hpc hl hd hr =>
    exact hi.holderUpd (fun _ => ⟨rfl, rfl⟩) (fun _ => rfl) (fun _ => rfl) (fun _ => id) (by rw [hpc]; rfl) rfl
      rfl rfl rfl
  | @readSetValid k b hpc =>
    exact hi.holderUpd (fun _ => ⟨rfl, rfl⟩) (fun _ => rfl) (fun _ => rfl) (fun _ => id) (by rw [hpc]; rfl) rfl
      rfl rfl rfl
  | @writeCopy k v b hpc =>
    exact hi.holderUpd (fun _ => ⟨rfl, rfl⟩) (fun _ => rfl) (fun _ => rfl) (fun _ => id) (by rw [hpc]; rfl) rfl
      rfl rfl rfl
  | @writeDirty k v b hpc =>
    exact hi.holderUpd (fun _ => ⟨rfl, rfl⟩) (fun _ => rfl) (fun _ => rfl) (fun _ _ => rfl) (by rw [hpc]; rfl) rfl
      rfl rfl rfl
  | @writeCache k v b hpc hl =>
    rw [hpc] at ht
    have hh := ht.holds b k rfl
    rw [queueBuffer_eq]
    refine hi.stepLocked (.inl hl) (hi.ident.ramIo _ _) (fun x hx => ?_)
      ⟨rfl, rfl, fun _ => rfl, fun _ => rfl, fun _ => rfl⟩ (.plain (fun x j hx => ?_) rfl rfl rfl) (by rw [hpc]; rfl)
    · rcases List.mem_append.1 hx with hx | hx
      · exact hi.io x (List.mem_of_mem_erase hx)
      · rw [List.mem_singleton.1 hx]
        exact hh.caches.mem
    · obtain ⟨⟨h1, h2, h3⟩, h4⟩ := ht.holds x j hx
      exact ⟨⟨h1, h2, h3⟩, h4⟩
  | release hpc hl => exact hi.release hpc hl
  | notify hpc hl => exact hi.notify hpc

theorem Pc.holds_of_free {p : Pc} (h : p.free = true) : p.holds = none := by
  cases p <;> first | rfl | cases h

theorem cacheStep_inv (hi : CacheInv l s) {s' : CacheSt τ} {a : CacheAct τ} (h : cacheStep s a = some s') :
    CacheInv l s' := by
  cases a with
  | call t c =>
    simp only [cacheStep] at h
    split at h
    · rename_i hf
      cases h
      have hi' : CacheInv l (s.to t (.get c maxBgetRetry none) s.dev) :=
        hi.stepQuiet hi.ident hi.io .rfl (.plain (fun _ _ h => by cases h) rfl rfl rfl)
          (by rw [Pc.holds_of_free hf]; rfl) fun _ => id
      exact hi'.ghost _ _
    · cases h
  | sync t =>
    simp only [cacheStep] at h
    split at h
    · rename_i hf
      cases h
      exact hi.stepQuiet hi.ident hi.io .rfl (.plain (fun _ _ h => by cases h) rfl rfl rfl)
        (by rw [Pc.holds_of_free hf]; rfl) fun _ => id
    · cases h
  | step t => exact hi.tstep (threadStep_cases h)

end

theorem Started.cacheInv {τ : Type} {d d' : BlkDev τ} {bufs : List (Option Nat)} (h : Started d d' bufs)
    (hnd : bufs.Nodup) : CacheInv d'.list (cacheStart d') := by
  refine ⟨h.ident hnd, .refl _, ?_, ?_, fun t => .plain (fun _ _ h => by cases h) rfl rfl rfl, fun b hb t ht => ?_⟩
  · show d'.bufNum = d'.list.length
    rw [h.bufNum, ← h.list, List.length_map]
  · intro b hb
    have hb' : b ∈ d'.io := hb
    rw [h.io] at hb'
    cases hb'
  · have ht' : (d'.buf b).usr = some t := ht
    rw [h.fresh b hb] at ht'
    cases ht'

theorem reaches_cacheInv {τ : Type} [DecidableEq τ] {ok : CacheSt τ → CacheAct τ → Prop} {d d' : BlkDev τ}
    {bufs : List (Option Nat)} (h : Started d d' bufs) (hnd : bufs.Nodup) {s : CacheSt τ}
    (hrun : Reaches cacheStep ok (cacheStart d') s) : CacheInv d'.list s :=
  hrun.invariant (h.cacheInv hnd) fun _ _ _ hi _ hs => cacheStep_inv hi hs

/-- **Buffer identity and exclusive use.** After a successful start-up and in every state that any threads
reach: no block is in two buffers; the list has each of the `buf_num` buffers once; a buffer is busy
exactly when it has a user; and from the return of `get_buffer` to `release_buffer` a thread is the user of
its buffer, no other thread has it, and it keeps its block. -/
theorem buffer_identity {τ : Type} [DecidableEq τ] {d d' : BlkDev τ} (bufs : List (Option Nat)) (hbare : Bare d)
    (hnd : bufs.Nodup) (hinit : bdevInitBufferCache bufs d = (0, d')) (s : CacheSt τ)
    (hrun : Reaches cacheStep Any (cacheStart d') s) :
    (∀ b c k, Caches s.dev b k → Caches s.dev c k → b = c) ∧
      s.dev.list.Nodup ∧ (s.dev.list.map some).Perm bufs ∧ s.dev.bufNum = bufs.length ∧
      (∀ b ∈ s.dev.list, (s.dev.buf b).flags.busy = true ↔ (s.dev.buf b).usr ≠ none) ∧
      ∀ t b k, (s.pc t).holds = some (b, k) →
        (s.dev.buf b).usr = some t ∧ (s.dev.buf b).flags.unused = false ∧ (s.dev.buf b).blkno = k ∧
          ∀ u j, (s.pc u).holds = some (b, j) → u = t := by
  have hst := bdevInit_spec hbare hinit
  have hi := reaches_cacheInv hst hnd hrun
  refine ⟨hi.ident.uniq, hi.ident.nodup, ?_, ?_, hi.ident.usr, fun t b k ht => ?_⟩
  · rw [← hst.list]
    exact hi.perm.map some
  · rw [hi.bufNum, ← hst.list, List.length_map]
  · have hh := (hi.pcs t).holds b k ht
    refine ⟨hh.usr, hh.caches.used, hh.caches.blkno, fun u j hu => ?_⟩
    have hu' := ((hi.pcs u).holds b j hu).usr
    rw [hh.usr] at hu'
    cases hu'
    rfl

/-- Two threads write block 1 with two buffers: the second has to wait for the first. -/
theorem buffer_identity_two_writers :
    ∃ s, Reaches cacheStep Any (cacheStart (bdevInitBufferCache [some 0x2000, some 0x3000] (zeroDisk Bool)).2) s ∧
      (s.pc false).holds = some (0x3000, 1) ∧ (s.pc true).holds = none ∧
      (s.dev.buf 0x3000).usr = some false := by
  obtain ⟨s, hrun, hs⟩ := exists_reaches cacheStep Any
    (cacheStart (bdevInitBufferCache [some 0x2000, some 0x3000] (zeroDisk Bool)).2)
    [.call false (.write 1 fun _ => 7), .call true (.write 1 fun _ => 8), .step false, .step true]
    (fun s => (s.pc false).holds = some (0x3000, 1) ∧ (s.pc true).holds = none) (by decide)
  obtain ⟨h1, h2⟩ := of_decide_eq_true hs
  obtain ⟨-, -, -, -, -, hx⟩ := buffer_identity [some 0x2000, some 0x3000] ⟨rfl, rfl⟩ (by decide) rfl s hrun
  exact ⟨s, hrun, h1, h2, (hx false 0x3000 1 h1).1⟩

end RedMagic.Bbuf
