import RedMagic.Lib.Transition
import RedMagic.Bbuf.Sections

/-!
# The buffer cache with any number of threads

Each thread is at a program point `Pc` of `bdev_read_buffer`, `bdev_write_buffer` or `bdev_sync_buffer`, and
a step is what it does up to its next one. The sections under `bdev->lock` are one step each, taken while
the lock is free; `sync_buffer` alone keeps the lock over several steps, one per statement of its loop,
so that what the other threads do without the lock falls between any two of them: the copies to and from
a buffer, the tests of its flags, and `flags |= ...`.

| here | there |
| --- | --- |
| `.get`, `.enqueue`, `.sleep`  | `get_buffer` before its section, after it has dropped the lock to call `wait_buffer`, and asleep on `buf->wq` (`bbuf.c:179-233`, `:249-268`) |
| `.sync…`                      | `sync_buffer` before its lock and at the statements of its loop (`bbuf.c:143-152`) |
| `.readTest` … `.readCopy`     | `bdev_read_buffer` after `get_buffer` (`bbuf.c:69-79`) |
| `.writeCopy` … `.writeCache`  | `bdev_write_buffer` after `get_buffer` (`bbuf.c:100-103`) |
| `.leave`, `.release`, `.notify` | `release_buffer` at its assertion, its section and `notify_buffer` (`bbuf.c:235-247`, `:270-285`) |

A panic stops the machine: the step has no result.
-/

namespace RedMagic.Bbuf

open Lts

inductive Call where
  | read (blkno : Nat)
  | write (blkno : Nat) (data : Block)

def Call.blkno : Call → Nat
  | .read k => k
  | .write k _ => k

/-- What a call returns. A read that copied nothing leaves the caller's array. -/
inductive Ret where
  | read (blkno : Nat) (status : Int) (data : Option Block)
  | write (blkno : Nat)
  | sync (rv : Nat)

/-- Who called `sync_buffer`: the user, `get_buffer` before its retry, or a reader of a dirty buffer. -/
inductive SyncBy where
  | user
  | retry (c : Call) (left : Nat)
  | reader (k b : Nat)

inductive Pc where
  | idle
  | get (c : Call) (left : Nat) (woken : Option Nat)
  | enqueue (c : Call) (left : Nat) (b : Nat)
  | sleep (c : Call) (left : Nat) (b : Nat)
  | syncLock (who : SyncBy)
  | syncTest (who : SyncBy) (todo : List Nat) (rv : Nat)
  | syncWrite (who : SyncBy) (b : Nat) (todo : List Nat) (rv : Nat)
  | syncDequeue (who : SyncBy) (b : Nat) (todo : List Nat) (rv : Nat)
  | syncClear (who : SyncBy) (b : Nat) (todo : List Nat) (rv : Nat)
  | readTest (k b : Nat)
  | readTestDirty (k b : Nat)
  | readUpdate (k b : Nat)
  | readSetValid (k b : Nat)
  | readCopy (k b : Nat) (status : Int)
  | writeCopy (k : Nat) (v : Block) (b : Nat)
  | writeDirty (k : Nat) (v : Block) (b : Nat)
  | writeCache (k : Nat) (v : Block) (b : Nat)
  | leave (k b : Nat) (r : Ret)
  | release (k b : Nat) (r : Ret)
  | notify (b : Nat) (r : Ret)
  | done (r : Ret)

/-- Where `bdev_read_buffer` and `bdev_write_buffer` go on when `get_buffer` has returned `b`. -/
def Call.after (b : Nat) : Call → Pc
  | .read k => .readTest k b
  | .write k v => .writeCopy k v b

/-- Where the caller of `sync_buffer` goes on. -/
def SyncBy.after (rv : Nat) : SyncBy → Pc
  | .user => .done (.sync rv)
  | .retry c left => .get c left none
  | .reader k b => if rv = 0 then .readUpdate k b else .leave k b (.read k (-2) none)

structure CacheSt (τ : Type) where
  dev : BlkDev τ
  /-- The thread that keeps `bdev->lock` between two of its steps. -/
  lock : Option τ
  pc : τ → Pc
  /-- The data of the writes of a block, the latest first, in the order in which `get_buffer` gave them
  the buffer. -/
  writes : Nat → List Block
  /-- How many writes its block had had when the thread's read started. -/
  since : τ → Nat

inductive CacheAct (τ : Type) where
  | call (t : τ) (c : Call)
  | sync (t : τ)
  | step (t : τ)

section
variable {τ : Type} [DecidableEq τ]

/-- Thread `t` goes on at `p` and the device becomes `d`. -/
def CacheSt.to (s : CacheSt τ) (t : τ) (p : Pc) (d : BlkDev τ) : CacheSt τ :=
  { s with dev := d, pc := Function.update s.pc t p }

/-- `get_buffer` returns `b` to `t`. -/
def CacheSt.grant (s : CacheSt τ) (t : τ) (c : Call) (b : Nat) (d : BlkDev τ) : CacheSt τ :=
  { s.to t (c.after b) d with
    writes := match c with
      | .read _ => s.writes
      | .write k v => Function.update s.writes k (v :: s.writes k) }

/-- `list_add_tail(&waiter.wq, &buf->wq)`. -/
def addWaiter (b : Nat) (t : τ) (d : BlkDev τ) : BlkDev τ := d.upd b fun x => { x with wq := x.wq ++ [t] }

/-- `wake_up`: a thread asleep in `wait_buffer` goes back to the lookup. -/
def Pc.wake : Pc → Pc
  | .sleep c left b => .get c left (some b)
  | p => p

/-- `t` leaves `notify_buffer`, having woken the first waiter of `b`. -/
def CacheSt.notified (s : CacheSt τ) (t : τ) (b : Nat) (r : Ret) : CacheSt τ :=
  match notifySection b s.dev with
  | (none, d) => s.to t (.done r) d
  | (some u, d) => (s.to u (s.pc u).wake d).to t (.done r) d

/-- A step of `t` at program point `p`. -/
def threadStep (s : CacheSt τ) (t : τ) : Pc → Option (CacheSt τ)
  | .idle | .done _ | .sleep _ _ _ => none
  | .get c left _ =>
    if s.lock = none then
      match getSection t c.blkno s.dev with
      | (.buf b, d) => some (s.grant t c b d)
      | (.wait b, d) => some (s.to t (.enqueue c left b) d)
      | (.none, d) =>
        match left with
        | 0 => none
        | left + 1 => some (s.to t (.syncLock (.retry c left)) d)
    else none
  | .enqueue c left b =>
    if s.lock = none then some (s.to t (.sleep c left b) (addWaiter b t s.dev)) else none
  | .syncLock who =>
    if s.lock = none then some { s.to t (.syncTest who s.dev.io 0) s.dev with lock := some t } else none
  | .syncTest who [] rv => some { s.to t (who.after rv) s.dev with lock := none }
  | .syncTest who (b :: todo) rv =>
    if (s.dev.buf b).flags.dirty then some (s.to t (.syncWrite who b todo rv) s.dev)
    else some (s.to t (.syncTest who todo rv) s.dev)
  | .syncWrite who b todo rv =>
    match ramfsWriteBlock b s.dev with
    | .error _ => none
    | .ok (status, d) =>
      if status = 0 then some (s.to t (.syncDequeue who b todo rv) d)
      else some (s.to t (.syncTest who todo (rv + 1)) d)
  | .syncDequeue who b todo rv => some (s.to t (.syncClear who b todo rv) (dequeueBuffer b s.dev))
  | .syncClear who b todo rv => some (s.to t (.syncTest who todo rv) (setDirty b false s.dev))
  | .readTest k b =>
    if (s.dev.buf b).flags.valid then some (s.to t (.readCopy k b 0) s.dev)
    else some (s.to t (.readTestDirty k b) s.dev)
  | .readTestDirty k b =>
    if (s.dev.buf b).flags.dirty then some (s.to t (.syncLock (.reader k b)) s.dev)
    else some (s.to t (.readUpdate k b) s.dev)
  | .readUpdate k b =>
    if s.lock = none then
      match ramfsReadBlock b s.dev with
      | .error _ => none
      | .ok (status, d) =>
        if status = 0 then some (s.to t (.readSetValid k b) d) else some (s.to t (.readCopy k b status) d)
    else none
  | .readSetValid k b => some (s.to t (.readCopy k b 0) (setValid b s.dev))
  | .readCopy k b status => some (s.to t (.leave k b (.read k status (some (s.dev.buf b).data))) s.dev)
  | .writeCopy k v b => some (s.to t (.writeDirty k v b) (setData b v s.dev))
  | .writeDirty k v b => some (s.to t (.writeCache k v b) (setDirty b true s.dev))
  | .writeCache k _ b =>
    if s.lock = none then some (s.to t (.leave k b (.write k)) (queueBuffer b s.dev)) else none
  | .leave k b r => if (s.dev.buf b).usr = some t then some (s.to t (.release k b r) s.dev) else none
  | .release _ b r =>
    if s.lock = none then some (s.to t (.notify b r) (releaseSection b s.dev)) else none
  | .notify b r => if s.lock = none then some (s.notified t b r) else none

/-- The thread makes no call. -/
def Pc.free : Pc → Bool
  | .idle | .done _ => true
  | _ => false

def cacheStep (s : CacheSt τ) : CacheAct τ → Option (CacheSt τ)
  | .call t c =>
    if (s.pc t).free then
      some { s.to t (.get c maxBgetRetry none) s.dev with
        since := Function.update s.since t (s.writes c.blkno).length }
    else none
  | .sync t => if (s.pc t).free then some (s.to t (.syncLock .user) s.dev) else none
  | .step t => threadStep s t (s.pc t)

/-- No thread makes a call yet. -/
def cacheStart (d : BlkDev τ) : CacheSt τ := ⟨d, none, fun _ => .idle, fun _ => [], fun _ => 0⟩

/-! ## What a step can do -/

/-- The steps that change nothing but the program point. -/
inductive Move (d : BlkDev τ) (lock : Option τ) (t : τ) : Pc → Pc → Prop
  | wait {c left w b} (hl : lock = none) (hc : Caches d b c.blkno)
    (hb : (d.buf b).flags.busy = true ∨ (d.buf b).usr ≠ none) : Move d lock t (.get c left w) (.enqueue c left b)
  | retry {c left w} (hl : lock = none) (hmiss : ∀ b, ¬Caches d b c.blkno) :
    Move d lock t (.get c (left + 1) w) (.syncLock (.retry c left))
  | dirty {who b todo rv} (hd : (d.buf b).flags.dirty = true) :
    Move d lock t (.syncTest who (b :: todo) rv) (.syncWrite who b todo rv)
  | skip {who b todo rv} : Move d lock t (.syncTest who (b :: todo) rv) (.syncTest who todo rv)
  | failed {who b todo rv} : Move d lock t (.syncWrite who b todo rv) (.syncTest who todo (rv + 1))
  | valid {k b} (hv : (d.buf b).flags.valid = true) : Move d lock t (.readTest k b) (.readCopy k b 0)
  | invalid {k b} : Move d lock t (.readTest k b) (.readTestDirty k b)
  | stale {k b} : Move d lock t (.readTestDirty k b) (.syncLock (.reader k b))
  | clean {k b} : Move d lock t (.readTestDirty k b) (.readUpdate k b)
  | unread {k b status} (hs : status ≠ 0) : Move d lock t (.readUpdate k b) (.readCopy k b status)
  | copy {k b status} :
    Move d lock t (.readCopy k b status) (.leave k b (.read k status (some (d.buf b).data)))
  | leave {k b r} : Move d lock t (.leave k b r) (.release k b r)

/-- Every step of a thread. -/
inductive TStep (s : CacheSt τ) (t : τ) : CacheSt τ → Prop
  | move {p} (hm : Move s.dev s.lock t (s.pc t) p) : TStep s t (s.to t p s.dev)
  | hit {c left w b} (hpc : s.pc t = .get c left w) (hl : s.lock = none) (hc : Caches s.dev b c.blkno)
    (hb : (s.dev.buf b).flags.busy = false) (hu : (s.dev.buf b).usr = none) :
    TStep s t (s.grant t c b (takeBuf t b s.dev))
  | recycle {c left w b} (hpc : s.pc t = .get c left w) (hl : s.lock = none) (hm : b ∈ s.dev.list)
    (hf : isFree s.dev b = true) (hmiss : ∀ b, ¬Caches s.dev b c.blkno) :
    TStep s t (s.grant t c b (recycleBuf t c.blkno b s.dev))
  | enqueue {c left b} (hpc : s.pc t = .enqueue c left b) (hl : s.lock = none) :
    TStep s t (s.to t (.sleep c left b) (addWaiter b t s.dev))
  | syncLock {who} (hpc : s.pc t = .syncLock who) (hl : s.lock = none) :
    TStep s t { s.to t (.syncTest who s.dev.io 0) s.dev with lock := some t }
  | syncDone {who rv} (hpc : s.pc t = .syncTest who [] rv) :
    TStep s t { s.to t (who.after rv) s.dev with lock := none }
  | syncWrite {who b todo rv} (hpc : s.pc t = .syncWrite who b todo rv)
    (hd : (s.dev.buf b).flags.dirty = true) (hr : (s.dev.buf b).blkno < s.dev.totalBlks) :
    TStep s t (s.to t (.syncDequeue who b todo rv)
      { s.dev with ram := copyTo s.dev.ram (seek s.dev (s.dev.buf b).blkno) (s.dev.buf b).data })
  | syncDequeue {who b todo rv} (hpc : s.pc t = .syncDequeue who b todo rv) :
    TStep s t (s.to t (.syncClear who b todo rv) (dequeueBuffer b s.dev))
  | syncClear {who b todo rv} (hpc : s.pc t = .syncClear who b todo rv) :
    TStep s t (s.to t (.syncTest who todo rv) (setDirty b false s.dev))
  | readUpdate {k b} (hpc : s.pc t = .readUpdate k b) (hl : s.lock = none)
    (hd : (s.dev.buf b).flags.dirty = false) (hr : (s.dev.buf b).blkno < s.dev.totalBlks) :
    TStep s t (s.to t (.readSetValid k b) (setData b (devBlock s.dev (s.dev.buf b).blkno) s.dev))
  | readSetValid {k b} (hpc : s.pc t = .readSetValid k b) :
    TStep s t (s.to t (.readCopy k b 0) (setValid b s.dev))
  | writeCopy {k v b} (hpc : s.pc t = .writeCopy k v b) :
    TStep s t (s.to t (.writeDirty k v b) (setData b v s.dev))
  | writeDirty {k v b} (hpc : s.pc t = .writeDirty k v b) :
    TStep s t (s.to t (.writeCache k v b) (setDirty b true s.dev))
  | writeCache {k v b} (hpc : s.pc t = .writeCache k v b) (hl : s.lock = none) :
    TStep s t (s.to t (.leave k b (.write k)) (queueBuffer b s.dev))
  | release {k b r} (hpc : s.pc t = .release k b r) (hl : s.lock = none) :
    TStep s t (s.to t (.notify b r) (releaseSection b s.dev))
  | notify {b r} (hpc : s.pc t = .notify b r) (hl : s.lock = none) : TStep s t (s.notified t b r)

theorem getStep_cases {s s' : CacheSt τ} {t : τ} {c : Call} {left : Nat} {w : Option Nat}
    (hpc : s.pc t = .get c left w) (h : threadStep s t (.get c left w) = some s') : TStep s t s' := by
  simp only [threadStep] at h
  split at h
  · rename_i hl
    have hspec := getSection_spec t c.blkno s.dev
    generalize getSection t c.blkno s.dev = r at hspec h
    obtain ⟨g, d⟩ := r
    dsimp only at hspec h
    cases hspec with
    | hit b hc hb hu =>
      cases h
      exact .hit hpc hl hc hb hu
    | wait b hc hb =>
      cases h
      exact .move (hpc ▸ .wait hl hc hb)
    | recycle b hm hf hmiss =>
      cases h
      exact .recycle hpc hl hm hf hmiss
    | full hf hmiss =>
      cases left with
      | zero => cases h
      | succ left =>
        cases h
        exact .move (hpc ▸ .retry hl hmiss)
  · cases h

/-- **Every step of a thread is one of `TStep`.** -/
theorem threadStep_cases {s s' : CacheSt τ} {t : τ} (h : threadStep s t (s.pc t) = some s') : TStep s t s' := by
  cases hpc : s.pc t with
  | idle => simp [hpc, threadStep] at h
  | done r => simp [hpc, threadStep] at h
  | sleep c left b => simp [hpc, threadStep] at h
  | get c left w => exact getStep_cases hpc (hpc ▸ h)
  | enqueue c left b =>
    simp only [hpc, threadStep] at h
    split at h
    · cases h
      exact .enqueue hpc ‹_›
    · cases h
  | syncLock who =>
    simp only [hpc, threadStep] at h
    split at h
    · cases h
      exact .syncLock hpc ‹_›
    · cases h
  | syncTest who todo rv =>
    cases todo with
    | nil =>
      simp only [hpc, threadStep] at h
      cases h
      exact .syncDone hpc
    | cons b todo =>
      simp only [hpc, threadStep] at h
      split at h
      · cases h
        exact .move (hpc ▸ .dirty ‹_›)
      · cases h
        exact .move (hpc ▸ .skip)
  | syncWrite who b todo rv =>
    simp only [hpc, threadStep] at h
    split at h
    · cases h
    · rename_i status d hw
      obtain ⟨hd, ⟨hs, hr, rfl⟩ | ⟨hs, rfl⟩⟩ := ramfsWriteBlock_cases hw
      · rw [if_pos hs] at h
        cases h
        exact .syncWrite hpc hd hr
      · rw [if_neg hs] at h
        cases h
        exact .move (hpc ▸ .failed)
  | syncDequeue who b todo rv =>
    simp only [hpc, threadStep] at h
    cases h
    exact .syncDequeue hpc
  | syncClear who b todo rv =>
    simp only [hpc, threadStep] at h
    cases h
    exact .syncClear hpc
  | readTest k b =>
    simp only [hpc, threadStep] at h
    split at h
    · cases h
      exact .move (hpc ▸ .valid ‹_›)
    · cases h
      exact .move (hpc ▸ .invalid)
  | readTestDirty k b =>
    simp only [hpc, threadStep] at h
    split at h
    · cases h
      exact .move (hpc ▸ .stale)
    · cases h
      exact .move (hpc ▸ .clean)
  | readUpdate k b =>
    simp only [hpc, threadStep] at h
    split at h
    · rename_i hl
      split at h
      · cases h
      · rename_i status d hw
        obtain ⟨hd, ⟨hs, hr, rfl⟩ | ⟨hs, rfl⟩⟩ := ramfsReadBlock_cases hw
        · rw [if_pos hs] at h
          cases h
          exact .readUpdate hpc hl hd hr
        · rw [if_neg hs] at h
          cases h
          exact .move (hpc ▸ .unread hs)
    · cases h
  | readSetValid k b =>
    simp only [hpc, threadStep] at h
    cases h
    exact .readSetValid hpc
  | readCopy k b status =>
    simp only [hpc, threadStep] at h
    cases h
    exact .move (hpc ▸ .copy)
  | writeCopy k v b =>
    simp only [hpc, threadStep] at h
    cases h
    exact .writeCopy hpc
  | writeDirty k v b =>
    simp only [hpc, threadStep] at h
    cases h
    exact .writeDirty hpc
  | writeCache k v b =>
    simp only [hpc, threadStep] at h
    split at h
    · cases h
      exact .writeCache hpc ‹_›
    · cases h
  | leave k b r =>
    simp only [hpc, threadStep] at h
    split at h
    · cases h
      exact .move (hpc ▸ .leave)
    · cases h
  | release k b r =>
    simp only [hpc, threadStep] at h
    split at h
    · cases h
      exact .release hpc ‹_›
    · cases h
  | notify b r =>
    simp only [hpc, threadStep] at h
    split at h
    · cases h
      exact .notify hpc ‹_›
    · cases h

end

end RedMagic.Bbuf
