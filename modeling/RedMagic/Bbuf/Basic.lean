import Mathlib.Logic.Function.Basic
import RedMagic.Mm.Basic

/-!
# The block buffer cache (src/bbuf.c) over a RAM disk (src/ramfs.c)

| here | there |
| --- | --- |
| `Flags`             | `buf->flags`: the bits `B_BUSY`, `B_VALID`, `B_DIRTY`, `B_UNUSED` (`bbuf.h:16-19`) |
| `BufCache`          | `buf_cache_t` (`bbuf.h:21-30`); `wq` is the threads of the waiters in queue order |
| `BlkDev`            | `blk_dev_t` and the bytes of its RAM disk; a buffer is named by its address |
| `ramfsReadwrite`    | `ramfs_readwrite` (`ramfs.c:43-64`), with `ramfs_validate_rw` |
| `bdevInitBufferCache` | `bdev_init_buffer_cache` (`bbuf.c:35-59`) |
| `getSection`, `releaseSection`, `notifySection` | the critical sections of `get_buffer`, `release_buffer`, `notify_buffer` |
| `getBuffer`         | `get_buffer` (`bbuf.c:179-233`) called by a thread that runs alone |
| `syncBuffer`        | `sync_buffer` (`bbuf.c:136-155`) |
| `bdevReadBuffer`, `bdevWriteBuffer`, `bdevSyncBuffer` | `bbuf.c:61-112` |

`buf->bdev` is set to the device at start-up and never to another one, so a buffer does not carry it and
the tests of it are true. The device lock is not state here: the functions below either are one
critical section or run one after the other; `Bbuf/Threads.lean` interleaves the sections.
-/

namespace RedMagic.Bbuf

open Mm

def blockSize : Nat := 512

/-- `char data[BLOCK_SIZE]`. -/
abbrev Block := Fin blockSize → UInt8

structure Flags where
  busy : Bool
  valid : Bool
  dirty : Bool
  unused : Bool
deriving DecidableEq, Repr

/-- `flags = B_BUSY`. -/
def bBusy : Flags := ⟨true, false, false, false⟩

/-- `flags = B_UNUSED`. -/
def bUnused : Flags := ⟨false, false, false, true⟩

structure BufCache (τ : Type) where
  blkno : Nat
  flags : Flags
  usr : Option τ
  wq : List τ
  data : Block

structure BlkDev (τ : Type) where
  bufNum : Nat
  totalBlks : Nat
  ramhead : Nat
  ram : Nat → UInt8
  buf : Nat → BufCache τ
  list : List Nat
  io : List Nat

section
variable {τ : Type}

/-- Write fields of one buffer. -/
def BlkDev.upd (d : BlkDev τ) (b : Nat) (f : BufCache τ → BufCache τ) : BlkDev τ :=
  { d with buf := Function.update d.buf b (f (d.buf b)) }

/-! ## `ramfs.c` -/

def ramfsValidateRw (b : Nat) (d : BlkDev τ) : Int := if (d.buf b).blkno ≥ d.totalBlks then -1 else 0

def seek (d : BlkDev τ) (blkno : Nat) : Nat := u32 (d.ramhead + u32 (blockSize * blkno))

/-- `memcpy(seek, data, block_size)` into the bytes of the disk. -/
def copyTo (ram : Nat → UInt8) (at' : Nat) (data : Block) : Nat → UInt8 := fun a =>
  if h : at' ≤ a ∧ a < at' + blockSize then data ⟨a - at', by omega⟩ else ram a

/-- `memcpy(data, seek, block_size)`. -/
def copyFrom (ram : Nat → UInt8) (at' : Nat) : Block := fun i => ram (at' + i)

def ramfsReadwrite (rw : Bool) (b : Nat) (d : BlkDev τ) : Int × BlkDev τ :=
  if ramfsValidateRw b d ≠ 0 then (-1, d)
  else if rw then (0, d.upd b fun x => { x with data := copyFrom d.ram (seek d x.blkno) })
  else (0, { d with ram := copyTo d.ram (seek d (d.buf b).blkno) (d.buf b).data })

/-- Why a call does not return: the kernel panics, or the caller sleeps. -/
inductive Halt where
  | panic (msg : String)
  | sleep
deriving DecidableEq, Repr

def ramfsWriteBlock (b : Nat) (d : BlkDev τ) : Except Halt (Int × BlkDev τ) :=
  if (d.buf b).flags.dirty then .ok (ramfsReadwrite false b d)
  else .error (.panic "ASSERTION-FAILED: buf->flags & B_DIRTY")

def ramfsReadBlock (b : Nat) (d : BlkDev τ) : Except Halt (Int × BlkDev τ) :=
  if (d.buf b).flags.dirty then .error (.panic "ASSERTION-FAILED: !(buf->flags & B_DIRTY)")
  else .ok (ramfsReadwrite true b d)

/-! ## Start-up -/

/-- A buffer as `bdev_init_buffer_cache` sets it up. -/
def freshBuf : BufCache τ := ⟨0, bUnused, none, [], fun _ => 0⟩

/-- The loop of `bdev_init_buffer_cache`, given what its `kmalloc` calls return (`none` is NULL). -/
def initLoop : List (Option Nat) → BlkDev τ → Int × BlkDev τ
  | [], d => (0, d)
  | none :: _, d => (-1, d)
  | some b :: rest, d =>
    initLoop rest { d with buf := Function.update d.buf b freshBuf, list := d.list ++ [b] }

def bdevInitBufferCache (bufs : List (Option Nat)) (d : BlkDev τ) : Int × BlkDev τ :=
  initLoop bufs { d with bufNum := bufs.length }

/-! ## The io queue -/

def queueBuffer (b : Nat) (d : BlkDev τ) : BlkDev τ :=
  if b ∈ d.io then { d with io := d.io.erase b ++ [b] } else { d with io := d.io ++ [b] }

def dequeueBuffer (b : Nat) (d : BlkDev τ) : BlkDev τ := { d with io := d.io.erase b }

def setDirty (b : Nat) (v : Bool) (d : BlkDev τ) : BlkDev τ :=
  d.upd b fun x => { x with flags := { x.flags with dirty := v } }

def setValid (b : Nat) (d : BlkDev τ) : BlkDev τ :=
  d.upd b fun x => { x with flags := { x.flags with valid := true } }

def setData (b : Nat) (data : Block) (d : BlkDev τ) : BlkDev τ := d.upd b fun x => { x with data := data }

/-- The loop of `sync_buffer` over the rest of the queue; `list_for_each_entry_safe` has read the next
entry before the body takes this one out. -/
def syncLoop : List Nat → Nat → BlkDev τ → Except Halt (Nat × BlkDev τ)
  | [], rv, d => .ok (rv, d)
  | b :: rest, rv, d =>
    if (d.buf b).flags.dirty then do
      let (status, d) ← ramfsWriteBlock b d
      if status = 0 then syncLoop rest rv (setDirty b false (dequeueBuffer b d))
      else syncLoop rest (rv + 1) d
    else syncLoop rest rv d

def syncBuffer (d : BlkDev τ) : Except Halt (Nat × BlkDev τ) := syncLoop d.io 0 d

/-! ## `get_buffer` and `release_buffer` -/

/-- What the critical section of `get_buffer` ends with. -/
inductive Got where
  | buf (b : Nat)
  | wait (b : Nat)
  | none
deriving DecidableEq, Repr

def isHit (d : BlkDev τ) (blkno b : Nat) : Bool := !(d.buf b).flags.unused && (d.buf b).blkno == blkno

def isFree (d : BlkDev τ) (b : Nat) : Bool :=
  (!(d.buf b).flags.busy && !(d.buf b).flags.dirty) || (d.buf b).flags.unused

/-- A cached buffer is taken by `me`. -/
def takeBuf (me : τ) (b : Nat) (d : BlkDev τ) : BlkDev τ :=
  d.upd b fun x => { x with flags := { x.flags with busy := true }, usr := some me }

/-- A buffer is reused for another block: `flags` is reset and only `B_BUSY` is set. -/
def recycleBuf (me : τ) (blkno b : Nat) (d : BlkDev τ) : BlkDev τ :=
  d.upd b fun x => { x with blkno := blkno, flags := bBusy, usr := some me }

def getSection (me : τ) (blkno : Nat) (d : BlkDev τ) : Got × BlkDev τ :=
  match d.list.find? (isHit d blkno) with
  | some b =>
    if !(d.buf b).flags.busy && (d.buf b).usr.isNone then (.buf b, takeBuf me b d) else (.wait b, d)
  | none =>
    match d.list.reverse.find? (isFree d) with
    | some b => (.buf b, recycleBuf me blkno b d)
    | none => (.none, d)

def maxBgetRetry : Nat := 1

/-- `get_buffer` with `left` retries to go. `wait_buffer` puts the caller to sleep, and alone it is
never woken. -/
def getBuffer (me : τ) (blkno : Nat) (left : Nat) (d : BlkDev τ) : Except Halt (Nat × BlkDev τ) :=
  match getSection me blkno d with
  | (.buf b, d) => .ok (b, d)
  | (.wait _, _) => .error .sleep
  | (.none, d) =>
    match left with
    | 0 => .error (.panic "No buffers available")
    | left + 1 => do
      let (_, d) ← syncBuffer d
      getBuffer me blkno left d

def releaseSection (b : Nat) (d : BlkDev τ) : BlkDev τ :=
  { d.upd b fun x => { x with flags := { x.flags with busy := false }, usr := none } with
    list := b :: d.list.erase b }

/-- The first waiter, if any, leaves the queue; it is the thread to wake. -/
def notifySection (b : Nat) (d : BlkDev τ) : Option τ × BlkDev τ :=
  ((d.buf b).wq.head?, d.upd b fun x => { x with wq := x.wq.tail })

def releaseBuffer [DecidableEq τ] (me : τ) (b : Nat) (d : BlkDev τ) : Except Halt (BlkDev τ) :=
  if (d.buf b).usr = some me then .ok (notifySection b (releaseSection b d)).2
  else .error (.panic "ASSERTION-FAILED: buf->usr == get_curr_thread()")

/-! ## The calls -/

/-- The second half of `bdev_read_buffer`: the caller's array gets the buffer's bytes, whatever the
status is. -/
def readOut [DecidableEq τ] (me : τ) (b : Nat) (status : Int) (d : BlkDev τ) :
    Except Halt (Int × Block × BlkDev τ) := do
  let d' ← releaseBuffer me b d
  return (status, (d.buf b).data, d')

/-- `status = update_buffer(buf)`, and `B_VALID` if it went well. -/
def fill (b : Nat) (d : BlkDev τ) : Except Halt (Int × BlkDev τ) := do
  let (status, d) ← ramfsReadBlock b d
  return (status, if status = 0 then setValid b d else d)

/-- The result is the status and what the caller's array `data` holds afterwards. -/
def bdevReadBuffer [DecidableEq τ] (me : τ) (blkno : Nat) (data : Block) (d : BlkDev τ) :
    Except Halt (Int × Block × BlkDev τ) := do
  let (b, d) ← getBuffer me blkno maxBgetRetry d
  if (d.buf b).flags.valid then readOut me b 0 d
  else if (d.buf b).flags.dirty then
    let (rv, d) ← syncBuffer d
    if rv = 0 then
      let (status, d) ← fill b d
      readOut me b status d
    else
      let d ← releaseBuffer me b d
      return (-2, data, d)
  else
    let (status, d) ← fill b d
    readOut me b status d

def bdevWriteBuffer [DecidableEq τ] (me : τ) (blkno : Nat) (data : Block) (d : BlkDev τ) :
    Except Halt (Int × BlkDev τ) := do
  let (b, d) ← getBuffer me blkno maxBgetRetry d
  let d ← releaseBuffer me b (queueBuffer b (setDirty b true (setData b data d)))
  return (0, d)

def bdevSyncBuffer (d : BlkDev τ) : Except Halt (Int × BlkDev τ) := do
  let (rv, d) ← syncBuffer d
  return (rv, d)

end

end RedMagic.Bbuf
