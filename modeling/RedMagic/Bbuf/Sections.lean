import Mathlib.Data.List.Basic
import RedMagic.Bbuf.Basic
import RedMagic.Mm.Colour

/-!
# What the critical sections keep

`Ident` is about the buffers themselves: no block is in two of them, and a buffer is busy exactly when
it has a user. `Coherent d L p w` is about the data: `L` is what each block should hold. A buffer in `w`
is held by a writer that has not marked it dirty yet, one in `p ⊆ w` by a writer that has not copied its
data yet; every other buffer with data has the right data, and a block with no dirty buffer and no such
writer is right on the disk. A call that runs alone has `p` and `w` empty at its ends; the threads of
`Bbuf/Threads.lean` have them given by their program counters.
-/

namespace RedMagic.Bbuf

open Mm

variable {τ : Type}

/-! ## Field lemmas -/

section
variable (d : BlkDev τ) (b c : Nat) (f : BufCache τ → BufCache τ)

@[simp] theorem upd_list : (d.upd b f).list = d.list := rfl
@[simp] theorem upd_io : (d.upd b f).io = d.io := rfl
@[simp] theorem upd_ram : (d.upd b f).ram = d.ram := rfl
@[simp] theorem upd_ramhead : (d.upd b f).ramhead = d.ramhead := rfl
@[simp] theorem upd_totalBlks : (d.upd b f).totalBlks = d.totalBlks := rfl
@[simp] theorem upd_buf_self : (d.upd b f).buf b = f (d.buf b) := Function.update_self ..

theorem upd_buf_ne {b c : Nat} (h : c ≠ b) : (d.upd b f).buf c = d.buf c := Function.update_of_ne h ..

/-- A field that the write leaves alone. -/
theorem upd_field {α : Type} {g : BufCache τ → α} (hg : ∀ x, g (f x) = g x) : g ((d.upd b f).buf c) = g (d.buf c) := by
  by_cases h : c = b
  · rw [h, upd_buf_self, hg]
  · rw [upd_buf_ne d f h]

@[simp] theorem setData_blkno (v : Block) : ((setData b v d).buf c).blkno = (d.buf c).blkno :=
  upd_field d b c _ fun _ => rfl

@[simp] theorem setDirty_blkno (v : Bool) : ((setDirty b v d).buf c).blkno = (d.buf c).blkno :=
  upd_field d b c _ fun _ => rfl

@[simp] theorem setValid_blkno : ((setValid b d).buf c).blkno = (d.buf c).blkno := upd_field d b c _ fun _ => rfl

@[simp] theorem setDirty_data (v : Bool) : ((setDirty b v d).buf c).data = (d.buf c).data :=
  upd_field d b c _ fun _ => rfl

@[simp] theorem setValid_data : ((setValid b d).buf c).data = (d.buf c).data := upd_field d b c _ fun _ => rfl

@[simp] theorem setData_data (v : Block) : ((setData b v d).buf b).data = v := by simp [setData]

theorem setData_data_ne {b c : Nat} (h : c ≠ b) (v : Block) : ((setData b v d).buf c).data = (d.buf c).data := by
  rw [setData, upd_buf_ne _ _ h]

end

/-! ## The disk -/

/-- The block `k` on the disk. -/
def devBlock (d : BlkDev τ) (k : Nat) : Block := copyFrom d.ram (seek d k)

/-- The blocks of the device do not wrap around the address space. -/
def Fits (d : BlkDev τ) : Prop := d.ramhead + blockSize * d.totalBlks ≤ 2 ^ 32

theorem seek_eq {d : BlkDev τ} (h : Fits d) {k : Nat} (hk : k < d.totalBlks) :
    seek d k = d.ramhead + blockSize * k := by
  unfold Fits blockSize at h
  unfold seek blockSize
  have hoff : u32 (512 * k) = 512 * k := u32_of_lt (by omega)
  rw [hoff, u32_of_lt (by omega)]

theorem copyFrom_copyTo_self (ram : Nat → UInt8) (a : Nat) (data : Block) :
    copyFrom (copyTo ram a data) a = data := by
  funext i
  have hi := i.isLt
  have hin : a ≤ a + i ∧ a + i < a + blockSize := by omega
  simp only [copyFrom, copyTo, dif_pos hin, Nat.add_sub_cancel_left]

theorem copyFrom_copyTo_apart {ram : Nat → UInt8} {a a' : Nat} {data : Block}
    (h : a + blockSize ≤ a' ∨ a' + blockSize ≤ a) : copyFrom (copyTo ram a data) a' = copyFrom ram a' := by
  funext i
  have hi := i.isLt
  have hout : ¬(a ≤ a' + i ∧ a' + i < a + blockSize) := by omega
  simp only [copyFrom, copyTo, dif_neg hout]

/-- Writing block `k` changes no other block. -/
theorem devBlock_write_ne {d : BlkDev τ} (h : Fits d) {k j : Nat} (hk : k < d.totalBlks)
    (hj : j < d.totalBlks) (hne : j ≠ k) (data : Block) :
    copyFrom (copyTo d.ram (seek d k) data) (seek d j) = devBlock d j := by
  refine copyFrom_copyTo_apart ?_
  rw [seek_eq h hk, seek_eq h hj]
  unfold blockSize
  omega

theorem ramfsWriteBlock_ok {d : BlkDev τ} {b : Nat} (hd : (d.buf b).flags.dirty = true)
    (hr : (d.buf b).blkno < d.totalBlks) :
    ramfsWriteBlock b d = .ok (0, { d with ram := copyTo d.ram (seek d (d.buf b).blkno) (d.buf b).data }) := by
  have hv : ramfsValidateRw b d = 0 := if_neg (Nat.not_le.2 hr)
  simp [ramfsWriteBlock, hd, ramfsReadwrite, hv]

theorem ramfsReadBlock_ok {d : BlkDev τ} {b : Nat} (hd : (d.buf b).flags.dirty = false)
    (hr : (d.buf b).blkno < d.totalBlks) :
    ramfsReadBlock b d = .ok (0, setData b (devBlock d (d.buf b).blkno) d) := by
  have hv : ramfsValidateRw b d = 0 := if_neg (Nat.not_le.2 hr)
  simp [ramfsReadBlock, hd, ramfsReadwrite, hv, setData, BlkDev.upd, devBlock]

/-- `ramfs_readwrite` refuses a block number past the end of the device, or copies the block. -/
theorem ramfsReadwrite_cases {d d' : BlkDev τ} {rw : Bool} {b : Nat} {status : Int}
    (h : ramfsReadwrite rw b d = (status, d')) :
    (status = 0 ∧ (d.buf b).blkno < d.totalBlks ∧
        d' = if rw then setData b (devBlock d (d.buf b).blkno) d
          else { d with ram := copyTo d.ram (seek d (d.buf b).blkno) (d.buf b).data }) ∨
      (status ≠ 0 ∧ d' = d) := by
  unfold ramfsReadwrite ramfsValidateRw at h
  split at h
  · cases h
    exact .inr ⟨by decide, rfl⟩
  · rename_i hv
    cases rw with
    | false =>
      cases h
      exact .inl ⟨rfl, by simpa using hv, rfl⟩
    | true =>
      cases h
      exact .inl ⟨rfl, by simpa using hv, rfl⟩

/-- `ramfs_write_block` of a buffer that is dirty either writes it or refuses its block number. -/
theorem ramfsWriteBlock_cases {d d' : BlkDev τ} {b : Nat} {status : Int}
    (h : ramfsWriteBlock b d = .ok (status, d')) :
    (d.buf b).flags.dirty = true ∧
      ((status = 0 ∧ (d.buf b).blkno < d.totalBlks ∧
        d' = { d with ram := copyTo d.ram (seek d (d.buf b).blkno) (d.buf b).data }) ∨ (status ≠ 0 ∧ d' = d)) := by
  unfold ramfsWriteBlock at h
  split at h
  · rename_i hd
    exact ⟨hd, ramfsReadwrite_cases (Except.ok.inj h)⟩
  · cases h

theorem ramfsReadBlock_cases {d d' : BlkDev τ} {b : Nat} {status : Int}
    (h : ramfsReadBlock b d = .ok (status, d')) :
    (d.buf b).flags.dirty = false ∧
      ((status = 0 ∧ (d.buf b).blkno < d.totalBlks ∧ d' = setData b (devBlock d (d.buf b).blkno) d) ∨
        (status ≠ 0 ∧ d' = d)) := by
  unfold ramfsReadBlock at h
  split at h
  · cases h
  · rename_i hd
    exact ⟨by simpa using hd, ramfsReadwrite_cases (Except.ok.inj h)⟩

/-! ## Who holds which block -/

/-- Buffer `b` holds block `k`. -/
structure Caches (d : BlkDev τ) (b k : Nat) : Prop where
  mem : b ∈ d.list
  used : (d.buf b).flags.unused = false
  blkno : (d.buf b).blkno = k

/-- The caller `me` has buffer `b` with block `k`. -/
structure Holds (d : BlkDev τ) (me : τ) (b k : Nat) : Prop where
  caches : Caches d b k
  usr : (d.buf b).usr = some me

structure Ident (d : BlkDev τ) : Prop where
  nodup : d.list.Nodup
  uniq : ∀ b c k, Caches d b k → Caches d c k → b = c
  usr : ∀ b ∈ d.list, (d.buf b).flags.busy = true ↔ (d.buf b).usr ≠ none
  fresh : ∀ b ∈ d.list, (d.buf b).flags.unused = true → (d.buf b).flags = bUnused

theorem isHit_iff {d : BlkDev τ} {k b : Nat} :
    isHit d k b = true ↔ (d.buf b).flags.unused = false ∧ (d.buf b).blkno = k := by
  simp [isHit]

theorem isFree_iff {d : BlkDev τ} {b : Nat} : isFree d b = true ↔
    ((d.buf b).flags.busy = false ∧ (d.buf b).flags.dirty = false) ∨ (d.buf b).flags.unused = true := by
  simp [isFree]

/-- The ways the critical section of `get_buffer` ends. -/
inductive GetSpec (me : τ) (k : Nat) (d : BlkDev τ) : Got → BlkDev τ → Prop
  | hit (b : Nat) (hc : Caches d b k) (hb : (d.buf b).flags.busy = false) (hu : (d.buf b).usr = none) :
    GetSpec me k d (.buf b) (takeBuf me b d)
  | wait (b : Nat) (hc : Caches d b k) (hb : (d.buf b).flags.busy = true ∨ (d.buf b).usr ≠ none) :
    GetSpec me k d (.wait b) d
  | recycle (b : Nat) (hm : b ∈ d.list) (hf : isFree d b = true) (hmiss : ∀ c, ¬Caches d c k) :
    GetSpec me k d (.buf b) (recycleBuf me k b d)
  | full (hf : ∀ b ∈ d.list, isFree d b = false) (hmiss : ∀ c, ¬Caches d c k) :
    GetSpec me k d .none d

theorem getSection_spec (me : τ) (k : Nat) (d : BlkDev τ) :
    GetSpec me k d (getSection me k d).1 (getSection me k d).2 := by
  unfold getSection
  cases hfind : d.list.find? (isHit d k) with
  | some b =>
    have hc : Caches d b k := by
      obtain ⟨hu, hk⟩ := isHit_iff.1 (List.find?_some hfind)
      exact ⟨List.mem_of_find?_eq_some hfind, hu, hk⟩
    dsimp only
    split
    · rename_i h
      simp only [Bool.and_eq_true, Bool.not_eq_true', Option.isNone_iff_eq_none] at h
      exact .hit b hc h.1 h.2
    · rename_i h
      refine .wait b hc ?_
      by_contra hno
      rw [not_or, Bool.not_eq_true, not_not] at hno
      simp [hno.1, hno.2] at h
  | none =>
    have hmiss : ∀ c, ¬Caches d c k := fun c hc =>
      List.find?_eq_none.1 hfind c hc.mem (isHit_iff.2 ⟨hc.used, hc.blkno⟩)
    cases hfree : d.list.reverse.find? (isFree d) with
    | some b =>
      exact .recycle b (List.mem_reverse.1 (List.mem_of_find?_eq_some hfree)) (List.find?_some hfree) hmiss
    | none =>
      refine .full (fun b hb => ?_) hmiss
      simpa using List.find?_eq_none.1 hfree b (List.mem_reverse.2 hb)

/-! ## Changes that touch no data -/

/-- `d'` has the buffers of `d`, perhaps in another order, with the same blocks and data. -/
structure SameData (d d' : BlkDev τ) : Prop where
  totalBlks : d'.totalBlks = d.totalBlks
  ramhead : d'.ramhead = d.ramhead
  ram : d'.ram = d.ram
  mem : ∀ b, b ∈ d'.list ↔ b ∈ d.list
  blkno : ∀ b, (d'.buf b).blkno = (d.buf b).blkno
  valid : ∀ b, (d'.buf b).flags.valid = (d.buf b).flags.valid
  dirty : ∀ b, (d'.buf b).flags.dirty = (d.buf b).flags.dirty
  unused : ∀ b, (d'.buf b).flags.unused = (d.buf b).flags.unused
  data : ∀ b, (d'.buf b).data = (d.buf b).data

theorem SameData.refl (d : BlkDev τ) : SameData d d :=
  ⟨rfl, rfl, rfl, fun _ => Iff.rfl, fun _ => rfl, fun _ => rfl, fun _ => rfl, fun _ => rfl, fun _ => rfl⟩

theorem SameData.caches {d d' : BlkDev τ} (h : SameData d d') {b k : Nat} : Caches d' b k ↔ Caches d b k := by
  constructor
  · rintro ⟨h1, h2, h3⟩
    exact ⟨(h.mem b).1 h1, h.unused b ▸ h2, h.blkno b ▸ h3⟩
  · rintro ⟨h1, h2, h3⟩
    exact ⟨(h.mem b).2 h1, (h.unused b).trans h2, (h.blkno b).trans h3⟩

theorem SameData.devBlock {d d' : BlkDev τ} (h : SameData d d') (k : Nat) : devBlock d' k = devBlock d k := by
  simp only [Bbuf.devBlock, seek, h.ram, h.ramhead]

theorem takeBuf_sameData (me : τ) (b : Nat) (d : BlkDev τ) : SameData d (takeBuf me b d) := by
  constructor <;> first | rfl | (intro c; by_cases hc : c = b <;> simp [takeBuf, upd_buf_ne, hc])

theorem releaseSection_sameData {b : Nat} {d : BlkDev τ} (hb : b ∈ d.list) :
    SameData d (releaseSection b d) := by
  constructor <;> first
    | rfl
    | (intro c; by_cases hc : c = b <;> simp [releaseSection, upd_buf_ne, hc, hb])

theorem notifySection_sameData (b : Nat) (d : BlkDev τ) : SameData d (notifySection b d).2 := by
  constructor <;> first | rfl | (intro c; by_cases hc : c = b <;> simp [notifySection, upd_buf_ne, hc])

theorem queueBuffer_eq (b : Nat) (d : BlkDev τ) : queueBuffer b d = { d with io := d.io.erase b ++ [b] } := by
  unfold queueBuffer
  split
  · rfl
  · rename_i h
    rw [List.erase_of_not_mem h]

theorem io_sameData (d : BlkDev τ) (io : List Nat) : SameData d { d with io := io } :=
  ⟨rfl, rfl, rfl, fun _ => Iff.rfl, fun _ => rfl, fun _ => rfl, fun _ => rfl, fun _ => rfl, fun _ => rfl⟩

/-! ## Data -/

structure Coherent (d : BlkDev τ) (L : Nat → Block) (p w : Nat → Prop) : Prop where
  fits : Fits d
  range : ∀ b k, Caches d b k → k < d.totalBlks
  data : ∀ b k, Caches d b k → (d.buf b).flags.valid = true ∨ (d.buf b).flags.dirty = true ∨ w b → ¬p b →
    (d.buf b).data = L k
  disk : ∀ k < d.totalBlks, (∀ b, Caches d b k → (d.buf b).flags.dirty = false ∧ ¬w b) → devBlock d k = L k

/-- A write to a buffer that leaves its block number and `B_UNUSED`. -/
def KeepsBlock (f : BufCache τ → BufCache τ) : Prop :=
  ∀ x, (f x).blkno = x.blkno ∧ (f x).flags.unused = x.flags.unused

theorem caches_upd {d : BlkDev τ} {f : BufCache τ → BufCache τ} (hf : KeepsBlock f) {b c k : Nat} :
    Caches (d.upd b f) c k ↔ Caches d c k := by
  have hsame : ((d.upd b f).buf c).blkno = (d.buf c).blkno ∧
      ((d.upd b f).buf c).flags.unused = (d.buf c).flags.unused := by
    by_cases hc : c = b
    · subst hc
      rw [upd_buf_self]
      exact hf _
    · rw [upd_buf_ne d f hc]
      exact ⟨rfl, rfl⟩
  constructor
  · rintro ⟨h1, h2, h3⟩
    exact ⟨h1, hsame.2 ▸ h2, hsame.1 ▸ h3⟩
  · rintro ⟨h1, h2, h3⟩
    exact ⟨h1, hsame.2.trans h2, hsame.1.trans h3⟩

theorem caches_recycle {d : BlkDev τ} {me : τ} {b c j k : Nat} (hm : b ∈ d.list) :
    Caches (recycleBuf me k b d) c j ↔ (c = b ∧ j = k) ∨ (c ≠ b ∧ Caches d c j) := by
  by_cases hcb : c = b
  · subst hcb
    constructor
    · rintro ⟨-, -, h3⟩
      exact .inl ⟨rfl, by simpa [recycleBuf] using h3.symm⟩
    · rintro (⟨-, rfl⟩ | ⟨hne, -⟩)
      · exact ⟨hm, by simp [recycleBuf, bBusy], by simp [recycleBuf]⟩
      · exact absurd rfl hne
  · have hbuf : (recycleBuf me k b d).buf c = d.buf c := upd_buf_ne _ _ hcb
    constructor
    · rintro ⟨h1, h2, h3⟩
      exact .inr ⟨hcb, h1, hbuf ▸ h2, hbuf ▸ h3⟩
    · rintro (⟨hc, -⟩ | ⟨-, h1, h2, h3⟩)
      · exact absurd hc hcb
      · exact ⟨h1, hbuf.symm ▸ h2, hbuf.symm ▸ h3⟩

/-! ## Identity is kept -/

namespace Ident

variable {d d' : BlkDev τ} {b k : Nat}

/-- One buffer in use is written, and keeps its block number. -/
theorem upd (hi : Ident d) {f : BufCache τ → BufCache τ} (hf : KeepsBlock f)
    (hu : (d.buf b).flags.unused = false)
    (husr : (f (d.buf b)).flags.busy = true ↔ (f (d.buf b)).usr ≠ none) : Ident (d.upd b f) := by
  refine ⟨hi.nodup, ?_, ?_, ?_⟩
  · intro c c' j hc hc'
    exact hi.uniq c c' j (caches_upd hf |>.1 hc) (caches_upd hf |>.1 hc')
  · intro c hc
    by_cases hcb : c = b
    · subst hcb
      rw [upd_buf_self]
      exact husr
    · rw [upd_buf_ne d f hcb]
      exact hi.usr c hc
  · intro c hc hun
    by_cases hcb : c = b
    · subst hcb
      rw [upd_buf_self, (hf _).2, hu] at hun
      cases hun
    · rw [upd_buf_ne d f hcb] at hun ⊢
      exact hi.fresh c hc hun

theorem take (hi : Ident d) (me : τ) (hu : (d.buf b).flags.unused = false) : Ident (takeBuf me b d) :=
  hi.upd (fun _ => ⟨rfl, rfl⟩) hu (by simp)

theorem recycle (hi : Ident d) (me : τ) (hm : b ∈ d.list) (hmiss : ∀ c, ¬Caches d c k) :
    Ident (recycleBuf me k b d) := by
  refine ⟨hi.nodup, ?_, ?_, ?_⟩
  · intro c c' j hc hc'
    rcases (caches_recycle hm).1 hc with ⟨rfl, rfl⟩ | ⟨-, hold⟩
    · rcases (caches_recycle hm).1 hc' with ⟨rfl, -⟩ | ⟨-, hold'⟩
      · rfl
      · exact absurd hold' (hmiss c')
    · rcases (caches_recycle hm).1 hc' with ⟨rfl, rfl⟩ | ⟨-, hold'⟩
      · exact absurd hold (hmiss c)
      · exact hi.uniq c c' j hold hold'
  · intro c hc
    by_cases hcb : c = b
    · subst hcb
      simp [recycleBuf, bBusy]
    · rw [recycleBuf, upd_buf_ne _ _ hcb]
      exact hi.usr c hc
  · intro c hc hun
    by_cases hcb : c = b
    · subst hcb
      simp [recycleBuf, bBusy] at hun
    · rw [recycleBuf, upd_buf_ne _ _ hcb] at hun ⊢
      exact hi.fresh c hc hun

/-- Another order of the buffers. -/
theorem perm (hi : Ident d) {l : List Nat} (hp : l.Perm d.list) : Ident { d with list := l } := by
  refine ⟨hp.nodup_iff.2 hi.nodup, ?_, fun c hc => hi.usr c (hp.mem_iff.1 hc),
    fun c hc => hi.fresh c (hp.mem_iff.1 hc)⟩
  intro c c' j hc hc'
  exact hi.uniq c c' j ⟨hp.mem_iff.1 hc.mem, hc.used, hc.blkno⟩ ⟨hp.mem_iff.1 hc'.mem, hc'.used, hc'.blkno⟩

/-- Identity does not depend on the disk and the io queue. -/
theorem ramIo (hi : Ident d) (ram : Nat → UInt8) (io : List Nat) : Ident { d with ram := ram, io := io } :=
  ⟨hi.nodup, fun c c' j h h' => hi.uniq c c' j ⟨h.mem, h.used, h.blkno⟩ ⟨h'.mem, h'.used, h'.blkno⟩,
    hi.usr, hi.fresh⟩

theorem release (hi : Ident d) (hm : b ∈ d.list) (hu : (d.buf b).flags.unused = false) :
    Ident (releaseSection b d) := by
  have h : Ident (d.upd b fun x => { x with flags := { x.flags with busy := false }, usr := none }) :=
    hi.upd (fun _ => ⟨rfl, rfl⟩) hu (by simp)
  exact h.perm (List.perm_cons_erase hm).symm

/-- Identity does not depend on the waiters. -/
theorem setWq (hi : Ident d) (b : Nat) (f : List τ → List τ) :
    Ident (d.upd b fun x => { x with wq := f x.wq }) := by
  have hkeep : KeepsBlock fun x : BufCache τ => { x with wq := f x.wq } := fun _ => ⟨rfl, rfl⟩
  have hbuf : ∀ c, ((d.upd b fun x => { x with wq := f x.wq }).buf c).flags = (d.buf c).flags ∧
      ((d.upd b fun x => { x with wq := f x.wq }).buf c).usr = (d.buf c).usr := by
    intro c
    by_cases hc : c = b
    · rw [hc, upd_buf_self]
      exact ⟨rfl, rfl⟩
    · rw [upd_buf_ne _ _ hc]
      exact ⟨rfl, rfl⟩
  refine ⟨hi.nodup, ?_, ?_, ?_⟩
  · intro c c' j hc hc'
    exact hi.uniq c c' j (caches_upd hkeep |>.1 hc) (caches_upd hkeep |>.1 hc')
  · intro c hc
    rw [(hbuf c).1, (hbuf c).2]
    exact hi.usr c hc
  · intro c hc
    rw [(hbuf c).1]
    exact hi.fresh c hc

theorem notify (hi : Ident d) (b : Nat) : Ident (notifySection b d).2 := hi.setWq b List.tail

end Ident

namespace Coherent

variable {d d' : BlkDev τ} {L : Nat → Block} {p p' w w' : Nat → Prop} {b k : Nat}

theorem congr (h : Coherent d L p w) (hs : SameData d d') : Coherent d' L p w := by
  refine ⟨?_, ?_, ?_, ?_⟩
  · have := h.fits
    rwa [Fits, ← hs.ramhead, ← hs.totalBlks] at this
  · intro c j hc
    rw [hs.totalBlks]
    exact h.range c j (hs.caches.1 hc)
  · intro c j hc hv hp
    rw [hs.valid, hs.dirty] at hv
    rw [hs.data]
    exact h.data c j (hs.caches.1 hc) hv hp
  · intro j hj hclean
    rw [hs.totalBlks] at hj
    rw [hs.devBlock]
    refine h.disk j hj fun c hc => ?_
    have := hclean c (hs.caches.2 hc)
    rwa [hs.dirty] at this

/-- A buffer no writer holds, for a block that no other one has. -/
theorem disk_of_clean (h : Coherent d L p w) (hi : Ident d) (hc : Caches d b k)
    (hd : (d.buf b).flags.dirty = false) (hw : ¬w b) : devBlock d k = L k := by
  refine h.disk k (h.range b k hc) fun c hck => ?_
  rw [hi.uniq c b k hck hc]
  exact ⟨hd, hw⟩

/-- Reuse of a free buffer for a block that is not cached: the block it had is right on the disk. -/
theorem recycle (h : Coherent d L p w) (me : τ) (hk : k < d.totalBlks) (hm : b ∈ d.list)
    (hf : isFree d b = true) (hw : ¬w b) (hmiss : ∀ c, ¬Caches d c k) :
    Coherent (recycleBuf me k b d) L p w := by
  refine ⟨h.fits, ?_, ?_, ?_⟩
  · intro c j hc
    rcases (caches_recycle hm).1 hc with ⟨-, rfl⟩ | ⟨-, hc'⟩
    · exact hk
    · exact h.range c j hc'
  · intro c j hc hv hp
    rcases (caches_recycle hm).1 hc with ⟨rfl, -⟩ | ⟨hcb, hc'⟩
    · simp [recycleBuf, bBusy, hw] at hv
    · rw [recycleBuf, upd_buf_ne _ _ hcb] at hv ⊢
      exact h.data c j hc' hv hp
  · intro j hj hclean
    refine h.disk j hj fun c hc => ?_
    by_cases hcb : c = b
    · -- the block the buffer had: it was free and used, so it was not dirty
      subst hcb
      rcases isFree_iff.1 hf with ⟨-, hd⟩ | hu
      · exact ⟨hd, hw⟩
      · rw [hc.used] at hu
        cases hu
    · have := hclean c ((caches_recycle hm).2 (.inr ⟨hcb, hc⟩))
      rwa [recycleBuf, upd_buf_ne _ _ hcb] at this

/-- A writer of block `k` is given the buffer: from now on the block should hold its data `v`. -/
theorem grant (h : Coherent d L p w) (hi : Ident d) (hc : Caches d b k) (v : Block) :
    Coherent d (Function.update L k v) (fun c => c = b ∨ p c) (fun c => c = b ∨ w c) := by
  refine ⟨h.fits, h.range, ?_, ?_⟩
  · intro c j hcj hv hp
    rw [not_or] at hp
    have hjk : j ≠ k := by
      rintro rfl
      exact hp.1 (hi.uniq c b j hcj hc)
    rw [Function.update_of_ne hjk]
    refine h.data c j hcj ?_ hp.2
    rcases hv with hv | hv | hv
    · exact .inl hv
    · exact .inr (.inl hv)
    · exact .inr (.inr (hv.resolve_left hp.1))
  · intro j hj hclean
    have hjk : j ≠ k := by
      rintro rfl
      exact (hclean b hc).2 (.inl rfl)
    rw [Function.update_of_ne hjk]
    refine h.disk j hj fun c hcj => ?_
    obtain ⟨hd, hw⟩ := hclean c hcj
    exact ⟨hd, fun hw' => hw (.inr hw')⟩

/-- One buffer's data and flags are written, and the writers at it change: the other buffers stay as
they are, so only that buffer is to be checked. -/
theorem upd (h : Coherent d L p w) {f : BufCache τ → BufCache τ} (hf : KeepsBlock f)
    (hp : ∀ c, c ≠ b → p c → p' c) (hw : ∀ c, c ≠ b → (w' c ↔ w c))
    (hdata : ∀ k, Caches d b k → (f (d.buf b)).flags.valid = true ∨ (f (d.buf b)).flags.dirty = true ∨ w' b →
      ¬p' b → (f (d.buf b)).data = L k)
    (hdisk : ∀ k, Caches d b k → (f (d.buf b)).flags.dirty = false → ¬w' b → Bbuf.devBlock d k = L k) :
    Coherent (d.upd b f) L p' w' := by
  refine ⟨h.fits, fun c j hc => h.range c j (caches_upd hf |>.1 hc), ?_, ?_⟩
  · intro c j hc hv hp'
    rw [caches_upd hf] at hc
    by_cases hcb : c = b
    · subst hcb
      rw [upd_buf_self] at hv ⊢
      exact hdata j hc hv hp'
    · rw [upd_buf_ne d f hcb, hw c hcb] at hv
      rw [upd_buf_ne d f hcb]
      exact h.data c j hc hv fun hpc => hp' (hp c hcb hpc)
  · intro j hj hclean
    show Bbuf.devBlock d j = L j
    by_cases hbj : Caches d b j
    · have := hclean b (caches_upd hf |>.2 hbj)
      rw [upd_buf_self] at this
      exact hdisk j hbj this.1 this.2
    · refine h.disk j hj fun c hc => ?_
      have hcb : c ≠ b := by
        rintro rfl
        exact hbj hc
      have := hclean c (caches_upd hf |>.2 hc)
      rwa [upd_buf_ne d f hcb, hw c hcb] at this

/-- The right data is copied into a buffer. -/
theorem store (h : Coherent d L p w) (hi : Ident d) (hc : Caches d b k)
    (hp : ∀ c, c ≠ b → p c → p' c) : Coherent (setData b (L k) d) L p' w := by
  have hkeep : KeepsBlock fun x : BufCache τ => { x with data := L k } := fun _ => ⟨rfl, rfl⟩
  refine h.upd hkeep hp (fun _ _ => Iff.rfl) ?_ ?_
  · intro j hj _ _
    rw [← hj.blkno, hc.blkno]
  · intro j hj hd hw
    exact h.disk_of_clean hi hj hd hw

/-- A writer that has copied its data marks the buffer dirty and is done with it. -/
theorem markDirty (h : Coherent d L p w) (hwb : w b) (hpb : ¬p b) (hp : ∀ c, p c → p' c)
    (hw : ∀ c, c ≠ b → (w' c ↔ w c)) : Coherent (setDirty b true d) L p' w' := by
  have hkeep : KeepsBlock fun x : BufCache τ => { x with flags := { x.flags with dirty := true } } :=
    fun _ => ⟨rfl, rfl⟩
  refine h.upd hkeep (fun c _ => hp c) hw ?_ ?_
  · intro j hj _ _
    exact h.data b j hj (.inr (.inr hwb)) hpb
  · intro j hj hd _
    cases hd

/-- The buffer is marked clean: its block is right on the disk, or a writer is still going to mark it. -/
theorem markClean (h : Coherent d L p w) (hok : ∀ k, Caches d b k → ¬w b → Bbuf.devBlock d k = L k) :
    Coherent (setDirty b false d) L p w := by
  have hkeep : KeepsBlock fun x : BufCache τ => { x with flags := { x.flags with dirty := false } } :=
    fun _ => ⟨rfl, rfl⟩
  refine h.upd hkeep (fun _ _ => id) (fun _ _ => Iff.rfl) ?_ ?_
  · intro j hj hv hpb
    refine h.data b j hj ?_ hpb
    rcases hv with hv | hv | hv
    · exact .inl hv
    · cases hv
    · exact .inr (.inr hv)
  · intro j hj _ hw
    exact hok j hj hw

/-- A buffer with the right data is marked valid. -/
theorem markValid (h : Coherent d L p w) (hi : Ident d) (hd : ∀ k, Caches d b k → (d.buf b).data = L k) :
    Coherent (setValid b d) L p w := by
  have hkeep : KeepsBlock fun x : BufCache τ => { x with flags := { x.flags with valid := true } } :=
    fun _ => ⟨rfl, rfl⟩
  refine h.upd hkeep (fun _ _ => id) (fun _ _ => Iff.rfl) ?_ ?_
  · intro j hj _ _
    exact hd j hj
  · intro j hj hdirty hw
    exact h.disk_of_clean hi hj hdirty hw

/-- A dirty buffer is written to the disk. -/
theorem flush (h : Coherent d L p w) (hc : Caches d b k) (hd : (d.buf b).flags.dirty = true) :
    Coherent { d with ram := copyTo d.ram (seek d k) (d.buf b).data } L p w := by
  refine ⟨h.fits, fun c j hcj => h.range c j ⟨hcj.mem, hcj.used, hcj.blkno⟩,
    fun c j hcj hv hp => h.data c j ⟨hcj.mem, hcj.used, hcj.blkno⟩ hv hp, ?_⟩
  intro j hj hclean
  have hjk : j ≠ k := by
    rintro rfl
    have := (hclean b ⟨hc.mem, hc.used, hc.blkno⟩).1
    rw [hd] at this
    cases this
  refine (devBlock_write_ne h.fits (h.range b k hc) hj hjk _).trans (h.disk j hj fun c hcj => ?_)
  exact hclean c ⟨hcj.mem, hcj.used, hcj.blkno⟩

end Coherent

end RedMagic.Bbuf
