import RedMagic.Bbuf.Recency
import RedMagic.Bbuf.Veil

/-!
# What a failed read hands out

`bdev_read_buffer` copies the buffer to the caller whatever the status is, and `get_buffer` does not clear the
buffer it recycles: a read past the end of the device gets what the last user of the buffer left there.
Two runs that differ only in what is written are compared: `Alike` says that two devices agree on all but
the bytes of blocks, and on these as well where a failed read can see them (`Quiet`). One call after the other
keeps it, unless a read past the end recycles a buffer that holds a block of the device.
-/

namespace RedMagic.Bbuf

open Fallible

variable {τ : Type} {d d' e e' : BlkDev τ} {held : Option Nat} {n b c k : Nat} {me : τ}

/-! ## Two devices -/

/-- A buffer without its bytes. -/
def ctl (x : BufCache τ) : Nat × Flags × Option τ × List τ := (x.blkno, x.flags, x.usr, x.wq)

theorem ctl_eq {x y : BufCache τ} :
    ctl x = ctl y ↔ x.blkno = y.blkno ∧ x.flags = y.flags ∧ x.usr = y.usr ∧ x.wq = y.wq := by
  simp [ctl]

/-- A failed read of this buffer is possible now, or once it is recycled. -/
def Quiet (n : Nat) (x : BufCache τ) : Prop := x.flags.unused = true ∨ (n ≤ x.blkno ∧ x.flags.dirty = false)

/-- The same device but for the bytes of the blocks; the bytes of `held` are not looked at. -/
structure Alike (held : Option Nat) (d e : BlkDev τ) : Prop where
  totalBlks : e.totalBlks = d.totalBlks
  list : e.list = d.list
  io : e.io = d.io
  ctl : ∀ b, ctl (e.buf b) = ctl (d.buf b)
  quiet : ∀ b, some b ≠ held → Quiet d.totalBlks (d.buf b) → (e.buf b).data = (d.buf b).data

namespace Alike

theorem refl (held : Option Nat) (d : BlkDev τ) : Alike held d d :=
  ⟨rfl, rfl, rfl, fun _ => rfl, fun _ _ _ => rfl⟩

theorem blkno (h : Alike held d e) (b : Nat) : (e.buf b).blkno = (d.buf b).blkno :=
  (ctl_eq.1 (h.ctl b)).1

theorem flags (h : Alike held d e) (b : Nat) : (e.buf b).flags = (d.buf b).flags :=
  (ctl_eq.1 (h.ctl b)).2.1

theorem usr (h : Alike held d e) (b : Nat) : (e.buf b).usr = (d.buf b).usr := (ctl_eq.1 (h.ctl b)).2.2.1

theorem weaken (h : Alike none d e) (held : Option Nat) : Alike held d e :=
  ⟨h.totalBlks, h.list, h.io, h.ctl, fun b _ => h.quiet b (Option.some_ne_none b)⟩

/-- One buffer is written in both. -/
theorem upd {held' : Option Nat} (h : Alike held d e) {f g : BufCache τ → BufCache τ}
    (hctl : Bbuf.ctl (g (e.buf b)) = Bbuf.ctl (f (d.buf b)))
    (hother : ∀ c, c ≠ b → some c ≠ held' → some c ≠ held)
    (hquiet : some b ≠ held' → Quiet d.totalBlks (f (d.buf b)) → (g (e.buf b)).data = (f (d.buf b)).data) :
    Alike held' (d.upd b f) (e.upd b g) where
  totalBlks := h.totalBlks
  list := h.list
  io := h.io
  ctl c := by
    by_cases hcb : c = b
    · rw [hcb, upd_buf_self, upd_buf_self, hctl]
    · rw [upd_buf_ne e g hcb, upd_buf_ne d f hcb, h.ctl]
  quiet c hc hq := by
    by_cases hcb : c = b
    · rw [hcb] at hc hq ⊢
      rw [upd_buf_self] at hq ⊢
      rw [upd_buf_self]
      exact hquiet hc hq
    · rw [upd_buf_ne d f hcb] at hq ⊢
      rw [upd_buf_ne e g hcb]
      exact h.quiet c (hother c hcb hc) hq

/-- The bytes of the disks, and the places in the io queues, may be any. -/
theorem ramIo (h : Alike held d e) (ram ram' : Nat → UInt8) (io : List Nat) :
    Alike held { d with ram := ram, io := io } { e with ram := ram', io := io } :=
  ⟨h.totalBlks, h.list, rfl, h.ctl, h.quiet⟩

/-- A write that is the same on both sides and makes no buffer quiet. -/
theorem updSame (h : Alike held d e) {f : BufCache τ → BufCache τ}
    (hctl : ∀ x y : BufCache τ, Bbuf.ctl x = Bbuf.ctl y → Bbuf.ctl (f x) = Bbuf.ctl (f y))
    (hdata : ∀ x : BufCache τ, (f x).data = x.data)
    (hq : Quiet d.totalBlks (f (d.buf b)) → Quiet d.totalBlks (d.buf b)) :
    Alike held (d.upd b f) (e.upd b f) := by
  refine h.upd (hctl _ _ (h.ctl b)) (fun c _ hc => hc) fun hb hfq => ?_
  rw [hdata, hdata]
  exact h.quiet b hb (hq hfq)

end Alike

/-! ## The functions, side by side -/

theorem Alike.flushed (h : Alike held d e) (hr : (d.buf b).blkno < d.totalBlks) :
    Alike held (flushed b d) (flushed b e) := by
  have h₁ := h.ramIo (copyTo d.ram (seek d (d.buf b).blkno) (d.buf b).data)
    (copyTo e.ram (seek e (e.buf b).blkno) (e.buf b).data) (d.io.erase b)
  have he : Bbuf.flushed b e = setDirty b false
      { e with ram := copyTo e.ram (seek e (e.buf b).blkno) (e.buf b).data, io := d.io.erase b } := by
    rw [Bbuf.flushed, dequeueBuffer, h.io]
  rw [he]
  refine h₁.updSame (f := fun x => { x with flags := { x.flags with dirty := false } }) ?_ (fun _ => rfl) ?_
  · intro x y hxy
    obtain ⟨hb, hf, hu, hw⟩ := ctl_eq.1 hxy
    exact ctl_eq.2 ⟨hb, by rw [hf], hu, hw⟩
  · rintro (hu | ⟨hle, -⟩)
    · exact .inl hu
    · exact absurd hle (Nat.not_le.2 hr)

theorem Alike.syncLoop : ∀ (todo : List Nat) (rv : Nat) {d e : BlkDev τ}, Alike held d e →
    Lockstep (fun p q => q.1 = p.1 ∧ Alike held p.2 q.2) (syncLoop todo rv d) (syncLoop todo rv e)
  | [], rv, d, e, h => .ok ⟨rfl, h⟩
  | b :: todo, rv, d, e, h => by
    rw [Bbuf.syncLoop, Bbuf.syncLoop, h.flags b]
    by_cases hd : (d.buf b).flags.dirty = true
    · have hde : (e.buf b).flags.dirty = true := by rw [h.flags b, hd]
      rw [if_pos hd, if_pos hd]
      by_cases hr : (d.buf b).blkno < d.totalBlks
      · have hre : (e.buf b).blkno < e.totalBlks := by rwa [h.blkno, h.totalBlks]
        rw [ramfsWriteBlock_ok hd hr, ramfsWriteBlock_ok hde hre]
        exact Alike.syncLoop todo rv (h.flushed hr)
      · have hre : e.totalBlks ≤ (e.buf b).blkno := by
          rw [h.blkno, h.totalBlks]
          exact Nat.not_lt.1 hr
        rw [ramfsWriteBlock_refused hd (Nat.not_lt.1 hr), ramfsWriteBlock_refused hde hre]
        exact Alike.syncLoop todo (rv + 1) h
    · rw [if_neg hd, if_neg hd]
      exact Alike.syncLoop todo rv h

theorem Alike.syncBuffer (h : Alike held d e) :
    Lockstep (fun p q => q.1 = p.1 ∧ Alike held p.2 q.2) (syncBuffer d) (syncBuffer e) := by
  rw [Bbuf.syncBuffer, Bbuf.syncBuffer, h.io]
  exact Alike.syncLoop d.io 0 h

theorem Alike.isHit (h : Alike held d e) (k : Nat) : isHit e k = isHit d k := by
  funext b
  rw [Bbuf.isHit, Bbuf.isHit, h.flags, h.blkno]

theorem Alike.isFree (h : Alike held d e) : isFree e = isFree d := by
  funext b
  rw [Bbuf.isFree, Bbuf.isFree, h.flags]

theorem Alike.takeBuf (h : Alike held d e) (me : τ) (b : Nat) : Alike held (takeBuf me b d) (takeBuf me b e) := by
  refine h.updSame (f := fun x => { x with flags := { x.flags with busy := true }, usr := some me }) ?_ (fun _ => rfl) id
  intro x y hxy
  obtain ⟨hb, hf, -, hw⟩ := ctl_eq.1 hxy
  exact ctl_eq.2 ⟨hb, by rw [hf], rfl, hw⟩

/-- The buffer that is recycled keeps its bytes. -/
theorem Alike.recycleBuf {held' : Option Nat} (h : Alike none d e) (me : τ) (k b : Nat)
    (hq : some b ≠ held' → d.totalBlks ≤ k → Quiet d.totalBlks (d.buf b)) :
    Alike held' (recycleBuf me k b d) (recycleBuf me k b e) := by
  refine h.upd ?_ (fun c _ _ => Option.some_ne_none c) ?_
  · exact ctl_eq.2 ⟨rfl, rfl, rfl, (ctl_eq.1 (h.ctl b)).2.2.2⟩
  · rintro hb (hu | ⟨hle, -⟩)
    · cases hu
    · exact h.quiet b (Option.some_ne_none b) (hq hb hle)

/-- The buffer that the caller is given. -/
def Got.given : Got → Option Nat
  | .buf b => some b
  | _ => Option.none

/-- The block is in the device or cached, or `get_buffer` finds a buffer that holds no block of the device. -/
def NoLeftover (k : Nat) (d : BlkDev τ) : Prop :=
  d.totalBlks ≤ k → (∀ c, ¬ Caches d c k) →
    ∃ b, d.list.reverse.find? (isFree d) = some b ∧
      ((d.buf b).flags.unused = true ∨ d.totalBlks ≤ (d.buf b).blkno)

/-- The search of `get_buffer` ends the same way, and gives the two callers buffers with the same bytes if
no block is left over in them. -/
theorem Alike.getSection (h : Alike none d e) (me : τ) (k : Nat) :
    (getSection me k e).1 = (getSection me k d).1 ∧
      Alike (getSection me k d).1.given (getSection me k d).2 (getSection me k e).2 ∧
      (NoLeftover k d → Alike none (getSection me k d).2 (getSection me k e).2) := by
  rw [Bbuf.getSection, Bbuf.getSection, h.list, h.isHit, h.isFree]
  cases hfind : d.list.find? (Bbuf.isHit d k) with
  | some b =>
    dsimp only
    rw [h.flags, h.usr]
    split
    · have h' := h.takeBuf me b
      exact ⟨rfl, h'.weaken _, fun _ => h'⟩
    · exact ⟨rfl, h, fun _ => h⟩
  | none =>
    have hmiss : ∀ c, ¬ Caches d c k := fun c hc =>
      List.find?_eq_none.1 hfind c hc.mem (isHit_iff.2 ⟨hc.used, hc.blkno⟩)
    cases hfree : d.list.reverse.find? (Bbuf.isFree d) with
    | some b =>
      refine ⟨rfl, h.recycleBuf me k b fun hne => absurd rfl hne, fun hsafe => h.recycleBuf me k b fun _ hle => ?_⟩
      obtain ⟨b', hb', hq⟩ := hsafe hle hmiss
      rw [hfree, Option.some.injEq] at hb'
      subst hb'
      rcases hq with hu | hv
      · exact .inl hu
      · rcases isFree_iff.1 (List.find?_some hfree) with ⟨-, hd⟩ | hu
        · exact .inr ⟨hv, hd⟩
        · exact .inl hu
    | none => exact ⟨rfl, h, fun _ => h⟩

/-- `get_buffer` for block `k` gives both callers the same buffer. -/
structure GotAlike (k : Nat) (safe : Prop) (p q : Nat × BlkDev τ) : Prop where
  same : q.1 = p.1
  used : (p.2.buf p.1).flags.unused = false
  blkno : (p.2.buf p.1).blkno = k
  other : Alike (some p.1) p.2 q.2
  all : safe → Alike none p.2 q.2

/-- A search that finds no free buffer leaves nothing over: the block is in the device, before and after
the flush. -/
theorem NoLeftover.retry {rv : Nat} (h : NoLeftover k d) (hfull : getSection me k d = (.none, d))
    (hsync : Bbuf.syncBuffer d = .ok (rv, d')) : NoLeftover k d' := by
  have hspec := getSection_spec me k d
  rw [hfull] at hspec
  cases hspec with
  | full hfree hmiss =>
    rw [NoLeftover, (syncBuffer_keeps hsync).totalBlks]
    intro hle
    obtain ⟨b, hb, -⟩ := h hle hmiss
    have hmem : b ∈ d.list := List.mem_reverse.1 (List.mem_of_find?_eq_some hb)
    have hfr := List.find?_some hb
    rw [hfree b hmem] at hfr
    cases hfr

theorem Alike.getBuffer (me : τ) (k : Nat) : ∀ (left : Nat) {d e : BlkDev τ}, Alike none d e →
    Lockstep (GotAlike k (NoLeftover k d)) (getBuffer me k left d) (getBuffer me k left e)
  | left, d, e, h => by
    obtain ⟨hgot, hother, hall⟩ := h.getSection me k
    rw [Bbuf.getBuffer, Bbuf.getBuffer]
    cases hsd : Bbuf.getSection me k d with
    | mk g d₁ =>
      cases hse : Bbuf.getSection me k e with
      | mk g' e₁ =>
        simp only [hsd, hse] at hgot hother hall
        subst hgot
        cases g' with
        | buf b =>
          have hc := getSection_caches hsd
          exact .ok ⟨rfl, hc.used, hc.blkno, hother, hall⟩
        | wait b => exact .error _
        | none =>
          obtain rfl := getSection_none hsd
          obtain rfl := getSection_none hse
          cases left with
          | zero => exact .error _
          | succ left =>
            refine h.syncBuffer.bind fun p q hsync hpq => ?_
            refine (Alike.getBuffer me k left hpq.2).mono fun p' q' hgot => ?_
            exact ⟨hgot.same, hgot.used, hgot.blkno, hgot.other, fun hsafe => hgot.all (hsafe.retry hsd hsync)⟩

theorem Alike.release (h : Alike held d e) (b : Nat) :
    Alike held (notifySection b (releaseSection b d)).2 (notifySection b (releaseSection b e)).2 := by
  have h₁ : Alike held (releaseSection b d) (releaseSection b e) := by
    have h₂ := h.updSame (b := b) (f := fun x => { x with flags := { x.flags with busy := false }, usr := none })
      (fun x y hxy => by
        obtain ⟨hb, hf, -, hw⟩ := ctl_eq.1 hxy
        exact ctl_eq.2 ⟨hb, by rw [hf], rfl, hw⟩) (fun _ => rfl) id
    refine ⟨h₂.totalBlks, ?_, h₂.io, h₂.ctl, h₂.quiet⟩
    show b :: e.list.erase b = b :: d.list.erase b
    rw [h.list]
  refine h₁.updSame (f := fun x => { x with wq := x.wq.tail }) (fun x y hxy => ?_) (fun _ => rfl) id
  obtain ⟨hb, hf, hu, hw⟩ := ctl_eq.1 hxy
  exact ctl_eq.2 ⟨hb, hf, hu, by rw [hw]⟩

/-- What two callers do with the buffer they are given. -/
theorem Alike.withBuffer {α : Type} {S : α → α → Prop} (h : Alike none d e) (me : τ) (k : Nat)
    {f g : Nat × BlkDev τ → Except Halt α}
    (hfg : ∀ b d₁ e₁, GotAlike k (NoLeftover k d) (b, d₁) (b, e₁) → Lockstep S (f (b, d₁)) (g (b, e₁))) :
    Lockstep S (Bbuf.getBuffer me k maxBgetRetry d >>= f) (Bbuf.getBuffer me k maxBgetRetry e >>= g) := by
  refine (Alike.getBuffer me k maxBgetRetry h).bind fun p q _ hgot => ?_
  obtain ⟨b, d₁⟩ := p
  obtain ⟨b', e₁⟩ := q
  obtain rfl : b' = b := hgot.same
  exact hfg b' d₁ e₁ hgot

/-- A buffer with a block of the device, or with a written one, is not quiet. -/
theorem not_quiet_of_range {x : BufCache τ} (hu : x.flags.unused = false) (hk : x.blkno < n) : ¬ Quiet n x := by
  rintro (hu' | ⟨hle, -⟩)
  · rw [hu] at hu'
    cases hu'
  · exact absurd hle (Nat.not_le.2 hk)

theorem not_quiet_of_dirty {x : BufCache τ} (hu : x.flags.unused = false) (hd : x.flags.dirty = true) :
    ¬ Quiet n x := by
  rintro (hu' | ⟨-, hd'⟩)
  · rw [hu] at hu'
    cases hu'
  · rw [hd] at hd'
    cases hd'

/-- `update_buffer` copies a block of the device, or refuses the block number and leaves the bytes. -/
theorem Alike.fill (h : Alike none d e) (hu : (d.buf b).flags.unused = false) :
    Lockstep (fun p q => q.1 = p.1 ∧ Alike none p.2 q.2 ∧ (p.1 ≠ 0 → (q.2.buf b).data = (p.2.buf b).data))
      (fill b d) (fill b e) := by
  rw [Bbuf.fill, Bbuf.fill]
  cases hd : (d.buf b).flags.dirty with
  | true =>
    have hde : (e.buf b).flags.dirty = true := by rw [h.flags b, hd]
    rw [ramfsReadBlock, ramfsReadBlock, if_pos hd, if_pos hde]
    exact .error _
  | false =>
    have hde : (e.buf b).flags.dirty = false := by rw [h.flags b, hd]
    by_cases hr : (d.buf b).blkno < d.totalBlks
    · have hre : (e.buf b).blkno < e.totalBlks := by rwa [h.blkno, h.totalBlks]
      rw [ramfsReadBlock_ok hd hr, ramfsReadBlock_ok hde hre]
      have h₁ : Alike none (setData b (devBlock d (d.buf b).blkno) d) (setData b (devBlock e (e.buf b).blkno) e) := by
        refine h.upd (ctl_eq.2 (ctl_eq.1 (h.ctl b))) (fun c _ _ => Option.some_ne_none c) fun _ hq => ?_
        exact absurd hq (not_quiet_of_range hu hr)
      refine .ok ⟨rfl, h₁.updSame (f := fun x => { x with flags := { x.flags with valid := true } })
        (fun x y hxy => ?_) (fun _ => rfl) id, fun hne => absurd rfl hne⟩
      obtain ⟨hb, hf, husr, hw⟩ := ctl_eq.1 hxy
      exact ctl_eq.2 ⟨hb, by rw [hf], husr, hw⟩
    · have hle := Nat.not_lt.1 hr
      have hle' : e.totalBlks ≤ (e.buf b).blkno := by rwa [h.blkno, h.totalBlks]
      rw [ramfsReadBlock_refused hd hle, ramfsReadBlock_refused hde hle']
      exact .ok ⟨rfl, h, fun _ => h.quiet b (Option.some_ne_none b) (.inr ⟨hle, hd⟩)⟩

/-- Different bytes are written, and the buffer is marked dirty: no failed read sees them. -/
theorem Alike.store (h : Alike (some b) d e) (hu : (d.buf b).flags.unused = false) (v v' : Block) :
    Alike none (queueBuffer b (setDirty b true (setData b v d))) (queueBuffer b (setDirty b true (setData b v' e))) := by
  have h₁ : Alike (some b) (setData b v d) (setData b v' e) :=
    h.upd (ctl_eq.2 (ctl_eq.1 (h.ctl b))) (fun _ _ hc => hc) fun hne => absurd rfl hne
  have h₂ : Alike none (setDirty b true (setData b v d)) (setDirty b true (setData b v' e)) := by
    refine h₁.upd ?_ (fun c hcb _ hs => hcb (Option.some.inj hs)) fun _ hq => ?_
    · obtain ⟨hb, hf, husr, hw⟩ := ctl_eq.1 (h₁.ctl b)
      exact ctl_eq.2 ⟨hb, by rw [hf], husr, hw⟩
    · exact absurd hq (not_quiet_of_dirty (by simpa [setData] using hu) rfl)
  rw [queueBuffer_eq, queueBuffer_eq, h₂.io]
  exact h₂.ramIo _ _ _

theorem Alike.sync (h : Alike none d e) :
    Lockstep (fun p q => q.1 = p.1 ∧ Alike none p.2 q.2) (bdevSyncBuffer d) (bdevSyncBuffer e) :=
  h.syncBuffer.bind fun _ _ _ hpq => .ok ⟨congrArg Nat.cast hpq.1, hpq.2⟩

section
variable [DecidableEq τ]

theorem Alike.releaseBuffer (h : Alike held d e) (me : τ) (b : Nat) :
    Lockstep (Alike held) (releaseBuffer me b d) (releaseBuffer me b e) := by
  rw [Bbuf.releaseBuffer, Bbuf.releaseBuffer, h.usr]
  split
  · exact .ok (h.release b)
  · exact .error _

/-- The results of two reads: a failed one hands out the same bytes. -/
structure ReadAlike (p q : Int × Block × BlkDev τ) : Prop where
  status : q.1 = p.1
  failed : p.1 ≠ 0 → q.2.1 = p.2.1
  dev : Alike none p.2.2 q.2.2

theorem Alike.readOut (h : Alike none d e) (me : τ) {status : Int}
    (hd : status ≠ 0 → (e.buf b).data = (d.buf b).data) :
    Lockstep ReadAlike (readOut me b status d) (readOut me b status e) :=
  (h.releaseBuffer me b).bind fun _ _ _ h' => .ok ⟨rfl, hd, h'⟩

theorem Alike.fillOut (h : Alike none d e) (hu : (d.buf b).flags.unused = false) (me : τ) :
    Lockstep ReadAlike (Bbuf.fill b d >>= fun q => Bbuf.readOut me b q.1 q.2)
      (Bbuf.fill b e >>= fun q => Bbuf.readOut me b q.1 q.2) := by
  refine (h.fill hu).bind fun p q _ hpq => ?_
  rw [hpq.1]
  exact hpq.2.1.readOut me hpq.2.2

theorem Alike.read (h : Alike none d e) (me : τ) (data : Block) (hsafe : NoLeftover k d) :
    Lockstep ReadAlike (bdevReadBuffer me k data d) (bdevReadBuffer me k data e) := by
  refine h.withBuffer me k fun b d₁ e₁ hgot => ?_
  have h₁ := hgot.all hsafe
  dsimp only at h₁ ⊢
  rw [h₁.flags]
  split
  · exact h₁.readOut me fun hne => absurd rfl hne
  · split
    · refine h₁.syncBuffer.bind fun p q hsync hpq => ?_
      rw [hpq.1]
      split
      · refine hpq.2.fillOut ?_ me
        rw [(syncBuffer_keeps hsync).unused]
        exact hgot.used
      · exact (hpq.2.releaseBuffer me b).bind fun _ _ _ h' => .ok ⟨rfl, fun _ => rfl, h'⟩
    · exact h₁.fillOut hgot.used me

theorem Alike.write (h : Alike none d e) (me : τ) (k : Nat) (v v' : Block) :
    Lockstep (fun p q => q.1 = p.1 ∧ Alike none p.2 q.2) (bdevWriteBuffer me k v d) (bdevWriteBuffer me k v' e) := by
  refine h.withBuffer me k fun b d₁ e₁ hgot => ?_
  have h₁ := hgot.other.store hgot.used v v'
  exact (h₁.releaseBuffer me b).bind fun _ _ _ h' => .ok ⟨rfl, h'⟩

end

/-! ## Two runs -/

/-- The same call but for the data that is written. -/
def SameCall : Req → Req → Prop
  | .read k data, .read k' data' => k' = k ∧ data' = data
  | .write k _, .write k' _ => k' = k
  | .sync, .sync => True
  | _, _ => False

/-- The same status, and if a read failed, the same bytes in the caller's array. -/
def SameFailure : Resp → Resp → Prop
  | .read status out, .read status' out' => status' = status ∧ (status ≠ 0 → out' = out)
  | .write status, .write status' => status' = status
  | .sync rv, .sync rv' => rv' = rv
  | _, _ => False

/-- A read is made when no block of the device is left over in the buffer that it would recycle. -/
def Req.Discreet (d : BlkDev τ) : Req → Prop
  | .read k _ => NoLeftover k d
  | _ => True

section
variable [DecidableEq τ]

def DiscreetRun (me : τ) : List Req → BlkDev τ → Prop
  | [], _ => True
  | r :: rs, d => r.Discreet d ∧ ∀ a d', serve me r d = .ok (a, d') → DiscreetRun me rs d'

theorem Alike.serve (h : Alike none d e) (me : τ) {r r' : Req} (hr : SameCall r r') (hsafe : r.Discreet d) :
    Lockstep (fun p q => SameFailure p.1 q.1 ∧ Alike none p.2 q.2) (serve me r d) (serve me r' e) := by
  cases r with
  | read k data =>
    cases r' with
    | read k' data' =>
      obtain ⟨rfl, rfl⟩ := hr
      exact (h.read me data' hsafe).bind fun _ _ _ hpq => .ok ⟨⟨hpq.status, hpq.failed⟩, hpq.dev⟩
    | write _ _ => exact hr.elim
    | sync => exact hr.elim
  | write k data =>
    cases r' with
    | write k' data' =>
      obtain rfl := hr
      exact (h.write me k' data data').bind fun _ _ _ hpq => .ok hpq
    | read _ _ => exact hr.elim
    | sync => exact hr.elim
  | sync =>
    cases r' with
    | sync => exact h.sync.bind fun _ _ _ hpq => .ok hpq
    | read _ _ => exact hr.elim
    | write _ _ => exact hr.elim

theorem Alike.serveAll (me : τ) {rs rs' : List Req} (hrs : List.Forall₂ SameCall rs rs') :
    ∀ {d e : BlkDev τ}, Alike none d e → DiscreetRun me rs d →
      Lockstep (fun p q => List.Forall₂ SameFailure p.1 q.1 ∧ Alike none p.2 q.2) (serveAll me rs d)
        (serveAll me rs' e) := by
  induction hrs with
  | nil => exact fun h _ => .ok ⟨.nil, h⟩
  | cons hr _ ih =>
    intro d e h hsafe
    refine (h.serve me hr hsafe.1).bind fun p q hserve hpq => ?_
    refine (ih hpq.2 (hsafe.2 p.1 p.2 hserve)).bind fun p' q' _ hpq' => ?_
    exact .ok ⟨.cons hpq.1 hpq'.1, hpq'.2⟩

/-- A read past the end of the device that is not cached hands out the bytes of the buffer that it
recycles. -/
theorem missed_read_hands_out (me : τ) (data : Block) (hk : d.totalBlks ≤ k) (hmiss : ∀ c, ¬ Caches d c k)
    (hfind : d.list.reverse.find? (isFree d) = some b) :
    ∃ d', bdevReadBuffer me k data d = .ok (-1, (d.buf b).data, d') := by
  have hget : getBuffer me k maxBgetRetry d = .ok (b, recycleBuf me k b d) := by
    simp only [getBuffer, getSection, find_hit_none hmiss, hfind]
  have hbuf : (recycleBuf me k b d).buf b = { d.buf b with blkno := k, flags := bBusy, usr := some me } :=
    upd_buf_self ..
  have hfill : fill b (recycleBuf me k b d) = .ok (-1, recycleBuf me k b d) := by
    rw [fill, ramfsReadBlock_refused (by rw [hbuf]; rfl) (by rw [hbuf]; exact hk)]
    rfl
  have hrel : releaseBuffer me b (recycleBuf me k b d) = .ok (notifySection b (releaseSection b (recycleBuf me k b d))).2 :=
    if_pos (by rw [hbuf])
  refine ⟨(notifySection b (releaseSection b (recycleBuf me k b d))).2, ?_⟩
  rw [bdevReadBuffer, hget]
  show (if ((recycleBuf me k b d).buf b).flags.valid then _ else _) = _
  rw [hbuf, if_neg (by simp [bBusy]), if_neg (by simp [bBusy]), hfill]
  show readOut me b (-1) (recycleBuf me k b d) = _
  rw [readOut, hrel, hbuf]
  rfl

/-- **A failed read hands out nothing that depends on what was written**, as long as every read past the
end of the device that misses the cache finds a buffer that was never used, or last used for a block past
the end: then two runs from the same device, of calls that differ only in the data written, return the
same statuses, and the failed reads of both leave the same bytes in the caller's array. -/
theorem failed_read_discloses_nothing (me : τ) (d : BlkDev τ) {rs rs' : List Req}
    (hrs : List.Forall₂ SameCall rs rs') (hsafe : DiscreetRun me rs d) {as : List Resp} {d₁ : BlkDev τ}
    (hrun : serveAll me rs d = .ok (as, d₁)) :
    ∃ as' d₁', serveAll me rs' d = .ok (as', d₁') ∧ List.Forall₂ SameFailure as as' := by
  have hboth := Alike.serveAll me hrs (.refl none d) hsafe
  rw [hrun] at hboth
  obtain ⟨⟨as', d₁'⟩, hrun', hsame⟩ := hboth.of_ok
  exact ⟨as', d₁', hrun', hsame.1⟩

end

/-- Two buffers, one of them never used: block 5, which the device does not have, is read into it. -/
theorem failed_read_discloses_nothing_unused :
    ∃ as' d₁', serveAll () [.write 0 fun _ => 9, .read 5 fun _ => 1] twoBuffers = .ok (as', d₁') ∧
      List.Forall₂ SameFailure [.write 0, .read (-1) fun _ => 0] as' := by
  have hsafe : DiscreetRun () [.write 0 fun _ => 7, .read 5 fun _ => 1] twoBuffers := by
    refine ⟨trivial, fun a d' hserve => ?_⟩
    cases hserve
    exact ⟨fun _ _ => ⟨0x2000, rfl, .inl rfl⟩, fun _ _ _ => trivial⟩
  have hrs : List.Forall₂ SameCall [.write 0 fun _ => 7, .read 5 fun _ => 1]
      [.write 0 fun _ => 9, .read 5 fun _ => 1] := .cons rfl (.cons ⟨rfl, rfl⟩ .nil)
  exact failed_read_discloses_nothing () twoBuffers hrs hsafe rfl

/-- One buffer: block 0 is written and flushed, and the read of block 5 fails and hands it out. -/
theorem failed_read_hands_out_block :
    List.Forall₂ SameCall [.write 0 fun _ => 7, .sync, .read 5 fun _ => 1]
        [.write 0 fun _ => 9, .sync, .read 5 fun _ => 1] ∧
      (∃ d₁, serveAll () [.write 0 fun _ => 7, .sync, .read 5 fun _ => 1]
        (bdevInitBufferCache [some 0x2000] (zeroDisk Unit)).2
        = .ok ([.write 0, .sync 0, .read (-1) fun _ => 7], d₁)) ∧
      (∃ d₁, serveAll () [.write 0 fun _ => 9, .sync, .read 5 fun _ => 1]
        (bdevInitBufferCache [some 0x2000] (zeroDisk Unit)).2
        = .ok ([.write 0, .sync 0, .read (-1) fun _ => 9], d₁)) ∧
      ¬ SameFailure (.read (-1) fun _ => 7) (.read (-1) fun _ => 9) := by
  refine ⟨.cons rfl (.cons trivial (.cons ⟨rfl, rfl⟩ .nil)), ⟨_, rfl⟩, ⟨_, rfl⟩, fun hread => ?_⟩
  have hbytes := congrFun (hread.2 (by decide)) ⟨0, by decide⟩
  revert hbytes
  decide

end RedMagic.Bbuf
