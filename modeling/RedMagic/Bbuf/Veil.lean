import Mathlib.Data.List.Find
import RedMagic.Bbuf.Sequential

/-!
# The cache after reads of blocks the device does not have

A read of a block number at or above `total_blks` leaves a buffer behind that carries the number and
nothing else. To every later call in range such a *void* buffer is as good as an unused one: `veil` turns
the void buffers of a device into unused ones, `Veils d e` says that `e` is `d` under the veil, and each
function, called for a block in range, does to `d` what it does to `e`. So the results of
`Bbuf/Sequential.lean` about `e` carry over to `d`.
-/

namespace RedMagic.Bbuf

variable {τ : Type} {d d' e e' : BlkDev τ} {L : Nat → Block} {n b k : Nat} {me : τ}

/-- The buffer was last used for a block that the device does not have. -/
def Void (n : Nat) (x : BufCache τ) : Prop := x.flags.unused = false ∧ n ≤ x.blkno

instance (n : Nat) (x : BufCache τ) : Decidable (Void n x) :=
  inferInstanceAs (Decidable (x.flags.unused = false ∧ n ≤ x.blkno))

def veilBuf (n : Nat) (x : BufCache τ) : BufCache τ := if Void n x then { x with flags := bUnused } else x

def veil (n : Nat) (d : BlkDev τ) : BlkDev τ := { d with buf := fun b => veilBuf n (d.buf b) }

/-- The flags of a buffer that has a block number and nothing else. -/
def bNone : Flags := ⟨false, false, false, false⟩

/-- `e` is `d` with its void buffers unused; these are clean and nobody has them. -/
structure Veils (n : Nat) (d e : BlkDev τ) : Prop where
  eq : e = veil n d
  clean : ∀ b ∈ d.list, Void n (d.buf b) → (d.buf b).flags = bNone ∧ (d.buf b).usr = none

/-! ## Reading under the veil -/

theorem veilBuf_of_not {x : BufCache τ} (h : ¬ Void n x) : veilBuf n x = x := if_neg h

theorem veilBuf_of_void {x : BufCache τ} (h : Void n x) : veilBuf n x = { x with flags := bUnused } := if_pos h

theorem Veils.buf (h : Veils n d e) (hv : ¬ Void n (d.buf b)) : e.buf b = d.buf b := by
  rw [h.eq]
  exact veilBuf_of_not hv

/-- A buffer in use under the veil is not void. -/
theorem Veils.not_void (h : Veils n d e) (hu : (e.buf b).flags.unused = false) : ¬ Void n (d.buf b) := by
  intro hv
  rw [h.eq] at hu
  have hbuf : ((veil n d).buf b).flags = bUnused := by
    show (veilBuf n (d.buf b)).flags = bUnused
    rw [veilBuf_of_void hv]
  rw [hbuf] at hu
  cases hu

theorem Veils.list_eq (h : Veils n d e) : e.list = d.list := by
  rw [h.eq]
  rfl

theorem Veils.io_eq (h : Veils n d e) : e.io = d.io := by
  rw [h.eq]
  rfl

theorem Veils.dirty (h : Veils n d e) (hm : b ∈ d.list) : (e.buf b).flags.dirty = (d.buf b).flags.dirty := by
  by_cases hv : Void n (d.buf b)
  · rw [h.eq, (h.clean b hm hv).1]
    show (veilBuf n (d.buf b)).flags.dirty = _
    rw [veilBuf_of_void hv]
    rfl
  · rw [h.buf hv]

/-- A dirty buffer is not void. -/
theorem Veils.not_void_of_dirty (h : Veils n d e) (hm : b ∈ d.list) (hd : (d.buf b).flags.dirty = true) :
    ¬ Void n (d.buf b) := by
  intro hv
  rw [(h.clean b hm hv).1] at hd
  cases hd

/-! ## Writes under the veil -/

/-- A buffer that is not void is written and stays so. -/
theorem Veils.upd (h : Veils n d e) {f : BufCache τ → BufCache τ} (hv : ¬ Void n (d.buf b))
    (hf : ¬ Void n (f (d.buf b))) : Veils n (d.upd b f) (e.upd b f) := by
  refine ⟨?_, ?_⟩
  · rw [h.eq]
    simp only [BlkDev.upd, veil, BlkDev.mk.injEq, true_and, and_true]
    funext c
    by_cases hc : c = b
    · subst hc
      simp only [Function.update_self, veilBuf_of_not hv, veilBuf_of_not hf]
    · simp only [Function.update_of_ne hc]
  · intro c hm hvc
    by_cases hc : c = b
    · subst hc
      rw [upd_buf_self] at hvc
      exact absurd hvc hf
    · rw [upd_buf_ne d f hc] at hvc ⊢
      exact h.clean c hm hvc

theorem KeepsBlock.not_void {f : BufCache τ → BufCache τ} (hf : KeepsBlock f) {x : BufCache τ}
    (h : ¬ Void n x) : ¬ Void n (f x) := by
  unfold Void at *
  rw [(hf x).1, (hf x).2]
  exact h

theorem Veils.updKeeps (h : Veils n d e) {f : BufCache τ → BufCache τ} (hf : KeepsBlock f)
    (hv : ¬ Void n (d.buf b)) : Veils n (d.upd b f) (e.upd b f) := h.upd hv (hf.not_void hv)

theorem Veils.ramIo (h : Veils n d e) (ram : Nat → UInt8) (io : List Nat) :
    Veils n { d with ram := ram, io := io } { e with ram := ram, io := io } := by
  refine ⟨?_, h.clean⟩
  rw [h.eq]
  rfl

/-- Any buffer, void or not, is reused for a block in range. -/
theorem Veils.recycle (h : Veils n d e) (me : τ) (hk : k < n) :
    Veils n (recycleBuf me k b d) (recycleBuf me k b e) := by
  have hnew : ∀ x : BufCache τ, ¬ Void n { x with blkno := k, flags := bBusy, usr := some me } := by
    rintro x ⟨-, hle⟩
    exact absurd hle (Nat.not_le.2 hk)
  refine ⟨?_, ?_⟩
  · rw [h.eq]
    simp only [recycleBuf, BlkDev.upd, veil, BlkDev.mk.injEq, true_and, and_true]
    funext c
    by_cases hc : c = b
    · subst hc
      simp only [Function.update_self, veilBuf_of_not (hnew _)]
      unfold veilBuf
      split <;> rfl
    · simp only [Function.update_of_ne hc]
  · intro c hm hvc
    by_cases hc : c = b
    · subst hc
      rw [recycleBuf, upd_buf_self] at hvc
      exact absurd hvc (hnew _)
    · rw [recycleBuf, upd_buf_ne _ _ hc] at hvc ⊢
      exact h.clean c hm hvc

theorem Veils.release (h : Veils n d e) (hm : b ∈ d.list) (hv : ¬ Void n (d.buf b)) :
    Veils n (notifySection b (releaseSection b d)).2 (notifySection b (releaseSection b e)).2 := by
  have hkeep : KeepsBlock fun x : BufCache τ => { x with flags := { x.flags with busy := false }, usr := none } :=
    fun _ => ⟨rfl, rfl⟩
  have hkeep' : KeepsBlock fun x : BufCache τ => { x with wq := x.wq.tail } := fun _ => ⟨rfl, rfl⟩
  have h1 := h.updKeeps hkeep hv
  have h2 : Veils n (releaseSection b d) (releaseSection b e) := by
    refine ⟨?_, ?_⟩
    · rw [releaseSection, releaseSection, h1.eq, h.list_eq]
      rfl
    · intro c hmc
      have : c ∈ d.list := by
        rcases List.mem_cons.1 hmc with rfl | hmc
        · exact hm
        · exact List.mem_of_mem_erase hmc
      exact h1.clean c this
  refine h2.updKeeps hkeep' ?_
  simp only [releaseSection, upd_buf_self]
  exact hkeep.not_void hv

/-! ## The functions under the veil -/

theorem ramfsWriteBlock_refused (hd : (d.buf b).flags.dirty = true) (hr : d.totalBlks ≤ (d.buf b).blkno) :
    ramfsWriteBlock b d = .ok (-1, d) := by
  have hv : ramfsValidateRw b d = -1 := if_pos hr
  simp [ramfsWriteBlock, hd, ramfsReadwrite, hv]

theorem Veils.flushed_sim (h : Veils n d e) (hv : ¬ Void n (d.buf b)) : Veils n (flushed b d) (flushed b e) := by
  have hkeep : KeepsBlock fun x : BufCache τ => { x with flags := { x.flags with dirty := false } } :=
    fun _ => ⟨rfl, rfl⟩
  have h1 := h.ramIo (copyTo d.ram (seek d (d.buf b).blkno) (d.buf b).data) (d.io.erase b)
  have h2 := h1.updKeeps (b := b) hkeep hv
  have he : flushed b e = BlkDev.upd
      { e with ram := copyTo d.ram (seek d (d.buf b).blkno) (d.buf b).data, io := d.io.erase b } b
      (fun x => { x with flags := { x.flags with dirty := false } }) := by
    rw [flushed, h.buf hv, h.eq]
    rfl
  rw [he]
  exact h2

theorem Veils.syncLoop_sim (todo : List Nat) : ∀ {d e e' : BlkDev τ} {rv rv' : Nat}, Veils n d e →
    (∀ b ∈ todo, b ∈ d.list) → syncLoop todo rv e = .ok (rv', e') →
    ∃ d', syncLoop todo rv d = .ok (rv', d') ∧ Veils n d' e' := by
  induction todo with
  | nil =>
    intro d e e' rv rv' h _ hrun
    cases hrun
    exact ⟨d, rfl, h⟩
  | cons b rest ih =>
    intro d e e' rv rv' h hmem hrun
    have hm := hmem b (by simp)
    have hrest : ∀ c ∈ rest, c ∈ d.list := fun c hc => hmem c (by simp [hc])
    have hdirty := h.dirty hm
    rw [syncLoop] at hrun ⊢
    by_cases hd : (d.buf b).flags.dirty = true
    · have hv := h.not_void_of_dirty hm hd
      have hde := hdirty.trans hd
      have htot : e.totalBlks = d.totalBlks := by
        rw [h.eq]
        rfl
      rw [if_pos hde] at hrun
      rw [if_pos hd]
      by_cases hr : (d.buf b).blkno < d.totalBlks
      · rw [ramfsWriteBlock_ok hde (by rw [h.buf hv, htot]; exact hr)] at hrun
        rw [ramfsWriteBlock_ok hd hr]
        exact ih (h.flushed_sim hv) hrest hrun
      · rw [ramfsWriteBlock_refused hde (by rw [h.buf hv, htot]; exact Nat.not_lt.1 hr)] at hrun
        rw [ramfsWriteBlock_refused hd (Nat.not_lt.1 hr)]
        exact ih h hrest hrun
    · rw [if_neg (by rw [hdirty]; exact hd)] at hrun
      rw [if_neg hd]
      exact ih h hrest hrun

theorem Veils.isHit_eq (h : Veils n d e) (hk : k < n) (b : Nat) : isHit e k b = isHit d k b := by
  by_cases hv : Void n (d.buf b)
  · have hne : (d.buf b).blkno ≠ k := by
      have := hv.2
      omega
    rw [h.eq]
    simp [isHit, veil, veilBuf_of_void hv, bUnused, hne]
  · rw [isHit, isHit, h.buf hv]

theorem Veils.isFree_eq (h : Veils n d e) (hm : b ∈ d.list) : isFree e b = isFree d b := by
  by_cases hv : Void n (d.buf b)
  · rw [h.eq]
    simp [isFree, veil, veilBuf_of_void hv, bUnused, (h.clean b hm hv).1, bNone]
  · rw [isFree, isFree, h.buf hv]

theorem Veils.getSection_sim (h : Veils n d e) (me : τ) (hk : k < n) :
    (getSection me k d).1 = (getSection me k e).1 ∧
      Veils n (getSection me k d).2 (getSection me k e).2 := by
  have hfind : e.list.find? (isHit e k) = d.list.find? (isHit d k) := by
    rw [h.list_eq]
    exact congrArg (d.list.find? ·) (funext (h.isHit_eq hk))
  have hfree : e.list.reverse.find? (isFree e) = d.list.reverse.find? (isFree d) := by
    rw [h.list_eq]
    refine List.find?_congr ?_
    intro b hb
    exact h.isFree_eq (List.mem_reverse.1 hb)
  unfold getSection
  rw [hfind, hfree]
  cases hit : d.list.find? (isHit d k) with
  | some b =>
    obtain ⟨hu, hblk⟩ := isHit_iff.1 (List.find?_some hit)
    have hv : ¬ Void n (d.buf b) := by
      rintro ⟨-, hle⟩
      omega
    simp only [h.buf hv]
    have hkeep : KeepsBlock fun x : BufCache τ => { x with flags := { x.flags with busy := true }, usr := some me } :=
      fun _ => ⟨rfl, rfl⟩
    split
    · exact ⟨rfl, h.updKeeps hkeep hv⟩
    · exact ⟨rfl, h⟩
  | none =>
    cases free : d.list.reverse.find? (isFree d) with
    | some b => exact ⟨rfl, h.recycle me hk⟩
    | none => exact ⟨rfl, h⟩

theorem Veils.getBuffer_sim (h : Veils n d e) (hio : ∀ b ∈ d.io, b ∈ d.list) (me : τ) (hk : k < n)
    (hrun : getBuffer me k maxBgetRetry e = .ok (b, e')) :
    ∃ d', getBuffer me k maxBgetRetry d = .ok (b, d') ∧ Veils n d' e' := by
  -- the last try, and with it what a try does when it finds a buffer
  have htry : ∀ {d e : BlkDev τ}, Veils n d e → getBuffer me k 0 e = .ok (b, e') →
      ∃ d', getBuffer me k 0 d = .ok (b, d') ∧ Veils n d' e' := by
    intro d e h hrun
    obtain ⟨hsame, hv⟩ := h.getSection_sim me hk
    unfold getBuffer at hrun ⊢
    generalize getSection me k e = r at hrun hsame hv
    generalize getSection me k d = q at hsame hv ⊢
    obtain ⟨g, e₁⟩ := r
    obtain ⟨g', d₁⟩ := q
    simp only at hsame hv
    subst hsame
    cases g' with
    | buf c =>
      cases hrun
      exact ⟨d₁, rfl, hv⟩
    | wait c => cases hrun
    | none => cases hrun
  obtain ⟨hsame, hv⟩ := h.getSection_sim me hk
  have hfull : (getSection me k d).1 = .none → (getSection me k d).2 = d := by
    have hspec := getSection_spec me k d
    generalize getSection me k d = q at hspec ⊢
    obtain ⟨g, d₁⟩ := q
    intro hg
    simp only at hg
    subst hg
    cases hspec
    rfl
  unfold getBuffer at hrun ⊢
  generalize getSection me k e = r at hrun hsame hv
  generalize getSection me k d = q at hsame hv hfull ⊢
  obtain ⟨g, e₁⟩ := r
  obtain ⟨g', d₁⟩ := q
  simp only at hsame hv hfull
  subst hsame
  cases g' with
  | buf c =>
    cases hrun
    exact ⟨d₁, rfl, hv⟩
  | wait c => cases hrun
  | none =>
    obtain rfl := hfull rfl
    cases hs : syncBuffer e₁ with
    | error err =>
      simp only [maxBgetRetry, hs] at hrun
      cases hrun
    | ok r =>
      have hlast : getBuffer me k 0 r.2 = .ok (b, e') := by
        simp only [maxBgetRetry, hs] at hrun
        exact hrun
      obtain ⟨d₂, hrun₂, hv₂⟩ := hv.syncLoop_sim d₁.io hio (show syncLoop d₁.io 0 e₁ = .ok (r.1, r.2) by
        rw [← hv.io_eq]
        exact hs)
      obtain ⟨d₃, hrun₃, hv₃⟩ := htry hv₂ hlast
      refine ⟨d₃, ?_, hv₃⟩
      have hsync : syncBuffer d₁ = .ok (r.1, d₂) := hrun₂
      simp only [maxBgetRetry, hsync]
      exact hrun₃

theorem Veils.releaseBuffer_sim [DecidableEq τ] (h : Veils n d e) (hm : b ∈ d.list) (hv : ¬ Void n (d.buf b))
    (hrun : releaseBuffer me b e = .ok e') :
    ∃ d', releaseBuffer me b d = .ok d' ∧ Veils n d' e' := by
  rw [releaseBuffer, h.buf hv] at hrun
  rw [releaseBuffer]
  split at hrun
  · rename_i husr
    cases hrun
    exact ⟨_, if_pos husr, h.release hm hv⟩
  · cases hrun

theorem ramfsReadBlock_refused (hd : (d.buf b).flags.dirty = false) (hr : d.totalBlks ≤ (d.buf b).blkno) :
    ramfsReadBlock b d = .ok (-1, d) := by
  have hv : ramfsValidateRw b d = -1 := if_pos hr
  simp [ramfsReadBlock, hd, ramfsReadwrite, hv]

theorem Veils.fill_sim (h : Veils n d e) (hv : ¬ Void n (d.buf b)) (hd : (d.buf b).flags.dirty = false)
    {st : Int} (hrun : fill b e = .ok (st, e')) : ∃ d', fill b d = .ok (st, d') ∧ Veils n d' e' := by
  have hbuf := h.buf hv
  have hde : (e.buf b).flags.dirty = false := by rw [hbuf, hd]
  have htot : e.totalBlks = d.totalBlks := by
    rw [h.eq]
    rfl
  by_cases hr : (d.buf b).blkno < d.totalBlks
  · have hdev : devBlock e (e.buf b).blkno = devBlock d (d.buf b).blkno := by
      rw [hbuf, h.eq]
      rfl
    rw [fill, ramfsReadBlock_ok hde (by rw [hbuf, htot]; exact hr), hdev] at hrun
    cases hrun
    refine ⟨_, by rw [fill, ramfsReadBlock_ok hd hr]; rfl, ?_⟩
    have hkeep : KeepsBlock fun x : BufCache τ => { x with data := devBlock d (d.buf b).blkno } := fun _ => ⟨rfl, rfl⟩
    have hkeep' : KeepsBlock fun x : BufCache τ => { x with flags := { x.flags with valid := true } } :=
      fun _ => ⟨rfl, rfl⟩
    refine (h.updKeeps hkeep hv).updKeeps hkeep' ?_
    rw [upd_buf_self]
    exact hkeep.not_void hv
  · rw [fill, ramfsReadBlock_refused hde (by rw [hbuf, htot]; exact Nat.not_lt.1 hr)] at hrun
    cases hrun
    exact ⟨d, by rw [fill, ramfsReadBlock_refused hd (Nat.not_lt.1 hr)]; rfl, h⟩

theorem Veils.readOut_sim [DecidableEq τ] (h : Veils n d e) (hm : b ∈ d.list) (hv : ¬ Void n (d.buf b))
    {st st' : Int} {out : Block} (hrun : readOut me b st e = .ok (st', out, e')) :
    ∃ d', readOut me b st d = .ok (st', out, d') ∧ Veils n d' e' := by
  cases hrel : releaseBuffer me b e with
  | error err =>
    rw [readOut, hrel] at hrun
    cases hrun
  | ok e₁ =>
    obtain ⟨d₁, hrun₁, h₁⟩ := h.releaseBuffer_sim hm hv hrel
    rw [readOut, hrel, h.buf hv] at hrun
    cases hrun
    exact ⟨d₁, by rw [readOut, hrun₁]; rfl, h₁⟩

/-! ## Calls in range -/

/-- The veiled device is a block array. -/
def Open (n : Nat) (d : BlkDev τ) (L : Nat → Block) : Prop := ∃ e, Veils n d e ∧ SeqInv n e L none

theorem Open.get (me : τ) (hk : k < n) (h : Open n d L) :
    ∃ b d₁ e₁, getBuffer me k maxBgetRetry d = .ok (b, d₁) ∧ Veils n d₁ e₁ ∧ SeqInv n e₁ L (some b) ∧
      Holds e₁ me b k := by
  obtain ⟨e, hv, hi⟩ := h
  obtain ⟨b, e₁, hget, hi₁, hh₁⟩ := getBuffer_spec hi me hk
  have hio : ∀ c ∈ d.io, c ∈ d.list := by
    rw [← hv.io_eq, ← hv.list_eq]
    exact hi.ioMem
  obtain ⟨d₁, hrun, hv₁⟩ := hv.getBuffer_sim hio me hk hget
  exact ⟨b, d₁, e₁, hrun, hv₁, hi₁, hh₁⟩

theorem Veils.mem (h : Veils n d e) (hh : Holds e me b k) : b ∈ d.list := by
  rw [← h.list_eq]
  exact hh.caches.mem

theorem Open.sync (h : Open n d L) : ∃ d', syncBuffer d = .ok (0, d') ∧ Open n d' L ∧ d'.io = [] := by
  obtain ⟨e, hv, hi⟩ := h
  obtain ⟨e', hsync, hi', hio, -⟩ := syncBuffer_spec hi
  have hsync' : syncLoop d.io 0 e = .ok (0, e') := by
    rw [← hv.io_eq]
    exact hsync
  obtain ⟨d', hrun, hv'⟩ := hv.syncLoop_sim d.io (by rw [← hv.io_eq, ← hv.list_eq]; exact hi.ioMem) hsync'
  exact ⟨d', hrun, ⟨e', hv', hi'⟩, by rw [← hv'.io_eq]; exact hio⟩

section
variable [DecidableEq τ]

theorem Open.readOut {me : τ} (hv : Veils n d e) (hi : SeqInv n e L (some b)) (hh : Holds e me b k)
    (hd : (e.buf b).data = L k) : ∃ d', readOut me b 0 d = .ok (0, L k, d') ∧ Open n d' L := by
  obtain ⟨e', hrun, hi'⟩ := readOut_spec hi hh hd
  obtain ⟨d', hrun', hv'⟩ := hv.readOut_sim (hv.mem hh) (hv.not_void hh.caches.used) hrun
  exact ⟨d', hrun', e', hv', hi'⟩

/-- `update_buffer` and the copy to the caller. -/
theorem Open.fillOut {me : τ} (hv : Veils n d e) (hi : SeqInv n e L (some b)) (hh : Holds e me b k)
    (hd : (e.buf b).flags.dirty = false) :
    ∃ d', (fill b d >>= fun q => Bbuf.readOut me b q.1 q.2) = .ok (0, L k, d') ∧ Open n d' L := by
  have hnv := hv.not_void hh.caches.used
  obtain ⟨e₁, hfill, hi₁, hh₁, hdata⟩ := fill_spec hi hh hd
  obtain ⟨d₁, hrun₁, hv₁⟩ := hv.fill_sim hnv (by rw [← hv.buf hnv]; exact hd) hfill
  rw [hrun₁]
  exact Open.readOut hv₁ hi₁ hh₁ hdata

theorem Open.read (h : Open n d L) (me : τ) (hk : k < n) (data : Block) :
    ∃ d', bdevReadBuffer me k data d = .ok (0, L k, d') ∧ Open n d' L := by
  obtain ⟨b, d₁, e₁, hget, hv₁, hi₁, hh₁⟩ := h.get me hk
  have hbuf := hv₁.buf (hv₁.not_void hh₁.caches.used)
  have hstart : bdevReadBuffer me k data d =
      if (d₁.buf b).flags.valid then Bbuf.readOut me b 0 d₁
      else if (d₁.buf b).flags.dirty then
        syncBuffer d₁ >>= fun r =>
          if r.1 = 0 then fill b r.2 >>= fun q => Bbuf.readOut me b q.1 q.2
          else releaseBuffer me b r.2 >>= fun d => pure (-2, data, d)
      else fill b d₁ >>= fun q => Bbuf.readOut me b q.1 q.2 := by
    rw [bdevReadBuffer, hget]
    rfl
  rw [hstart]
  split
  · rename_i hvalid
    exact Open.readOut hv₁ hi₁ hh₁ (hi₁.coh.data b k hh₁.caches (.inl (by rw [hbuf]; exact hvalid)) id)
  · split
    · obtain ⟨e₂, hsync, hi₂, hio, hhold⟩ := syncBuffer_spec hi₁
      have hh₂ := hhold me b k hh₁
      have hd₂ : (e₂.buf b).flags.dirty = false := by
        by_contra hd
        rw [Bool.not_eq_false, hi₂.queued b hh₂.caches.mem, hio] at hd
        cases hd
      have hsync' : syncLoop d₁.io 0 e₁ = .ok (0, e₂) := by
        rw [← hv₁.io_eq]
        exact hsync
      obtain ⟨d₂, hrun₂, hv₂⟩ := hv₁.syncLoop_sim d₁.io
        (by rw [← hv₁.io_eq, ← hv₁.list_eq]; exact hi₁.ioMem) hsync'
      have hsyncd : syncBuffer d₁ = .ok (0, d₂) := hrun₂
      rw [hsyncd]
      exact Open.fillOut hv₂ hi₂ hh₂ hd₂
    · rename_i hd
      exact Open.fillOut hv₁ hi₁ hh₁ (by rw [hbuf]; simpa using hd)

theorem Open.write (h : Open n d L) (me : τ) (hk : k < n) (v : Block) :
    ∃ d', bdevWriteBuffer me k v d = .ok (0, d') ∧ Open n d' (Function.update L k v) := by
  obtain ⟨b, d₁, e₁, hget, hv₁, hi₁, hh₁⟩ := h.get me hk
  obtain ⟨hi₂, hh₂⟩ := write_inv hi₁ hh₁ v
  have hnv := hv₁.not_void hh₁.caches.used
  have hkeep : KeepsBlock fun x : BufCache τ => { x with data := v } := fun _ => ⟨rfl, rfl⟩
  have hkeep' : KeepsBlock fun x : BufCache τ => { x with flags := { x.flags with dirty := true } } :=
    fun _ => ⟨rfl, rfl⟩
  have hv₂ : Veils n (setDirty b true (setData b v d₁)) (setDirty b true (setData b v e₁)) := by
    refine (hv₁.updKeeps hkeep hnv).updKeeps hkeep' ?_
    rw [upd_buf_self]
    exact hkeep.not_void hnv
  have hv₃ : Veils n (queueBuffer b (setDirty b true (setData b v d₁)))
      (queueBuffer b (setDirty b true (setData b v e₁))) := by
    rw [queueBuffer_eq, queueBuffer_eq, hv₂.io_eq]
    refine ⟨?_, hv₂.clean⟩
    rw [hv₂.eq]
    rfl
  obtain ⟨e', hrel, hi₃⟩ := releaseBuffer_spec hi₂ hh₂
  obtain ⟨d', hrel', hv'⟩ := hv₃.releaseBuffer_sim (hv₃.mem hh₂) (hv₃.not_void hh₂.caches.used) hrel
  refine ⟨d', ?_, e', hv', hi₃⟩
  rw [bdevWriteBuffer, hget]
  show (releaseBuffer me b _ >>= fun d => pure (0, d)) = _
  rw [hrel']
  rfl

end

end RedMagic.Bbuf
