import RedMagic.Bbuf.Veil
import RedMagic.Lib.Fallible

/-!
# Calls with block numbers the device does not have

`ramfs_validate_rw` refuses a block number at or above `total_blks`, but only when the block is moved: a
read fails at once, a write is put into the cache and the flush fails later.

| here | there |
|---|---|
| `Open.readOutOfRange` | `bdev_read_buffer`, `ramfs_validate_rw` (src/bbuf.c, src/ramfs.c) |
| `Open.writeOutOfRange` | `bdev_write_buffer` (src/bbuf.c) |
| `Isolated` | one sequence of calls, with and without those out of range |
-/

namespace RedMagic.Bbuf

variable {τ : Type} {d d' e e' : BlkDev τ} {L : Nat → Block} {n b k : Nat} {me : τ}

/-! ## Calls out of range -/

/-- `e'` is `e` with the buffer `b` unused, in another order of the buffers. -/
structure Evicts (b : Nat) (e e' : BlkDev τ) : Prop where
  list : e'.list.Perm e.list
  io : e'.io = e.io
  ram : e'.ram = e.ram
  ramhead : e'.ramhead = e.ramhead
  totalBlks : e'.totalBlks = e.totalBlks
  here : (e'.buf b).flags = bUnused ∧ (e'.buf b).usr = none
  others : ∀ c, c ≠ b → e'.buf c = e.buf c

theorem Evicts.caches (h : Evicts b e e') {c j : Nat} : Caches e' c j ↔ c ≠ b ∧ Caches e c j := by
  constructor
  · rintro ⟨hm, hu, hj⟩
    have hc : c ≠ b := by
      rintro rfl
      rw [h.here.1] at hu
      cases hu
    rw [h.others c hc] at hu hj
    exact ⟨hc, h.list.mem_iff.1 hm, hu, hj⟩
  · rintro ⟨hc, hm, hu, hj⟩
    rw [← h.others c hc] at hu hj
    exact ⟨h.list.mem_iff.2 hm, hu, hj⟩

theorem Evicts.ident (h : Evicts b e e') (hi : Ident e) : Ident e' := by
  refine ⟨h.list.nodup_iff.2 hi.nodup, ?_, ?_, ?_⟩
  · intro c c' j hc hc'
    exact hi.uniq c c' j (h.caches.1 hc).2 (h.caches.1 hc').2
  · intro c hmc
    by_cases hc : c = b
    · subst hc
      simp [h.here.1, h.here.2, bUnused]
    · rw [h.others c hc]
      exact hi.usr c (h.list.mem_iff.1 hmc)
  · intro c hmc hu
    by_cases hc : c = b
    · subst hc
      exact h.here.1
    · rw [h.others c hc] at hu ⊢
      exact hi.fresh c (h.list.mem_iff.1 hmc) hu

/-- The block of a clean buffer is right on the disk. -/
theorem Evicts.coherent (h : Evicts b e e') (hi : Coherent e L NoWriter NoWriter) (hclean : (e.buf b).flags.dirty = false) :
    Coherent e' L NoWriter NoWriter := by
  have hdev : ∀ j, devBlock e' j = devBlock e j := by
    intro j
    simp only [devBlock, seek, h.ram, h.ramhead]
  refine ⟨?_, ?_, ?_, ?_⟩
  · have hfits := hi.fits
    rwa [Fits, ← h.ramhead, ← h.totalBlks] at hfits
  · intro c j hc
    rw [h.totalBlks]
    exact hi.range c j (h.caches.1 hc).2
  · intro c j hc hv hp
    obtain ⟨hcb, hc'⟩ := h.caches.1 hc
    rw [h.others c hcb] at hv ⊢
    exact hi.data c j hc' hv hp
  · intro j hj hall
    rw [h.totalBlks] at hj
    rw [hdev j]
    refine hi.disk j hj ?_
    intro c hc
    by_cases hcb : c = b
    · subst hcb
      exact ⟨hclean, id⟩
    · have := hall c (h.caches.2 ⟨hcb, hc⟩)
      rwa [h.others c hcb] at this

/-- A free buffer can be given up. -/
theorem SeqInv.evict (hi : SeqInv n e L none) (h : Evicts b e e') (hf : isFree e b = true) (hm : b ∈ e.list) :
    SeqInv n e' L none := by
  have hclean : (e.buf b).flags.dirty = false := by
    rcases isFree_iff.1 hf with ⟨-, hd⟩ | hu
    · exact hd
    · rw [hi.ident.fresh b hm hu]
      rfl
  refine ⟨h.ident hi.ident, h.coherent hi.coh hclean, ?_, ?_, ?_, ?_, ?_, ?_⟩
  · intro c hmc hbusy
    by_cases hc : c = b
    · subst hc
      rw [h.here.1] at hbusy
      cases hbusy
    · rw [h.others c hc] at hbusy
      exact hi.busy c (h.list.mem_iff.1 hmc) hbusy
  · intro c hmc
    rw [h.io]
    by_cases hc : c = b
    · subst hc
      rw [← hi.queued c hm, hclean, h.here.1]
      simp [bUnused]
    · rw [h.others c hc]
      exact hi.queued c (h.list.mem_iff.1 hmc)
  · rw [h.io]
    exact hi.ioNodup
  · intro c hmc
    rw [h.io] at hmc
    exact h.list.mem_iff.2 (hi.ioMem c hmc)
  · intro hnil
    have := h.list.mem_iff.2 hm
    rw [hnil] at this
    cases this
  · rw [h.totalBlks]
    exact hi.total

/-- The caller has buffer `b` for a block out of range: it is fresh, and once released it is void. -/
structure Taken (n k : Nat) (L : Nat → Block) (me : τ) (b : Nat) (d : BlkDev τ) : Prop where
  usr : (d.buf b).usr = some me
  flags : (d.buf b).flags = bBusy
  blkno : (d.buf b).blkno = k
  total : d.totalBlks = n
  after : Open n (notifySection b (releaseSection b d)).2 L

/-- A free or void buffer is taken for a block out of range. -/
theorem Veils.taken (hv : Veils n d e) (hi : SeqInv n e L none) (hk : n ≤ k) (hm : b ∈ d.list)
    (hf : isFree d b = true) {f : BufCache τ → BufCache τ}
    (hnew : (f (d.buf b)).blkno = k ∧ (f (d.buf b)).flags = bBusy ∧ (f (d.buf b)).usr = some me) :
    Taken n k L me b (d.upd b f) := by
  obtain ⟨hblk, hflags, husr⟩ := hnew
  refine ⟨by rw [upd_buf_self, husr], by rw [upd_buf_self, hflags], by rw [upd_buf_self, hblk], ?_, ?_⟩
  · rw [upd_totalBlks, ← hi.total, hv.eq]
    rfl
  · have hhere : ((notifySection b (releaseSection b (d.upd b f))).2.buf b).flags = bNone ∧
        ((notifySection b (releaseSection b (d.upd b f))).2.buf b).usr = none ∧
        ((notifySection b (releaseSection b (d.upd b f))).2.buf b).blkno = k := by
      simp [notifySection, releaseSection, hflags, hblk, bBusy, bNone]
    have hothers : ∀ c, c ≠ b → (notifySection b (releaseSection b (d.upd b f))).2.buf c = d.buf c := by
      intro c hc
      simp [notifySection, releaseSection, upd_buf_ne, hc]
    have hvoid : Void n ((notifySection b (releaseSection b (d.upd b f))).2.buf b) := by
      refine ⟨by rw [hhere.1]; rfl, ?_⟩
      rw [hhere.2.2]
      exact hk
    have hlist : (notifySection b (releaseSection b (d.upd b f))).2.list.Perm d.list :=
      (List.perm_cons_erase hm).symm
    refine ⟨veil n (notifySection b (releaseSection b (d.upd b f))).2, ⟨rfl, ?_⟩, ?_⟩
    · intro c hmc hvc
      by_cases hc : c = b
      · subst hc
        exact ⟨hhere.1, hhere.2.1⟩
      · rw [hothers c hc] at hvc ⊢
        exact hv.clean c (hlist.mem_iff.1 hmc) hvc
    · have hme : b ∈ e.list := by
        rw [hv.list_eq]
        exact hm
      have hfe : isFree e b = true := (hv.isFree_eq hm).trans hf
      refine hi.evict ⟨?_, ?_, ?_, ?_, ?_, ?_, ?_⟩ hfe hme
      · rw [hv.list_eq]
        exact hlist
      · rw [hv.io_eq]
        rfl
      · rw [hv.eq]
        rfl
      · rw [hv.eq]
        rfl
      · rw [hv.eq]
        rfl
      · show (veilBuf n _).flags = bUnused ∧ (veilBuf n _).usr = none
        rw [veilBuf_of_void hvoid]
        exact ⟨rfl, hhere.2.1⟩
      · intro c hc
        show veilBuf n _ = e.buf c
        rw [hothers c hc, hv.eq]
        rfl

/-- The critical section of `get_buffer` for a block out of range. -/
theorem Veils.outSection (hv : Veils n d e) (hi : SeqInv n e L none) (hk : n ≤ k) (me : τ) :
    (∃ b d₁, getSection me k d = (.buf b, d₁) ∧ Taken n k L me b d₁) ∨
      getSection me k d = (.none, d) ∧ ∀ b ∈ d.list, isFree d b = false := by
  -- a buffer that has a block out of range is void, so nobody has it
  have hvoid : ∀ b, Caches d b k → (d.buf b).flags = bNone ∧ (d.buf b).usr = none := by
    intro b hc
    refine hv.clean b hc.mem ⟨hc.used, ?_⟩
    rw [hc.blkno]
    exact hk
  have hspec := getSection_spec me k d
  generalize hr : getSection me k d = r at hspec
  obtain ⟨g, d₁⟩ := r
  dsimp only at hspec
  cases hspec with
  | hit b hc hb hu =>
    obtain ⟨hflags, -⟩ := hvoid b hc
    have hfree : isFree d b = true := by
      simp [isFree, hflags, bNone]
    refine .inl ⟨b, takeBuf me b d, rfl, ?_⟩
    rw [takeBuf]
    apply hv.taken hi hk hc.mem hfree
    refine ⟨hc.blkno, ?_, rfl⟩
    rw [hflags]
    rfl
  | wait b hc hb =>
    exfalso
    obtain ⟨hflags, husr⟩ := hvoid b hc
    rw [hflags, husr] at hb
    simp [bNone] at hb
  | recycle b hm hf hmiss =>
    refine .inl ⟨b, recycleBuf me k b d, rfl, ?_⟩
    rw [recycleBuf]
    apply hv.taken hi hk hm hf
    exact ⟨rfl, rfl, rfl⟩
  | full hf hmiss => exact .inr ⟨rfl, hf⟩

theorem Open.getOut (h : Open n d L) (hk : n ≤ k) (me : τ) :
    ∃ b d₁, getBuffer me k maxBgetRetry d = .ok (b, d₁) ∧ Taken n k L me b d₁ := by
  obtain ⟨e, hv, hi⟩ := h
  rcases hv.outSection hi hk me with ⟨b, d₁, hsec, ht⟩ | ⟨hsec, -⟩
  · exact ⟨b, d₁, by rw [getBuffer, hsec], ht⟩
  · obtain ⟨d₂, hsync, ⟨e₂, hv₂, hi₂⟩, hio⟩ := Open.sync ⟨e, hv, hi⟩
    have hretry : getBuffer me k maxBgetRetry d = getBuffer me k 0 d₂ := by
      rw [getBuffer, hsec]
      simp only [maxBgetRetry, hsync]
      rfl
    rcases hv₂.outSection hi₂ hk me with ⟨b, d₁, hsec₂, ht⟩ | ⟨-, hfull⟩
    · exact ⟨b, d₁, by rw [hretry, getBuffer, hsec₂], ht⟩
    · -- after the sync no buffer is dirty
      exfalso
      obtain ⟨b, hb⟩ := List.exists_mem_of_ne_nil _ hi₂.nonempty
      have hnotbusy : (e₂.buf b).flags.busy = false := by
        by_contra hbusy
        rw [Bool.not_eq_false] at hbusy
        cases hi₂.busy b hb hbusy
      have hclean : (e₂.buf b).flags.dirty = false := by
        by_contra hd
        rw [Bool.not_eq_false, hi₂.queued b hb, hv₂.io_eq, hio] at hd
        cases hd
      have hb' : b ∈ d₂.list := by
        rw [← hv₂.list_eq]
        exact hb
      have hfree : isFree d₂ b = true := by
        rw [← hv₂.isFree_eq hb']
        exact isFree_iff.2 (.inl ⟨hnotbusy, hclean⟩)
      rw [hfull b hb'] at hfree
      cases hfree

section
variable [DecidableEq τ]

/-- A read out of range fails, and the device stays a block array. -/
theorem Open.readOutOfRange (h : Open n d L) (me : τ) (hk : n ≤ k) (data : Block) :
    ∃ out d', bdevReadBuffer me k data d = .ok (-1, out, d') ∧ Open n d' L := by
  obtain ⟨b, d₁, hget, ht⟩ := h.getOut hk me
  have hvalid : (d₁.buf b).flags.valid = false := by
    rw [ht.flags]
    rfl
  have hdirty : (d₁.buf b).flags.dirty = false := by
    rw [ht.flags]
    rfl
  have hfill : fill b d₁ = .ok (-1, d₁) := by
    rw [fill, ramfsReadBlock_refused hdirty (by rw [ht.blkno, ht.total]; exact hk)]
    rfl
  refine ⟨(d₁.buf b).data, _, ?_, ht.after⟩
  have hstart : bdevReadBuffer me k data d = fill b d₁ >>= fun q => Bbuf.readOut me b q.1 q.2 := by
    rw [bdevReadBuffer, hget]
    simp only [bind, Except.bind, hvalid, hdirty]
    rfl
  rw [hstart, hfill]
  show Bbuf.readOut me b (-1) d₁ = _
  rw [Bbuf.readOut, releaseBuffer, if_pos ht.usr]
  rfl

/-- A write out of range is accepted. -/
theorem Open.writeOutOfRange (h : Open n d L) (me : τ) (hk : n ≤ k) (v : Block) :
    ∃ d', bdevWriteBuffer me k v d = .ok (0, d') := by
  obtain ⟨b, d₁, hget, ht⟩ := h.getOut hk me
  have husr : ((queueBuffer b (setDirty b true (setData b v d₁))).buf b).usr = some me := by
    rw [queueBuffer_eq]
    simpa [setDirty, setData] using ht.usr
  have hrel : ∃ d', releaseBuffer me b (queueBuffer b (setDirty b true (setData b v d₁))) = .ok d' := by
    rw [releaseBuffer, if_pos husr]
    exact ⟨_, rfl⟩
  obtain ⟨d', hrel⟩ := hrel
  refine ⟨d', ?_⟩
  rw [bdevWriteBuffer, hget]
  show (releaseBuffer me b _ >>= fun d => pure (0, d)) = _
  rw [hrel]
  rfl

end

/-! ## Runs of calls -/

instance Req.decidableInRange (n : Nat) : (r : Req) → Decidable (r.inRange n)
  | .read k _ => inferInstanceAs (Decidable (k < n))
  | .write k _ => inferInstanceAs (Decidable (k < n))
  | .sync => inferInstanceAs (Decidable True)

def Req.isWrite : Req → Bool
  | .write _ _ => true
  | _ => false

def Req.isSync : Req → Bool
  | .sync => true
  | _ => false

def Resp.status : Resp → Int
  | .read status _ => status
  | .write status => status
  | .sync rv => rv

/-- The calls without those out of range. -/
def inRangeOnly (n : Nat) (rs : List Req) : List Req := rs.filter fun r => r.inRange n

/-- The reads and writes in range, each with what it returned. -/
def transfers (n : Nat) (rs : List Req) (as : List Resp) : List (Req × Resp) :=
  (rs.zip as).filter fun p => decide (p.1.inRange n) && !p.1.isSync

/-- The calls out of range return an error, and the reads and writes in range return what they return when
those calls are not made. -/
def Isolated [DecidableEq τ] (me : τ) (d : BlkDev τ) (rs : List Req) : Prop :=
  ∃ as d₁ as' d₂, serveAll me rs d = .ok (as, d₁) ∧
    serveAll me (inRangeOnly d.totalBlks rs) d = .ok (as', d₂) ∧
    (∀ p ∈ rs.zip as, ¬ p.1.inRange d.totalBlks → p.2.status ≠ 0) ∧
    transfers d.totalBlks rs as = transfers d.totalBlks (inRangeOnly d.totalBlks rs) as'

theorem Started.open {bufs : List (Option Nat)} (h : Started d d' bufs) (hf : Fits d) (hnd : bufs.Nodup)
    (hne : bufs ≠ []) : Open d.totalBlks d' (devBlock d) := by
  have hfresh : ¬ Void d.totalBlks (freshBuf : BufCache τ) := by
    rintro ⟨hu, -⟩
    cases hu
  have hveil : Started d (veil d.totalBlks d') bufs := by
    refine ⟨h.list, h.io, h.bufNum, h.totalBlks, h.ramhead, h.dev, ?_⟩
    intro b hm
    show veilBuf _ (d'.buf b) = freshBuf
    rw [h.fresh b hm, veilBuf_of_not hfresh]
  refine ⟨veil d.totalBlks d', ⟨rfl, ?_⟩, hveil.seqInv hf hnd hne⟩
  intro b hm hv
  rw [h.fresh b hm] at hv
  exact absurd hv hfresh

section
variable [DecidableEq τ]

theorem serveAll_cons {r : Req} {rs : List Req} {a : Resp} (hr : serve me r d = .ok (a, d')) :
    serveAll me (r :: rs) d = serveAll me rs d' >>= fun t => pure (a :: t.1, t.2) := by
  rw [serveAll, hr]
  rfl

/-- A run that returns goes on after its first call. -/
theorem serveAll_cons_ok {r : Req} {rs : List Req} {a : Resp} {as : List Resp} {d₁ : BlkDev τ}
    (hr : serve me r d = .ok (a, d₁)) (hrun : serveAll me (r :: rs) d = .ok (as, d')) :
    ∃ as', as = a :: as' ∧ serveAll me rs d₁ = .ok (as', d') := by
  rw [serveAll_cons hr] at hrun
  obtain ⟨t, hrest, heq⟩ := Fallible.bind_eq_ok.1 hrun
  cases heq
  exact ⟨t.1, rfl, hrest⟩

/-- A call in range does what the array does. -/
theorem Open.serve (h : Open n d L) (me : τ) {r : Req} (hr : r.inRange n) :
    ∃ d', Bbuf.serve me r d = .ok ((arrayServe L r).1, d') ∧ Open n d' (arrayServe L r).2 := by
  cases r with
  | read k data =>
    obtain ⟨d', hrun, ho⟩ := h.read me hr data
    exact ⟨d', by rw [Bbuf.serve, hrun]; rfl, ho⟩
  | write k data =>
    obtain ⟨d', hrun, ho⟩ := h.write me hr data
    exact ⟨d', by rw [Bbuf.serve, hrun]; rfl, ho⟩
  | sync =>
    obtain ⟨d', hrun, ho, -⟩ := h.sync
    refine ⟨d', ?_, ho⟩
    rw [Bbuf.serve, bdevSyncBuffer, hrun]
    rfl

/-- A call out of range that is not a write fails and changes nothing the other calls can see. -/
theorem Open.serveOut (h : Open n d L) (me : τ) {r : Req} (hr : ¬ r.inRange n) (hw : r.isWrite = false) :
    ∃ out d', Bbuf.serve me r d = .ok (.read (-1) out, d') ∧ Open n d' L := by
  cases r with
  | read k data =>
    obtain ⟨out, d', hrun, ho⟩ := h.readOutOfRange me (Nat.not_lt.1 hr) data
    exact ⟨out, d', by rw [Bbuf.serve, hrun]; rfl, ho⟩
  | write k data => cases hw
  | sync => exact absurd trivial hr

/-- A run without writes out of range: the calls in range are served by the array. -/
theorem Open.serveAll (me : τ) : ∀ (rs : List Req) {d : BlkDev τ} {L : Nat → Block}, Open n d L →
    (∀ r ∈ rs, ¬ r.inRange n → r.isWrite = false) →
    ∃ as d', Bbuf.serveAll me rs d = .ok (as, d') ∧
      (∀ p ∈ rs.zip as, ¬ p.1.inRange n → p.2.status ≠ 0) ∧
      (rs.zip as).filter (fun p => decide (p.1.inRange n)) =
        (inRangeOnly n rs).zip (arrayServeAll L (inRangeOnly n rs)).1
  | [], d, L, _, _ => ⟨[], d, rfl, by simp, rfl⟩
  | r :: rs, d, L, h, hw => by
    have hw' : ∀ q ∈ rs, ¬ q.inRange n → q.isWrite = false := fun q hq => hw q (List.mem_cons_of_mem _ hq)
    by_cases hr : r.inRange n
    · obtain ⟨d₁, hrun, h₁⟩ := h.serve me hr
      obtain ⟨as, d₂, hrun₂, herr, heq⟩ := Open.serveAll me rs h₁ hw'
      refine ⟨(arrayServe L r).1 :: as, d₂, ?_, ?_, ?_⟩
      · rw [serveAll_cons hrun, hrun₂]
        rfl
      · intro p hp hout
        rcases List.mem_cons.1 hp with rfl | hp
        · exact absurd hr hout
        · exact herr p hp hout
      · have hkeep : inRangeOnly n (r :: rs) = r :: inRangeOnly n rs := List.filter_cons_of_pos (by simpa using hr)
        rw [hkeep, List.zip_cons_cons, List.filter_cons_of_pos (by simpa using hr), heq]
        rfl
    · obtain ⟨out, d₁, hrun, h₁⟩ := h.serveOut me hr (hw r (List.mem_cons_self ..) hr)
      obtain ⟨as, d₂, hrun₂, herr, heq⟩ := Open.serveAll me rs h₁ hw'
      refine ⟨.read (-1) out :: as, d₂, ?_, ?_, ?_⟩
      · rw [serveAll_cons hrun, hrun₂]
        rfl
      · intro p hp hout
        rcases List.mem_cons.1 hp with rfl | hp
        · simp [Resp.status]
        · exact herr p hp hout
      · have hdrop : inRangeOnly n (r :: rs) = inRangeOnly n rs := List.filter_cons_of_neg (by simpa using hr)
        rw [hdrop, List.zip_cons_cons, List.filter_cons_of_neg (by simpa using hr), heq]

/-- If all calls out of range fail, none is a write. -/
theorem Open.no_write (me : τ) : ∀ (rs : List Req) {d d' : BlkDev τ} {L : Nat → Block} {as : List Resp},
    Open n d L → Bbuf.serveAll me rs d = .ok (as, d') →
    (∀ p ∈ rs.zip as, ¬ p.1.inRange n → p.2.status ≠ 0) → ∀ r ∈ rs, ¬ r.inRange n → r.isWrite = false
  | [], _, _, _, _, _, _, _ => by simp
  | r :: rs, d, d', L, as, h, hrun, herr => by
    -- the rest of the run, once the first call has been served
    have rest : ∀ {a d₁ L₁}, Bbuf.serve me r d = .ok (a, d₁) → Open n d₁ L₁ →
        ∀ q ∈ rs, ¬ q.inRange n → q.isWrite = false := by
      intro a d₁ L₁ hr h₁
      obtain ⟨as', rfl, hrest⟩ := serveAll_cons_ok hr hrun
      exact Open.no_write me rs h₁ hrest fun p hp => herr p (List.mem_cons_of_mem _ hp)
    by_cases hr : r.inRange n
    · obtain ⟨d₁, hserve, h₁⟩ := h.serve me hr
      intro q hq hout
      rcases List.mem_cons.1 hq with rfl | hq
      · exact absurd hr hout
      · exact rest hserve h₁ q hq hout
    · cases hw : r.isWrite with
      | false =>
        obtain ⟨out, d₁, hserve, h₁⟩ := h.serveOut me hr hw
        intro q hq hout
        rcases List.mem_cons.1 hq with rfl | hq
        · exact hw
        · exact rest hserve h₁ q hq hout
      | true =>
        cases r with
        | read k data => cases hw
        | sync => cases hw
        | write k data =>
          exfalso
          obtain ⟨d₁, hwrite⟩ := h.writeOutOfRange me (Nat.not_lt.1 hr) data
          have hserve : Bbuf.serve me (.write k data) d = .ok (.write 0, d₁) := by
            rw [Bbuf.serve, hwrite]
            rfl
          obtain ⟨as', rfl, -⟩ := serveAll_cons_ok hserve hrun
          exact herr (.write k data, .write 0) (List.mem_cons_self ..) hr rfl

end

theorem inRangeOnly_idem (n : Nat) (rs : List Req) : inRangeOnly n (inRangeOnly n rs) = inRangeOnly n rs := by
  simp [inRangeOnly]

theorem transfers_eq (n : Nat) (rs : List Req) (as : List Resp) :
    transfers n rs as = ((rs.zip as).filter fun p => decide (p.1.inRange n)).filter fun p => !p.1.isSync := by
  rw [transfers, List.filter_filter]
  congr 1
  funext p
  rw [Bool.and_comm]

/-- **Calls out of range are isolated exactly when none is a write.** After start-up with at least one
buffer, for any sequence of calls by one thread: the calls out of range fail and the reads and writes in
range do not depend on them if and only if no call out of range is a write. -/
theorem out_of_range_isolated [DecidableEq τ] (me : τ) {d d' : BlkDev τ} (bufs : List (Option Nat))
    (hbare : Bare d) (hfits : Fits d) (hnd : bufs.Nodup) (hne : bufs ≠ [])
    (hinit : bdevInitBufferCache bufs d = (0, d')) (rs : List Req) :
    Isolated me d' rs ↔ ∀ r ∈ rs, ¬ r.inRange d'.totalBlks → r.isWrite = false := by
  have hstart := bdevInit_spec hbare hinit
  have h := hstart.open hfits hnd hne
  rw [← hstart.totalBlks] at h
  constructor
  · rintro ⟨as, d₁, -, -, hrun, -, herr, -⟩
    exact h.no_write me rs hrun herr
  · intro hw
    obtain ⟨as, d₁, hrun, herr, heq⟩ := h.serveAll me rs hw
    have hw' : ∀ r ∈ inRangeOnly d'.totalBlks rs, ¬ r.inRange d'.totalBlks → r.isWrite = false := by
      intro r hr hout
      exact absurd (by simpa using (List.mem_filter.1 hr).2) hout
    obtain ⟨as', d₂, hrun', -, heq'⟩ := h.serveAll me (inRangeOnly d'.totalBlks rs) hw'
    refine ⟨as, d₁, as', d₂, hrun, hrun', herr, ?_⟩
    rw [inRangeOnly_idem] at heq'
    rw [transfers_eq, transfers_eq, heq, heq']

/-- With one buffer, a read out of range between a write and a read. -/
theorem out_of_range_isolated_read :
    Isolated () (bdevInitBufferCache [some 0x2000] (zeroDisk Unit)).2
      [.write 0 fun _ => 7, .read 5 fun _ => 9, .read 0 fun _ => 9, .sync] :=
  (out_of_range_isolated () [some 0x2000] ⟨rfl, rfl⟩ (by unfold Fits; decide) (by decide) (by decide) rfl _).2
    (by simp [Req.inRange, Req.isWrite, zeroDisk])

/-- With one buffer, a write of the block after the last one is accepted; it can never be flushed, so a
read in range finds no buffer. -/
theorem out_of_range_write_accepted :
    (∃ d' e, serve () (.write 2 fun _ => 7) (bdevInitBufferCache [some 0x2000] (zeroDisk Unit)).2
        = .ok (.write 0, d') ∧ serve () (.read 0 fun _ => 9) d' = .error e) ∧
      ¬ Isolated () (bdevInitBufferCache [some 0x2000] (zeroDisk Unit)).2
        [.write 2 fun _ => 7, .read 0 fun _ => 9] := by
  refine ⟨⟨_, _, rfl, rfl⟩, ?_⟩
  rintro ⟨as, d₁, as', d₂, hrun, -⟩
  cases hrun

end RedMagic.Bbuf
