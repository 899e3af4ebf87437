import RedMagic.Bbuf.Startup

/-!
# Alone, the cache is a block array

One thread makes any sequence of calls with block numbers below `total_blks`. `SeqInv n d L held` holds
between the steps of a call: `n` is `total_blks`, `L` is the content the blocks should have and `held` the buffer the call
holds. Each call has one lemma that says it returns, with which status and data, and what `L` becomes.
-/

namespace RedMagic.Bbuf

variable {τ : Type} {d d' : BlkDev τ} {L : Nat → Block} {held : Option Nat} {n b k : Nat} {me : τ}

/-- No buffer is in the hands of a writer. -/
def NoWriter : Nat → Prop := fun _ => False

structure SeqInv (n : Nat) (d : BlkDev τ) (L : Nat → Block) (held : Option Nat) : Prop where
  ident : Ident d
  coh : Coherent d L NoWriter NoWriter
  busy : ∀ b ∈ d.list, (d.buf b).flags.busy = true → held = some b
  queued : ∀ b ∈ d.list, (d.buf b).flags.dirty = true ↔ b ∈ d.io
  ioNodup : d.io.Nodup
  ioMem : ∀ b ∈ d.io, b ∈ d.list
  nonempty : d.list ≠ []
  total : d.totalBlks = n

/-- A queued buffer holds some block. -/
theorem SeqInv.caches_of_io (hi : SeqInv n d L held) (hb : b ∈ d.io) :
    Caches d b (d.buf b).blkno ∧ (d.buf b).flags.dirty = true := by
  have hm := hi.ioMem b hb
  have hd := (hi.queued b hm).2 hb
  refine ⟨⟨hm, ?_, rfl⟩, hd⟩
  by_contra hu
  rw [Bool.not_eq_false] at hu
  rw [hi.ident.fresh b hm hu] at hd
  cases hd

/-! ## `sync_buffer` -/

/-- What one round of the loop does to a dirty buffer. -/
def flushed (b : Nat) (d : BlkDev τ) : BlkDev τ :=
  setDirty b false (dequeueBuffer b
    { d with ram := copyTo d.ram (seek d (d.buf b).blkno) (d.buf b).data })

theorem flushed_caches {c : Nat} : Caches (flushed b d) c k ↔ Caches d c k := by
  have h := caches_upd (d := dequeueBuffer b
    { d with ram := copyTo d.ram (seek d (d.buf b).blkno) (d.buf b).data }) (b := b) (c := c) (k := k)
    (f := fun x : BufCache τ => { x with flags := { x.flags with dirty := false } }) (fun _ => ⟨rfl, rfl⟩)
  refine h.trans ?_
  exact ⟨fun ⟨h1, h2, h3⟩ => ⟨h1, h2, h3⟩, fun ⟨h1, h2, h3⟩ => ⟨h1, h2, h3⟩⟩

theorem flushed_buf_self :
    (flushed b d).buf b = { d.buf b with flags := { (d.buf b).flags with dirty := false } } := by
  simp [flushed, setDirty, dequeueBuffer]

theorem flushed_buf_ne {c : Nat} (h : c ≠ b) : (flushed b d).buf c = d.buf c := by
  simp [flushed, setDirty, dequeueBuffer, upd_buf_ne, h]

theorem flushed_usr (c : Nat) : ((flushed b d).buf c).usr = (d.buf c).usr := by
  by_cases hc : c = b
  · rw [hc, flushed_buf_self]
  · rw [flushed_buf_ne hc]

theorem flushed_inv (hi : SeqInv n d L held) (hb : b ∈ d.io) : SeqInv n (flushed b d) L held := by
  obtain ⟨hc, hd⟩ := hi.caches_of_io hb
  -- after the write the disk holds the buffer's data, which is what the block should hold
  have hcoh : Coherent { d with ram := copyTo d.ram (seek d (d.buf b).blkno) (d.buf b).data } L NoWriter NoWriter :=
    hi.coh.flush hc hd
  have hdisk : devBlock { d with ram := copyTo d.ram (seek d (d.buf b).blkno) (d.buf b).data } (d.buf b).blkno
      = L (d.buf b).blkno :=
    (copyFrom_copyTo_self _ _ _).trans (hi.coh.data b _ hc (.inr (.inl hd)) id)
  refine ⟨?_, ?_, ?_, ?_, hi.ioNodup.erase b, fun c hm => hi.ioMem c (List.mem_of_mem_erase hm), hi.nonempty, hi.total⟩
  · have h : Ident (dequeueBuffer b
        { d with ram := copyTo d.ram (seek d (d.buf b).blkno) (d.buf b).data }) := hi.ident.ramIo _ _
    have hkeep : KeepsBlock fun x : BufCache τ => { x with flags := { x.flags with dirty := false } } :=
      fun _ => ⟨rfl, rfl⟩
    exact h.upd hkeep hc.used (hi.ident.usr b hc.mem)
  · have h : Coherent (dequeueBuffer b
        { d with ram := copyTo d.ram (seek d (d.buf b).blkno) (d.buf b).data }) L NoWriter NoWriter :=
      hcoh.congr (io_sameData _ _)
    refine h.markClean fun j hj _ => ?_
    rw [← hj.blkno]
    exact hdisk
  · intro c hm hbusy
    by_cases hcb : c = b
    · subst hcb
      rw [flushed_buf_self] at hbusy
      exact hi.busy c hm hbusy
    · rw [flushed_buf_ne hcb] at hbusy
      exact hi.busy c hm hbusy
  · intro c hm
    show _ ↔ c ∈ d.io.erase b
    by_cases hcb : c = b
    · subst hcb
      rw [flushed_buf_self]
      simp [hi.ioNodup.not_mem_erase]
    · rw [flushed_buf_ne hcb, List.mem_erase_of_ne hcb]
      exact hi.queued c hm

/-- The loop of `sync_buffer` over part of the queue. The induction is on that part; each round takes its
buffer out of the queue. -/
theorem syncLoop_spec : ∀ (todo : List Nat) {d : BlkDev τ}, SeqInv n d L held → todo.Nodup →
    (∀ b ∈ todo, b ∈ d.io) →
    ∃ d', syncLoop todo 0 d = .ok (0, d') ∧ SeqInv n d' L held ∧ (∀ b, b ∈ d'.io ↔ b ∈ d.io ∧ b ∉ todo) ∧
      (∀ c k, Caches d' c k ↔ Caches d c k) ∧
      ∀ c, (d'.buf c).usr = (d.buf c).usr
  | [], d, hi, _, _ => ⟨d, rfl, hi, by simp, fun _ _ => Iff.rfl, fun _ => rfl⟩
  | b :: rest, d, hi, hnd, hmem => by
    obtain ⟨hb, hnd'⟩ := List.nodup_cons.1 hnd
    have hbio := hmem b (by simp)
    obtain ⟨hc, hd⟩ := hi.caches_of_io hbio
    have hmem' : ∀ c ∈ rest, c ∈ (flushed b d).io := by
      intro c hcr
      have hcb : c ≠ b := by
        rintro rfl
        exact hb hcr
      exact (List.mem_erase_of_ne hcb).2 (hmem c (List.mem_cons_of_mem _ hcr))
    obtain ⟨d', hrun, hinv, hio, hcaches, husr⟩ := syncLoop_spec rest (flushed_inv hi hbio) hnd' hmem'
    refine ⟨d', ?_, hinv, ?_, fun c j => (hcaches c j).trans flushed_caches,
      fun c => (husr c).trans (flushed_usr c)⟩
    · rw [syncLoop, if_pos hd, ramfsWriteBlock_ok hd (hi.coh.range b _ hc)]
      exact hrun
    · intro c
      rw [hio c]
      show c ∈ d.io.erase b ∧ c ∉ rest ↔ _
      rw [hi.ioNodup.mem_erase_iff]
      simp only [List.mem_cons, not_or]
      tauto

/-- `sync_buffer` empties the queue; nobody loses the buffer it holds. -/
theorem syncBuffer_spec (hi : SeqInv n d L held) :
    ∃ d', syncBuffer d = .ok (0, d') ∧ SeqInv n d' L held ∧ d'.io = [] ∧
      ∀ me b k, Holds d me b k → Holds d' me b k := by
  obtain ⟨d', hrun, hinv, hio, hcaches, husr⟩ := syncLoop_spec d.io hi hi.ioNodup fun _ => id
  refine ⟨d', hrun, hinv, ?_, fun me b k h => ?_⟩
  · refine List.eq_nil_iff_forall_not_mem.2 fun c hc => ?_
    exact ((hio c).1 hc).2 ((hio c).1 hc).1
  · exact ⟨(hcaches b k).2 h.caches, (husr b).trans h.usr⟩

/-! ## `get_buffer` and `release_buffer` -/

theorem SeqInv.take (hi : SeqInv n d L none) (me : τ) (hc : Caches d b k) :
    SeqInv n (takeBuf me b d) L (some b) ∧ Holds (takeBuf me b d) me b k := by
  have hbuf : ∀ c, c ≠ b → (takeBuf me b d).buf c = d.buf c := fun c hcb => upd_buf_ne _ _ hcb
  refine ⟨⟨hi.ident.take me hc.used, hi.coh.congr (takeBuf_sameData me b d), ?_, ?_, hi.ioNodup, hi.ioMem,
    hi.nonempty, hi.total⟩, (takeBuf_sameData me b d).caches.2 hc, by simp [takeBuf]⟩
  · intro c hm hbusy
    by_cases hcb : c = b
    · rw [hcb]
    · rw [hbuf c hcb] at hbusy
      cases hi.busy c hm hbusy
  · intro c hm
    rw [(takeBuf_sameData me b d).dirty c]
    exact hi.queued c hm

theorem SeqInv.recycle (hi : SeqInv n d L none) (me : τ) (hk : k < n) (hm : b ∈ d.list)
    (hf : isFree d b = true) (hmiss : ∀ c, ¬Caches d c k) :
    SeqInv n (recycleBuf me k b d) L (some b) ∧ Holds (recycleBuf me k b d) me b k := by
  have hbuf : ∀ c, c ≠ b → (recycleBuf me k b d).buf c = d.buf c := fun c hcb => upd_buf_ne _ _ hcb
  -- a free buffer is not dirty, so it is not in the queue
  have hclean : (d.buf b).flags.dirty = false := by
    rcases isFree_iff.1 hf with ⟨-, h⟩ | hu
    · exact h
    · rw [hi.ident.fresh b hm hu]
      rfl
  refine ⟨⟨hi.ident.recycle me hm hmiss, hi.coh.recycle me (hi.total ▸ hk) hm hf id hmiss, ?_, ?_, hi.ioNodup, hi.ioMem,
    hi.nonempty, hi.total⟩, (caches_recycle hm).2 (.inl ⟨rfl, rfl⟩), by simp [recycleBuf]⟩
  · intro c hcm hbusy
    by_cases hcb : c = b
    · rw [hcb]
    · rw [hbuf c hcb] at hbusy
      cases hi.busy c hcm hbusy
  · intro c hcm
    show _ ↔ c ∈ d.io
    by_cases hcb : c = b
    · subst hcb
      have : c ∉ d.io := fun h => by
        rw [(hi.queued c hcm).2 h] at hclean
        cases hclean
      simp [recycleBuf, bBusy, this]
    · rw [hbuf c hcb]
      exact hi.queued c hcm

/-- Alone, `get_buffer` returns at the first try, or at the second after a sync has made every buffer
free. -/
theorem getBuffer_spec (hi : SeqInv n d L none) (me : τ) (hk : k < n) :
    ∃ b d', getBuffer me k maxBgetRetry d = .ok (b, d') ∧ SeqInv n d' L (some b) ∧ Holds d' me b k := by
  -- a busy buffer would be held by the caller
  have hnotbusy : ∀ {d : BlkDev τ}, SeqInv n d L none → ∀ b ∈ d.list, (d.buf b).flags.busy = false := by
    intro d hi b hm
    by_contra hb
    rw [Bool.not_eq_false] at hb
    cases hi.busy b hm hb
  have hwait : ∀ {d : BlkDev τ} {b : Nat}, SeqInv n d L none → Caches d b k →
      ¬((d.buf b).flags.busy = true ∨ (d.buf b).usr ≠ none) := by
    intro d b hi hc
    rw [← hi.ident.usr b hc.mem, or_self, hnotbusy hi b hc.mem]
    simp
  have hspec := getSection_spec me k d
  unfold getBuffer
  generalize getSection me k d = r at hspec
  obtain ⟨g, d₁⟩ := r
  cases hspec with
  | hit b hc hb hu => exact ⟨b, _, rfl, hi.take me hc⟩
  | wait b hc hb => exact absurd hb (hwait hi hc)
  | recycle b hm hf hmiss => exact ⟨b, _, rfl, hi.recycle me hk hm hf hmiss⟩
  | full hf hmiss =>
    obtain ⟨d₂, hrun, hi₂, hio, -⟩ := syncBuffer_spec hi
    -- after the sync no buffer is dirty, so the scan cannot fail
    have hfree : ∀ b ∈ d₂.list, isFree d₂ b = true := by
      intro b hm
      refine isFree_iff.2 (.inl ⟨hnotbusy hi₂ b hm, ?_⟩)
      by_contra hd
      rw [Bool.not_eq_false, hi₂.queued b hm, hio] at hd
      cases hd
    have hretry : (syncBuffer d₁ >>= fun r => getBuffer me k 0 r.2) = getBuffer me k 0 d₂ := by
      rw [hrun]
      rfl
    show ∃ b d', (syncBuffer d₁ >>= fun r => getBuffer me k 0 r.2) = .ok (b, d') ∧ _
    rw [hretry]
    have hspec := getSection_spec me k d₂
    unfold getBuffer
    generalize getSection me k d₂ = r at hspec
    obtain ⟨g, d₃⟩ := r
    cases hspec with
    | hit b hc hb hu => exact ⟨b, _, rfl, hi₂.take me hc⟩
    | wait b hc hb => exact absurd hb (hwait hi₂ hc)
    | recycle b hm hf hmiss => exact ⟨b, _, rfl, hi₂.recycle me hk hm hf hmiss⟩
    | full hf hmiss =>
      obtain ⟨b, hb⟩ := List.exists_mem_of_ne_nil _ hi₂.nonempty
      have := hf b hb
      rw [hfree b hb] at this
      cases this

theorem releaseBuffer_spec [DecidableEq τ] (hi : SeqInv n d L (some b)) (hh : Holds d me b k) :
    ∃ d', releaseBuffer me b d = .ok d' ∧ SeqInv n d' L none := by
  have hs₁ := releaseSection_sameData hh.caches.mem
  have hs₂ := notifySection_sameData b (releaseSection b d)
  refine ⟨_, by rw [releaseBuffer, if_pos hh.usr], ?_⟩
  refine ⟨(hi.ident.release hh.caches.mem hh.caches.used).notify b, (hi.coh.congr hs₁).congr hs₂, ?_, ?_,
    hi.ioNodup, ?_, List.cons_ne_nil _ _, hi.total⟩
  · intro c hm hbusy
    by_cases hcb : c = b
    · subst hcb
      simp [notifySection, releaseSection] at hbusy
    · have hbuf : ((notifySection b (releaseSection b d)).2).buf c = d.buf c := by
        simp [notifySection, releaseSection, upd_buf_ne, hcb]
      rw [hbuf] at hbusy
      have := hi.busy c ((hs₁.mem c).1 ((hs₂.mem c).1 hm)) hbusy
      rw [Option.some.injEq] at this
      exact absurd this.symm hcb
  · intro c hm
    rw [hs₂.dirty, hs₁.dirty]
    exact hi.queued c ((hs₁.mem c).1 ((hs₂.mem c).1 hm))
  · intro c hm
    exact (hs₂.mem c).2 ((hs₁.mem c).2 (hi.ioMem c hm))

/-! ## The calls -/

/-- `update_buffer` of a clean buffer brings in what the block should hold. -/
theorem fill_spec (hi : SeqInv n d L (some b)) (hh : Holds d me b k) (hd : (d.buf b).flags.dirty = false) :
    ∃ d', fill b d = .ok (0, d') ∧ SeqInv n d' L (some b) ∧ Holds d' me b k ∧ (d'.buf b).data = L k := by
  have hc := hh.caches
  have hdisk : devBlock d (d.buf b).blkno = L k := by
    rw [hc.blkno]
    exact hi.coh.disk_of_clean hi.ident hc hd id
  have hrange : (d.buf b).blkno < d.totalBlks := hi.coh.range b _ ⟨hc.mem, hc.used, rfl⟩
  have hkeep : KeepsBlock fun x : BufCache τ => { x with data := L k } := fun _ => ⟨rfl, rfl⟩
  have hkeep' : KeepsBlock fun x : BufCache τ => { x with flags := { x.flags with valid := true } } :=
    fun _ => ⟨rfl, rfl⟩
  have hid : Ident (setData b (L k) d) := hi.ident.upd hkeep hc.used (hi.ident.usr b hc.mem)
  have hc₁ : Caches (setData b (L k) d) b k := (caches_upd hkeep).2 hc
  have hid' : Ident (setValid b (setData b (L k) d)) := hid.upd hkeep' hc₁.used (hid.usr b hc₁.mem)
  have hcoh : Coherent (setData b (L k) d) L NoWriter NoWriter := hi.coh.store hi.ident hc fun _ _ => id
  have hcoh' : Coherent (setValid b (setData b (L k) d)) L NoWriter NoWriter := by
    refine hcoh.markValid hid fun j hj => ?_
    rw [← hj.blkno, hc₁.blkno]
    simp [setData]
  have hbuf : ∀ c, c ≠ b → (setValid b (setData b (L k) d)).buf c = d.buf c := fun c hcb => by
    simp [setValid, setData, upd_buf_ne, hcb]
  refine ⟨setValid b (setData b (L k) d), ?_, ⟨hid', hcoh', ?_, ?_, hi.ioNodup, hi.ioMem, hi.nonempty, hi.total⟩,
    ⟨(caches_upd hkeep').2 hc₁, ?_⟩, ?_⟩
  · rw [fill, ramfsReadBlock_ok hd hrange, hdisk]
    rfl
  · intro c hm hbusy
    by_cases hcb : c = b
    · rw [hcb]
    · rw [hbuf c hcb] at hbusy
      exact hi.busy c hm hbusy
  · intro c hm
    by_cases hcb : c = b
    · subst hcb
      have := hi.queued c hm
      simpa [setValid, setData] using this
    · rw [hbuf c hcb]
      exact hi.queued c hm
  · simpa [setValid, setData] using hh.usr
  · simp [setValid, setData]

theorem readOut_spec [DecidableEq τ] (hi : SeqInv n d L (some b)) (hh : Holds d me b k)
    (hd : (d.buf b).data = L k) : ∃ d', readOut me b 0 d = .ok (0, L k, d') ∧ SeqInv n d' L none := by
  obtain ⟨d', hrun, hinv⟩ := releaseBuffer_spec hi hh
  refine ⟨d', ?_, hinv⟩
  rw [readOut, hrun, hd]
  rfl

theorem bdevReadBuffer_spec [DecidableEq τ] (hi : SeqInv n d L none) (me : τ) (hk : k < n) (data : Block) :
    ∃ d', bdevReadBuffer me k data d = .ok (0, L k, d') ∧ SeqInv n d' L none := by
  obtain ⟨b, d₁, hget, hi₁, hh₁⟩ := getBuffer_spec hi me hk
  have hstart : bdevReadBuffer me k data d =
      if (d₁.buf b).flags.valid then readOut me b 0 d₁
      else if (d₁.buf b).flags.dirty then
        syncBuffer d₁ >>= fun r =>
          if r.1 = 0 then fill b r.2 >>= fun q => readOut me b q.1 q.2
          else releaseBuffer me b r.2 >>= fun d => pure (-2, data, d)
      else fill b d₁ >>= fun q => readOut me b q.1 q.2 := by
    rw [bdevReadBuffer, hget]
    rfl
  rw [hstart]
  split
  · rename_i hv
    exact readOut_spec hi₁ hh₁ (hi₁.coh.data b k hh₁.caches (.inl hv) id)
  · split
    · -- dirty and not valid: the queue is flushed first
      obtain ⟨d₂, hsync, hi₂, hio, hhold⟩ := syncBuffer_spec hi₁
      have hh₂ := hhold me b k hh₁
      have hd₂ : (d₂.buf b).flags.dirty = false := by
        by_contra hd
        rw [Bool.not_eq_false, hi₂.queued b hh₂.caches.mem, hio] at hd
        cases hd
      obtain ⟨d₃, hfill, hi₃, hh₃, hdata⟩ := fill_spec hi₂ hh₂ hd₂
      rw [hsync]
      show ∃ d', (fill b d₂ >>= fun r => readOut me b r.1 r.2) = _ ∧ _
      rw [hfill]
      exact readOut_spec hi₃ hh₃ hdata
    · rename_i hd
      obtain ⟨d₃, hfill, hi₃, hh₃, hdata⟩ := fill_spec hi₁ hh₁ (by simpa using hd)
      rw [hfill]
      exact readOut_spec hi₃ hh₃ hdata

/-- A write leaves the buffer dirty and queued with the new data. -/
theorem write_inv (hi : SeqInv n d L (some b)) (hh : Holds d me b k) (v : Block) :
    SeqInv n (queueBuffer b (setDirty b true (setData b v d))) (Function.update L k v) (some b) ∧
      Holds (queueBuffer b (setDirty b true (setData b v d))) me b k := by
  have hc := hh.caches
  have hkeep : KeepsBlock fun x : BufCache τ => { x with data := v } := fun _ => ⟨rfl, rfl⟩
  have hkeep' : KeepsBlock fun x : BufCache τ => { x with flags := { x.flags with dirty := true } } :=
    fun _ => ⟨rfl, rfl⟩
  have hid : Ident (setData b v d) := hi.ident.upd hkeep hc.used (hi.ident.usr b hc.mem)
  have hc₁ : Caches (setData b v d) b k := (caches_upd hkeep).2 hc
  have hid' : Ident (setDirty b true (setData b v d)) := hid.upd hkeep' hc₁.used (hid.usr b hc₁.mem)
  have hc₂ : Caches (setDirty b true (setData b v d)) b k := (caches_upd hkeep').2 hc₁
  -- the writer is given the buffer, copies, and marks it
  have hcoh : Coherent (setData b v d) (Function.update L k v) NoWriter (fun c => c = b ∨ NoWriter c) := by
    have hp : ∀ c, c ≠ b → (c = b ∨ NoWriter c) → NoWriter c := fun c hcb h => h.resolve_left hcb
    have h := (hi.coh.grant hi.ident hc v).store hi.ident hc hp
    rwa [Function.update_self] at h
  have hcoh' : Coherent (setDirty b true (setData b v d)) (Function.update L k v) NoWriter NoWriter :=
    hcoh.markDirty (.inl rfl) id (fun _ => id) fun c hcb => ⟨.inr, fun h => h.resolve_left hcb⟩
  have hbuf : ∀ c, c ≠ b → (setDirty b true (setData b v d)).buf c = d.buf c := fun c hcb => by
    simp [setDirty, setData, upd_buf_ne, hcb]
  rw [queueBuffer_eq]
  refine ⟨⟨hid'.ramIo _ _, hcoh'.congr (io_sameData _ _), ?_, ?_, ?_, ?_, hi.nonempty, hi.total⟩,
    (io_sameData _ _).caches.2 hc₂, ?_⟩
  · intro c hm hbusy
    by_cases hcb : c = b
    · rw [hcb]
    · have hbusy' : ((setDirty b true (setData b v d)).buf c).flags.busy = true := hbusy
      rw [hbuf c hcb] at hbusy'
      exact hi.busy c hm hbusy'
  · intro c hm
    show ((setDirty b true (setData b v d)).buf c).flags.dirty = true ↔ c ∈ d.io.erase b ++ [b]
    by_cases hcb : c = b
    · subst hcb
      simp [setDirty]
    · rw [hbuf c hcb, List.mem_append, List.mem_erase_of_ne hcb, List.mem_singleton, or_iff_left hcb]
      exact hi.queued c hm
  · rw [← List.concat_eq_append]
    exact List.Nodup.concat hi.ioNodup.not_mem_erase (hi.ioNodup.erase b)
  · intro c hm
    rcases List.mem_append.1 hm with hm | hm
    · exact hi.ioMem c (List.mem_of_mem_erase hm)
    · rw [List.mem_singleton.1 hm]
      exact hc.mem
  · simpa [setDirty, setData] using hh.usr

theorem bdevWriteBuffer_spec [DecidableEq τ] (hi : SeqInv n d L none) (me : τ) (hk : k < n) (v : Block) :
    ∃ d', bdevWriteBuffer me k v d = .ok (0, d') ∧ SeqInv n d' (Function.update L k v) none := by
  obtain ⟨b, d₁, hget, hi₁, hh₁⟩ := getBuffer_spec hi me hk
  obtain ⟨hi₂, hh₂⟩ := write_inv hi₁ hh₁ v
  obtain ⟨d', hrel, hi₃⟩ := releaseBuffer_spec hi₂ hh₂
  refine ⟨d', ?_, hi₃⟩
  rw [bdevWriteBuffer, hget]
  show (releaseBuffer me b _ >>= fun d => pure (0, d)) = _
  rw [hrel]
  rfl

theorem bdevSyncBuffer_spec (hi : SeqInv n d L none) :
    ∃ d', bdevSyncBuffer d = .ok (0, d') ∧ SeqInv n d' L none ∧ d'.io = [] := by
  obtain ⟨d', hrun, hinv, hio, -⟩ := syncBuffer_spec hi
  refine ⟨d', ?_, hinv, hio⟩
  rw [bdevSyncBuffer, hrun]
  rfl

/-! ## Start-up -/

theorem Started.seqInv {bufs : List (Option Nat)} (h : Started d d' bufs) (hf : Fits d) (hnd : bufs.Nodup)
    (hne : bufs ≠ []) : SeqInv d.totalBlks d' (devBlock d) none := by
  refine ⟨h.ident hnd, h.coherent hf _ _, fun b hm hb => ?_, fun b hm => ?_, ?_, ?_, ?_, h.totalBlks⟩
  · rw [h.fresh b hm] at hb
    cases hb
  · rw [h.fresh b hm, h.io]
    simp [freshBuf, bUnused]
  · rw [h.io]
    exact List.nodup_nil
  · simp [h.io]
  · intro hnil
    rw [← h.list, hnil] at hne
    exact hne rfl

/-! ## Runs of calls -/

inductive Req where
  | read (blkno : Nat) (data : Block)
  | write (blkno : Nat) (data : Block)
  | sync

/-- What a call returns; a read also what is in the caller's array. -/
inductive Resp where
  | read (status : Int) (data : Block)
  | write (status : Int)
  | sync (rv : Int)

def Req.inRange (total : Nat) : Req → Prop
  | .read k _ => k < total
  | .write k _ => k < total
  | .sync => True

def serve [DecidableEq τ] (me : τ) : Req → BlkDev τ → Except Halt (Resp × BlkDev τ)
  | .read k data, d => do
    let (status, data, d) ← bdevReadBuffer me k data d
    return (.read status data, d)
  | .write k data, d => do
    let (status, d) ← bdevWriteBuffer me k data d
    return (.write status, d)
  | .sync, d => do
    let (rv, d) ← bdevSyncBuffer d
    return (.sync rv, d)

def serveAll [DecidableEq τ] (me : τ) : List Req → BlkDev τ → Except Halt (List Resp × BlkDev τ)
  | [], d => .ok ([], d)
  | r :: rs, d => do
    let (a, d) ← serve me r d
    let (as, d) ← serveAll me rs d
    return (a :: as, d)

/-- The abstract device: an array of blocks. -/
def arrayServe (L : Nat → Block) : Req → Resp × (Nat → Block)
  | .read k _ => (.read 0 (L k), L)
  | .write k data => (.write 0, Function.update L k data)
  | .sync => (.sync 0, L)

def arrayServeAll (L : Nat → Block) : List Req → List Resp × (Nat → Block)
  | [] => ([], L)
  | r :: rs =>
    let s := arrayServe L r
    let t := arrayServeAll s.2 rs
    (s.1 :: t.1, t.2)

/-- What a sync leaves behind. -/
def Synced (n : Nat) (d : BlkDev τ) (L : Nat → Block) : Prop :=
  d.io = [] ∧ (∀ b ∈ d.list, (d.buf b).flags.dirty = false) ∧ ∀ k < n, devBlock d k = L k

theorem SeqInv.synced (hi : SeqInv n d L none) (hio : d.io = []) : Synced n d L := by
  have hclean : ∀ b ∈ d.list, (d.buf b).flags.dirty = false := by
    intro b hm
    by_contra hd
    rw [Bool.not_eq_false, hi.queued b hm, hio] at hd
    cases hd
  exact ⟨hio, hclean, fun k hk => hi.coh.disk k (hi.total ▸ hk) fun b hc => ⟨hclean b hc.mem, id⟩⟩

/-- One call does what the array does. -/
theorem serve_spec [DecidableEq τ] (hi : SeqInv n d L none) (me : τ) (r : Req) (hr : r.inRange n) :
    ∃ d', serve me r d = .ok ((arrayServe L r).1, d') ∧ SeqInv n d' (arrayServe L r).2 none ∧
      (r = .sync → d'.io = []) := by
  cases r with
  | read k data =>
    obtain ⟨d', hrun, hinv⟩ := bdevReadBuffer_spec hi me hr data
    exact ⟨d', by rw [serve, hrun]; rfl, hinv, fun h => by cases h⟩
  | write k data =>
    obtain ⟨d', hrun, hinv⟩ := bdevWriteBuffer_spec hi me hr data
    exact ⟨d', by rw [serve, hrun]; rfl, hinv, fun h => by cases h⟩
  | sync =>
    obtain ⟨d', hrun, hinv, hio⟩ := bdevSyncBuffer_spec hi
    exact ⟨d', by rw [serve, hrun]; rfl, hinv, fun _ => hio⟩

theorem serveAll_spec [DecidableEq τ] (me : τ) : ∀ (rs : List Req) {d : BlkDev τ} {L : Nat → Block},
    SeqInv n d L none → (∀ r ∈ rs, r.inRange n) →
    ∃ d', serveAll me rs d = .ok ((arrayServeAll L rs).1, d') ∧ SeqInv n d' (arrayServeAll L rs).2 none ∧
      (rs.getLast? = some .sync → d'.io = [])
  | [], d, L, hi, _ => ⟨d, rfl, hi, fun h => by cases h⟩
  | r :: rs, d, L, hi, hr => by
    obtain ⟨d₁, hrun, hi₁, hsync⟩ := serve_spec hi me r (hr r (by simp))
    obtain ⟨d₂, hrun₂, hi₂, hsync₂⟩ := serveAll_spec me rs hi₁ fun q hq => hr q (by simp [hq])
    refine ⟨d₂, ?_, hi₂, fun hlast => ?_⟩
    · rw [serveAll, hrun]
      show (serveAll me rs d₁ >>= fun t => pure ((arrayServe L r).1 :: t.1, t.2)) = _
      rw [hrun₂]
      rfl
    · cases rs with
      | nil =>
        cases hrun₂
        exact hsync (by simpa using hlast)
      | cons q qs => exact hsync₂ (by simpa using hlast)

/-- **The cache refines a block array.** After start-up with at least one buffer, any sequence of calls by
one thread with block numbers in range returns, and every status and every array read is the one of the
block array that starts as the disk was. After a sync the queue is empty, no buffer is dirty and the
disk is the array. -/
theorem cache_refines_array [DecidableEq τ] (me : τ) {d d' : BlkDev τ} (bufs : List (Option Nat))
    (hbare : Bare d) (hfits : Fits d) (hnd : bufs.Nodup) (hne : bufs ≠ [])
    (hinit : bdevInitBufferCache bufs d = (0, d')) (rs : List Req) (hr : ∀ r ∈ rs, r.inRange d.totalBlks) :
    ∃ d'', serveAll me rs d' = .ok ((arrayServeAll (devBlock d) rs).1, d'') ∧
      (rs.getLast? = some .sync → Synced d.totalBlks d'' (arrayServeAll (devBlock d) rs).2) := by
  have hi := (bdevInit_spec hbare hinit).seqInv hfits hnd hne
  obtain ⟨d'', hrun, hinv, hsync⟩ := serveAll_spec me rs hi hr
  exact ⟨d'', hrun, fun hlast => hinv.synced (hsync hlast)⟩

/-- With one buffer for two blocks: the first read evicts nothing but has to flush the written block, the
second one has to bring it back. -/
theorem cache_refines_array_one_buffer :
    ∃ d', serveAll () [.write 0 fun _ => 7, .read 1 fun _ => 9, .read 0 fun _ => 9, .sync]
        (bdevInitBufferCache [some 0x2000] (zeroDisk Unit)).2
        = .ok ([.write 0, .read 0 fun _ => 0, .read 0 fun _ => 7, .sync 0], d') ∧
      devBlock d' 0 = fun _ => 7 := by
  have hbare : Bare (zeroDisk Unit) := ⟨rfl, rfl⟩
  have hfits : Fits (zeroDisk Unit) := by unfold Fits; decide
  obtain ⟨d', hrun, hsync⟩ := cache_refines_array () [some 0x2000] hbare hfits (by decide) (by decide) rfl
    [.write 0 fun _ => 7, .read 1 fun _ => 9, .read 0 fun _ => 9, .sync]
    (by simp [Req.inRange, zeroDisk])
  exact ⟨d', hrun, (hsync rfl).2.2 0 (by decide)⟩

end RedMagic.Bbuf
