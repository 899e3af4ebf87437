import RedMagic.Bbuf.Sequential
import RedMagic.Lib.Fallible
import RedMagic.Lib.Recency

/-!
# Which buffer `get_buffer` recycles

`Ran` is the states between the calls of one thread, each with the history of the buffers released so far,
the last one first. The order of the list says how long ago: it is `recency` of the history, with the
buffers that were never used behind (`Recent`). `Scans` is the states in which the critical section of
`get_buffer` runs during one call: the first, and the one after a failed search and `sync_buffer`.
-/

namespace RedMagic.Bbuf

open Fallible Recency

variable {τ : Type} {d d' d₁ d₂ : BlkDev τ} {held : Option Nat} {b c j k : Nat} {me : τ}

/-! ## What a call does between `get_buffer` and `release_buffer` -/

/-- The buffers keep their places, blocks and users; only the one that is held, and those that were
dirty, change their flags. -/
structure Keeps (held : Option Nat) (d d' : BlkDev τ) : Prop where
  totalBlks : d'.totalBlks = d.totalBlks
  list : d'.list = d.list
  blkno : ∀ c, (d'.buf c).blkno = (d.buf c).blkno
  unused : ∀ c, (d'.buf c).flags.unused = (d.buf c).flags.unused
  busy : ∀ c, (d'.buf c).flags.busy = (d.buf c).flags.busy
  clean : ∀ c, some c ≠ held → (d.buf c).flags.dirty = false → (d'.buf c).flags = (d.buf c).flags

namespace Keeps

theorem refl (held : Option Nat) (d : BlkDev τ) : Keeps held d d :=
  ⟨rfl, rfl, fun _ => rfl, fun _ => rfl, fun _ => rfl, fun _ _ _ => rfl⟩

theorem trans (h₁ : Keeps held d d₁) (h₂ : Keeps held d₁ d₂) : Keeps held d d₂ where
  totalBlks := h₂.totalBlks.trans h₁.totalBlks
  list := h₂.list.trans h₁.list
  blkno c := (h₂.blkno c).trans (h₁.blkno c)
  unused c := (h₂.unused c).trans (h₁.unused c)
  busy c := (h₂.busy c).trans (h₁.busy c)
  clean c hc hd := by
    have h := h₁.clean c hc hd
    exact (h₂.clean c hc (by rw [h, hd])).trans h

theorem weaken (h : Keeps none d d') (held : Option Nat) : Keeps held d d' :=
  ⟨h.totalBlks, h.list, h.blkno, h.unused, h.busy, fun c _ => h.clean c (Option.some_ne_none c)⟩

theorem caches (h : Keeps held d d') : Caches d' c j ↔ Caches d c j := by
  constructor
  · rintro ⟨h1, h2, h3⟩
    exact ⟨h.list ▸ h1, h.unused c ▸ h2, h.blkno c ▸ h3⟩
  · rintro ⟨h1, h2, h3⟩
    exact ⟨h.list.symm ▸ h1, (h.unused c).trans h2, (h.blkno c).trans h3⟩

/-- A write to the held buffer. -/
theorem upd {f : BufCache τ → BufCache τ} (hf : KeepsBlock f) (hbusy : ∀ x, (f x).flags.busy = x.flags.busy) :
    Keeps (some b) d (d.upd b f) where
  totalBlks := rfl
  list := rfl
  blkno c := upd_field d b c f (g := BufCache.blkno) fun x => (hf x).1
  unused c := upd_field d b c f (g := fun x => x.flags.unused) fun x => (hf x).2
  busy c := upd_field d b c f (g := fun x => x.flags.busy) hbusy
  clean c hc _ := by rw [upd_buf_ne d f fun h => hc (congrArg some h)]

/-- The disk and the io queue are no part of it. -/
theorem ramIo (ram : Nat → UInt8) (io : List Nat) : Keeps held d { d with ram := ram, io := io } :=
  ⟨rfl, rfl, fun _ => rfl, fun _ => rfl, fun _ => rfl, fun _ _ _ => rfl⟩

end Keeps

/-- A field other than `B_DIRTY`. -/
theorem flushed_field {α : Type} {g : BufCache τ → α}
    (hg : ∀ x : BufCache τ, g { x with flags := { x.flags with dirty := false } } = g x) (c : Nat) :
    g ((flushed b d).buf c) = g (d.buf c) := by
  by_cases hcb : c = b
  · rw [hcb, flushed_buf_self, hg]
  · rw [flushed_buf_ne hcb]

theorem flushed_keeps (hd : (d.buf b).flags.dirty = true) : Keeps none d (flushed b d) where
  totalBlks := rfl
  list := rfl
  blkno := flushed_field (g := BufCache.blkno) fun _ => rfl
  unused := flushed_field (g := fun x => x.flags.unused) fun _ => rfl
  busy := flushed_field (g := fun x => x.flags.busy) fun _ => rfl
  clean c _ hc := by
    have hcb : c ≠ b := by
      rintro rfl
      rw [hd] at hc
      cases hc
    rw [flushed_buf_ne hcb]

theorem syncLoop_keeps : ∀ (todo : List Nat) {rv rv' : Nat} {d d' : BlkDev τ},
    syncLoop todo rv d = .ok (rv', d') → Keeps none d d'
  | [], _, _, d, d', h => by
    cases h
    exact .refl none d
  | b :: todo, rv, rv', d, d', h => by
    rw [syncLoop] at h
    split at h
    · obtain ⟨⟨status, d₁⟩, hw, hrest⟩ := bind_eq_ok.1 h
      obtain ⟨hd, ⟨rfl, -, rfl⟩ | ⟨hne, rfl⟩⟩ := ramfsWriteBlock_cases hw
      · exact (flushed_keeps hd).trans (syncLoop_keeps todo hrest)
      · simp only [if_neg hne] at hrest
        exact syncLoop_keeps todo hrest
    · exact syncLoop_keeps todo h

theorem syncBuffer_keeps {rv : Nat} (h : syncBuffer d = .ok (rv, d')) : Keeps none d d' := syncLoop_keeps d.io h

theorem fill_keeps {status : Int} (h : fill b d = .ok (status, d')) : Keeps (some b) d d' := by
  obtain ⟨⟨st, d₁⟩, hr, hret⟩ := bind_eq_ok.1 h
  have hload : ∀ v, Keeps (some b) d (setData b v d) := fun v => .upd (fun _ => ⟨rfl, rfl⟩) fun _ => rfl
  have hvalid : ∀ e : BlkDev τ, Keeps (some b) e (setValid b e) := fun e => .upd (fun _ => ⟨rfl, rfl⟩) fun _ => rfl
  obtain ⟨-, ⟨rfl, -, rfl⟩ | ⟨hne, rfl⟩⟩ := ramfsReadBlock_cases hr
  · cases hret
    exact (hload _).trans (hvalid _)
  · cases hret
    rw [if_neg hne]
    exact .refl _ _

theorem write_keeps (v : Block) : Keeps (some b) d (queueBuffer b (setDirty b true (setData b v d))) := by
  rw [queueBuffer_eq]
  have hdata : Keeps (some b) d (setData b v d) := .upd (fun _ => ⟨rfl, rfl⟩) fun _ => rfl
  have hdirty : Keeps (some b) (setData b v d) (setDirty b true (setData b v d)) :=
    .upd (fun _ => ⟨rfl, rfl⟩) fun _ => rfl
  exact (hdata.trans hdirty).trans (.ramIo _ _)

/-! ## The calls -/

def Req.blkno : Req → Option Nat
  | .read k _ => some k
  | .write k _ => some k
  | .sync => none

/-- The shape of a call that returns. -/
inductive CallSpec [DecidableEq τ] (me : τ) (d : BlkDev τ) : Option Nat → BlkDev τ → Prop
  | sync {d' : BlkDev τ} (hk : Keeps none d d') : CallSpec me d none d'
  | transfer {k b : Nat} {d₁ d₂ d' : BlkDev τ} (hget : getBuffer me k maxBgetRetry d = .ok (b, d₁))
    (hk : Keeps (some b) d₁ d₂) (hrel : releaseBuffer me b d₂ = .ok d') : CallSpec me d (some k) d'

section
variable [DecidableEq τ]

theorem readOut_released {status st : Int} {out : Block} (h : readOut me b status d = .ok (st, out, d')) :
    releaseBuffer me b d = .ok d' := by
  obtain ⟨d₁, hrel, hret⟩ := bind_eq_ok.1 h
  cases hret
  exact hrel

theorem fillOut_spec {st : Int} {out : Block}
    (h : (fill b d >>= fun q => readOut me b q.1 q.2) = .ok (st, out, d')) :
    ∃ d₂, Keeps (some b) d d₂ ∧ releaseBuffer me b d₂ = .ok d' := by
  obtain ⟨⟨status, d₂⟩, hfill, hout⟩ := bind_eq_ok.1 h
  exact ⟨d₂, fill_keeps hfill, readOut_released hout⟩

theorem bdevReadBuffer_call {data out : Block} {st : Int} (h : bdevReadBuffer me k data d = .ok (st, out, d')) :
    CallSpec me d (some k) d' := by
  obtain ⟨⟨b, d₁⟩, hget, hbody⟩ := bind_eq_ok.1 h
  dsimp only at hbody
  split at hbody
  · exact .transfer hget (.refl _ _) (readOut_released hbody)
  · split at hbody
    · obtain ⟨⟨rv, d₂⟩, hsync, hrest⟩ := bind_eq_ok.1 hbody
      have hk := (syncBuffer_keeps hsync).weaken (some b)
      dsimp only at hrest
      split at hrest
      · obtain ⟨d₃, hk', hrel⟩ := fillOut_spec hrest
        exact .transfer hget (hk.trans hk') hrel
      · obtain ⟨d₃, hrel, hret⟩ := bind_eq_ok.1 hrest
        cases hret
        exact .transfer hget hk hrel
    · obtain ⟨d₂, hk, hrel⟩ := fillOut_spec hbody
      exact .transfer hget hk hrel

theorem bdevWriteBuffer_call {v : Block} {st : Int} (h : bdevWriteBuffer me k v d = .ok (st, d')) :
    CallSpec me d (some k) d' := by
  obtain ⟨⟨b, d₁⟩, hget, hbody⟩ := bind_eq_ok.1 h
  obtain ⟨d₂, hrel, hret⟩ := bind_eq_ok.1 hbody
  cases hret
  exact .transfer hget (write_keeps v) hrel

theorem serve_call {r : Req} {a : Resp} (h : serve me r d = .ok (a, d')) : CallSpec me d r.blkno d' := by
  cases r with
  | read k data =>
    obtain ⟨⟨st, out, d₁⟩, hr, hret⟩ := bind_eq_ok.1 h
    cases hret
    exact bdevReadBuffer_call hr
  | write k data =>
    obtain ⟨⟨st, d₁⟩, hw, hret⟩ := bind_eq_ok.1 h
    cases hret
    exact bdevWriteBuffer_call hw
  | sync =>
    obtain ⟨⟨rv, d₁⟩, hs, hret⟩ := bind_eq_ok.1 h
    cases hret
    obtain ⟨⟨rv', d₂⟩, hsync, hret⟩ := bind_eq_ok.1 hs
    cases hret
    exact .sync (syncBuffer_keeps hsync)

end

theorem releaseBuffer_effect [DecidableEq τ] (h : releaseBuffer me b d = .ok d') :
    d'.list = b :: d.list.erase b ∧
      (d'.buf b = { d.buf b with
        flags := { (d.buf b).flags with busy := false }, usr := none, wq := (d.buf b).wq.tail }) ∧
      ∀ c, c ≠ b → d'.buf c = d.buf c := by
  rw [releaseBuffer] at h
  split at h
  · cases h
    refine ⟨rfl, by simp [notifySection, releaseSection], fun c hc => ?_⟩
    simp [notifySection, releaseSection, upd_buf_ne, hc]
  · cases h

/-! ## Runs -/

/-- The buffer that the call gets and releases. -/
def released (me : τ) (r : Req) (d : BlkDev τ) : List Nat :=
  match r.blkno with
  | none => []
  | some k =>
    match getBuffer me k maxBgetRetry d with
    | .ok (b, _) => [b]
    | .error _ => []

/-- The states between the calls of `me`, with the buffers released on the way, the last one first. -/
inductive Ran [DecidableEq τ] (me : τ) (d₀ : BlkDev τ) : List Nat → BlkDev τ → Prop
  | start : Ran me d₀ [] d₀
  | call {hist : List Nat} {d d' : BlkDev τ} {a : Resp} (r : Req) (hrun : Ran me d₀ hist d)
    (hserve : serve me r d = .ok (a, d')) : Ran me d₀ (released me r d ++ hist) d'

/-- The states in which a `get_buffer` with `left` retries to go, called in `d`, searches the list. -/
inductive Scans (me : τ) (k : Nat) : Nat → BlkDev τ → BlkDev τ → Prop
  | now (left : Nat) (d : BlkDev τ) : Scans me k left d d
  | retry {left rv : Nat} {d d₁ ds : BlkDev τ} (hfull : getSection me k d = (.none, d))
    (hsync : syncBuffer d = .ok (rv, d₁)) (hs : Scans me k left d₁ ds) : Scans me k (left + 1) d ds

theorem getSection_none (h : getSection me k d = (.none, d₁)) : d₁ = d := by
  have hspec := getSection_spec me k d
  rw [h] at hspec
  cases hspec
  rfl

/-- The buffer that a search gives has the block. -/
theorem getSection_caches (h : getSection me k d = (.buf b, d')) : Caches d' b k := by
  have hspec := getSection_spec me k d
  rw [h] at hspec
  cases hspec with
  | hit _ hc _ _ => exact (takeBuf_sameData me b d).caches.2 hc
  | recycle _ hm _ _ => exact (caches_recycle hm).2 (.inl ⟨rfl, rfl⟩)

/-- What `get_buffer` returns comes from its last search. -/
theorem getBuffer_scans : ∀ (left : Nat) {d : BlkDev τ}, getBuffer me k left d = .ok (b, d') →
    ∃ ds, Scans me k left d ds ∧ getSection me k ds = (.buf b, d')
  | left, d, h => by
    rw [getBuffer] at h
    split at h
    · rename_i hsec
      cases h
      exact ⟨d, .now left d, hsec⟩
    · cases h
    · rename_i d₁ hsec
      obtain rfl := getSection_none hsec
      cases left with
      | zero => cases h
      | succ left =>
        obtain ⟨⟨rv, d₂⟩, hsync, hrest⟩ := bind_eq_ok.1 h
        obtain ⟨ds, hs, hget⟩ := getBuffer_scans left hrest
        exact ⟨ds, .retry hsec hsync hs, hget⟩

theorem Scans.keeps {left : Nat} {ds : BlkDev τ} (h : Scans me k left d ds) : Keeps none d ds := by
  induction h with
  | now left d => exact .refl none d
  | retry _ hsync _ ih => exact (syncBuffer_keeps hsync).trans ih

/-- Between the calls (`held = none`), or while `held` is out of the list's order: the list is the released
buffers, the last one first, and then those that were never used. -/
structure Recent (fresh hist : List Nat) (held : Option Nat) (d : BlkDev τ) : Prop where
  list : d.list = recency hist ++ fresh
  nodup : d.list.Nodup
  used : ∀ b ∈ hist, (d.buf b).flags.unused = false
  fresh : ∀ b ∈ fresh, some b ≠ held → (d.buf b).flags = bUnused
  idle : ∀ b ∈ d.list, some b ≠ held → (d.buf b).flags.busy = false

namespace Recent

variable {fresh hist : List Nat}

theorem mem_list (h : Recent fresh hist held d) : b ∈ d.list ↔ b ∈ hist ∨ b ∈ fresh := by
  rw [h.list, List.mem_append, mem_recency]

theorem not_fresh (h : Recent fresh hist held d) (hb : b ∈ hist) : b ∉ fresh := by
  have hnd : (recency hist ++ fresh).Nodup := h.list ▸ h.nodup
  exact List.disjoint_of_nodup_append hnd (mem_recency.2 hb)

theorem keeps (h : Recent fresh hist held d) (hk : Keeps held d d') : Recent fresh hist held d' where
  list := hk.list.trans h.list
  nodup := hk.list ▸ h.nodup
  used b hb := (hk.unused b).trans (h.used b hb)
  fresh b hb hne := by
    have hf := h.fresh b hb hne
    exact (hk.clean b hne (by rw [hf]; rfl)).trans hf
  idle b hb hne := (hk.busy b).trans (h.idle b (hk.list ▸ hb) hne)

/-- A buffer is taken out of the idle ones and marked as used. -/
theorem hold (h : Recent fresh hist none d) (hlist : d'.list = d.list) (hbuf : ∀ c, c ≠ b → d'.buf c = d.buf c)
    (hb : (d'.buf b).flags.unused = false) : Recent fresh hist (some b) d' where
  list := hlist.trans h.list
  nodup := hlist ▸ h.nodup
  used c hc := by
    by_cases hcb : c = b
    · rw [hcb, hb]
    · rw [hbuf c hcb, h.used c hc]
  fresh c hc hne := by
    rw [hbuf c fun hcb => hne (congrArg some hcb)]
    exact h.fresh c hc (Option.some_ne_none c)
  idle c hc hne := by
    rw [hbuf c fun hcb => hne (congrArg some hcb)]
    exact h.idle c (hlist ▸ hc) (Option.some_ne_none c)

theorem section_hold (h : Recent fresh hist none d) (hget : getSection me k d = (.buf b, d')) :
    Recent fresh hist (some b) d' := by
  have hused := (getSection_caches hget).used
  have hspec := getSection_spec me k d
  rw [hget] at hspec
  cases hspec with
  | hit _ _ _ _ => exact h.hold rfl (fun c hne => Function.update_of_ne hne ..) hused
  | recycle _ _ _ _ => exact h.hold rfl (fun c hne => Function.update_of_ne hne ..) hused

/-- The buffer that is released goes to the front. -/
theorem release [DecidableEq τ] (h : Recent fresh hist (some b) d) (hc : Caches d b k)
    (hrel : releaseBuffer me b d = .ok d') :
    ∃ fresh', Recent fresh' (b :: hist) none d' := by
  obtain ⟨hlist, hself, hother⟩ := releaseBuffer_effect hrel
  have hperm : d'.list.Perm d.list := hlist ▸ (List.perm_cons_erase hc.mem).symm
  have hused' : ∀ c ∈ b :: hist, (d'.buf c).flags.unused = false := by
    intro c hm
    by_cases hcb : c = b
    · rw [hcb, hself]
      exact hc.used
    · rw [hother c hcb]
      exact h.used c ((List.mem_cons.1 hm).resolve_left hcb)
  have hidle : ∀ c ∈ d'.list, some c ≠ none → (d'.buf c).flags.busy = false := by
    intro c hc _
    by_cases hcb : c = b
    · rw [hcb, hself]
    · rw [hother c hcb]
      exact h.idle c (hperm.mem_iff.1 hc) fun hs => hcb (Option.some.inj hs)
  have hfresh : ∀ c ∈ fresh, c ≠ b → (d'.buf c).flags = bUnused := by
    intro c hc hcb
    rw [hother c hcb]
    exact h.fresh c hc fun hs => hcb (Option.some.inj hs)
  rw [h.list] at hlist
  by_cases hmem : b ∈ hist
  · rw [moveToFront_old hmem] at hlist
    refine ⟨fresh, hlist, hperm.nodup_iff.2 h.nodup, hused', fun c hc _ => hfresh c hc ?_, hidle⟩
    rintro rfl
    exact h.not_fresh hmem ‹_›
  · rw [moveToFront_new hmem] at hlist
    refine ⟨fresh.erase b, hlist, hperm.nodup_iff.2 h.nodup, hused', fun c hc _ => ?_, hidle⟩
    have hnd : fresh.Nodup := List.Nodup.of_append_right (h.list ▸ h.nodup)
    have hc' := hnd.mem_erase_iff.1 hc
    exact hfresh c hc'.2 hc'.1

theorem call [DecidableEq τ] (h : Recent fresh hist none d) {r : Req} {a : Resp}
    (hserve : serve me r d = .ok (a, d')) : ∃ fresh', Recent fresh' (released me r d ++ hist) none d' := by
  have hcall := serve_call hserve
  cases hblk : r.blkno with
  | none =>
    rw [hblk] at hcall
    cases hcall with
    | sync hk =>
      refine ⟨fresh, ?_⟩
      rw [released, hblk]
      exact h.keeps hk
  | some k =>
    rw [hblk] at hcall
    cases hcall with
    | @transfer _ b d₁ d₂ _ hget hk hrel =>
      obtain ⟨ds, hs, hsec⟩ := getBuffer_scans _ hget
      have h₁ := (h.keeps hs.keeps).section_hold hsec
      have hrel' : released me r d = [b] := by simp only [released, hblk, hget]
      rw [hrel']
      exact (h₁.keeps hk).release (hk.caches.2 (getSection_caches hsec)) hrel

/-- A buffer was used exactly if it was released: between the calls the two are the same. -/
theorem unused_iff (h : Recent fresh hist none d) (hb : b ∈ d.list) :
    (d.buf b).flags.unused = true ↔ b ∉ hist := by
  constructor
  · intro hu hm
    rw [h.used b hm] at hu
    cases hu
  · intro hno
    rw [h.fresh b ((h.mem_list.1 hb).resolve_left hno) (Option.some_ne_none b)]
    rfl

theorem isFree_iff (h : Recent fresh hist none d) (hb : b ∈ d.list) :
    isFree d b = true ↔ (d.buf b).flags.dirty = false := by
  rw [Bbuf.isFree_iff, h.idle b hb (Option.some_ne_none b)]
  constructor
  · rintro (⟨-, hd⟩ | hu)
    · exact hd
    · rw [h.fresh b ((h.mem_list.1 hb).resolve_left ((h.unused_iff hb).1 hu)) (Option.some_ne_none b)]
      rfl
  · exact fun hd => .inl ⟨rfl, hd⟩

end Recent

theorem Started.recent {bufs : List (Option Nat)} (h : Started d d' bufs) (hnd : bufs.Nodup) :
    Recent d'.list [] none d' where
  list := rfl
  nodup := (h.ident hnd).nodup
  used := nofun
  fresh b hb _ := by
    rw [h.fresh b hb]
    rfl
  idle b hb _ := by
    rw [h.fresh b hb]
    rfl

theorem Ran.recent [DecidableEq τ] {bufs : List (Option Nat)} {hist : List Nat} (h : Started d d₁ bufs)
    (hnd : bufs.Nodup) (hrun : Ran me d₁ hist d') : ∃ fresh, Recent fresh hist none d' := by
  induction hrun with
  | start => exact ⟨_, h.recent hnd⟩
  | call r _ hserve ih =>
    obtain ⟨fresh, hr⟩ := ih
    exact hr.call hserve

/-- What is said of the buffer `b` that a search recycles, given the buffers released so far. -/
structure LeastRecent (hist : List Nat) (d : BlkDev τ) (b : Nat) : Prop where
  idle : (d.buf b).flags.busy = false
  clean : (d.buf b).flags.dirty = false
  fresh : (∃ c ∈ d.list, c ∉ hist) → b ∉ hist
  oldest : (∀ c ∈ d.list, c ∈ hist) →
    ∀ c ∈ d.list, (d.buf c).flags.dirty = false → c ≠ b → hist.idxOf c < hist.idxOf b

theorem find_hit_none (hmiss : ∀ c, ¬ Caches d c k) : d.list.find? (isHit d k) = none := by
  refine List.find?_eq_none.2 fun c hc hhit => ?_
  obtain ⟨hu, hk⟩ := isHit_iff.1 hhit
  exact hmiss c ⟨hc, hu, hk⟩

theorem getSection_miss (hget : getSection me k d = (.buf b, d')) (hmiss : ∀ c, ¬ Caches d c k) :
    d.list.reverse.find? (isFree d) = some b ∧ d' = recycleBuf me k b d := by
  rw [getSection, find_hit_none hmiss] at hget
  dsimp only at hget
  split at hget
  · rename_i hfind
    cases hget
    exact ⟨hfind, rfl⟩
  · cases hget

theorem Recent.leastRecent {fresh hist : List Nat} (h : Recent fresh hist none d)
    (hfind : d.list.reverse.find? (isFree d) = some b) : LeastRecent hist d b := by
  have hb : b ∈ d.list := List.mem_reverse.1 (List.mem_of_find?_eq_some hfind)
  refine ⟨h.idle b hb (Option.some_ne_none b), (h.isFree_iff hb).1 (List.find?_some hfind), ?_, ?_⟩
  · rintro ⟨c, hc, hno⟩
    have hcf : c ∈ fresh := (h.mem_list.1 hc).resolve_left hno
    have hfree : ∀ x ∈ fresh, isFree d x = true := by
      intro x hx
      rw [isFree, h.fresh x hx (Option.some_ne_none x)]
      rfl
    rw [h.list] at hfind
    have hbf := find_fresh hfree (List.ne_nil_of_mem hcf) hfind
    exact fun hbh => h.not_fresh hbh hbf
  · intro hall c hc hd hne
    have hnil : fresh = [] := by
      refine List.eq_nil_iff_forall_not_mem.2 fun x hx => ?_
      exact h.not_fresh (hall x (h.mem_list.2 (.inr hx))) hx
    rw [h.list, hnil, List.append_nil] at hfind
    exact find_oldest hfind (hall c hc) ((h.isFree_iff hc).2 hd) hne

theorem releaseBuffer_caches [DecidableEq τ] (hrel : releaseBuffer me b d = .ok d') (hb : b ∈ d.list) :
    Caches d' c j ↔ Caches d c j := by
  rw [releaseBuffer] at hrel
  split at hrel
  · cases hrel
    exact (notifySection_sameData b _).caches.trans (releaseSection_sameData hb).caches
  · cases hrel

/-- A search drops no block but that of the buffer it recycles. -/
theorem getSection_drops (hget : getSection me k d = (.buf b, d')) (hc : Caches d c j) (hno : ¬ Caches d' c j) :
    c = b ∧ ∀ c', ¬ Caches d c' k := by
  have hspec := getSection_spec me k d
  rw [hget] at hspec
  cases hspec with
  | hit _ _ _ _ => exact absurd ((takeBuf_sameData me b d).caches.2 hc) hno
  | recycle _ hm _ hmiss =>
    refine ⟨?_, hmiss⟩
    by_contra hcb
    exact hno ((caches_recycle hm).2 (.inr ⟨hcb, hc⟩))

/-- **The least recently used clean buffer is recycled.** After start-up, in any run of calls by one thread:
whenever a search of `get_buffer` misses, the buffer it recycles is neither busy nor dirty; it was never used
if there is such a buffer, and otherwise its last release is the oldest among the clean buffers. A call
drops a block from the cache only in such a search, when the block's buffer is clean. -/
theorem recycles_least_recent [DecidableEq τ] {d₀ : BlkDev τ} {bufs : List (Option Nat)} (hbare : Bare d₀)
    (hnd : bufs.Nodup) (hinit : bdevInitBufferCache bufs d₀ = (0, d₁)) {hist : List Nat} (hrun : Ran me d₁ hist d) :
    (∀ k ds b d', Scans me k maxBgetRetry d ds → getSection me k ds = (.buf b, d') →
        (∀ c, ¬ Caches ds c k) → LeastRecent hist ds b) ∧
      ∀ r a d' c j, serve me r d = .ok (a, d') → Caches d c j → ¬ Caches d' c j →
        ∃ k ds d'', r.blkno = some k ∧ Scans me k maxBgetRetry d ds ∧ getSection me k ds = (.buf c, d'') ∧
          Caches ds c j ∧ (ds.buf c).flags.dirty = false := by
  obtain ⟨fresh, h⟩ := hrun.recent (bdevInit_spec hbare hinit) hnd
  have hleast : ∀ k ds b d', Scans me k maxBgetRetry d ds → getSection me k ds = (.buf b, d') →
      (∀ c, ¬ Caches ds c k) → LeastRecent hist ds b := by
    intro k ds b d' hs hget hmiss
    exact (h.keeps hs.keeps).leastRecent (getSection_miss hget hmiss).1
  refine ⟨hleast, fun r a d' c j hserve hc hno => ?_⟩
  have hcall := serve_call hserve
  cases hblk : r.blkno with
  | none =>
    rw [hblk] at hcall
    cases hcall with
    | sync hk => exact absurd (hk.caches.2 hc) hno
  | some k =>
    rw [hblk] at hcall
    cases hcall with
    | @transfer _ b d₁ d₂ _ hget hk hrel =>
      obtain ⟨ds, hs, hsec⟩ := getBuffer_scans _ hget
      have hcs : Caches ds c j := hs.keeps.caches.2 hc
      -- what follows the search drops nothing
      have hb : b ∈ d₂.list := hk.list ▸ (getSection_caches hsec).mem
      rw [releaseBuffer_caches hrel hb, hk.caches] at hno
      obtain ⟨rfl, hmiss⟩ := getSection_drops hsec hcs hno
      exact ⟨k, ds, d₁, rfl, hs, hsec, hcs, (hleast k ds c d₁ hs hsec hmiss).clean⟩

/-- Two buffers for the two blocks of a zeroed disk. -/
def twoBuffers : BlkDev Unit := (bdevInitBufferCache [some 0x2000, some 0x3000] (zeroDisk Unit)).2

/-- Both buffers are written: the search for a third block flushes them and recycles the one that was
written first. -/
theorem recycles_least_recent_two_buffers :
    ∃ d ds d' : BlkDev Unit, Ran () twoBuffers [0x2000, 0x3000] d ∧ Scans () 2 maxBgetRetry d ds ∧
      getSection () 2 ds = (.buf 0x3000, d') ∧ LeastRecent [0x2000, 0x3000] ds 0x3000 := by
  have h₁ := Ran.call (.write 0 fun _ => 7) (.start : Ran () twoBuffers [] twoBuffers) rfl
  have h₂ : Ran () twoBuffers [0x2000, 0x3000] _ := Ran.call (.write 1 fun _ => 7) h₁ rfl
  have hinit : bdevInitBufferCache [some 0x2000, some 0x3000] (zeroDisk Unit) = (0, twoBuffers) := rfl
  refine ⟨_, _, _, h₂, .retry rfl rfl (.now 0 _), rfl, ?_⟩
  refine (recycles_least_recent ⟨rfl, rfl⟩ (by decide) hinit h₂).1 2 _ 0x3000 _
    (.retry rfl rfl (.now 0 _)) rfl fun c hc => ?_
  rcases List.mem_cons.1 hc.mem with rfl | hm
  · exact absurd hc.blkno (by decide)
  · rw [List.mem_singleton.1 hm] at hc
    exact absurd hc.blkno (by decide)

end RedMagic.Bbuf
