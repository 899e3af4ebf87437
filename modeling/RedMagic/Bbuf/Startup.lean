import Mathlib.Data.List.Nodup
import RedMagic.Bbuf.Sections

/-!
# `bdev_init_buffer_cache`

When it returns 0, the buffers are the ones its `kmalloc` calls returned, in that order, and all of them
are unused: no block is cached and the disk is as it was.
-/

namespace RedMagic.Bbuf

variable {τ : Type} {d d' : BlkDev τ}

theorem initLoop_spec : ∀ (bufs : List (Option Nat)) (d d' : BlkDev τ), initLoop bufs d = (0, d') →
    ∃ addrs, bufs = addrs.map some ∧ d'.list = d.list ++ addrs ∧ d'.io = d.io ∧ d'.ram = d.ram ∧
      d'.ramhead = d.ramhead ∧ d'.totalBlks = d.totalBlks ∧ d'.bufNum = d.bufNum ∧
      ∀ b, d'.buf b = if b ∈ addrs then freshBuf else d.buf b
  | [], d, d', h => by
    simp only [initLoop, Prod.mk.injEq, true_and] at h
    subst h
    exact ⟨[], rfl, by simp, rfl, rfl, rfl, rfl, rfl, by simp⟩
  | none :: _, d, d', h => by simp [initLoop] at h
  | some a :: rest, d, d', h => by
    obtain ⟨addrs, rfl, hl, hio, hram, hrh, htot, hnum, hbuf⟩ := initLoop_spec rest _ d' h
    refine ⟨a :: addrs, rfl, by simp [hl], hio, hram, hrh, htot, hnum, fun b => ?_⟩
    rw [hbuf b]
    by_cases hb : b ∈ addrs
    · simp [hb]
    · by_cases hba : b = a
      · subst hba
        simp [hb]
      · simp [hb, hba]

/-- A device as it is before `bdev_init_buffer_cache`: no buffers. -/
structure Bare (d : BlkDev τ) : Prop where
  list : d.list = []
  io : d.io = []

/-- What start-up leaves: every buffer is unused, so no block is cached. -/
structure Started (d d' : BlkDev τ) (bufs : List (Option Nat)) : Prop where
  list : d'.list.map some = bufs
  io : d'.io = []
  bufNum : d'.bufNum = bufs.length
  totalBlks : d'.totalBlks = d.totalBlks
  ramhead : d'.ramhead = d.ramhead
  dev : ∀ k, devBlock d' k = devBlock d k
  fresh : ∀ b ∈ d'.list, d'.buf b = freshBuf

theorem bdevInit_spec {bufs : List (Option Nat)} (hb : Bare d) (h : bdevInitBufferCache bufs d = (0, d')) :
    Started d d' bufs := by
  obtain ⟨addrs, rfl, hl, hio, hram, hrh, htot, hnum, hbuf⟩ := initLoop_spec bufs _ d' h
  rw [hb.list, List.nil_append] at hl
  refine ⟨by rw [hl], hio.trans hb.io, hnum, htot, hrh, fun k => ?_, fun b hm => ?_⟩
  · simp only [devBlock, seek, hram, hrh]
  · rw [hbuf b, if_pos (hl ▸ hm)]

theorem Started.not_caches {bufs : List (Option Nat)} (h : Started d d' bufs) (b k : Nat) : ¬Caches d' b k := by
  rintro ⟨hm, hu, -⟩
  rw [h.fresh b hm] at hu
  cases hu

theorem Started.ident {bufs : List (Option Nat)} (h : Started d d' bufs) (hnd : bufs.Nodup) : Ident d' := by
  refine ⟨?_, fun b c k hc => absurd hc (h.not_caches b k), fun b hm => ?_, fun b hm _ => ?_⟩
  · rw [← h.list] at hnd
    exact List.Nodup.of_map some hnd
  · rw [h.fresh b hm]
    simp [freshBuf, bUnused]
  · rw [h.fresh b hm]
    rfl

theorem Started.coherent {bufs : List (Option Nat)} (h : Started d d' bufs) (hf : Fits d) (p w : Nat → Prop) :
    Coherent d' (devBlock d) p w :=
  ⟨by rwa [Fits, h.ramhead, h.totalBlks], fun b k hc => absurd hc (h.not_caches b k),
    fun b k hc => absurd hc (h.not_caches b k),
    fun k _ _ => h.dev k⟩

/-- A zeroed disk of two blocks. -/
def zeroDisk (τ : Type) : BlkDev τ := ⟨0, 2, 0x10000, fun _ => 0, fun _ => freshBuf, [], []⟩

end RedMagic.Bbuf
