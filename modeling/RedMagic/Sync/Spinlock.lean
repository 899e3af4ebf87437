import Mathlib.Data.UInt
import Mathlib.Logic.Function.Basic
import RedMagic.Lib.Transition

/-!
# Spinlocks (src/spinlock.c, locking.h:13-47)

| here | there |
| --- | --- |
| `Spinlock`, `xchg` | `spinlock_t`; `xchg` on its word `slock` |
| `SpinPc`, `spinStep` | `spin_lock`, `spin_trylock`, `spin_unlock`, with `spin_acquire` and `spin_release`, on any number of CPUs |
| `spinAcquire`, `spinRelease` | `spin_acquire` and `spin_release` on a CPU that nobody gets in the way of |

Each access to the lock is a step of its own, and so is each change of `preempt_on`; `xchg` is one step. `owner_cpu` is
written after the word is taken and before it is given back, and `spin_trylock` does not write it.
-/

namespace RedMagic.Sync

open Lts

structure Spinlock where
  slock : UInt32
  /-- 0 is NULL. -/
  ownerCpu : UInt32
deriving DecidableEq, Repr

/-- `spin_lock_init`. -/
def spinLockInit : Spinlock := ⟨0, 0⟩

/-- `xchg(&lock->slock, newval)`: the old value, and the lock after it. -/
def Spinlock.xchg (l : Spinlock) (newval : UInt32) : UInt32 × Spinlock := (l.slock, { l with slock := newval })

/-! ## The steps -/

/-- What a CPU does next. -/
inductive SpinPc where
  /-- Nothing of the three calls. -/
  | out
  | lockDisable
  /-- The test of the loop in `spin_acquire`. -/
  | lockXchg
  | lockAssert
  | lockSetOwner
  | tryDisable
  | tryXchg
  | tryEnable
  | unlockClearOwner
  | unlockXchg
  | unlockEnable
  /-- The `ASSERT` of `spin_acquire` has failed. -/
  | panicked
deriving DecidableEq, Repr

structure SpinSt (κ : Type) where
  lock : Spinlock
  preemptOn : κ → Bool
  pc : κ → SpinPc
  /-- The CPU is between an `xchg` that took the lock and the one that gives it back. No step of the calls reads it. -/
  acquired : κ → Bool

inductive SpinAct (κ : Type) where
  | lock (c : κ)
  | trylock (c : κ)
  | unlock (c : κ)
  /-- The CPU goes on inside a call. -/
  | goOn (c : κ)

section
variable {κ : Type} [DecidableEq κ]

def SpinSt.goto (s : SpinSt κ) (c : κ) (p : SpinPc) : SpinSt κ := { s with pc := Function.update s.pc c p }

def SpinSt.setPreempt (s : SpinSt κ) (c : κ) (on : Bool) : SpinSt κ :=
  { s with preemptOn := Function.update s.preemptOn c on }

/-- `acquire_rlock(&lock->slock)`, to go on at `won` or at `lost`. -/
def SpinSt.acquireRlock (s : SpinSt κ) (c : κ) (won lost : SpinPc) : SpinSt κ :=
  let r := s.lock.xchg 1
  if r.1 = 0 then { s with lock := r.2, acquired := Function.update s.acquired c true }.goto c won
  else { s with lock := r.2 }.goto c lost

/-- `getProcessor c` is what `get_processor()` returns on CPU `c`. -/
def spinGoOn (getProcessor : κ → UInt32) (s : SpinSt κ) (c : κ) : Option (SpinSt κ) :=
  match s.pc c with
  | .out => none
  | .lockDisable => some ((s.setPreempt c false).goto c .lockXchg)
  | .lockXchg => some (s.acquireRlock c .lockAssert .lockXchg)
  | .lockAssert => some (s.goto c (if s.lock.ownerCpu = 0 then .lockSetOwner else .panicked))
  | .lockSetOwner => some ({ s with lock := { s.lock with ownerCpu := getProcessor c } }.goto c .out)
  | .tryDisable => some ((s.setPreempt c false).goto c .tryXchg)
  | .tryXchg => some (s.acquireRlock c .out .tryEnable)
  | .tryEnable => some ((s.setPreempt c true).goto c .out)
  | .unlockClearOwner => some ({ s with lock := { s.lock with ownerCpu := 0 } }.goto c .unlockXchg)
  | .unlockXchg =>
    some ({ s with lock := (s.lock.xchg 0).2, acquired := Function.update s.acquired c false }.goto c .unlockEnable)
  | .unlockEnable => some ((s.setPreempt c true).goto c .out)
  | .panicked => none

/-- A CPU may call `spin_lock` and `spin_trylock` at any time, with the lock in its hands too; it unlocks only a
lock that it has taken. -/
def spinStep (getProcessor : κ → UInt32) (s : SpinSt κ) : SpinAct κ → Option (SpinSt κ)
  | .lock c => if s.pc c = .out then some (s.goto c .lockDisable) else none
  | .trylock c => if s.pc c = .out then some (s.goto c .tryDisable) else none
  | .unlock c => if s.pc c = .out ∧ s.acquired c then some (s.goto c .unlockClearOwner) else none
  | .goOn c => spinGoOn getProcessor s c

end

/-- The lock after `spin_lock_init`. -/
def spinStart {κ : Type} (preemptOn : κ → Bool) : SpinSt κ := ⟨spinLockInit, preemptOn, fun _ => .out, fun _ => false⟩

/-! ## The invariant -/

/-- At these places the CPU has taken the lock. -/
def SpinPc.inside : SpinPc → Bool
  | .lockAssert | .lockSetOwner | .unlockClearOwner | .unlockXchg => true
  | _ => false

/-- At these places `owner_cpu` is NULL although the lock is taken. -/
def SpinPc.ownerless : SpinPc → Bool
  | .lockAssert | .lockSetOwner | .unlockXchg => true
  | _ => false

structure SpinInv {κ : Type} (s : SpinSt κ) : Prop where
  one : ∀ c c', s.acquired c → s.acquired c' → c = c'
  free : s.lock.slock = 0 → ∀ c, s.acquired c = false
  taken : s.lock.slock ≠ 0 → s.lock.slock = 1 ∧ ∃ c, s.acquired c
  inside : ∀ c, (s.pc c).inside → s.acquired c
  ownerless : ∀ c, (s.pc c).ownerless → s.lock.ownerCpu = 0
  released : (∀ c, s.acquired c = false) → s.lock.ownerCpu = 0
  asserted : ∀ c, s.pc c ≠ .panicked

theorem spinStart_inv {κ : Type} (preemptOn : κ → Bool) : SpinInv (spinStart preemptOn) where
  one := by simp [spinStart]
  free := by simp [spinStart]
  taken := by simp [spinStart, spinLockInit]
  inside := by simp [spinStart, SpinPc.inside]
  ownerless := by simp [spinStart, SpinPc.ownerless]
  released := by simp [spinStart, spinLockInit]
  asserted := by simp [spinStart]

section
variable {κ : Type} {s s' : SpinSt κ} {c : κ} {p : SpinPc}

theorem SpinPc.inside_of_ownerless (h : p.ownerless) : p.inside := by
  cases p <;> first | rfl | cases h

/-- No other CPU is at a place where it would have taken the lock. -/
theorem SpinInv.alone (hi : SpinInv s) (hc : s.acquired c) {u : κ} (hu : u ≠ c) : (s.pc u).inside = false := by
  cases h : (s.pc u).inside with
  | false => rfl
  | true => exact absurd (hi.one u c (hi.inside u h) hc) hu

section
variable [DecidableEq κ]

/-- CPU `c` goes to `p` and leaves the lock as `l`. The last five hypotheses are the rest of the invariant there. -/
theorem SpinInv.next (hi : SpinInv s) {l : Spinlock} {a : κ → Bool} (hpan : p ≠ .panicked) (hp : p.inside → a c)
    (hothers : ∀ u, u ≠ c → (s.pc u).inside → a u) (hp' : p.ownerless → l.ownerCpu = 0)
    (hothers' : ∀ u, u ≠ c → (s.pc u).ownerless → l.ownerCpu = 0) (hone : ∀ u u', a u → a u' → u = u')
    (hfree : l.slock = 0 → ∀ u, a u = false) (htaken : l.slock ≠ 0 → l.slock = 1 ∧ ∃ u, a u)
    (hreleased : (∀ u, a u = false) → l.ownerCpu = 0) : SpinInv ({ s with lock := l, acquired := a }.goto c p) := by
  refine ⟨hone, hfree, htaken, fun u hu => ?_, fun u hu => ?_, hreleased, fun u => ?_⟩
  · by_cases huc : u = c
    · subst huc
      exact hp (by simpa [SpinSt.goto] using hu)
    · exact hothers u huc (by simpa [SpinSt.goto, huc] using hu)
  · by_cases huc : u = c
    · subst huc
      exact hp' (by simpa [SpinSt.goto] using hu)
    · exact hothers' u huc (by simpa [SpinSt.goto, huc] using hu)
  · by_cases huc : u = c
    · subst huc
      simpa [SpinSt.goto] using hpan
    · simpa [SpinSt.goto, huc] using hi.asserted u

/-- A step that leaves the lock alone. -/
theorem SpinInv.goto (hi : SpinInv s) (hin : p.inside → s.acquired c) (hown : p.ownerless → s.lock.ownerCpu = 0)
    (hpan : p ≠ .panicked) : SpinInv (s.goto c p) :=
  hi.next hpan hin (fun u _ => hi.inside u) hown (fun u _ => hi.ownerless u) hi.one hi.free hi.taken hi.released

theorem SpinInv.outside (hi : SpinInv s) (hin : p.inside = false) (hpan : p ≠ .panicked) : SpinInv (s.goto c p) := by
  refine hi.goto (fun h => ?_) (fun h => ?_) hpan
  · rw [hin] at h
    cases h
  · rw [SpinPc.inside_of_ownerless h] at hin
    cases hin

theorem SpinInv.setPreempt (hi : SpinInv s) (on : Bool) : SpinInv (s.setPreempt c on) :=
  ⟨hi.one, hi.free, hi.taken, hi.inside, hi.ownerless, hi.released, hi.asserted⟩

/-- The `xchg` that tries to take the lock. A lock that is free has no owner left behind. -/
theorem SpinInv.acquireRlock (hi : SpinInv s) {won lost : SpinPc} (hwon : won ≠ .panicked) (hlost : lost ≠ .panicked)
    (hout : lost.inside = false) : SpinInv (s.acquireRlock c won lost) := by
  unfold SpinSt.acquireRlock
  dsimp only [Spinlock.xchg]
  by_cases hfree : s.lock.slock = 0
  · rw [if_pos hfree]
    have hnone := hi.free hfree
    have hown := hi.released hnone
    have honly : ∀ u, Function.update s.acquired c true u = true → u = c := by
      intro u hu
      by_contra hne
      rw [Function.update_of_ne hne, hnone u] at hu
      cases hu
    refine hi.next hwon (fun _ => Function.update_self ..) (fun u _ hu => ?_) (fun _ => hown) (fun _ _ _ => hown) ?_
      (fun h => by cases h) (fun _ => ⟨rfl, c, Function.update_self ..⟩) fun _ => hown
    · have hacq := hi.inside u hu
      rw [hnone u] at hacq
      cases hacq
    · intro u u' hu hu'
      rw [honly u hu, honly u' hu']
  · rw [if_neg hfree]
    have hsame : ({ s.lock with slock := 1 } : Spinlock) = s.lock := by rw [← (hi.taken hfree).1]
    rw [hsame]
    exact hi.outside hout hlost

/-- A CPU that has taken the lock writes `owner_cpu`. -/
theorem SpinInv.setOwner (hi : SpinInv s) (hc : s.acquired c) {owner : UInt32} (hown : p.ownerless → owner = 0)
    (hpan : p ≠ .panicked) : SpinInv ({ s with lock := { s.lock with ownerCpu := owner } }.goto c p) := by
  refine hi.next hpan (fun _ => hc) (fun u _ => hi.inside u) hown (fun u huc hu => ?_) hi.one hi.free hi.taken fun hnone => ?_
  · have hin := SpinPc.inside_of_ownerless hu
    rw [hi.alone hc huc] at hin
    cases hin
  · rw [hnone c] at hc
    cases hc

/-- The `xchg` that gives the lock back, after `owner_cpu` is cleared. -/
theorem SpinInv.giveBack (hi : SpinInv s) (hc : s.pc c = .unlockXchg) :
    SpinInv ({ s with lock := (s.lock.xchg 0).2, acquired := Function.update s.acquired c false }.goto c .unlockEnable) := by
  have hacq : s.acquired c := hi.inside c (by rw [hc]; rfl)
  have hown : s.lock.ownerCpu = 0 := hi.ownerless c (by rw [hc]; rfl)
  have hnone : ∀ u, Function.update s.acquired c false u = false := by
    intro u
    by_cases huc : u = c
    · rw [huc, Function.update_self]
    · rw [Function.update_of_ne huc]
      cases h : s.acquired u with
      | false => rfl
      | true => exact absurd (hi.one u c h hacq) huc
  refine hi.next (by decide) (fun h => by cases h) (fun u huc hu => ?_) (fun _ => hown) (fun _ _ _ => hown) ?_
    (fun _ => hnone) (fun h => absurd rfl h) fun _ => hown
  · rw [hi.alone hacq huc] at hu
    cases hu
  · intro u u' hu
    rw [hnone u] at hu
    cases hu

theorem SpinInv.goOn (hi : SpinInv s) {getProcessor : κ → UInt32} (h : spinGoOn getProcessor s c = some s') : SpinInv s' := by
  unfold spinGoOn at h
  cases hc : s.pc c with
  | out =>
    rw [hc] at h
    cases h
  | lockDisable =>
    rw [hc] at h
    cases h
    exact (hi.setPreempt false).outside rfl (by decide)
  | lockXchg =>
    rw [hc] at h
    cases h
    exact hi.acquireRlock (by decide) (by decide) rfl
  | lockAssert =>
    rw [hc] at h
    cases h
    -- the lock was free when it was taken, and nobody else writes `owner_cpu` since
    have hown : s.lock.ownerCpu = 0 := hi.ownerless c (by rw [hc]; rfl)
    rw [if_pos hown]
    exact hi.goto (fun _ => hi.inside c (by rw [hc]; rfl)) (fun _ => hown) (by decide)
  | lockSetOwner =>
    rw [hc] at h
    cases h
    exact hi.setOwner (hi.inside c (by rw [hc]; rfl)) (fun h => by cases h) (by decide)
  | tryDisable =>
    rw [hc] at h
    cases h
    exact (hi.setPreempt false).outside rfl (by decide)
  | tryXchg =>
    rw [hc] at h
    cases h
    exact hi.acquireRlock (by decide) (by decide) rfl
  | tryEnable =>
    rw [hc] at h
    cases h
    exact (hi.setPreempt true).outside rfl (by decide)
  | unlockClearOwner =>
    rw [hc] at h
    cases h
    exact hi.setOwner (hi.inside c (by rw [hc]; rfl)) (fun _ => rfl) (by decide)
  | unlockXchg =>
    rw [hc] at h
    cases h
    exact hi.giveBack hc
  | unlockEnable =>
    rw [hc] at h
    cases h
    exact (hi.setPreempt true).outside rfl (by decide)
  | panicked => exact absurd hc (hi.asserted c)

theorem SpinInv.step (hi : SpinInv s) {getProcessor : κ → UInt32} {a : SpinAct κ} (h : spinStep getProcessor s a = some s') :
    SpinInv s' := by
  cases a with
  | lock c =>
    simp only [spinStep] at h
    split at h
    · cases h
      exact hi.outside rfl (by decide)
    · cases h
  | trylock c =>
    simp only [spinStep] at h
    split at h
    · cases h
      exact hi.outside rfl (by decide)
    · cases h
  | unlock c =>
    simp only [spinStep] at h
    split at h
    · rename_i hc
      cases h
      exact hi.goto (fun _ => hc.2) (fun h => by cases h) (by decide)
    · cases h
  | goOn c => exact hi.goOn h

/-- **Spinlock exclusion.** However the steps of any number of CPUs are interleaved: at most one CPU is between an
acquire and its release, the word is 1 exactly while one is, and the `ASSERT` of `spin_acquire` holds. -/
theorem spinlock_exclusion (getProcessor : κ → UInt32) (preemptOn : κ → Bool) (s : SpinSt κ)
    (h : Reaches (spinStep getProcessor) Any (spinStart preemptOn) s) :
    (∀ c c', s.acquired c → s.acquired c' → c = c') ∧ (s.lock.slock = 1 ↔ ∃ c, s.acquired c) ∧ ∀ c, s.pc c ≠ .panicked := by
  have hi : SpinInv s := h.invariant (spinStart_inv preemptOn) fun _ _ _ hu _ hs => hu.step hs
  refine ⟨hi.one, ⟨fun h1 => ?_, ?_⟩, hi.asserted⟩
  · exact (hi.taken (by rw [h1]; decide)).2
  · rintro ⟨c, hc⟩
    refine (hi.taken fun h0 => ?_).1
    rw [hi.free h0 c] at hc
    cases hc

end

end

/-- `false` has taken the lock by `spin_trylock`, gives it back, and `true`, which was waiting, takes it. -/
theorem spinlock_exclusion_handover : ∃ s, Reaches (spinStep fun c => if c then 0x2000 else 0x1000) Any (spinStart fun _ => true) s ∧
    s.acquired true ∧ s.pc false = .unlockEnable ∧ s.lock = ⟨1, 0x2000⟩ ∧ ∀ c, s.acquired c → c = true := by
  obtain ⟨s, hr, hs⟩ := exists_reaches (spinStep fun c => if c then 0x2000 else 0x1000) Any (spinStart fun _ => true)
    [.trylock false, .lock true, .goOn true, .goOn false, .goOn false, .goOn true, .unlock false, .goOn false, .goOn true,
      .goOn false, .goOn true, .goOn true, .goOn true]
    (fun s => decide (s.acquired true ∧ s.pc false = .unlockEnable ∧ s.lock = ⟨1, 0x2000⟩)) (by decide)
  obtain ⟨h1, h2, h3⟩ := of_decide_eq_true hs
  exact ⟨s, hr, h1, h2, h3, fun c hc => (spinlock_exclusion _ _ s hr).1 c true hc h1⟩

/-! ## One CPU on its own -/

/-- `spin_acquire`; `none` = it does not return, because nobody gives the lock back or the `ASSERT` fails. -/
def spinAcquire (me : UInt32) (l : Spinlock) : Option Spinlock :=
  let r := l.xchg 1
  if r.1 = 0 ∧ r.2.ownerCpu = 0 then some { r.2 with ownerCpu := me } else none

def spinRelease (l : Spinlock) : Spinlock := (({ l with ownerCpu := 0 } : Spinlock).xchg 0).2

end RedMagic.Sync
