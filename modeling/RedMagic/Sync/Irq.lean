import Mathlib.Data.List.Basic
import RedMagic.Lib.Transition
import RedMagic.Sync.Mutex
import RedMagic.Sync.Semaphore

/-!
# The interrupt flag across mutexes, semaphores and the scheduler (one CPU)

| here | there |
| --- | --- |
| `CpuFlags`             | the IF bit of `eflags`, and `saved_flags` and `preempt_on` of `cpu_state_t` (`cpu.h`); of `saved_flags` the IF bit |
| `localIrqSave` …       | `local_irq_save`, `local_irq_restore`, `local_irq_disable`, `local_irq_enable` (`idt.c:181-208`) |
| `spinLockIrqsave` …    | the flag part of `spin_lock_irqsave`, `spin_unlock_irqrestore`, `spin_lock_irq`, `spin_unlock_irq` (`spinlock.c:52-76`) |
| `Point`                | where a thread is: outside the calls, or in `mutex_lock` / `sem_down` before or after its `schedule()` |
| `call`, `wokenSection` | the sections of `mutex_lock`, `mutex_unlock`, `sem_down`, `sem_up` (`mutex.c`, `semaphore.c`) |
| `schedule`, `scanRound`| `schedule` and one round of `__do_sched_rr`'s loop (`sched.c:59-79`, `:105-146`) |
| `switchTo`             | `switch_to` (`switch.s:17-44`), and the `iret` of the thread switched to if it was preempted (`interrupt.s`) |
| `timer`                | `timer_callback` inside the interrupt stub (`timer.c:25-45`) |

With one CPU the spinlocks are only held while interrupts are off, so `spin_acquire` never waits and a
section is one step. The run queue is the list of its threads: none is created or ends.
-/

namespace RedMagic.Sync

open Sched Lts

structure CpuFlags where
  /-- The interrupt-enable flag. -/
  ifOn : Bool
  savedFlags : Bool
  preemptOn : Bool
deriving DecidableEq, Repr

namespace CpuFlags

def localIrqDisable (c : CpuFlags) : CpuFlags := { c with ifOn := false }

def localIrqEnable (c : CpuFlags) : CpuFlags := { c with ifOn := true }

def localIrqSave (c : CpuFlags) : CpuFlags :=
  let flags := c.ifOn
  { c.localIrqDisable with savedFlags := flags }

def localIrqRestore (c : CpuFlags) : CpuFlags := { c with ifOn := c.savedFlags }

def preemptDisable (c : CpuFlags) : CpuFlags := { c with preemptOn := false }

def preemptEnable (c : CpuFlags) : CpuFlags := { c with preemptOn := true }

def spinLockIrqsave (c : CpuFlags) : CpuFlags := c.localIrqSave.preemptDisable

def spinUnlockIrqrestore (c : CpuFlags) : CpuFlags := c.localIrqRestore.preemptEnable

def spinLockIrq (c : CpuFlags) : CpuFlags := c.localIrqDisable.preemptDisable

def spinUnlockIrq (c : CpuFlags) : CpuFlags := c.preemptEnable.localIrqEnable

/-- A section opened by `spin_lock_irqsave` and closed by `spin_unlock_irqrestore`, nothing in between. -/
@[simp] theorem irqsave_irqrestore_ifOn (c : CpuFlags) :
    c.spinLockIrqsave.spinUnlockIrqrestore.ifOn = c.ifOn := rfl

@[simp] theorem spinLockIrq_irqrestore_ifOn (c : CpuFlags) :
    c.spinLockIrq.spinUnlockIrqrestore.ifOn = c.savedFlags := rfl

@[simp] theorem spinUnlockIrq_ifOn (c : CpuFlags) : c.spinUnlockIrq.ifOn = true := rfl

end CpuFlags

/-! ## The threads -/

/-- The object a call waits for. -/
inductive Wait (μ κ : Type) where
  | mutex (m : μ)
  | sem (k : κ)
deriving DecidableEq, Repr

/-- `asleep` is between the section that put the thread to sleep and the call of `schedule()` that
follows it, `woken` after that call. Both carry the interrupt flag with which the thread called
`mutex_lock` or `sem_down`; `out` carries that of its last call, and the flag with which that returned. -/
inductive Point (μ κ : Type) where
  | out (last : Option (Bool × Bool))
  | asleep (w : Wait μ κ) (calledWith : Bool)
  | woken (w : Wait μ κ) (calledWith : Bool)
deriving DecidableEq, Repr

/-- The interrupt flag at the call that the thread goes on with when its own `schedule()` returns. -/
def Point.resumesWith {μ κ : Type} : Point μ κ → Option Bool
  | .out _ => none
  | .asleep _ _ => none
  | .woken _ f => some f

inductive Call (μ κ : Type) where
  | mutexLock (m : μ)
  | mutexUnlock (m : μ)
  | semDown (k : κ)
  | semUp (k : κ)

structure IrqSt (τ μ κ : Type) where
  flags : CpuFlags
  rthread : τ
  /-- `tlist` while `rthread` is in the loop of `__do_sched_rr`. -/
  scan : Option τ
  runq : List τ
  status : τ → Status
  /-- The IF bit of `context.eflags`. -/
  eflags : τ → Bool
  /-- The thread is inside a timer interrupt, which it took with the flag on. -/
  isr : τ → Bool
  point : τ → Point μ κ
  mutex : μ → Mutex τ
  sem : κ → Semaphore τ

inductive IrqAct (τ μ κ : Type) where
  /-- The running thread sets its flag, outside the calls. -/
  | setFlag (on : Bool)
  | call (c : Call μ κ)
  /-- The running thread goes on inside `mutex_lock` or `sem_down`. -/
  | goOn
  /-- A timer interrupt: the blocked threads whose alarm goes off, and whether it is time to schedule. -/
  | timer (alarms : List τ) (schedHz : Bool)
  | scan

section
variable {τ μ κ : Type} [DecidableEq τ]

/-- The last section of a call made with the flag `f`. -/
def giveBack (s : IrqSt τ μ κ) (f : Bool) : IrqSt τ μ κ :=
  let flags := s.flags.spinUnlockIrqrestore
  { s with flags := flags, point := Function.update s.point s.rthread (.out (some (f, flags.ifOn))) }

def goToSleep (s : IrqSt τ μ κ) (w : Wait μ κ) (f : Bool) : IrqSt τ μ κ :=
  { s with flags := s.flags.spinUnlockIrq, point := Function.update s.point s.rthread (.asleep w f) }

def endSection (s : IrqSt τ μ κ) (w : Wait μ κ) (f returns : Bool) : IrqSt τ μ κ :=
  if returns then giveBack s f else goToSleep s w f

section
variable [DecidableEq μ] [DecidableEq κ]

def setMutex (s : IrqSt τ μ κ) (m : μ) (r : Mutex τ × (τ → Status)) : IrqSt τ μ κ :=
  { s with mutex := Function.update s.mutex m r.1, status := r.2 }

def setSem (s : IrqSt τ μ κ) (k : κ) (r : Semaphore τ × (τ → Status)) : IrqSt τ μ κ :=
  { s with sem := Function.update s.sem k r.1, status := r.2 }

/-- From the call to the first release of the spinlock. -/
def call (s : IrqSt τ μ κ) (c : Call μ κ) : Option (IrqSt τ μ κ) :=
  let f := s.flags.ifOn
  let s := { s with flags := s.flags.spinLockIrqsave }
  match c with
  | .mutexLock m =>
    match lockEnter s.rthread (s.mutex m) s.status with
    | .error _ => none
    | .ok r => some (endSection (setMutex s m r.2) (.mutex m) f r.1)
  | .mutexUnlock m => some (giveBack (setMutex s m (mutexUnlock (s.mutex m) s.status)) f)
  | .semDown k =>
    let r := semDownEnter s.rthread (s.sem k) s.status
    some (endSection (setSem s k r.2) (.sem k) f r.1)
  | .semUp k => some (giveBack (setSem s k (semUp (s.sem k) s.status)) f)

/-- From `schedule()`'s return to the next release of the spinlock. -/
def wokenSection (s : IrqSt τ μ κ) (w : Wait μ κ) (f : Bool) : IrqSt τ μ κ :=
  let s := { s with flags := s.flags.spinLockIrq }
  match w with
  | .mutex m =>
    let r := lockRecheck s.rthread (s.mutex m) s.status
    endSection (setMutex s m r.2) w f r.1
  | .sem k =>
    if semDownRv = 0 then giveBack s f
    else
      let r := semDownEnter s.rthread (s.sem k) s.status
      endSection (setSem s k r.2) w f r.1

end

/-- `schedule()` up to the loop of `__do_sched_rr`. -/
def schedule (s : IrqSt τ μ κ) : IrqSt τ μ κ :=
  { s with
    flags := s.flags.preemptDisable.localIrqSave.localIrqEnable,
    status := if s.status s.rthread = .running then Function.update s.status s.rthread .ready else s.status,
    scan := some s.rthread }

/-- The thread of the entry after `t`'s, or of the first one after the last. -/
def rrNext (runq : List τ) (t : τ) : Option τ :=
  ((runq.dropWhile (· ≠ t)).tail.head?).or runq.head?

/-- The rest of `schedule()` once `u` is chosen. -/
def switchTo (s : IrqSt τ μ κ) (u : τ) : IrqSt τ μ κ :=
  let flags := s.flags.localIrqRestore
  let eflags := Function.update s.eflags s.rthread flags.ifOn
  -- a thread that was switched away from inside a timer interrupt goes on with that interrupt's `iret`
  { s with
    flags := { flags.preemptEnable with ifOn := if s.isr u then true else eflags u },
    status := Function.update s.status u .running, rthread := u, scan := none, eflags := eflags,
    isr := Function.update s.isr u false }

/-- The thread that the next round of the loop chooses. -/
def picked (s : IrqSt τ μ κ) : Option τ :=
  match s.scan with
  | none => none
  | some tlist => (rrNext s.runq tlist).filter fun u => s.status u = .ready

def scanRound (s : IrqSt τ μ κ) (tlist : τ) : Option (IrqSt τ μ κ) :=
  match rrNext s.runq tlist with
  | none => none
  | some u => if s.status u = .ready then some (switchTo s u) else some { s with scan := some u }

def timer (s : IrqSt τ μ κ) (alarms : List τ) (schedHz : Bool) : IrqSt τ μ κ :=
  let s := { s with status := alarms.foldl wakeUp s.status }
  if schedHz ∧ s.flags.preemptOn then
    schedule { s with flags := s.flags.localIrqDisable, isr := Function.update s.isr s.rthread true }
  else s

def irqStep [DecidableEq μ] [DecidableEq κ] (s : IrqSt τ μ κ) : IrqAct τ μ κ → Option (IrqSt τ μ κ)
  | .setFlag on =>
    match s.scan, s.point s.rthread with
    | none, .out _ => some { s with flags := { s.flags with ifOn := on } }
    | _, _ => none
  | .call c =>
    match s.scan, s.point s.rthread with
    | none, .out _ => call s c
    | _, _ => none
  | .goOn =>
    match s.scan, s.point s.rthread with
    | none, .asleep w f => some (schedule { s with point := Function.update s.point s.rthread (.woken w f) })
    | none, .woken w f => some (wokenSection s w f)
    | _, _ => none
  | .timer alarms schedHz => if s.flags.ifOn then some (timer s alarms schedHz) else none
  | .scan =>
    match s.scan with
    | none => none
    | some tlist => scanRound s tlist

/-- Thread `r` runs with the given flags, no thread has made a call; a thread that has not run yet starts
with `eflags` 0x200 (`task.c:229`). -/
def irqStart (runq : List τ) (r : τ) (status : τ → Status) (ifOn savedFlags : Bool) (count : κ → Nat) :
    IrqSt τ μ κ :=
  { flags := ⟨ifOn, savedFlags, true⟩, rthread := r, scan := none, runq, status, eflags := fun _ => true,
    isr := fun _ => false, point := fun _ => .out none, mutex := fun _ => mutexInit,
    sem := fun k => ⟨count k, []⟩ }

/-- Every finished call returned with the flag it was made with. -/
def FlagsKept (s : IrqSt τ μ κ) : Prop :=
  ∀ t f g, s.point t = .out (some (f, g)) → g = f

/-- A thread that has called `schedule()` in a call made with the flag on is switched to only by a `schedule()` that a
thread calls itself, one that has done so in a call made with the flag off only by one inside a timer interrupt. -/
def ResumesAlike (s : IrqSt τ μ κ) : IrqAct τ μ κ → Prop
  | .scan => ∀ u ∈ picked s, ∀ f ∈ (s.point u).resumesWith, f = !s.isr s.rthread
  | _ => True

instance (s : IrqSt τ μ κ) (a : IrqAct τ μ κ) : Decidable (ResumesAlike s a) :=
  match a with
  | .scan => inferInstanceAs (Decidable (∀ u ∈ picked s, ∀ f ∈ (s.point u).resumesWith, f = !s.isr s.rthread))
  | .setFlag _ | .call _ | .goOn | .timer _ _ => inferInstanceAs (Decidable True)

/-! ## The invariant -/

structure IrqInv (s : IrqSt τ μ κ) : Prop where
  kept : FlagsKept s
  /-- The loop of `__do_sched_rr`: `saved_flags` tells who called `schedule()`. -/
  scanning : s.scan ≠ none → s.flags.savedFlags = !s.isr s.rthread
  /-- No timer interrupt calls `schedule()` inside that loop. -/
  noNest : s.scan ≠ none → s.flags.preemptOn = false
  running : s.scan = none → s.isr s.rthread = false
  asleep : s.scan = none → ∀ w f, s.point s.rthread = .asleep w f → s.flags.ifOn = true
  /-- A thread can lose the CPU between going to sleep and its `schedule()` only to a timer interrupt. -/
  preempted : ∀ t w f, s.point t = .asleep w f → (t = s.rthread → s.scan ≠ none) → s.isr t = true
  woken : s.scan = none → ∀ w f, s.point s.rthread = .woken w f → s.flags.savedFlags = f

theorem irqStart_inv (runq : List τ) (r : τ) (status : τ → Status) (ifOn savedFlags : Bool) (count : κ → Nat) :
    IrqInv (irqStart (μ := μ) runq r status ifOn savedFlags count) where
  kept := by simp [FlagsKept, irqStart]
  scanning := by simp [irqStart]
  noNest := by simp [irqStart]
  running := by simp [irqStart]
  asleep := by simp [irqStart]
  preempted := by simp [irqStart]
  woken := by simp [irqStart]

variable {s s' : IrqSt τ μ κ} {w : Wait μ κ} {f : Bool}

/-- A section that ends the call: the flag comes back from `saved_flags`. -/
theorem IrqInv.giveBack (hi : IrqInv s) (hs : s.scan = none) {c : CpuFlags} (hc : c.savedFlags = f)
    (status : τ → Status) (mx : μ → Mutex τ) (sm : κ → Semaphore τ) :
    IrqInv (Sync.giveBack { s with flags := c, status := status, mutex := mx, sem := sm } f) := by
  refine ⟨?_, by simp [Sync.giveBack, hs], by simp [Sync.giveBack, hs], fun _ => hi.running hs,
    by simp [Sync.giveBack], ?_, by simp [Sync.giveBack]⟩
  · intro t g g' hp
    rcases eq_or_ne t s.rthread with rfl | ht
    · simp only [Sync.giveBack, Function.update_self, Point.out.injEq, Option.some.injEq, Prod.mk.injEq] at hp
      rw [← hp.1, ← hp.2, ← hc]
      rfl
    · simp only [Sync.giveBack, Function.update_of_ne ht] at hp
      exact hi.kept t g g' hp
  · intro t w' f' hp hne
    have ht : t ≠ s.rthread := fun e => hne e hs
    simp only [Sync.giveBack, Function.update_of_ne ht] at hp
    exact hi.preempted t w' f' hp fun e => absurd e ht

/-- A section that puts the caller to sleep. -/
theorem IrqInv.goToSleep (hi : IrqInv s) (hs : s.scan = none) (c : CpuFlags)
    (status : τ → Status) (mx : μ → Mutex τ) (sm : κ → Semaphore τ) :
    IrqInv (Sync.goToSleep { s with flags := c, status := status, mutex := mx, sem := sm } w f) := by
  refine ⟨?_, by simp [Sync.goToSleep, hs], by simp [Sync.goToSleep, hs], fun _ => hi.running hs,
    by simp [Sync.goToSleep], ?_, by simp [Sync.goToSleep]⟩
  · intro t g g' hp
    rcases eq_or_ne t s.rthread with rfl | ht
    · simp [Sync.goToSleep] at hp
    · simp only [Sync.goToSleep, Function.update_of_ne ht] at hp
      exact hi.kept t g g' hp
  · intro t w' f' hp hne
    have ht : t ≠ s.rthread := fun e => hne e hs
    simp only [Sync.goToSleep, Function.update_of_ne ht] at hp
    exact hi.preempted t w' f' hp fun e => absurd e ht

theorem IrqInv.endSection (hi : IrqInv s) (hs : s.scan = none) {c : CpuFlags} (hc : c.savedFlags = f)
    (status : τ → Status) (mx : μ → Mutex τ) (sm : κ → Semaphore τ) (returns : Bool) :
    IrqInv (Sync.endSection { s with flags := c, status := status, mutex := mx, sem := sm } w f returns) := by
  unfold Sync.endSection
  split
  · exact hi.giveBack hs hc status mx sm
  · exact hi.goToSleep hs c status mx sm

/-- `schedule()` called by the running thread itself, on its way to sleep. -/
theorem IrqInv.yield (hi : IrqInv s) (hs : s.scan = none) (hp : s.point s.rthread = .asleep w f) :
    IrqInv (schedule { s with point := Function.update s.point s.rthread (.woken w f) }) := by
  refine ⟨?_, ?_, fun _ => rfl, by simp [schedule], by simp [schedule], ?_, by simp [schedule]⟩
  · intro t g g' h
    rcases eq_or_ne t s.rthread with rfl | ht
    · simp [schedule] at h
    · simp only [schedule, Function.update_of_ne ht] at h
      exact hi.kept t g g' h
  · intro _
    have hon : s.flags.ifOn = true := hi.asleep hs w f hp
    have hrun : s.isr s.rthread = false := hi.running hs
    simp [schedule, CpuFlags.preemptDisable, CpuFlags.localIrqSave, CpuFlags.localIrqEnable,
      CpuFlags.localIrqDisable, hon, hrun]
  · intro t w' f' h _
    rcases eq_or_ne t s.rthread with rfl | ht
    · simp [schedule] at h
    · simp only [schedule, Function.update_of_ne ht] at h
      exact hi.preempted t w' f' h fun e => absurd e ht

/-- A timer interrupt that lets another thread run. -/
theorem IrqInv.preempt (hi : IrqInv s) (status : τ → Status) :
    IrqInv (schedule { s with
      status := status, flags := s.flags.localIrqDisable, isr := Function.update s.isr s.rthread true }) := by
  refine ⟨hi.kept, ?_, fun _ => rfl, by simp [schedule], by simp [schedule], ?_, by simp [schedule]⟩
  · intro _
    simp [schedule, CpuFlags.preemptDisable, CpuFlags.localIrqSave, CpuFlags.localIrqEnable,
      CpuFlags.localIrqDisable]
  · intro t w' f' h _
    rcases eq_or_ne t s.rthread with rfl | ht
    · simp [schedule]
    · simp only [schedule, Function.update_of_ne ht]
      exact hi.preempted t w' f' h fun e => absurd e ht

theorem IrqInv.timer (hi : IrqInv s) (alarms : List τ) (schedHz : Bool) :
    IrqInv (Sync.timer s alarms schedHz) := by
  simp only [Sync.timer]
  split
  · exact hi.preempt _
  · exact { hi with }

/-- The switch: a thread found behind its own `schedule()` gets back the flag of its call by the condition. -/
theorem IrqInv.switchTo (hi : IrqInv s) (hs : s.scan ≠ none) {u : τ}
    (halike : ∀ g ∈ (s.point u).resumesWith, g = !s.isr s.rthread) : IrqInv (Sync.switchTo s u) := by
  refine ⟨hi.kept, by simp [Sync.switchTo], by simp [Sync.switchTo], by simp [Sync.switchTo], ?_, ?_, ?_⟩
  · intro _ w' f' hp
    have hisr : s.isr u = true := hi.preempted u w' f' hp fun _ => hs
    simp [Sync.switchTo, hisr]
  · intro t w' f' hp hne
    have ht : t ≠ u := fun e => hne e rfl
    simp only [Sync.switchTo, Function.update_of_ne ht]
    exact hi.preempted t w' f' hp fun _ => hs
  · intro _ w' f' hp
    have hresumes : f' ∈ (s.point u).resumesWith := by
      simp only [Sync.switchTo] at hp
      simp [hp, Point.resumesWith]
    rw [halike f' hresumes]
    exact hi.scanning hs

theorem IrqInv.scanRound (hi : IrqInv s) {tlist : τ} (hs : s.scan = some tlist)
    (hok : ResumesAlike s .scan) (h : Sync.scanRound s tlist = some s') : IrqInv s' := by
  have hne : s.scan ≠ none := by simp [hs]
  unfold Sync.scanRound at h
  split at h
  · cases h
  · rename_i u hu
    split at h
    · rename_i hready
      cases h
      refine hi.switchTo hne (hok u ?_)
      simp [picked, hs, hu, hready]
    · cases h
      exact ⟨hi.kept, fun _ => hi.scanning hne, fun _ => hi.noNest hne, by simp, by simp,
        fun t w' f' hp _ => hi.preempted t w' f' hp fun _ => hne, by simp⟩

section
variable [DecidableEq μ] [DecidableEq κ]

theorem IrqInv.call (hi : IrqInv s) (hs : s.scan = none) {c : Call μ κ} (h : Sync.call s c = some s') :
    IrqInv s' := by
  cases c with
  | mutexLock m =>
    simp only [Sync.call] at h
    split at h
    · cases h
    · cases h
      exact hi.endSection hs rfl _ _ _ _
  | mutexUnlock m =>
    cases h
    exact hi.giveBack hs rfl _ _ _
  | semDown k =>
    cases h
    exact hi.endSection hs rfl _ _ _ _
  | semUp k =>
    cases h
    exact hi.giveBack hs rfl _ _ _

theorem IrqInv.wokenSection (hi : IrqInv s) (hs : s.scan = none) (hp : s.point s.rthread = .woken w f) :
    IrqInv (Sync.wokenSection s w f) := by
  have hc : s.flags.spinLockIrq.savedFlags = f := hi.woken hs w f hp
  cases w with
  | mutex m => exact hi.endSection hs hc _ _ _ _
  | sem k => exact hi.giveBack hs hc _ _ _

theorem IrqInv.step (hi : IrqInv s) {a : IrqAct τ μ κ} (hok : ResumesAlike s a) (h : irqStep s a = some s') :
    IrqInv s' := by
  cases a with
  | setFlag on =>
    simp only [irqStep] at h
    split at h
    · rename_i last hs hp
      cases h
      exact ⟨hi.kept, by simp [hs], by simp [hs], hi.running, by simp [hp], hi.preempted, by simp [hp]⟩
    · cases h
  | call c =>
    simp only [irqStep] at h
    split at h
    · rename_i hs _
      exact hi.call hs h
    · cases h
  | goOn =>
    simp only [irqStep] at h
    split at h
    · rename_i w f hs hp
      cases h
      exact hi.yield hs hp
    · rename_i w f hs hp
      cases h
      exact hi.wokenSection hs hp
    · cases h
  | timer alarms schedHz =>
    simp only [irqStep] at h
    split at h
    · cases h
      exact hi.timer alarms schedHz
    · cases h
  | scan =>
    simp only [irqStep] at h
    split at h
    · cases h
    · rename_i tlist hs
      exact hi.scanRound hs hok h

/-! ## Every call gives the flag back -/

/-- **The interrupt flag across calls.** In a run whose switches all resume alike, every finished call of
`mutex_lock`, `mutex_unlock`, `sem_down` and `sem_up` has returned with the flag it was made with. -/
theorem irq_flags_kept (runq : List τ) (r : τ) (status : τ → Status) (ifOn savedFlags : Bool) (count : κ → Nat)
    (s : IrqSt τ μ κ) (h : Reaches irqStep ResumesAlike (irqStart runq r status ifOn savedFlags count) s) :
    FlagsKept s := by
  have hi : IrqInv s := h.invariant (irqStart_inv runq r status ifOn savedFlags count)
    (fun _ _ _ hu hok hs => hu.step hok hs)
  exact hi.kept

end

end

/-! ## The flag of a sleeper -/

/-- Thread `false` runs and thread `true` is ready; one mutex, and one semaphore at 0. -/
def twoThreads : IrqSt Bool Unit Unit :=
  irqStart [false, true] false (fun t => if t then .ready else .running) true true (fun _ => 0)

/-- `true` falls asleep on the mutex that `false` holds, and `false` releases it. -/
def sleepAndRelease : List (IrqAct Bool Unit Unit) :=
  [.call (.mutexLock ()), .timer [] true, .scan, .call (.mutexLock ()), .goOn, .scan, .call (.mutexUnlock ())]

/-- `false` goes to sleep itself, so that `true` is resumed with the flag on. -/
theorem irq_flags_kept_sleeper :
    ∃ s, Reaches irqStep ResumesAlike twoThreads s ∧ s.point true = .out (some (true, true)) ∧ FlagsKept s := by
  obtain ⟨s, hr, hs⟩ := exists_reaches irqStep ResumesAlike twoThreads
    (sleepAndRelease ++ [.call (.semDown ()), .goOn, .scan, .goOn])
    (fun s => decide (s.point true = .out (some (true, true)))) (by decide +kernel)
  exact ⟨s, hr, of_decide_eq_true hs, irq_flags_kept _ _ _ _ _ _ s hr⟩

/-- A timer interrupt in `false` hands the CPU to `true` instead: `saved_flags` is that of the interrupt, and
`mutex_lock`, called with interrupts on, returns with interrupts off. -/
theorem irq_flags_lost :
    ∃ s, Reaches irqStep Any twoThreads s ∧ s.point true = .out (some (true, false)) ∧ ¬ FlagsKept s := by
  obtain ⟨s, hr, hs⟩ := exists_reaches irqStep Any twoThreads (sleepAndRelease ++ [.timer [] true, .scan, .goOn])
    (fun s => decide (s.point true = .out (some (true, false)))) (by decide +kernel)
  have hp : s.point true = .out (some (true, false)) := of_decide_eq_true hs
  refine ⟨s, hr, hp, ?_⟩
  intro hk
  have : false = true := hk true true false hp
  cases this

end RedMagic.Sync
