import RedMagic.Lib.Sections
import RedMagic.Sync.Mutex
import RedMagic.Sync.Semaphore

/-!
# Mutexes and semaphores, statement by statement (src/mutex.c, src/semaphore.c, src/spinlock.c)

| here | there |
| --- | --- |
| `Guarded` | what a spinlock guards, with the lock's own `owner_cpu` |
| `spinAcquireRest` | `spin_acquire` after its loop (`spinlock.c:80-81`) |
| `spinReleaseStart` | `spin_release` before its `xchg` (`spinlock.c:86`) |
| `makeSleep`, `wakeUp` | `make_sleep` and `wake_up` (`sched.c:355-383`): the test of the state and the write are two steps |
| `mutexLockCode`, `mutexRecheckCode`, `mutexUnlockCode` | the three `wlock` sections of `mutex.c`, an access at a time |
| `semDownCode`, `semResumeCode`, `semUpCode` | the `semlock` sections of `semaphore.c` |

`Mutex` and `Semaphore` take a section as one step. Here a section is the accesses that it makes, on any number of processors at
once, with the loop on `slock`; the queue is scanned in one step, and an entry is linked or unlinked in one. The state of a thread
is not under the lock. A thread in a section runs with interrupts off and is not switched away from. Nobody but the mutex or the
semaphore wakes a thread that sleeps in it: `wake_up` is not atomic, and two of them on one thread are not covered.
-/

namespace RedMagic.Sync

open Sched Lts Sections

structure Guarded (δ : Type) where
  body : δ
  /-- 0 is NULL. -/
  ownerCpu : UInt32

section
variable {δ ω π β : Type}

def Guarded.onBody (f : δ → δ) (d : Guarded δ) : Guarded δ := { d with body := f d.body }

def spinAcquireRest (cpu : UInt32) (k : Section (Guarded δ) ω π) : Section (Guarded δ) ω π :=
  .read fun d => if d.ownerCpu = 0 then .write (fun d => { d with ownerCpu := cpu }) k else .done .panic

def spinReleaseStart (b : β) : Code (Guarded δ) β := .write (fun d => { d with ownerCpu := 0 }) (.done b)

@[simp] theorem run_spinAcquireRest (cpu : UInt32) (k : Section (Guarded δ) ω π) (b : δ) :
    (spinAcquireRest cpu k).run ⟨b, 0⟩ = k.run ⟨b, cpu⟩ := rfl

@[simp] theorem run_spinReleaseStart (b : β) (d : Guarded δ) : (spinReleaseStart b).run d = (b, ⟨d.body, 0⟩) := rfl

end

/-! ## The states of the threads -/

inductive StatusAccess (τ : Type) where
  | makeSleep (t : τ)
  | wakeUp (t : τ)

/-- What the scheduler and the threads themselves do. -/
inductive StatusEvent (τ : Type) where
  | switchIn (t : τ)
  | switchOut (t : τ)
  | other (t : τ) (st : Status)

section
variable {τ π : Type} [DecidableEq τ]

def StatusAccess.cond : StatusAccess τ → (τ → Status) → Bool
  | .makeSleep _, _ => true
  | .wakeUp t, x => x t = .blocked

def StatusAccess.eff : StatusAccess τ → (τ → Status) → (τ → Status)
  | .makeSleep t, x => Function.update x t .blocked
  | .wakeUp t, x => Function.update x t .ready

/-- `asleep p`: a thread at `p` is between `make_sleep()` and the return of `schedule()`. -/
def StatusEvent.run (asleep : π → Bool) : StatusEvent τ → (τ → Option π) → (τ → Status) → Option (τ → Status)
  | .switchIn t, _, x => if x t = .ready then some (Function.update x t .running) else none
  | .switchOut t, f, x => if x t = .running ∧ (f t).isSome then some (Function.update x t .ready) else none
  | .other t st, f, x =>
    match f t with
    | some p => if asleep p then none else some (Function.update x t st)
    | none => none

/-- What an event can be. -/
theorem StatusEvent.run_cases {asleep : π → Bool} {e : StatusEvent τ} {f : τ → Option π} {x x' : τ → Status}
    (h : e.run asleep f x = some x') :
    (∃ t, x t = .ready ∧ x' = Function.update x t .running) ∨
      (∃ t, x t = .running ∧ (f t).isSome ∧ x' = Function.update x t .ready) ∨
      ∃ t st p, f t = some p ∧ ¬ asleep p ∧ x' = Function.update x t st := by
  cases e with
  | switchIn t =>
    simp only [StatusEvent.run] at h
    split at h
    · rename_i ht
      cases h
      exact .inl ⟨t, ht, rfl⟩
    · cases h
  | switchOut t =>
    simp only [StatusEvent.run] at h
    split at h
    · rename_i ht
      cases h
      exact .inr (.inl ⟨t, ht.1, ht.2, rfl⟩)
    · cases h
  | other t st =>
    simp only [StatusEvent.run] at h
    split at h
    · rename_i p hp
      split at h
      · cases h
      · rename_i hasleep
        cases h
        exact .inr (.inr ⟨t, st, p, hp, hasleep, rfl⟩)
    · cases h

/-- A thread that runs a call stays as it is, whether it was running or asleep. -/
theorem StatusEvent.run_keeps {asleep : π → Bool} {e : StatusEvent τ} {f : τ → Option π} {x x' : τ → Status} {t : τ}
    (h : e.run asleep f x = some x') (ht : x t ≠ .ready) (hf : x t = .running → f t = none) (hf' : ∀ p, f t = some p → asleep p) :
    x' t = x t := by
  obtain ⟨u, hu, rfl⟩ | ⟨u, hu, hsome, rfl⟩ | ⟨u, st, p, hp, hasleep, rfl⟩ := StatusEvent.run_cases h
  · exact Function.update_of_ne (by rintro rfl; exact ht hu) ..
  · refine Function.update_of_ne ?_ ..
    rintro rfl
    rw [hf hu] at hsome
    cases hsome
  · refine Function.update_of_ne ?_ ..
    rintro rfl
    exact hasleep (hf' p hp)

theorem StatusEvent.keeps_running {asleep : π → Bool} {e : StatusEvent τ} {f : τ → Option π} {x x' : τ → Status} {t : τ}
    (h : e.run asleep f x = some x') (hf : f t = none) (ht : x t = .running) : x' t = .running := by
  rw [StatusEvent.run_keeps h (by simp [ht]) (fun _ => hf) (by simp [hf]), ht]

theorem StatusEvent.keeps_blocked {asleep : π → Bool} {e : StatusEvent τ} {f : τ → Option π} {x x' : τ → Status} {t : τ}
    (h : e.run asleep f x = some x') (hf : ∀ p, f t = some p → asleep p) (ht : x t = .blocked) : x' t = .blocked := by
  rw [StatusEvent.run_keeps h (by simp [ht]) (by simp [ht]) hf, ht]

/-- A running thread is put to sleep by nobody but itself. -/
theorem StatusAccess.eff_running {w : StatusAccess τ} {x : τ → Status} {u : τ} (hw : ∀ t, w = .makeSleep t → u ≠ t)
    (hc : w.cond x) (hu : x u = .running) : w.eff x u = .running := by
  cases w with
  | makeSleep t => exact (Function.update_of_ne (hw t rfl) ..).trans hu
  | wakeUp t =>
    refine (Function.update_of_ne ?_ ..).trans hu
    rintro rfl
    rw [StatusAccess.cond, hu] at hc
    cases hc

end

/-! ## Mutexes -/

section
variable {τ : Type} [DecidableEq τ]

abbrev MutexSection (τ : Type) : Type := Section (Guarded (Mutex τ)) (StatusAccess τ) Place

/-- One round of the loop of `mutex_lock` up to `spin_unlock_irq`: `mutex_add_to_wq` and `make_sleep`. -/
def queueUp (t : τ) : MutexSection τ :=
  let sleep := Code.done (.access (.makeSleep t) (spinReleaseStart .waiting))
  .read fun d =>
    if t ∈ d.body.wq then sleep else .write (Guarded.onBody fun m => { m with wq := m.wq ++ [t] }) sleep

def mutexLockCode (cpu : UInt32) (t : τ) : MutexSection τ :=
  spinAcquireRest cpu <|
  -- `xchg(&mlock, 1)`
  .act (Guarded.onBody fun m => { m with mlock := 1 }) fun d =>
    if d.body.mlock = 0 then
      .read fun d =>
        if d.body.owner = none then
          .write (Guarded.onBody fun m => { m with owner := some t }) (spinReleaseStart (.leave .holding))
        else .done .panic
    else queueUp t

def mutexRecheckCode (cpu : UInt32) (t : τ) : MutexSection τ :=
  spinAcquireRest cpu <|
  .read fun d =>
    if d.body.owner = some t then
      .read fun d =>
        if t ∈ d.body.wq then
          .write (Guarded.onBody fun m => { m with wq := m.wq.erase t }) (spinReleaseStart (.leave .holding))
        else spinReleaseStart (.leave .holding)
    else queueUp t

def mutexUnlockCode (cpu : UInt32) : MutexSection τ :=
  spinAcquireRest cpu <|
  .read fun d =>
    match d.body.wq with
    | [] =>
      .write (Guarded.onBody fun m => { m with owner := none }) <|
      .write (Guarded.onBody fun m => { m with mlock := 0 }) <|
      spinReleaseStart (.leave .outside)
    | p :: _ =>
      .write (Guarded.onBody fun m => { m with owner := some p }) <|
      .done (.access (.wakeUp p) (spinReleaseStart .outside))

/-- The section of `mutex_lock` at its call, the one after `schedule()`, and that of `mutex_unlock`. -/
inductive MutexCall where
  | lock
  | recheck
  | unlock
deriving DecidableEq, Repr

/-- `getProcessor t` is what `get_processor()` returns to thread `t`. -/
def mutexProgram (getProcessor : τ → UInt32) :
    Program τ (Guarded (Mutex τ)) (τ → Status) Place MutexCall (StatusAccess τ) (StatusEvent τ) where
  sect i t p :=
    match i, p with
    | .lock, .outside => some (mutexLockCode (getProcessor t) t)
    | .recheck, .waiting => some (mutexRecheckCode (getProcessor t) t)
    | .unlock, .holding => some (mutexUnlockCode (getProcessor t))
    | _, _ => none
  may i t x := i = .recheck → x t = .running
  cond := StatusAccess.cond
  eff := StatusAccess.eff
  env := StatusEvent.run (· = .waiting)

def mutexView : View (MutexSt τ) τ (Guarded (Mutex τ)) (τ → Status) Place := ⟨fun a => ⟨a.mutex, 0⟩, fun a => a.status, fun a => a.place⟩

variable {getProcessor : τ → UInt32}

theorem mutexProgram_wakeUp (t : τ) (x : τ → Status) : (mutexProgram getProcessor).access (.wakeUp t) x = wakeUp x t := by
  simp [Program.access, mutexProgram, StatusAccess.cond, StatusAccess.eff, wakeUp]

/-- What a section of `mutex_lock` amounts to. -/
def lockResult (r : Bool × Mutex τ × (τ → Status)) : Place × Guarded (Mutex τ) × (τ → Status) :=
  (if r.1 then .holding else .waiting, ⟨r.2.1, 0⟩, r.2.2)

theorem run_queueUp (t : τ) (m : Mutex τ) (cpu : UInt32) :
    (queueUp t).run ⟨m, cpu⟩ = (.access (.makeSleep t) (spinReleaseStart .waiting), ⟨mutexAddToWq t m, cpu⟩) := by
  unfold queueUp mutexAddToWq
  by_cases h : t ∈ m.wq <;> simp [h, Guarded.onBody]

theorem effect_of_run_queueUp {c : MutexSection τ} {m m' : Mutex τ} {x : τ → Status} {t : τ} (cpu : UInt32)
    (h : c.run ⟨m, 0⟩ = (queueUp t).run ⟨m', cpu⟩) :
    (mutexProgram getProcessor).effect c ⟨m, 0⟩ x = some (lockResult (enqueue t m' x)) := by
  rw [Program.effect, h, run_queueUp]
  rfl

theorem effect_lock (cpu : UInt32) (t : τ) (m : Mutex τ) (x : τ → Status) :
    (mutexProgram getProcessor).effect (mutexLockCode cpu t) ⟨m, 0⟩ x = (lockEnter t m x).toOption.map lockResult := by
  by_cases hm : m.mlock = 0
  · by_cases ho : m.owner = none <;>
      simp [Program.effect, mutexLockCode, lockEnter, acquireRlock, hm, ho, Guarded.onBody, lockResult, Except.toOption]
  · rw [lockEnter_taken hm]
    exact effect_of_run_queueUp cpu (by simp [mutexLockCode, hm, Guarded.onBody])

theorem effect_recheck (cpu : UInt32) (t : τ) (m : Mutex τ) (x : τ → Status) :
    (mutexProgram getProcessor).effect (mutexRecheckCode cpu t) ⟨m, 0⟩ x = some (lockResult (lockRecheck t m x)) := by
  by_cases ho : m.owner = some t
  · by_cases hw : t ∈ m.wq <;>
      simp [Program.effect, mutexRecheckCode, lockRecheck, mutexRemoveFromWq, ho, hw, Guarded.onBody, lockResult]
  · rw [lockRecheck, if_neg ho]
    exact effect_of_run_queueUp cpu (by simp [mutexRecheckCode, ho])

theorem effect_unlock (cpu : UInt32) (m : Mutex τ) (x : τ → Status) :
    (mutexProgram getProcessor).effect (mutexUnlockCode cpu) ⟨m, 0⟩ x =
      some (.outside, ⟨(mutexUnlock m x).1, 0⟩, (mutexUnlock m x).2) := by
  cases hw : m.wq with
  | nil => simp [Program.effect, mutexUnlockCode, mutexUnlock, hw, Guarded.onBody]
  | cons p rest => simp [Program.effect, mutexUnlockCode, mutexUnlock, hw, Guarded.onBody, mutexProgram_wakeUp]

/-- A section that puts a thread to sleep puts the thread to sleep that runs it, and one that wakes a thread wakes one that waits. -/
theorem mutex_access {a : MutexSt τ} (hi : MutexInv a) {i : MutexCall} {t : τ} {c : MutexSection τ} {w : StatusAccess τ}
    {r : Code (Guarded (Mutex τ)) Place} {d : Guarded (Mutex τ)}
    (hsect : (mutexProgram getProcessor).sect i t (a.place t) = some c) (hrun : c.run ⟨a.mutex, 0⟩ = (.access w r, d)) :
    w = .makeSleep t ∨ ∃ p, w = .wakeUp p ∧ a.place p = .waiting := by
  cases i with
  | lock =>
    cases hp : a.place t <;> rw [hp] at hsect <;> cases hsect
    by_cases hm : a.mutex.mlock = 0
    · simp [mutexLockCode, hm, hi.word.1 hm, Guarded.onBody] at hrun
    · simp only [mutexLockCode, run_spinAcquireRest, Code.run_act, hm, if_false, Guarded.onBody, run_queueUp] at hrun
      cases hrun
      exact .inl rfl
  | recheck =>
    cases hp : a.place t <;> rw [hp] at hsect <;> cases hsect
    by_cases ho : a.mutex.owner = some t
    · by_cases hw : t ∈ a.mutex.wq <;> simp [mutexRecheckCode, ho, hw] at hrun
    · simp only [mutexRecheckCode, run_spinAcquireRest, Code.run_read, ho, if_false, run_queueUp] at hrun
      cases hrun
      exact .inl rfl
  | unlock =>
    cases hp : a.place t <;> rw [hp] at hsect <;> cases hsect
    cases hw : a.mutex.wq with
    | nil => simp [mutexUnlockCode, hw] at hrun
    | cons p rest =>
      simp only [mutexUnlockCode, run_spinAcquireRest, Code.run_read, hw, Code.run_write, Code.run_done] at hrun
      cases hrun
      exact .inr ⟨p, rfl, (hi.waiting p).1 (by simp [hw])⟩

/-- `mutexStep` has each section of the code as a step. -/
theorem mutex_section_step {a : MutexSt τ} (hi : MutexInv a) {i : MutexCall} {t : τ} {c : MutexSection τ}
    (hsect : (mutexProgram getProcessor).sect i t (a.place t) = some c) (hmay : (mutexProgram getProcessor).may i t a.status) :
    ∃ r b a', (mutexProgram getProcessor).effect c ⟨a.mutex, 0⟩ a.status = some r ∧ mutexStep a b = some a' ∧
      mutexView.data a' = r.2.1 ∧ a'.status = r.2.2 ∧ a'.place = Function.update a.place t r.1 := by
  cases i with
  | lock =>
    cases hp : a.place t <;> rw [hp] at hsect <;> cases hsect
    obtain ⟨r, hr⟩ : ∃ r, lockEnter t a.mutex a.status = .ok r := by
      by_cases hm : a.mutex.mlock = 0
      · exact ⟨_, lockEnter_free hm (hi.word.1 hm) t _⟩
      · exact ⟨_, lockEnter_taken hm t _⟩
    have hstep : mutexStep a (.lock t) = some (afterLock { a with arrived := a.arrived ++ [t] } t r) := by
      rw [mutexStep, if_pos hp, hr]
    exact ⟨lockResult r, _, _, by rw [effect_lock, hr]; rfl, hstep, rfl, rfl, rfl⟩
  | recheck =>
    cases hp : a.place t <;> rw [hp] at hsect <;> cases hsect
    have hrunning : a.status t = .running := of_decide_eq_true hmay rfl
    have hstep : mutexStep a (.recheck t) = some (afterLock a t (lockRecheck t a.mutex a.status)) := by
      rw [mutexStep, if_pos ⟨hp, hrunning⟩]
    exact ⟨_, _, _, effect_recheck _ t a.mutex a.status, hstep, rfl, rfl, rfl⟩
  | unlock =>
    cases hp : a.place t <;> rw [hp] at hsect <;> cases hsect
    have hstep : mutexStep a (.unlock t) = some { a with
        mutex := (mutexUnlock a.mutex a.status).1, status := (mutexUnlock a.mutex a.status).2,
        place := Function.update a.place t .outside } := by
      rw [mutexStep, if_pos hp]
    exact ⟨_, _, _, effect_unlock _ a.mutex a.status, hstep, rfl, rfl, rfl⟩

theorem mutex_env_step {a : MutexSt τ} {e : StatusEvent τ} {f : τ → Option Place} {x : τ → Status}
    (hf : ∀ t p, f t = some p → a.place t = p) (h : e.run (· = .waiting) f a.status = some x) :
    ∃ b a', mutexStep a b = some a' ∧ a' = { a with status := x } := by
  obtain ⟨t, ht, rfl⟩ | ⟨t, ht, -, rfl⟩ | ⟨t, st, p, hp, hasleep, rfl⟩ := StatusEvent.run_cases h
  · exact ⟨.switchIn t, _, by rw [mutexStep, if_pos ht], rfl⟩
  · exact ⟨.switchOut t, _, by rw [mutexStep, if_pos ht], rfl⟩
  · have hplace : ¬ a.place t = .waiting := by
      rw [hf t p hp]
      simpa using hasleep
    exact ⟨.other t st, _, by rw [mutexStep, if_neg hplace], rfl⟩

theorem mutex_atomic : Atomic (mutexProgram getProcessor) mutexStep MutexInv mutexView where
  keeps := fun hi h => mutexStep_inv hi h
  section_step := fun hi hsect hmay => mutex_section_step hi hsect hmay
  env_step := by
    intro a e f x _ hf h
    obtain ⟨b, a', hstep, rfl⟩ := mutex_env_step hf h
    exact ⟨b, _, hstep, rfl, rfl, rfl⟩
  env_may := by
    intro e f x x' i t hf h hmay
    exact decide_eq_true fun hi => StatusEvent.keeps_running h hf (of_decide_eq_true hmay hi)
  env_cond := by
    intro a e f x i t c w r d hi hf hsect hrun h hcond
    rcases mutex_access hi hsect hrun with rfl | ⟨p, rfl, hp⟩
    · rfl
    · refine decide_eq_true (StatusEvent.keeps_blocked h (fun q hq => ?_) (of_decide_eq_true hcond))
      rw [← hf p q hq]
      exact decide_eq_true hp
  eff_may := by
    intro a i t c w r d j u hi hsect hrun hcond hu hmay
    refine decide_eq_true fun hj => ?_
    refine StatusAccess.eff_running (fun v hv => ?_) hcond (of_decide_eq_true hmay hj)
    rcases mutex_access hi hsect hrun with rfl | ⟨p, rfl, -⟩
    · cases hv
      exact hu
    · cases hv

end

/-- A mutex after `mutex_init`, with no thread in a call. -/
def mutexIdle {τ : Type} (status : τ → Status) : St τ (Guarded (Mutex τ)) (τ → Status) Place MutexCall (StatusAccess τ) :=
  ⟨false, ⟨mutexInit, 0⟩, status, fun _ => .idle .outside⟩

theorem sim_mutexIdle {τ : Type} [DecidableEq τ] (getProcessor : τ → UInt32) (status : τ → Status) :
    Sim (mutexProgram getProcessor) MutexInv mutexView (mutexIdle status) (mutexStart status) where
  inv := mutexStart_inv status
  shared := rfl
  ctl := fun _ => rfl
  free := fun _ => rfl
  taken := by simp [mutexIdle, Ctl.holds]
  one := by simp [mutexIdle, Ctl.holds]

/-- **The sections of a mutex are atomic.** However the accesses of `mutex_lock` and `mutex_unlock` are interleaved with those of
the other threads: one thread at most is inside a section, no assertion fails, and the state stands for one that `mutexStep`
reaches, in which the threads that are in no call are where they are, with the mutex as it is whenever `wlock` is free. So one
thread at most has the mutex, and while nobody is in a section a queue has an owner to wait for. -/
theorem mutex_statements_atomic {τ : Type} [DecidableEq τ] (getProcessor : τ → UInt32) (status : τ → Status)
    (s : St τ (Guarded (Mutex τ)) (τ → Status) Place MutexCall (StatusAccess τ))
    (hrun : Reaches (mutexProgram getProcessor).step Any (mutexIdle status) s) :
    (∀ t u, (s.ctl t).holds → (s.ctl u).holds → t = u) ∧ (∀ t, s.ctl t ≠ .panicked) ∧
      (∀ t u, s.ctl t = .idle .holding → s.ctl u = .idle .holding → t = u) ∧
      (s.taken = false → s.data.body.wq ≠ [] → s.data.body.owner ≠ none) ∧
      ∃ a, Reaches mutexStep Any (mutexStart status) a ∧ a.status = s.shared ∧
        (∀ t p, s.ctl t = .idle p → a.place t = p) ∧ (s.taken = false → s.data = ⟨a.mutex, 0⟩) := by
  obtain ⟨a, hreach, hs⟩ := reaches_sim mutex_atomic (sim_mutexIdle getProcessor status) hrun
  have hidle : ∀ t p, s.ctl t = .idle p → a.place t = p := by
    intro t p ht
    have hat := hs.ctl t
    rw [ht] at hat
    exact hat
  refine ⟨hs.one, fun t ht => ?_, fun t u ht hu => ?_, fun hfree hwq => ?_, a, hreach, hs.shared, hidle, fun hfree => ?_⟩
  · have hat := hs.ctl t
    rw [ht] at hat
    exact hat
  · have h1 := hs.inv.holding t (hidle t _ ht)
    rw [hs.inv.holding u (hidle u _ hu)] at h1
    cases h1
    rfl
  · rw [← hs.free hfree] at hwq ⊢
    exact hs.inv.queue hwq
  · exact (hs.free hfree).symm

/-- Two threads: the second calls `mutex_lock` while the first is in its section, loops on `slock`, queues up, and is handed the
mutex. -/
theorem mutex_statements_atomic_two_threads :
    ∃ s, Reaches (mutexProgram fun t : Bool => if t then 2 else 1).step Any (mutexIdle fun _ => .running) s ∧
      s.ctl true = .idle .holding ∧ s.taken = false ∧
      ∃ a, Reaches mutexStep Any (mutexStart fun _ => .running) a ∧ a.place true = .holding ∧ s.data = ⟨a.mutex, 0⟩ := by
  obtain ⟨s, hrun, hs⟩ := exists_reaches (mutexProgram fun t : Bool => if t then 2 else 1).step Any (mutexIdle fun _ => .running)
    ([.call false .lock, .goOn false, .goOn false, .call true .lock, .goOn true] ++ List.replicate 7 (.goOn false) ++
      List.replicate 7 (.goOn true) ++ [.call false .unlock, .goOn false] ++ List.replicate 4 (.goOn true) ++
      List.replicate 9 (.goOn false) ++ [.env (.switchIn true), .call true .recheck] ++ List.replicate 9 (.goOn true))
    (fun s => (s.ctl true).idle? = some .holding ∧ s.taken = false) (by decide +kernel)
  obtain ⟨hidle, htaken⟩ := of_decide_eq_true hs
  have htrue := Ctl.eq_of_idle? hidle
  obtain ⟨-, -, -, -, a, hreach, -, hplace, hdata⟩ :=
    mutex_statements_atomic (fun t : Bool => if t then 2 else 1) (fun _ => .running) s hrun
  exact ⟨s, hrun, htrue, htaken, a, hreach, hplace true _ htrue, hdata htaken⟩

/-! ## Semaphores -/

/-- Outside the calls, or in `__sem_down` with `semlock` given back. -/
inductive SemAt where
  | out
  | asleep
deriving DecidableEq, Repr

def SemPlace.toAt : SemPlace → SemAt
  | .outside => .out
  | .waiting | .woken => .asleep

section
variable {τ : Type} [DecidableEq τ]

abbrev SemSection (τ : Type) : Type := Section (Guarded (Semaphore τ)) (StatusAccess τ) SemAt

/-- A round of the loop of `sem_down` up to the release of `semlock`, there or in `__sem_down`. -/
def semRound (t : τ) : SemSection τ :=
  let sleep := Code.done (.access (.makeSleep t) (spinReleaseStart .asleep))
  .read fun d =>
    if d.body.count > 0 then
      .write (Guarded.onBody fun m => { m with count := m.count - 1 }) (spinReleaseStart (.leave .out))
    else
      .read fun d =>
        if t ∈ d.body.wq then sleep else .write (Guarded.onBody fun m => { m with wq := m.wq ++ [t] }) sleep

def semDownCode (cpu : UInt32) (t : τ) : SemSection τ := spinAcquireRest cpu (semRound t)

def semResumeCode (cpu : UInt32) (t : τ) : SemSection τ :=
  spinAcquireRest cpu (if semDownRv = 0 then spinReleaseStart (.leave .out) else semRound t)

/-- The waiter is woken first and taken off the queue afterwards. -/
def semUpCode (cpu : UInt32) : SemSection τ :=
  spinAcquireRest cpu <|
  .read fun d =>
    match d.body.wq with
    | [] => .write (Guarded.onBody fun m => { m with count := Mm.u32 (m.count + 1) }) (spinReleaseStart (.leave .out))
    | p :: _ =>
      .done <| .access (.wakeUp p) <|
      .read fun d =>
        if p ∈ d.body.wq then .write (Guarded.onBody fun m => { m with wq := m.wq.erase p }) (spinReleaseStart .out)
        else spinReleaseStart .out

inductive SemCall where
  | down
  | resume
  | up
deriving DecidableEq, Repr

def semProgram (getProcessor : τ → UInt32) :
    Program τ (Guarded (Semaphore τ)) (τ → Status) SemAt SemCall (StatusAccess τ) (StatusEvent τ) where
  sect i t p :=
    match i, p with
    | .down, .out => some (semDownCode (getProcessor t) t)
    | .resume, .asleep => some (semResumeCode (getProcessor t) t)
    | .up, .out => some (semUpCode (getProcessor t))
    | _, _ => none
  may i t x := i = .resume → x t = .running
  cond := StatusAccess.cond
  eff := StatusAccess.eff
  env := StatusEvent.run (· = .asleep)

def semView : View (SemSt τ) τ (Guarded (Semaphore τ)) (τ → Status) SemAt :=
  ⟨fun a => ⟨a.sem, 0⟩, fun a => a.status, fun a => SemPlace.toAt ∘ a.place⟩

/-- The invariant without the number of ups, with which it holds however often the counter wraps. -/
def SemShape (s : SemSt τ) : Prop := ∃ c, SemInv c { s with ups := 0 }

omit [DecidableEq τ] in
theorem SemInv.shape {c : Nat} {s : SemSt τ} (hi : SemInv c s) : SemShape s :=
  ⟨c + s.ups, hi.permits, hi.empty, hi.nodup, hi.waiting, hi.asleep, hi.awake, hi.fifo⟩

/-- `sem_up` alone counts. -/
theorem semStep_setUps {s s' : SemSt τ} {b : SemAct τ} (hb : b ≠ .up) (h : semStep s b = some s') (n : Nat) :
    semStep { s with ups := n } b = some { s' with ups := n } := by
  cases b with
  | up => exact absurd rfl hb
  | down t =>
    simp only [semStep] at h ⊢
    split at h
    · rename_i hp
      cases h
      rw [if_pos hp]
    · cases h
  | resume t =>
    simp only [semStep, semDownRv, if_true] at h ⊢
    split at h
    · rename_i hp
      cases h
      rw [if_pos hp]
    · cases h
  | switchIn t =>
    simp only [semStep] at h ⊢
    split at h
    · rename_i hp
      cases h
      rw [if_pos hp]
    · cases h
  | switchOut t =>
    simp only [semStep] at h ⊢
    split at h
    · rename_i hp
      cases h
      rw [if_pos hp]
    · cases h
  | other t st =>
    simp only [semStep] at h ⊢
    split at h
    · rename_i hp
      cases h
      rw [if_pos hp]
    · cases h

theorem SemShape.step {s s' : SemSt τ} {b : SemAct τ} (hs : SemShape s) (h : semStep s b = some s') : SemShape s' := by
  obtain ⟨c, hi⟩ := hs
  by_cases hb : b = .up
  · subst hb
    simp only [semStep] at h
    split at h
    · rename_i hwq
      rw [semUp_nil hwq] at h
      cases h
      exact ⟨Mm.u32 (s.sem.count + 1) + s.granted.length, rfl, fun _ => hwq, hi.nodup, hi.waiting, hi.asleep, hi.awake, hi.fifo⟩
    · rename_i p rest hwq
      rw [semUp_cons hwq] at h
      cases h
      exact (hi.up_wake hwq).shape
  · refine (semStep_inv hi ?_ (semStep_setUps hb h 0)).shape
    cases b with
    | up => exact absurd rfl hb
    | _ => trivial

variable {getProcessor : τ → UInt32}

theorem semProgram_wakeUp (t : τ) (x : τ → Status) : (semProgram getProcessor).access (.wakeUp t) x = wakeUp x t := by
  simp [Program.access, semProgram, StatusAccess.cond, StatusAccess.eff, wakeUp]

theorem run_semRound_zero {sem : Semaphore τ} (h : sem.count = 0) (t : τ) (cpu : UInt32) :
    (semRound t).run ⟨sem, cpu⟩ = (.access (.makeSleep t) (spinReleaseStart .asleep), ⟨semAddToWq t sem, cpu⟩) := by
  unfold semRound semAddToWq
  by_cases hw : t ∈ sem.wq <;> simp [h, hw, Guarded.onBody]

theorem effect_down (cpu : UInt32) (t : τ) (sem : Semaphore τ) (x : τ → Status) :
    (semProgram getProcessor).effect (semDownCode cpu t) ⟨sem, 0⟩ x =
      some (if (semDownEnter t sem x).1 then .out else .asleep, ⟨(semDownEnter t sem x).2.1, 0⟩, (semDownEnter t sem x).2.2) := by
  by_cases hc : sem.count > 0
  · simp [Program.effect, semDownCode, semRound, semDownEnter, hc, Guarded.onBody]
  · rw [Program.effect, semDownCode, run_spinAcquireRest, run_semRound_zero (by omega), semDownEnter, if_neg hc]
    rfl

theorem effect_up (cpu : UInt32) (sem : Semaphore τ) (x : τ → Status) :
    (semProgram getProcessor).effect (semUpCode cpu) ⟨sem, 0⟩ x = some (.out, ⟨(semUp sem x).1, 0⟩, (semUp sem x).2) := by
  cases hw : sem.wq with
  | nil => simp [Program.effect, semUpCode, semUp, hw, Guarded.onBody]
  | cons p rest => simp [Program.effect, semUpCode, semUp, semRemoveFromWq, hw, Guarded.onBody, semProgram_wakeUp]

theorem SemPlace.toAt_eq_out {p : SemPlace} (h : p.toAt = .out) : p = .outside := by
  cases p with
  | outside => rfl
  | waiting => cases h
  | woken => cases h

omit [DecidableEq τ] in
/-- A running thread in `__sem_down` has been woken. -/
theorem SemInv.woken {c : Nat} {a : SemSt τ} (hi : SemInv c a) {t : τ} (ht : (a.place t).toAt = .asleep) (hr : a.status t = .running) :
    a.place t = .woken := by
  cases hp : a.place t with
  | outside =>
    rw [hp] at ht
    cases ht
  | waiting =>
    rw [hi.asleep t hp] at hr
    cases hr
  | woken => rfl

theorem sem_access {a : SemSt τ} (hi : SemShape a) {i : SemCall} {t : τ} {c : SemSection τ} {w : StatusAccess τ}
    {r : Code (Guarded (Semaphore τ)) SemAt} {d : Guarded (Semaphore τ)}
    (hsect : (semProgram getProcessor).sect i t (a.place t).toAt = some c) (hrun : c.run ⟨a.sem, 0⟩ = (.access w r, d)) :
    w = .makeSleep t ∨ ∃ p, w = .wakeUp p ∧ a.place p = .waiting := by
  obtain ⟨_, hi⟩ := hi
  cases i with
  | down =>
    cases hp : (a.place t).toAt <;> rw [hp] at hsect <;> cases hsect
    by_cases hc : a.sem.count > 0
    · simp [semDownCode, semRound, hc] at hrun
    · rw [semDownCode, run_spinAcquireRest, run_semRound_zero (by omega)] at hrun
      cases hrun
      exact .inl rfl
  | resume =>
    cases hp : (a.place t).toAt <;> rw [hp] at hsect <;> cases hsect
    simp [semResumeCode, semDownRv] at hrun
  | up =>
    cases hp : (a.place t).toAt <;> rw [hp] at hsect <;> cases hsect
    cases hw : a.sem.wq with
    | nil => simp [semUpCode, hw] at hrun
    | cons p rest =>
      simp only [semUpCode, run_spinAcquireRest, Code.run_read, hw, Code.run_done] at hrun
      cases hrun
      exact .inr ⟨p, rfl, (hi.waiting p).1 (by simp [hw])⟩

theorem sem_section_step {a : SemSt τ} (hi : SemShape a) {i : SemCall} {t : τ} {c : SemSection τ}
    (hsect : (semProgram getProcessor).sect i t (a.place t).toAt = some c) (hmay : (semProgram getProcessor).may i t a.status) :
    ∃ r b a', (semProgram getProcessor).effect c ⟨a.sem, 0⟩ a.status = some r ∧ semStep a b = some a' ∧
      semView.data a' = r.2.1 ∧ a'.status = r.2.2 ∧ SemPlace.toAt ∘ a'.place = Function.update (SemPlace.toAt ∘ a.place) t r.1 := by
  obtain ⟨_, hi⟩ := hi
  cases i with
  | down =>
    cases hp : (a.place t).toAt <;> rw [hp] at hsect <;> cases hsect
    refine ⟨_, .down t, _, effect_down _ t a.sem a.status, if_pos (SemPlace.toAt_eq_out hp), rfl, rfl, ?_⟩
    rw [Function.comp_update]
    cases (semDownEnter t a.sem a.status).1 <;> rfl
  | resume =>
    cases hp : (a.place t).toAt <;> rw [hp] at hsect <;> cases hsect
    have hrunning : a.status t = .running := of_decide_eq_true hmay rfl
    have hwoken : a.place t = .woken := hi.woken hp hrunning
    have hstep : semStep a (.resume t) = some { a with place := Function.update a.place t .outside } := by
      simp [semStep, hwoken, hrunning, semDownRv]
    refine ⟨(.out, ⟨a.sem, 0⟩, a.status), .resume t, _, rfl, hstep, rfl, rfl, ?_⟩
    exact Function.comp_update _ _ _ _
  | up =>
    cases hp : (a.place t).toAt <;> rw [hp] at hsect <;> cases hsect
    have hsame : Function.update (SemPlace.toAt ∘ a.place) t .out = SemPlace.toAt ∘ a.place :=
      Function.update_eq_self_iff.2 hp.symm
    cases hw : a.sem.wq with
    | nil =>
      have hstep : semStep a .up = some { a with
          sem := (semUp a.sem a.status).1, status := (semUp a.sem a.status).2, ups := a.ups + 1 } := by
        simp only [semStep, hw]
      exact ⟨_, .up, _, effect_up _ a.sem a.status, hstep, rfl, rfl, hsame.symm⟩
    | cons p rest =>
      have hstep : semStep a .up = some { a with
          sem := (semUp a.sem a.status).1, status := (semUp a.sem a.status).2, ups := a.ups + 1,
          place := Function.update a.place p .woken, granted := a.granted ++ [p] } := by
        simp only [semStep, hw]
      refine ⟨_, .up, _, effect_up _ a.sem a.status, hstep, rfl, rfl, ?_⟩
      -- the waiter stays in `__sem_down`
      have hwaiting : a.place p = .waiting := (hi.waiting p).1 (by simp [hw])
      rw [hsame, Function.comp_update]
      exact Function.update_eq_self_iff.2 (by simp [hwaiting, SemPlace.toAt])

theorem sem_env_step {a : SemSt τ} {e : StatusEvent τ} {f : τ → Option SemAt} {x : τ → Status}
    (hf : ∀ t p, f t = some p → (a.place t).toAt = p) (h : e.run (· = .asleep) f a.status = some x) :
    ∃ b a', semStep a b = some a' ∧ a' = { a with status := x } := by
  obtain ⟨t, ht, rfl⟩ | ⟨t, ht, -, rfl⟩ | ⟨t, st, p, hp, hasleep, rfl⟩ := StatusEvent.run_cases h
  · exact ⟨.switchIn t, _, by rw [semStep, if_pos ht], rfl⟩
  · exact ⟨.switchOut t, _, by rw [semStep, if_pos ht], rfl⟩
  · have hplace : a.place t = .outside := by
      refine SemPlace.toAt_eq_out ((hf t p hp).trans ?_)
      cases p with
      | out => rfl
      | asleep => exact absurd rfl hasleep
    exact ⟨.other t st, _, by rw [semStep, if_pos hplace], rfl⟩

theorem sem_atomic : Atomic (semProgram getProcessor) semStep SemShape semView where
  keeps := fun hi h => hi.step h
  section_step := fun hi hsect hmay => sem_section_step hi hsect hmay
  env_step := by
    intro a e f x _ hf h
    obtain ⟨b, a', hstep, rfl⟩ := sem_env_step hf h
    exact ⟨b, _, hstep, rfl, rfl, rfl⟩
  env_may := by
    intro e f x x' i t hf h hmay
    exact decide_eq_true fun hi => StatusEvent.keeps_running h hf (of_decide_eq_true hmay hi)
  env_cond := by
    intro a e f x i t c w r d hi hf hsect hrun h hcond
    rcases sem_access hi hsect hrun with rfl | ⟨p, rfl, hp⟩
    · rfl
    · refine decide_eq_true (StatusEvent.keeps_blocked h (fun q hq => ?_) (of_decide_eq_true hcond))
      rw [← hf p q hq]
      refine decide_eq_true ?_
      show (a.place p).toAt = .asleep
      rw [hp]
      rfl
  eff_may := by
    intro a i t c w r d j u hi hsect hrun hcond hu hmay
    refine decide_eq_true fun hj => ?_
    refine StatusAccess.eff_running (fun v hv => ?_) hcond (of_decide_eq_true hmay hj)
    rcases sem_access hi hsect hrun with rfl | ⟨p, rfl, -⟩
    · cases hv
      exact hu
    · cases hv

end

/-- A semaphore after `sem_init`, with no thread in a call. -/
def semIdle {τ : Type} (c : Nat) (status : τ → Status) :
    St τ (Guarded (Semaphore τ)) (τ → Status) SemAt SemCall (StatusAccess τ) :=
  ⟨false, ⟨⟨c, []⟩, 0⟩, status, fun _ => .idle .out⟩

theorem sim_semIdle {τ : Type} [DecidableEq τ] (getProcessor : τ → UInt32) (c : Nat) (status : τ → Status) :
    Sim (semProgram getProcessor) SemShape semView (semIdle c status) (semStart c status) where
  inv := (semStart_inv c status).shape
  shared := rfl
  ctl := fun _ => rfl
  free := fun _ => rfl
  taken := by simp [semIdle, Ctl.holds]
  one := by simp [semIdle, Ctl.holds]

/-- **The sections of a semaphore are atomic.** However the accesses of `sem_down` and `sem_up` are interleaved: one thread at most
is inside a section, no assertion fails, and the state stands for one that `semStep` reaches. While `semlock` is free, a positive
counter leaves nobody queued, and the queue is the calls of `sem_down` that have not got a permit, in the order in which they came,
each of them asleep. -/
theorem sem_statements_atomic {τ : Type} [DecidableEq τ] (getProcessor : τ → UInt32) (c : Nat) (status : τ → Status)
    (s : St τ (Guarded (Semaphore τ)) (τ → Status) SemAt SemCall (StatusAccess τ))
    (hrun : Reaches (semProgram getProcessor).step Any (semIdle c status) s) :
    (∀ t u, (s.ctl t).holds → (s.ctl u).holds → t = u) ∧ (∀ t, s.ctl t ≠ .panicked) ∧
      (s.taken = false → 0 < s.data.body.count → s.data.body.wq = []) ∧
      (s.taken = false → ∀ t ∈ s.data.body.wq, s.shared t = .blocked) ∧
      ∃ a, Reaches semStep Any (semStart c status) a ∧ a.status = s.shared ∧
        (∀ t p, s.ctl t = .idle p → (a.place t).toAt = p) ∧
        (s.taken = false → s.data = ⟨a.sem, 0⟩ ∧ a.arrived = a.granted ++ s.data.body.wq) := by
  obtain ⟨a, hreach, hs⟩ := reaches_sim sem_atomic (sim_semIdle getProcessor c status) hrun
  obtain ⟨_, hi⟩ := hs.inv
  refine ⟨hs.one, fun t ht => ?_, fun hfree hc => ?_, fun hfree t ht => ?_, a, hreach, hs.shared, fun t p ht => ?_,
    fun hfree => ⟨(hs.free hfree).symm, ?_⟩⟩
  · have hat := hs.ctl t
    rw [ht] at hat
    exact hat
  · rw [← hs.free hfree] at hc ⊢
    exact hi.empty hc
  · rw [← hs.free hfree] at ht
    rw [← hs.shared]
    exact hi.asleep t ((hi.waiting t).1 ht)
  · have hat := hs.ctl t
    rw [ht] at hat
    exact hat
  · rw [← hs.free hfree]
    exact hi.fifo

/-- No permit: one thread queues up while the other loops on `semlock` in `sem_up`, is woken by it and returns. -/
theorem sem_statements_atomic_two_threads :
    ∃ s, Reaches (semProgram fun t : Bool => if t then 2 else 1).step Any (semIdle 0 fun _ => .running) s ∧
      s.ctl true = .idle .out ∧ s.taken = false ∧
      ∃ a, Reaches semStep Any (semStart 0 fun _ => .running) a ∧ a.place true = .outside ∧ a.arrived = a.granted ++ s.data.body.wq := by
  obtain ⟨s, hrun, hs⟩ := exists_reaches (semProgram fun t : Bool => if t then 2 else 1).step Any (semIdle 0 fun _ => .running)
    ([.call true .down] ++ List.replicate 3 (.goOn true) ++ [.call false .up, .goOn false] ++ List.replicate 7 (.goOn true) ++
      List.replicate 6 (.goOn false) ++ [.goOn true, .env (.switchIn true), .call true .resume, .goOn true] ++
      List.replicate 5 (.goOn false) ++ List.replicate 6 (.goOn true))
    (fun s => (s.ctl true).idle? = some .out ∧ s.taken = false) (by decide +kernel)
  obtain ⟨hidle, htaken⟩ := of_decide_eq_true hs
  have htrue := Ctl.eq_of_idle? hidle
  obtain ⟨-, -, -, -, a, hreach, -, hplace, hdata⟩ :=
    sem_statements_atomic (fun t : Bool => if t then 2 else 1) 0 (fun _ => .running) s hrun
  exact ⟨s, hrun, htrue, htaken, a, hreach, SemPlace.toAt_eq_out (hplace true _ htrue), (hdata htaken).2⟩

end RedMagic.Sync
