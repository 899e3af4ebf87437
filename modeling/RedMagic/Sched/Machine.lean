import Mathlib.Logic.Function.Basic
import RedMagic.Lib.Transition
import RedMagic.Sched.RunQueue
import RedMagic.Sched.Status

/-!
# CPUs, threads and the scheduler (src/sched.c, src/task.c)

`n` CPUs run threads. A context is what a CPU can run: a thread, or its own boot code. Each context is
at a program point `Pc`, kept while it is switched out, and a step takes the context of one CPU to its next
one. The timer interrupt may come at every program point: the sections that run with interrupts off
(`spin_lock_irqsave` to `spin_unlock_irqrestore` of a `rq_lock`) are one step each, and the loop of
`__do_sched_rr` turns interrupts on.

| here | there |
| --- | --- |
| `Cpu`            | `cpu_state_t` (`cpu.h:17-34`): `runq`, `rthread`, `preempt_on` |
| `.create`, `.adding`, `.readying` | `create_thread` and `add_thread_to_rq` (`task.c:167-179`, `sched.c:291-309`): before its `rq_lock` section, and before `__set_thread_status(T_READY)` |
| `.exitStart` … `.stopped` | `__finish_thread` (`task.c:261-283`): after `preempt_disable`, after `remove_thread_from_rq`, after `T_COMPLETE`, before `schedule`, after it |
| `enter`          | `schedule` up to the loop of `__do_sched_rr` (`sched.c:59-69`, `:105-119`) |
| `advance`        | the body of that loop (`sched.c:121-140`) |
| `switchTo`       | the rest of `schedule` and `switch_to` (`sched.c:70-78`, `switch.s`) |
| `makeSleep`, `.wakeUp` | `make_sleep`, `wake_up` (`sched.c:355-383`) |
| `timerCallback`  | `timer_callback`'s call of `schedule` (`timer.c:41-44`); the alarms it checks are `.wakeUp`s |

What a read through a NULL or junk pointer yields is part of the action; when the scheduler then switches to
such a thread the machine is lost and the step has no result. `kfree` of a queue entry returns `OK`. Which CPU
`pick_processor` returns is part of the action, as are the results of the allocations.
-/

namespace RedMagic.Sched

open Lts

inductive Ctx (n : Nat) (τ : Type) where
  | boot (c : Fin n)
  | thread (t : τ)
deriving DecidableEq, Repr

inductive Pc (n : Nat) (τ : Type) where
  | run
  | adding (new : Option τ) (entry : Nat) (on : Fin n)
  | readying (new : Option τ)
  | exitStart
  | exitRemoved
  | exitComplete
  | exitClean
  | stopped
deriving DecidableEq, Repr

/-- Inside the loop of `__do_sched_rr`: the `rthread` that `schedule` read and the cursor. -/
structure Scan (τ : Type) where
  prev : Option τ
  tlist : Ptr
  /-- Whether `rthread` had an entry on the queue when `schedule` was called; not part of the code. -/
  wasQueued : Bool

structure Cpu (n : Nat) (τ : Type) where
  runq : List (Entry τ)
  rthread : Option τ
  preemptOn : Bool
  /-- What the CPU runs. -/
  cur : Ctx n τ
  /-- Set while it is in `schedule`. -/
  scan : Option (Scan τ)

structure Machine (n : Nat) (τ : Type) where
  cpu : Fin n → Cpu n τ
  status : τ → Status
  task : τ → Nat
  /-- The threads made so far. -/
  threads : List τ
  /-- The addresses of the queue entries in use. -/
  entries : List Nat
  pc : Ctx n τ → Pc n τ

inductive Act (n : Nat) (τ : Type) where
  | create (c : Fin n) (new : Option τ) (task : Nat) (entry : Option Nat) (on : Fin n)
  | makeSleep (c : Fin n)
  | preempt (c : Fin n) (on : Bool)
  | wakeUp (t : τ)
  | finish (c : Fin n)
  | step (c : Fin n)
  | schedule (c : Fin n)
  | timer (c : Fin n)
  | scan (c : Fin n) (junk : Status)

section
variable {n : Nat} {τ : Type}

def Machine.setCpu (s : Machine n τ) (c : Fin n) (x : Cpu n τ) : Machine n τ :=
  { s with cpu := Function.update s.cpu c x }

/-- `preempt_enable`, `preempt_disable`. -/
def Machine.preempt (s : Machine n τ) (c : Fin n) (on : Bool) : Machine n τ :=
  s.setCpu c { s.cpu c with preemptOn := on }

def Machine.setRunq (s : Machine n τ) (c : Fin n) (q : List (Entry τ)) : Machine n τ :=
  s.setCpu c { s.cpu c with runq := q }

def Machine.setRthread (s : Machine n τ) (c : Fin n) (threadp : Option τ) : Machine n τ :=
  s.setCpu c { s.cpu c with rthread := threadp }

/-- The program point of what CPU `c` runs. -/
def Machine.curPc (s : Machine n τ) (c : Fin n) : Pc n τ := s.pc (s.cpu c).cur

end

section
variable {n : Nat} {τ : Type} [DecidableEq τ]

/-- The context of CPU `c` goes on at `p`. -/
def Machine.goto (s : Machine n τ) (c : Fin n) (p : Pc n τ) : Machine n τ :=
  { s with pc := Function.update s.pc (s.cpu c).cur p }

/-- `__set_thread_status`; through NULL it writes to no thread. -/
def Machine.setStatus (s : Machine n τ) (threadp : Option τ) (st : Status) : Machine n τ :=
  match threadp with
  | none => s
  | some t => { s with status := Function.update s.status t st }

/-! ## schedule -/

/-- The running thread is one of the queue. -/
def Cpu.rthreadQueued (x : Cpu n τ) : Bool := x.rthread.any fun t => t ∈ queued x.runq

/-- The cursor at the start of the loop; it is not set when no thread runs. -/
def Cpu.startCursor (x : Cpu n τ) : Ptr :=
  match x.rthread with
  | none => .null
  | some t => (findThreadInRq (some t) x.runq).2

/-- `if (rthread->status == T_RUNNING) __set_thread_status(rthread, T_READY)`. -/
def readyRthread (status : τ → Status) : Option τ → τ → Status
  | none => status
  | some t => if status t = .running then Function.update status t .ready else status

def enter (s : Machine n τ) (c : Fin n) : Machine n τ :=
  let x := s.cpu c
  { s.setCpu c { x with preemptOn := false, scan := some ⟨x.rthread, x.startCursor, x.rthreadQueued⟩ } with
    status := readyRthread s.status x.rthread }

/-- What `enter` dereferences. -/
def enterDerefs (s : Machine n τ) (c : Fin n) : List (Deref τ) :=
  .thread (.of (s.cpu c).rthread) ::
    match (s.cpu c).rthread with
    | none => []
    | some t => (findThreadInRq (some t) (s.cpu c).runq).1

/-- One round: what it dereferences to move the cursor, the cursor, and `cur->rthread`. -/
def advance (x : Cpu n τ) (tlist : Ptr) : List (Deref τ) × Ptr × Option τ :=
  match x.rthread with
  | some t => ([.entry tlist], if listIsLast x.runq tlist then firstEntry x.runq else nextEntry x.runq tlist, some t)
  | none =>
    match x.runq with
    | [] => ([], .null, none)
    | e :: _ => ([.entry (.entry e.addr)], .entry e.addr, e.threadp)

def switchTo (s : Machine n τ) (c : Fin n) (t : τ) : Machine n τ :=
  (s.setStatus (some t) .running).setCpu c
    { s.cpu c with rthread := some t, cur := .thread t, preemptOn := true, scan := none }

/-- The cursor moves on. -/
def Machine.scanOn (s : Machine n τ) (c : Fin n) (sc : Scan τ) : Machine n τ :=
  s.setCpu c { s.cpu c with
    rthread := (advance (s.cpu c) sc.tlist).2.2,
    scan := some { sc with tlist := (advance (s.cpu c) sc.tlist).2.1 } }

/-- A round of the loop: what it dereferences and, unless the machine is lost, what comes of it. -/
def scanStep (s : Machine n τ) (c : Fin n) (sc : Scan τ) (junk : Status) : List (Deref τ) × Option (Machine n τ) :=
  let log := (advance (s.cpu c) sc.tlist).1
  let tlist := (advance (s.cpu c) sc.tlist).2.1
  if tlist = .null then (log, some (s.scanOn c sc))
  else
    match threadOf (s.cpu c).runq tlist with
    | .thread t =>
      if s.status t = .ready then
        -- `nextp->status`, and the contexts that `switch_to` saves and loads
        (log ++ [.entry tlist, .thread (.thread t)] ++ (sc.prev.map (.thread ∘ .thread)).toList,
          some (switchTo (s.scanOn c sc) c t))
      else (log ++ [.entry tlist, .thread (.thread t)], some (s.scanOn c sc))
    | p => (log ++ [.entry tlist, .thread p], if junk = .ready then none else some (s.scanOn c sc))

/-! ## Threads -/

/-- `check_runnable_threads() == 0` for the task of `t`. -/
def taskDone (s : Machine n τ) (t : τ) : Bool :=
  s.threads.all fun u => s.task u ≠ s.task t || s.status u = .complete

/-- The task's last thread leaves no `rthread` (`clean_task_sched`). -/
def cleanTask (s : Machine n τ) (c : Fin n) : Machine n τ :=
  match (s.cpu c).rthread with
  | some t => if taskDone s t then s.setRthread c none else s
  | none => s

/-- A step of the context of CPU `c` inside `create_thread` or `__finish_thread`. The end of a `rq_lock`
section turns preemption on. -/
def threadStep (s : Machine n τ) (c : Fin n) : Pc n τ → Option (Machine n τ)
  | .run | .stopped => none
  | .adding new entry on =>
    some (((s.setRunq on ((s.cpu on).runq ++ [⟨entry, new⟩])).goto c (.readying new)).preempt c true)
  | .readying new => some ((s.goto c .run).setStatus new .ready)
  | .exitStart =>
    match removeThread (s.cpu c).rthread (s.cpu c).runq with
    | none => none
    | some (a, q) =>
      some ((({ s with entries := s.entries.erase a }.setRunq c q).goto c .exitRemoved).preempt c true)
  | .exitRemoved => some ((s.goto c .exitComplete).setStatus (s.cpu c).rthread .complete)
  | .exitComplete => some (cleanTask (s.goto c .exitClean) c)
  | .exitClean => some (enter (s.goto c .stopped) c)

/-- `__create_thread` has made a thread, or failed. -/
def makeThread (s : Machine n τ) (new : Option τ) (task : Nat) : Machine n τ :=
  match new with
  | none => s
  | some t =>
    { s with
      status := Function.update s.status t .init, task := Function.update s.task t task,
      threads := t :: s.threads, pc := Function.update s.pc (.thread t) .run }

def timerCallback (s : Machine n τ) (c : Fin n) : Machine n τ := if (s.cpu c).preemptOn then enter s c else s

/-- CPU `c` is not in `schedule` and its context is between two calls. -/
def Machine.atRun (s : Machine n τ) (c : Fin n) : Bool := (s.cpu c).scan.isNone && s.curPc c = .run

def step (s : Machine n τ) : Act n τ → Option (Machine n τ)
  | .create c new task entry on =>
    if s.atRun c ∧ (∀ t ∈ new, t ∉ s.threads) ∧ ∀ a ∈ entry, a ∉ s.entries then
      let s := makeThread s new task
      match entry with
      | none => some s
      | some a => some ({ s with entries := a :: s.entries }.goto c (.adding new a on))
    else none
  | .makeSleep c => if s.atRun c then some (s.setStatus (s.cpu c).rthread .blocked) else none
  | .preempt c on => if s.atRun c then some (s.preempt c on) else none
  | .wakeUp t => some { s with status := wakeUp s.status t }
  | .finish c =>
    match (s.cpu c).cur with
    | .boot _ => none
    | .thread _ =>
      if s.atRun c then some ((s.goto c .exitStart).preempt c false) else none
  | .step c => if (s.cpu c).scan.isNone then threadStep s c (s.curPc c) else none
  | .schedule c => if s.atRun c then some (enter s c) else none
  | .timer c => some (timerCallback s c)
  | .scan c junk =>
    match (s.cpu c).scan with
    | none => none
    | some sc => (scanStep s c sc junk).2

/-- After `init_bootstrap_processor` and `cpu_reset_state`: every CPU runs its boot code, and there are no
threads. -/
def start (n : Nat) (τ : Type) : Machine n τ :=
  ⟨fun c => ⟨[], none, false, .boot c, none⟩, fun _ => .init, fun _ => 0, [], [], fun _ => .run⟩

end

/-! ## Field lemmas -/

section
variable {n : Nat} {τ : Type} (s : Machine n τ) (c : Fin n)

@[simp] theorem setCpu_cpu_self (x : Cpu n τ) : (s.setCpu c x).cpu c = x := Function.update_self ..

theorem setCpu_cpu_ne {c' : Fin n} (h : c' ≠ c) (x : Cpu n τ) : (s.setCpu c x).cpu c' = s.cpu c' :=
  Function.update_of_ne h ..

/-- What does not read the queue is the same on every CPU when the queue of one is replaced. -/
theorem setRunq_field (q : List (Entry τ)) {α : Type} (g : Cpu n τ → α) (hg : ∀ x, g { x with runq := q } = g x)
    (c' : Fin n) : g ((s.setRunq c q).cpu c') = g (s.cpu c') := by
  by_cases hc : c' = c
  · rw [hc, Machine.setRunq, setCpu_cpu_self, hg]
  · rw [Machine.setRunq, setCpu_cpu_ne s c hc]

section
variable (q : List (Entry τ)) (c' : Fin n)

@[simp] theorem setRunq_cur : ((s.setRunq c q).cpu c').cur = (s.cpu c').cur :=
  setRunq_field s c q Cpu.cur (fun _ => rfl) c'

@[simp] theorem setRunq_scan : ((s.setRunq c q).cpu c').scan = (s.cpu c').scan :=
  setRunq_field s c q Cpu.scan (fun _ => rfl) c'

@[simp] theorem setRunq_rthread : ((s.setRunq c q).cpu c').rthread = (s.cpu c').rthread :=
  setRunq_field s c q Cpu.rthread (fun _ => rfl) c'

@[simp] theorem setRunq_preemptOn : ((s.setRunq c q).cpu c').preemptOn = (s.cpu c').preemptOn :=
  setRunq_field s c q Cpu.preemptOn (fun _ => rfl) c'

end

variable [DecidableEq τ]

@[simp] theorem goto_pc_self (p : Pc n τ) : (s.goto c p).pc (s.cpu c).cur = p := Function.update_self ..

theorem goto_pc_ne (p : Pc n τ) {x : Ctx n τ} (h : x ≠ (s.cpu c).cur) : (s.goto c p).pc x = s.pc x :=
  Function.update_of_ne h ..

@[simp] theorem setStatus_cpu (r : Option τ) (st : Status) : (s.setStatus r st).cpu = s.cpu := by
  cases r <;> rfl

@[simp] theorem makeThread_cpu (new : Option τ) (task : Nat) : (makeThread s new task).cpu = s.cpu := by
  cases new <;> rfl

@[simp] theorem makeThread_pc_self (t : τ) (task : Nat) : (makeThread s (some t) task).pc (.thread t) = .run :=
  Function.update_self ..

theorem makeThread_pc_ne {t : τ} (task : Nat) {x : Ctx n τ} (h : x ≠ .thread t) :
    (makeThread s (some t) task).pc x = s.pc x :=
  Function.update_of_ne h ..

end

section
variable {n : Nat} {τ : Type} [DecidableEq τ]

/-! ## What a step can do -/

/-- Every step. -/
inductive MStep (s : Machine n τ) : Act n τ → Machine n τ → Prop
  | make {c new task on} (hr : s.atRun c = true) (hnew : ∀ t ∈ new, t ∉ s.threads) :
    MStep s (.create c new task none on) (makeThread s new task)
  | create {c new task a on} (hr : s.atRun c = true) (hnew : ∀ t ∈ new, t ∉ s.threads) :
    MStep s (.create c new task (some a) on)
      ({ makeThread s new task with entries := a :: (makeThread s new task).entries }.goto c (.adding new a on))
  | makeSleep {c} (hr : s.atRun c = true) : MStep s (.makeSleep c) (s.setStatus (s.cpu c).rthread .blocked)
  | preempt {c on} (hr : s.atRun c = true) : MStep s (.preempt c on) (s.preempt c on)
  | wakeUp {t} : MStep s (.wakeUp t) { s with status := wakeUp s.status t }
  | finish {c t} (ht : (s.cpu c).cur = .thread t) (hr : s.atRun c = true) :
    MStep s (.finish c) ((s.goto c .exitStart).preempt c false)
  | adding {c new a on} (hs : (s.cpu c).scan = none) (hp : s.curPc c = .adding new a on) :
    MStep s (.step c) (((s.setRunq on ((s.cpu on).runq ++ [⟨a, new⟩])).goto c (.readying new)).preempt c true)
  | readying {c new} (hs : (s.cpu c).scan = none) (hp : s.curPc c = .readying new) :
    MStep s (.step c) ((s.goto c .run).setStatus new .ready)
  | removed {c a q} (hs : (s.cpu c).scan = none) (hp : s.curPc c = .exitStart)
    (hq : removeThread (s.cpu c).rthread (s.cpu c).runq = some (a, q)) :
    MStep s (.step c) ((({ s with entries := s.entries.erase a }.setRunq c q).goto c .exitRemoved).preempt c true)
  | completed {c} (hs : (s.cpu c).scan = none) (hp : s.curPc c = .exitRemoved) :
    MStep s (.step c) ((s.goto c .exitComplete).setStatus (s.cpu c).rthread .complete)
  | cleaned {c} (hs : (s.cpu c).scan = none) (hp : s.curPc c = .exitComplete) :
    MStep s (.step c) (cleanTask (s.goto c .exitClean) c)
  | stopped {c} (hs : (s.cpu c).scan = none) (hp : s.curPc c = .exitClean) :
    MStep s (.step c) (enter (s.goto c .stopped) c)
  | schedule {c} (hr : s.atRun c = true) : MStep s (.schedule c) (enter s c)
  | timer {c} (hp : (s.cpu c).preemptOn = true) : MStep s (.timer c) (enter s c)
  | tick {c} (hp : (s.cpu c).preemptOn = false) : MStep s (.timer c) s
  | scan {c junk sc} (hs : (s.cpu c).scan = some sc) : MStep s (.scan c junk) (s.scanOn c sc)
  | switch {c junk sc t} (hs : (s.cpu c).scan = some sc)
    (ht : threadOf (s.cpu c).runq (advance (s.cpu c) sc.tlist).2.1 = .thread t) (hr : s.status t = .ready) :
    MStep s (.scan c junk) (switchTo (s.scanOn c sc) c t)

theorem threadStep_cases {s s' : Machine n τ} {c : Fin n} (hs : (s.cpu c).scan = none)
    (h : threadStep s c (s.curPc c) = some s') : MStep s (.step c) s' := by
  cases hp : s.curPc c with
  | run | stopped => simp [hp, threadStep] at h
  | adding new a on =>
    simp only [hp, threadStep] at h
    cases h
    exact .adding hs hp
  | readying new =>
    simp only [hp, threadStep] at h
    cases h
    exact .readying hs hp
  | exitStart =>
    simp only [hp, threadStep] at h
    split at h
    · cases h
    · rename_i a q hq
      cases h
      exact .removed hs hp hq
  | exitRemoved =>
    simp only [hp, threadStep] at h
    cases h
    exact .completed hs hp
  | exitComplete =>
    simp only [hp, threadStep] at h
    cases h
    exact .cleaned hs hp
  | exitClean =>
    simp only [hp, threadStep] at h
    cases h
    exact .stopped hs hp

theorem scanStep_cases {s s' : Machine n τ} {c : Fin n} {sc : Scan τ} {junk : Status}
    (hs : (s.cpu c).scan = some sc) (h : (scanStep s c sc junk).2 = some s') : MStep s (.scan c junk) s' := by
  simp only [scanStep] at h
  split at h
  · cases h
    exact .scan hs
  · split at h
    · rename_i t ht
      split at h
      · rename_i hr
        cases h
        exact .switch hs ht hr
      · cases h
        exact .scan hs
    · dsimp only at h
      split at h
      · cases h
      · cases h
        exact .scan hs

/-- **Every step of the machine is one of `MStep`.** -/
theorem step_cases {s s' : Machine n τ} {a : Act n τ} (h : step s a = some s') : MStep s a s' := by
  cases a with
  | create c new task entry on =>
    simp only [step] at h
    split at h
    · rename_i hg
      cases entry with
      | none =>
        cases h
        exact .make hg.1 hg.2.1
      | some a =>
        cases h
        exact .create hg.1 hg.2.1
    · cases h
  | makeSleep c =>
    simp only [step] at h
    split at h
    · cases h
      exact .makeSleep ‹_›
    · cases h
  | preempt c on =>
    simp only [step] at h
    split at h
    · cases h
      exact .preempt ‹_›
    · cases h
  | wakeUp t =>
    cases h
    exact .wakeUp
  | finish c =>
    simp only [step] at h
    split at h
    · cases h
    · rename_i t ht
      split at h
      · cases h
        exact .finish ht ‹_›
      · cases h
  | step c =>
    simp only [step] at h
    split at h
    · rename_i hs
      exact threadStep_cases (Option.isNone_iff_eq_none.1 hs) h
    · cases h
  | schedule c =>
    simp only [step] at h
    split at h
    · cases h
      exact .schedule ‹_›
    · cases h
  | timer c =>
    simp only [step, timerCallback] at h
    cases h
    by_cases hp : (s.cpu c).preemptOn = true
    · rw [if_pos hp]
      exact .timer hp
    · rw [if_neg hp]
      exact .tick (by simpa using hp)
  | scan c junk =>
    simp only [step] at h
    split at h
    · cases h
    · rename_i sc hs
      exact scanStep_cases hs h

end

end RedMagic.Sched
