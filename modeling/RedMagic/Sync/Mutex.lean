import Mathlib.Data.List.Nodup
import RedMagic.Lib.Transition
import RedMagic.Sched.Status

/-!
# Mutexes (src/mutex.c)

| here | there |
| --- | --- |
| `Mutex`        | `mutex_t` (`locking.h:64-70`); `wq` is the threads of the queued `mq_thread_t`, one per waiting call |
| `lockEnter`    | `mutex_lock` from its first `spin_lock_irqsave` to the next release of `wlock` (`mutex.c:38-51`) |
| `lockRecheck`  | one more round of its loop, after `schedule()` has returned (`mutex.c:56-63`, then `:48-51`) |
| `mutexUnlock`  | `mutex_unlock` (`mutex.c:66-82`) |
| `mutexStep`    | any number of threads, each step one `wlock` section or a change of a thread's state between them |

A thread in `waiting` runs nothing but `schedule()` and the spinlock, so its state changes only by
switches and by a `wake_up`, from `mutex_unlock` or from elsewhere; other threads may do anything.
-/

namespace RedMagic.Sync

open Sched Lts

structure Mutex (τ : Type) where
  mlock : Nat
  owner : Option τ
  wq : List τ

def mutexInit {τ : Type} : Mutex τ := ⟨0, none, []⟩

section
variable {τ : Type} [DecidableEq τ]

/-- `acquire_rlock(&lock->mlock)`: the old value. -/
def acquireRlock (m : Mutex τ) : Nat × Mutex τ := (m.mlock, { m with mlock := 1 })

def mutexAddToWq (t : τ) (m : Mutex τ) : Mutex τ := if t ∈ m.wq then m else { m with wq := m.wq ++ [t] }

def mutexRemoveFromWq (t : τ) (m : Mutex τ) : Mutex τ := if t ∈ m.wq then { m with wq := m.wq.erase t } else m

/-- The caller queues up and is put to sleep; the result tells whether `mutex_lock` returns. -/
def enqueue (t : τ) (m : Mutex τ) (status : τ → Status) : Bool × Mutex τ × (τ → Status) :=
  (false, mutexAddToWq t m, Function.update status t .blocked)

def lockEnter (t : τ) (m : Mutex τ) (status : τ → Status) : Except String (Bool × Mutex τ × (τ → Status)) :=
  let (old, m) := acquireRlock m
  if old = 0 then
    if m.owner = none then .ok (true, { m with owner := some t }, status)
    else .error "ASSERTION-FAILED: lock->owner == NULL"
  else .ok (enqueue t m status)

def lockRecheck (t : τ) (m : Mutex τ) (status : τ → Status) : Bool × Mutex τ × (τ → Status) :=
  if m.owner = some t then (true, mutexRemoveFromWq t m, status) else enqueue t m status

def mutexUnlock (m : Mutex τ) (status : τ → Status) : Mutex τ × (τ → Status) :=
  match m.wq with
  | [] => ({ m with owner := none, mlock := 0 }, status)
  | p :: _ => ({ m with owner := some p }, wakeUp status p)

/-! ## The threads -/

/-- Where a thread is: `waiting` is inside `mutex_lock` after its first section, `holding` is between
the return of `mutex_lock` and `mutex_unlock`. -/
inductive Place where
  | outside
  | waiting
  | holding
deriving DecidableEq, Repr

structure MutexSt (τ : Type) where
  mutex : Mutex τ
  status : τ → Status
  place : τ → Place
  /-- The calls of `mutex_lock` in the order of their first section. -/
  arrived : List τ
  /-- The calls of `mutex_lock` that have got the mutex, in that order. -/
  acquired : List τ

inductive MutexAct (τ : Type) where
  | lock (t : τ)
  | recheck (t : τ)
  | unlock (t : τ)
  | switchIn (t : τ)
  | switchOut (t : τ)
  | wake (t : τ)
  | other (t : τ) (st : Status)

/-- `t` leaves a section of `mutex_lock`. -/
def afterLock (s : MutexSt τ) (t : τ) (r : Bool × Mutex τ × (τ → Status)) : MutexSt τ :=
  { s with
    mutex := r.2.1, status := r.2.2,
    place := Function.update s.place t (if r.1 then .holding else .waiting),
    acquired := if r.1 then s.acquired ++ [t] else s.acquired }

def mutexStep (s : MutexSt τ) : MutexAct τ → Option (MutexSt τ)
  | .lock t =>
    if s.place t = .outside then
      match lockEnter t s.mutex s.status with
      | .error _ => none
      | .ok r => some (afterLock { s with arrived := s.arrived ++ [t] } t r)
    else none
  | .recheck t =>
    if s.place t = .waiting ∧ s.status t = .running then
      some (afterLock s t (lockRecheck t s.mutex s.status))
    else none
  | .unlock t =>
    if s.place t = .holding then
      let r := mutexUnlock s.mutex s.status
      some { s with mutex := r.1, status := r.2, place := Function.update s.place t .outside }
    else none
  | .switchIn t =>
    if s.status t = .ready then some { s with status := Function.update s.status t .running } else none
  | .switchOut t =>
    if s.status t = .running then some { s with status := Function.update s.status t .ready } else none
  | .wake t => some { s with status := wakeUp s.status t }
  | .other t st =>
    if s.place t = .waiting then none else some { s with status := Function.update s.status t st }

end

section
variable {τ : Type}

/-- A mutex after `mutex_init`, with no thread at it. -/
def mutexStart (status : τ → Status) : MutexSt τ := ⟨mutexInit, status, fun _ => .outside, [], []⟩

/-! ## The invariant -/

structure MutexInv (s : MutexSt τ) : Prop where
  word : s.mutex.mlock = 0 ↔ s.mutex.owner = none
  nodup : s.mutex.wq.Nodup
  waiting : ∀ t, t ∈ s.mutex.wq ↔ s.place t = .waiting
  holding : ∀ t, s.place t = .holding → s.mutex.owner = some t
  owner : ∀ t, s.mutex.owner = some t →
    s.place t = .holding ∨ (s.mutex.wq.head? = some t ∧ s.status t ≠ .blocked)
  queue : s.mutex.wq ≠ [] → s.mutex.owner ≠ none
  fifo : s.arrived = s.acquired ++ s.mutex.wq

theorem mutexStart_inv (status : τ → Status) : MutexInv (mutexStart status) where
  word := by simp [mutexStart, mutexInit]
  nodup := List.nodup_nil
  waiting := by simp [mutexStart, mutexInit]
  holding := by simp [mutexStart]
  owner := by simp [mutexStart, mutexInit]
  queue := by simp [mutexStart, mutexInit]
  fifo := rfl

variable {s : MutexSt τ} (hi : MutexInv s)
include hi

/-- Changes of thread states keep the invariant if the next owner stays awake. -/
theorem MutexInv.setStatus {status : τ → Status}
    (h : ∀ u, s.place u = .waiting → s.status u ≠ .blocked → status u ≠ .blocked) :
    MutexInv { s with status := status } := by
  refine ⟨hi.word, hi.nodup, hi.waiting, hi.holding, fun u hu => ?_, hi.queue, hi.fifo⟩
  rcases hi.owner u hu with hp | ⟨hh, hs⟩
  · exact .inl hp
  · exact .inr ⟨hh, h u ((hi.waiting u).1 (List.mem_of_head? hh)) hs⟩

theorem MutexInv.queue_nil (h : s.mutex.owner = none) : s.mutex.wq = [] := by
  by_contra hne
  exact hi.queue hne h

end

section
variable {τ : Type} [DecidableEq τ] {s : MutexSt τ} {t : τ}

theorem lockEnter_free {m : Mutex τ} (hm : m.mlock = 0) (ho : m.owner = none) (t : τ) (status : τ → Status) :
    lockEnter t m status = .ok (true, { m with mlock := 1, owner := some t }, status) := by
  simp [lockEnter, acquireRlock, hm, ho]

theorem lockEnter_taken {m : Mutex τ} (hm : m.mlock ≠ 0) (t : τ) (status : τ → Status) :
    lockEnter t m status = .ok (enqueue t { m with mlock := 1 } status) := by
  simp [lockEnter, acquireRlock, hm]

variable (hi : MutexInv s)
include hi

/-- The mutex is free: the caller gets it at once. -/
theorem MutexInv.lock_free (hm : s.mutex.mlock = 0) :
    MutexInv (afterLock { s with arrived := s.arrived ++ [t] } t
      (true, { s.mutex with mlock := 1, owner := some t }, s.status)) := by
  have hnone := hi.word.1 hm
  have hwq := hi.queue_nil hnone
  have hnot : ∀ u, s.place u ≠ .waiting := fun u hu => by
    have := (hi.waiting u).2 hu
    rw [hwq] at this
    cases this
  refine ⟨by simp [afterLock], hi.nodup, fun u => ?_, fun u hu => ?_, fun u hu => .inl ?_, by simp [afterLock], ?_⟩
  · by_cases hut : u = t
    · subst hut
      simp [afterLock, hwq]
    · simp [afterLock, hwq, Function.update_of_ne hut, hnot u]
  · by_cases hut : u = t
    · rw [hut]
      rfl
    · simp only [afterLock, Function.update_of_ne hut] at hu
      have := hi.holding u hu
      rw [hnone] at this
      cases this
  · have hut : t = u := by simpa [afterLock] using hu
    simp [afterLock, hut]
  · simp [afterLock, hi.fifo, hwq]

/-- The mutex is taken: the caller goes to the end of the queue. -/
theorem MutexInv.lock_taken (hp : s.place t = .outside) (hm : s.mutex.mlock ≠ 0) :
    MutexInv (afterLock { s with arrived := s.arrived ++ [t] } t
      (enqueue t { s.mutex with mlock := 1 } s.status)) := by
  have hsome : s.mutex.owner ≠ none := fun h => hm (hi.word.2 h)
  have hmem : t ∉ s.mutex.wq := by
    rw [hi.waiting, hp]
    simp
  have hadd : mutexAddToWq t { s.mutex with mlock := 1 } = ⟨1, s.mutex.owner, s.mutex.wq ++ [t]⟩ := by
    simp [mutexAddToWq, hmem]
  refine ⟨?_, ?_, fun u => ?_, fun u hu => ?_, fun u hu => ?_, ?_, ?_⟩
  · simp [afterLock, enqueue, hadd, hsome]
  · simp only [afterLock, enqueue, hadd]
    rw [← List.concat_eq_append]
    exact List.Nodup.concat hmem hi.nodup
  · by_cases hut : u = t
    · simp [afterLock, enqueue, hadd, hut]
    · simp [afterLock, enqueue, hadd, hi.waiting, hut]
  · by_cases hut : u = t
    · simp [afterLock, enqueue, hut] at hu
    · simp only [afterLock, enqueue, Function.update_of_ne hut] at hu
      simpa [afterLock, enqueue, hadd] using hi.holding u hu
  · have hu' : s.mutex.owner = some u := by simpa [afterLock, enqueue, hadd] using hu
    rcases hi.owner u hu' with hpl | ⟨hh, hst⟩
    · have hut : u ≠ t := by
        rintro rfl
        rw [hp] at hpl
        cases hpl
      exact .inl (by simpa [afterLock, enqueue, Function.update_of_ne hut] using hpl)
    · have hut : u ≠ t := by
        rintro rfl
        exact hmem (List.mem_of_head? hh)
      refine .inr ⟨?_, by simpa [afterLock, enqueue, Function.update_of_ne hut] using hst⟩
      simp [afterLock, enqueue, hadd, hh]
  · simpa [afterLock, enqueue, hadd] using hsome
  · simp [afterLock, enqueue, hadd, hi.fifo]

/-- The next owner runs again: it is the head of the queue, and leaves it. -/
theorem MutexInv.recheck_owner (hp : s.place t = .waiting) (ho : s.mutex.owner = some t) :
    MutexInv (afterLock s t (true, mutexRemoveFromWq t s.mutex, s.status)) := by
  have hhead : s.mutex.wq.head? = some t := by
    rcases hi.owner t ho with h | h
    · rw [hp] at h
      cases h
    · exact h.1
  obtain ⟨rest, hwq⟩ : ∃ rest, s.mutex.wq = t :: rest := by
    cases hl : s.mutex.wq with
    | nil => simp [hl] at hhead
    | cons x rest =>
      rw [hl] at hhead
      cases hhead
      exact ⟨rest, rfl⟩
  have hnd := hi.nodup
  rw [hwq] at hnd
  obtain ⟨htr, hnd⟩ := List.nodup_cons.1 hnd
  have hrem : mutexRemoveFromWq t s.mutex = { s.mutex with wq := rest } := by
    simp [mutexRemoveFromWq, hwq]
  refine ⟨?_, ?_, fun u => ?_, fun u hu => ?_, fun u hu => .inl ?_, ?_, ?_⟩
  · simpa [afterLock, hrem] using hi.word
  · simpa [afterLock, hrem] using hnd
  · by_cases hut : u = t
    · simp [afterLock, hrem, hut, htr]
    · have := hi.waiting u
      rw [hwq] at this
      simpa [afterLock, hrem, Function.update_of_ne hut, hut] using this
  · by_cases hut : u = t
    · simpa [afterLock, hrem, hut] using ho
    · simp only [afterLock, Function.update_of_ne hut] at hu
      simpa [afterLock, hrem] using hi.holding u hu
  · have hu' : s.mutex.owner = some u := by simpa [afterLock, hrem] using hu
    rw [ho] at hu'
    cases hu'
    simp [afterLock]
  · simp [afterLock, hrem, ho]
  · simp [afterLock, hrem, hi.fifo, hwq]

/-- Woken for nothing: the caller stays queued and sleeps again. -/
theorem MutexInv.recheck_other (hp : s.place t = .waiting) (ho : s.mutex.owner ≠ some t) :
    MutexInv (afterLock s t (enqueue t s.mutex s.status)) := by
  have hmem : t ∈ s.mutex.wq := (hi.waiting t).2 hp
  have hplace : Function.update s.place t .waiting = s.place := by
    rw [← hp, Function.update_eq_self]
  have heq : afterLock s t (enqueue t s.mutex s.status)
      = { s with status := Function.update s.status t .blocked } := by
    simp [afterLock, enqueue, mutexAddToWq, hmem, hplace]
  rw [heq]
  refine ⟨hi.word, hi.nodup, hi.waiting, hi.holding, fun u hu => ?_, hi.queue, hi.fifo⟩
  have hut : u ≠ t := by
    rintro rfl
    exact ho hu
  exact (hi.owner u hu).imp id fun h => ⟨h.1, by simpa [Function.update_of_ne hut] using h.2⟩

theorem MutexInv.unlock (hp : s.place t = .holding) :
    MutexInv { s with
      mutex := (mutexUnlock s.mutex s.status).1, status := (mutexUnlock s.mutex s.status).2,
      place := Function.update s.place t .outside } := by
  have ho := hi.holding t hp
  have hother : ∀ u, Function.update s.place t .outside u ≠ .holding := by
    intro u hu
    by_cases hut : u = t
    · rw [hut, Function.update_self] at hu
      cases hu
    · rw [Function.update_of_ne hut] at hu
      have := hi.holding u hu
      rw [ho] at this
      cases this
      exact hut rfl
  have hwait : ∀ u, u ∈ s.mutex.wq ↔ Function.update s.place t .outside u = .waiting := by
    intro u
    by_cases hut : u = t
    · rw [hi.waiting, hut, hp, Function.update_self]
      simp
    · rw [hi.waiting, Function.update_of_ne hut]
  unfold mutexUnlock
  split
  · rename_i hwq
    refine ⟨by simp, hi.nodup, hwait, fun u hu => absurd hu (hother u), by simp, fun h => absurd hwq h, hi.fifo⟩
  · rename_i p rest hwq
    refine ⟨?_, hi.nodup, hwait, fun u hu => absurd hu (hother u), fun u hu => .inr ?_, by simp, hi.fifo⟩
    · have := hi.word
      rw [ho] at this
      simpa using this
    · cases hu
      exact ⟨by simp [hwq], wakeUp_self_ne_blocked _ _⟩

/-- A thread is switched to or away from, without going to sleep. -/
theorem MutexInv.switch {st : Status} (hst : st ≠ .blocked) :
    MutexInv { s with status := Function.update s.status t st } := by
  refine hi.setStatus fun u _ hu => ?_
  by_cases hut : u = t
  · simpa [hut] using hst
  · simpa [Function.update_of_ne hut] using hu

theorem mutexStep_inv {s' : MutexSt τ} {a : MutexAct τ} (h : mutexStep s a = some s') :
    MutexInv s' := by
  cases a with
  | lock t =>
    simp only [mutexStep] at h
    split at h
    · rename_i hp
      by_cases hm : s.mutex.mlock = 0
      · rw [lockEnter_free hm (hi.word.1 hm)] at h
        cases h
        exact hi.lock_free hm
      · rw [lockEnter_taken hm] at h
        cases h
        exact hi.lock_taken hp hm
    · cases h
  | recheck t =>
    simp only [mutexStep] at h
    split at h
    · rename_i hp
      cases h
      unfold lockRecheck
      split
      · rename_i ho
        exact hi.recheck_owner hp.1 ho
      · rename_i ho
        exact hi.recheck_other hp.1 ho
    · cases h
  | unlock t =>
    simp only [mutexStep] at h
    split at h
    · rename_i hp
      cases h
      exact hi.unlock hp
    · cases h
  | switchIn t =>
    simp only [mutexStep] at h
    split at h
    · cases h
      exact hi.switch Status.noConfusion
    · cases h
  | switchOut t =>
    simp only [mutexStep] at h
    split at h
    · cases h
      exact hi.switch Status.noConfusion
    · cases h
  | wake t =>
    simp only [mutexStep, Option.some.injEq] at h
    subst h
    refine hi.setStatus fun u _ hu => ?_
    by_cases hut : u = t
    · rw [hut]
      exact wakeUp_self_ne_blocked _ _
    · rwa [wakeUp_of_ne _ hut]
  | other t st =>
    simp only [mutexStep] at h
    split at h
    · cases h
    · rename_i hp
      cases h
      refine hi.setStatus fun u hw hu => ?_
      have hut : u ≠ t := by
        rintro rfl
        exact hp hw
      simpa [Function.update_of_ne hut] using hu

end

/-- **Mutex safety and hand-off**, in every reachable state: one holder at most; the lock word is 0
exactly when there is no owner, so the assertion of `mutex_lock` holds; waiters have an owner to wait
for; an owner that is still queued is first in the queue and awake; and the calls get the mutex in the
order in which they came. -/
theorem mutex_handoff {τ : Type} [DecidableEq τ] (status : τ → Status) (s : MutexSt τ)
    (hrun : Reaches mutexStep Any (mutexStart status) s) :
    (∀ t u, s.place t = .holding → s.place u = .holding → t = u) ∧
      (s.mutex.mlock = 0 ↔ s.mutex.owner = none) ∧
      (∀ t, ∃ r, lockEnter t s.mutex s.status = .ok r) ∧
      (s.mutex.wq ≠ [] → s.mutex.owner ≠ none) ∧
      (∀ t ∈ s.mutex.wq, s.mutex.owner = some t → s.mutex.wq.head? = some t ∧ s.status t ≠ .blocked) ∧
      s.arrived = s.acquired ++ s.mutex.wq := by
  have hi : MutexInv s := hrun.invariant (mutexStart_inv status) fun _ _ _ hi _ h => mutexStep_inv hi h
  refine ⟨fun t u ht hu => ?_, hi.word, fun t => ?_, hi.queue, fun t ht ho => ?_, hi.fifo⟩
  · have h1 := hi.holding t ht
    rw [hi.holding u hu] at h1
    cases h1
    rfl
  · by_cases hm : s.mutex.mlock = 0
    · exact ⟨_, lockEnter_free hm (hi.word.1 hm) t _⟩
    · exact ⟨_, lockEnter_taken hm t _⟩
  · rcases hi.owner t ho with h | h
    · rw [(hi.waiting t).1 ht] at h
      cases h
    · exact h

/-- Two threads: the first holds the mutex, the second queues up and is handed it. -/
theorem mutex_handoff_two_threads :
    ∃ s, Reaches mutexStep Any (mutexStart fun _ : Bool => .running) s ∧ s.mutex.owner = some true ∧
      s.mutex.wq = [true] ∧ s.status true ≠ .blocked ∧ s.arrived = s.acquired ++ s.mutex.wq := by
  obtain ⟨s, hrun, hs⟩ := exists_reaches mutexStep Any (mutexStart fun _ : Bool => .running)
    [.lock false, .lock true, .unlock false] (fun s => s.mutex.owner = some true ∧ s.mutex.wq = [true])
    (by decide)
  obtain ⟨ho, hwq⟩ := of_decide_eq_true hs
  obtain ⟨-, -, -, -, hnext, hfifo⟩ := mutex_handoff (fun _ => .running) s hrun
  exact ⟨s, hrun, ho, hwq, (hnext true (by simp [hwq]) ho).2, hfifo⟩

end RedMagic.Sync
