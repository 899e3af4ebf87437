import Mathlib.Data.List.Nodup
import RedMagic.Lib.Transition
import RedMagic.Mm.Colour
import RedMagic.Sched.Status

/-!
# Semaphores (src/semaphore.c)

| here | there |
| --- | --- |
| `Semaphore`    | `semaphore_t` (`locking.h:81-85`); `count` is a 32-bit number |
| `semDownEnter` | `sem_down` up to its first release of `semlock` (`semaphore.c:36-47`, `:64-67`) |
| `semDownRv`    | what `__sem_down` returns once the caller has been woken (`semaphore.c:72-74`) |
| `semUp`        | `sem_up` (`semaphore.c:50-58`, `:77-91`) |
| `semStep`      | any number of threads, each step one `semlock` section or a change of a thread's state between them |

A thread that sleeps in `sem_down` is made ready only by `sem_up`; between `sem_up` and its last section
the thread runs `schedule()` and the spinlock, so it is only switched in and out.
-/

namespace RedMagic.Sync

open Mm Sched Lts

structure Semaphore (τ : Type) where
  count : Nat
  wq : List τ

section
variable {τ : Type} [DecidableEq τ]

def semAddToWq (t : τ) (sem : Semaphore τ) : Semaphore τ :=
  if t ∈ sem.wq then sem else { sem with wq := sem.wq ++ [t] }

/-- The result tells whether `sem_down` returns without sleeping. -/
def semDownEnter (t : τ) (sem : Semaphore τ) (status : τ → Status) : Bool × Semaphore τ × (τ → Status) :=
  if sem.count > 0 then (true, { sem with count := sem.count - 1 }, status)
  else (false, semAddToWq t sem, Function.update status t .blocked)

/-- `return OK`: the loop of `sem_down` ends on 0. -/
def semDownRv : Int := 0

def semRemoveFromWq (t : τ) (sem : Semaphore τ) : Semaphore τ :=
  if t ∈ sem.wq then { sem with wq := sem.wq.erase t } else sem

def semUp (sem : Semaphore τ) (status : τ → Status) : Semaphore τ × (τ → Status) :=
  match sem.wq with
  | [] => ({ sem with count := u32 (sem.count + 1) }, status)
  | p :: _ => (semRemoveFromWq p sem, wakeUp status p)

theorem semUp_nil {sem : Semaphore τ} (h : sem.wq = []) (status : τ → Status) :
    semUp sem status = ({ sem with count := u32 (sem.count + 1) }, status) := by
  rw [semUp, h]

theorem semUp_cons {sem : Semaphore τ} {p : τ} {rest : List τ} (h : sem.wq = p :: rest) (status : τ → Status) :
    semUp sem status = ({ sem with wq := rest }, wakeUp status p) := by
  have hrem : semRemoveFromWq p sem = { sem with wq := rest } := by simp [semRemoveFromWq, h]
  rw [semUp, h, ← hrem]

/-! ## The threads -/

/-- `waiting` is on the queue, `woken` is taken off it by `sem_up` and still inside `sem_down`. -/
inductive SemPlace where
  | outside
  | waiting
  | woken
deriving DecidableEq, Repr

structure SemSt (τ : Type) where
  sem : Semaphore τ
  status : τ → Status
  place : τ → SemPlace
  /-- The calls of `sem_down` in the order of their first section. -/
  arrived : List τ
  /-- The calls of `sem_down` that were given a permit, in that order. -/
  granted : List τ
  /-- The number of `sem_up` calls. -/
  ups : Nat

inductive SemAct (τ : Type) where
  | down (t : τ)
  | resume (t : τ)
  | up
  | switchIn (t : τ)
  | switchOut (t : τ)
  | other (t : τ) (st : Status)

def semStep (s : SemSt τ) : SemAct τ → Option (SemSt τ)
  | .down t =>
    if s.place t = .outside then
      let r := semDownEnter t s.sem s.status
      some { s with
        sem := r.2.1, status := r.2.2,
        place := Function.update s.place t (if r.1 then .outside else .waiting),
        arrived := s.arrived ++ [t],
        granted := if r.1 then s.granted ++ [t] else s.granted }
    else none
  | .resume t =>
    if s.place t = .woken ∧ s.status t = .running then
      if semDownRv = 0 then some { s with place := Function.update s.place t .outside }
      else
        -- once more around the loop of `sem_down`
        let r := semDownEnter t s.sem s.status
        some { s with
          sem := r.2.1, status := r.2.2,
          place := Function.update s.place t (if r.1 then .outside else .waiting) }
    else none
  | .up =>
    let r := semUp s.sem s.status
    match s.sem.wq with
    | [] => some { s with sem := r.1, status := r.2, ups := s.ups + 1 }
    | p :: _ =>
      some { s with
        sem := r.1, status := r.2, ups := s.ups + 1,
        place := Function.update s.place p .woken, granted := s.granted ++ [p] }
  | .switchIn t =>
    if s.status t = .ready then some { s with status := Function.update s.status t .running } else none
  | .switchOut t =>
    if s.status t = .running then some { s with status := Function.update s.status t .ready } else none
  | .other t st =>
    if s.place t = .outside then some { s with status := Function.update s.status t st } else none

end

section
variable {τ : Type}

/-- A semaphore after `sem_init`, with no thread at it. -/
def semStart (c : Nat) (status : τ → Status) : SemSt τ := ⟨⟨c, []⟩, status, fun _ => .outside, [], [], 0⟩

/-- There stay fewer than `2 ^ 32 - c` more ups than downs. -/
def UpsBounded (c : Nat) (s : SemSt τ) : SemAct τ → Prop
  | .up => c + (s.ups + 1) < 2 ^ 32 + s.arrived.length
  | _ => True

instance (c : Nat) (s : SemSt τ) (a : SemAct τ) : Decidable (UpsBounded c s a) :=
  match a with
  | .up => inferInstanceAs (Decidable (_ < _))
  | .down _ | .resume _ | .switchIn _ | .switchOut _ | .other _ _ => inferInstanceAs (Decidable True)

/-! ## The invariant -/

structure SemInv (c : Nat) (s : SemSt τ) : Prop where
  permits : s.sem.count + s.granted.length = c + s.ups
  empty : 0 < s.sem.count → s.sem.wq = []
  nodup : s.sem.wq.Nodup
  waiting : ∀ t, t ∈ s.sem.wq ↔ s.place t = .waiting
  asleep : ∀ t, s.place t = .waiting → s.status t = .blocked
  awake : ∀ t, s.place t = .woken → s.status t ≠ .blocked
  fifo : s.arrived = s.granted ++ s.sem.wq

theorem semStart_inv (c : Nat) (status : τ → Status) : SemInv c (semStart c status) where
  permits := by simp [semStart]
  empty := fun _ => rfl
  nodup := List.nodup_nil
  waiting := by simp [semStart]
  asleep := by simp [semStart]
  awake := by simp [semStart]
  fifo := rfl

/-- The permits are in the counter, or the queue is where the calls without one are. -/
theorem SemInv.count_eq_zero {c : Nat} {s : SemSt τ} (hi : SemInv c s) (h : s.sem.wq ≠ []) : s.sem.count = 0 := by
  by_contra hne
  exact h (hi.empty (Nat.pos_of_ne_zero hne))

/-- Changes of thread states that put no woken thread to sleep and wake no waiting one. -/
theorem SemInv.setStatus {c : Nat} {s : SemSt τ} (hi : SemInv c s) {status : τ → Status}
    (h1 : ∀ u, s.place u = .waiting → s.status u = .blocked → status u = .blocked)
    (h2 : ∀ u, s.place u = .woken → s.status u ≠ .blocked → status u ≠ .blocked) :
    SemInv c { s with status := status } :=
  ⟨hi.permits, hi.empty, hi.nodup, hi.waiting, fun u hu => h1 u hu (hi.asleep u hu),
    fun u hu => h2 u hu (hi.awake u hu), hi.fifo⟩

/-- No waiter: the permit goes to the counter, which does not wrap. -/
theorem SemInv.up_count {c : Nat} {s : SemSt τ} (hi : SemInv c s) (hwq : s.sem.wq = [])
    (hb : c + (s.ups + 1) < 2 ^ 32 + s.arrived.length) :
    SemInv c { s with sem := { s.sem with count := u32 (s.sem.count + 1) }, ups := s.ups + 1 } := by
  have hper := hi.permits
  have hlen : s.arrived.length = s.granted.length := by simp [hi.fifo, hwq]
  have hcount : u32 (s.sem.count + 1) = s.sem.count + 1 := by
    refine u32_of_lt ?_
    omega
  refine ⟨?_, fun _ => hwq, hi.nodup, hi.waiting, hi.asleep, hi.awake, hi.fifo⟩
  show u32 (s.sem.count + 1) + s.granted.length = c + (s.ups + 1)
  omega

end

section
variable {τ : Type} [DecidableEq τ] {c : Nat} {s : SemSt τ} (hi : SemInv c s) {t : τ}
include hi

/-- A permit is in the counter: the caller takes it. -/
theorem SemInv.down_pass (hp : s.place t = .outside) (hc : 0 < s.sem.count) :
    SemInv c { s with
      sem := { s.sem with count := s.sem.count - 1 }, place := Function.update s.place t .outside,
      arrived := s.arrived ++ [t], granted := s.granted ++ [t] } := by
  have hplace : Function.update s.place t .outside = s.place := by rw [← hp, Function.update_eq_self]
  have hwq := hi.empty hc
  rw [hplace]
  refine ⟨?_, fun _ => hwq, hi.nodup, hi.waiting, hi.asleep, hi.awake, ?_⟩
  · have := hi.permits
    simp only [List.length_append, List.length_singleton]
    omega
  · simp [hi.fifo, hwq]

/-- No permit: the caller queues up and sleeps. -/
theorem SemInv.down_wait (hp : s.place t = .outside) (hc : s.sem.count = 0) :
    SemInv c { s with
      sem := semAddToWq t s.sem, status := Function.update s.status t .blocked,
      place := Function.update s.place t .waiting, arrived := s.arrived ++ [t] } := by
  have hmem : t ∉ s.sem.wq := by
    rw [hi.waiting, hp]
    simp
  have hadd : semAddToWq t s.sem = { s.sem with wq := s.sem.wq ++ [t] } := if_neg hmem
  rw [hadd]
  refine ⟨hi.permits, ?_, ?_, fun u => ?_, fun u hu => ?_, fun u hu => ?_, ?_⟩
  · intro h
    exact absurd hc (Nat.pos_iff_ne_zero.1 h)
  · rw [← List.concat_eq_append]
    exact List.Nodup.concat hmem hi.nodup
  · by_cases hut : u = t
    · simp [hut]
    · simp [hi.waiting, hut]
  · by_cases hut : u = t
    · simp [hut]
    · simp only [Function.update_of_ne hut] at hu ⊢
      exact hi.asleep u hu
  · by_cases hut : u = t
    · simp [hut] at hu
    · simp only [Function.update_of_ne hut] at hu ⊢
      exact hi.awake u hu
  · simp [hi.fifo]

theorem SemInv.resume (hp : s.place t = .woken) :
    SemInv c { s with place := Function.update s.place t .outside } := by
  have hmem : t ∉ s.sem.wq := by
    rw [hi.waiting, hp]
    simp
  refine ⟨hi.permits, hi.empty, hi.nodup, fun u => ?_, fun u hu => ?_, fun u hu => ?_, hi.fifo⟩
  · by_cases hut : u = t
    · simp [hut, hmem]
    · simp [Function.update_of_ne hut, hi.waiting]
  · by_cases hut : u = t
    · simp [hut] at hu
    · simp only [Function.update_of_ne hut] at hu
      exact hi.asleep u hu
  · by_cases hut : u = t
    · simp [hut] at hu
    · simp only [Function.update_of_ne hut] at hu
      exact hi.awake u hu

/-- The first waiter is given the permit. -/
theorem SemInv.up_wake {p : τ} {rest : List τ} (hwq : s.sem.wq = p :: rest) :
    SemInv c { s with
      sem := { s.sem with wq := rest }, status := wakeUp s.status p, ups := s.ups + 1,
      place := Function.update s.place p .woken, granted := s.granted ++ [p] } := by
  have hnd := hi.nodup
  rw [hwq] at hnd
  obtain ⟨hpr, hnd⟩ := List.nodup_cons.1 hnd
  have hzero := hi.count_eq_zero (by simp [hwq])
  refine ⟨?_, ?_, hnd, fun u => ?_, fun u hu => ?_, fun u hu => ?_, ?_⟩
  · have := hi.permits
    simp only [List.length_append, List.length_singleton]
    omega
  · intro h
    exact absurd hzero (Nat.pos_iff_ne_zero.1 h)
  · by_cases hup : u = p
    · simp [hup, hpr]
    · have := hi.waiting u
      rw [hwq] at this
      simpa [Function.update_of_ne hup, hup] using this
  · by_cases hup : u = p
    · simp [hup] at hu
    · simp only [Function.update_of_ne hup] at hu
      exact (wakeUp_of_ne _ hup).trans (hi.asleep u hu)
  · by_cases hup : u = p
    · rw [hup]
      exact wakeUp_self_ne_blocked _ _
    · simp only [Function.update_of_ne hup] at hu
      have hu' := hi.awake u hu
      rwa [← wakeUp_of_ne s.status hup] at hu'
  · simp [hi.fifo, hwq]

/-- A thread between two runs of the processor. -/
theorem SemInv.switch {st : Status} (hst : st ≠ .blocked) (ht : s.status t ≠ .blocked) :
    SemInv c { s with status := Function.update s.status t st } := by
  refine hi.setStatus (fun u _ hb => ?_) fun u _ hb => ?_
  · have hut : u ≠ t := by
      rintro rfl
      exact ht hb
    simpa [Function.update_of_ne hut] using hb
  · by_cases hut : u = t
    · simpa [hut] using hst
    · simpa [Function.update_of_ne hut] using hb

theorem semStep_inv {s' : SemSt τ} {a : SemAct τ} (hok : UpsBounded c s a) (h : semStep s a = some s') :
    SemInv c s' := by
  cases a with
  | down t =>
    simp only [semStep] at h
    split at h
    · rename_i hp
      cases h
      unfold semDownEnter
      split
      · rename_i hc
        exact hi.down_pass hp hc
      · rename_i hc
        exact hi.down_wait hp (by omega)
    · cases h
  | resume t =>
    simp only [semStep] at h
    split at h
    · rename_i hp
      simp only [semDownRv, if_true] at h
      cases h
      exact hi.resume hp.1
    · cases h
  | up =>
    simp only [semStep] at h
    split at h
    · rename_i hwq
      rw [semUp_nil hwq] at h
      cases h
      exact hi.up_count hwq hok
    · rename_i p rest hwq
      rw [semUp_cons hwq] at h
      cases h
      exact hi.up_wake hwq
  | switchIn t =>
    simp only [semStep] at h
    split at h
    · rename_i ht
      cases h
      exact hi.switch (by simp) (by simp [ht])
    · cases h
  | switchOut t =>
    simp only [semStep] at h
    split at h
    · rename_i ht
      cases h
      exact hi.switch (by simp) (by simp [ht])
    · cases h
  | other t st =>
    simp only [semStep] at h
    split at h
    · rename_i hp
      cases h
      have hne : ∀ u, s.place u ≠ .outside → u ≠ t := by
        rintro u hu rfl
        exact hu hp
      refine hi.setStatus (fun u hu hb => ?_) fun u hu hb => ?_
      · simpa [Function.update_of_ne (hne u (by simp [hu]))] using hb
      · simpa [Function.update_of_ne (hne u (by simp [hu]))] using hb
    · cases h

end

/-- **Semaphore conservation**, in every reachable state: each permit is in the counter or was given to
a call; a positive counter leaves nobody waiting; the waiting threads are asleep, and a thread taken off
the queue is awake and returns at its next section without touching the semaphore; permits go to the
calls in the order in which they came. -/
theorem semaphore_conservation {τ : Type} [DecidableEq τ] (c : Nat) (status : τ → Status) (s : SemSt τ)
    (hrun : Reaches semStep (UpsBounded c) (semStart c status) s) :
    s.sem.count + s.granted.length = c + s.ups ∧
      (0 < s.sem.count → s.sem.wq = []) ∧
      (∀ t ∈ s.sem.wq, s.status t = .blocked) ∧
      (∀ t, s.place t = .woken → s.status t ≠ .blocked ∧ t ∉ s.sem.wq ∧
        (s.status t = .running → ∃ s', semStep s (.resume t) = some s' ∧ s'.place t = .outside ∧ s'.sem = s.sem)) ∧
      s.arrived = s.granted ++ s.sem.wq := by
  have hi : SemInv c s := hrun.invariant (semStart_inv c status) fun _ _ _ hi hok h => semStep_inv hi hok h
  refine ⟨hi.permits, hi.empty, fun t ht => hi.asleep t ((hi.waiting t).1 ht), fun t ht => ?_, hi.fifo⟩
  refine ⟨hi.awake t ht, fun hm => ?_, fun hr => ?_⟩
  · rw [hi.waiting, ht] at hm
    cases hm
  · exact ⟨{ s with place := Function.update s.place t .outside }, by simp [semStep, ht, hr, semDownRv], by simp, rfl⟩

/-- One permit, two calls: the second waits and is given the permit that is put back. -/
theorem semaphore_conservation_two_calls :
    ∃ s, Reaches semStep (UpsBounded 1) (semStart 1 fun _ : Bool => .running) s ∧
      s.place true = .woken ∧ s.status true ≠ .blocked ∧ s.sem.count + s.granted.length = 1 + s.ups := by
  obtain ⟨s, hrun, hs⟩ := exists_reaches semStep (UpsBounded 1) (semStart 1 fun _ : Bool => .running)
    [.down false, .down true, .up] (fun s => s.place true = .woken) (by decide)
  obtain ⟨hper, -, -, hwoken, -⟩ := semaphore_conservation 1 (fun _ => .running) s hrun
  have hp := of_decide_eq_true hs
  exact ⟨s, hrun, hp, (hwoken true hp).1, hper⟩

end RedMagic.Sync
