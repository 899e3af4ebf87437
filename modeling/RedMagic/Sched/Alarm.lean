import Mathlib.Data.Nat.Bitwise
import RedMagic.Sched.RunQueue
import RedMagic.Sched.Status

/-!
# Alarms and the timer interrupt (src/timer.c, src/sched.c:385-411)

| here | there |
| --- | --- |
| `Alarm`, `alarmReset` … `alarmCheck` | `alarm_t` and its functions (`timer.h:29-34`, `timer.c:84-123`) |
| `timeAfter`      | `time_after` (`timer.h:36`); `long` has 32 bits and wraps around |
| `timerCallback`  | `timer_callback` (`timer.c:25-45`), with whether it calls `schedule` |
| `pause`          | `pause` up to its call of `schedule` (`sched.c:385-392`) |
| `checkThreadAlarms` | `check_thread_alarms` (`sched.c:394-411`); `none` = its `ASSERT` panics |

`Clock` is what these functions read and write, with the run queue of the CPU that takes the interrupt. Between two
interrupts other code runs: whatever it does to the rest, it leaves the sleeping thread alone (`Elsewhere`).
-/

namespace RedMagic.Timer

open Sched

structure Alarm where
  enabled : UInt32
  up : UInt32
  start : UInt32
  duration : UInt32
deriving DecidableEq, Repr

/-- `(long)(b) - (long)(a) < 0`. -/
def timeAfter (a b : UInt32) : Bool := b.toInt32 - a.toInt32 < 0

def alarmReset (_ : Alarm) : Alarm := ⟨0, 0, 0, 0⟩

def alarmSet (ticks : UInt32) (_ : Alarm) (duration : UInt32) : Alarm := ⟨1, 0, ticks, duration⟩

def alarmUnset (alarm : Alarm) : Alarm := { alarm with enabled := 0 }

def alarmIsset (alarm : Alarm) : Bool := alarm.enabled ≠ 0

def alarmCheck (ticks : UInt32) (alarm : Alarm) : Bool :=
  alarmIsset alarm && timeAfter ticks (alarm.start + alarm.duration)

structure Clock (τ : Type) where
  ticks : UInt32
  alarm : τ → Alarm
  status : τ → Status
  runq : List (Entry τ)

def clockIntHz : UInt32 := 1000

def chkAlmHz : UInt32 := 1000

def schedHz : UInt32 := 100

/-- `_HZ_DIV`. -/
def hzDiv (hz : UInt32) : UInt32 := if clockIntHz ≤ hz then 1 else clockIntHz / hz

/-- `IF_HZ_EQ`. -/
def ifHzEq (ticks hz : UInt32) : Bool := ticks % hzDiv hz = 0

section
variable {τ : Type} [DecidableEq τ]

/-- The body of the loop of `check_thread_alarms`. -/
def checkAlarm (s : Clock τ) (thrp : τ) : Clock τ :=
  if s.status thrp = .blocked ∧ alarmCheck s.ticks (s.alarm thrp) then
    { s with
      alarm := Function.update s.alarm thrp (alarmUnset (s.alarm thrp)),
      status := wakeUp s.status thrp }
  else s

def checkFrom (s : Clock τ) : List (Entry τ) → Option (Clock τ)
  | [] => some s
  | r :: rs =>
    match r.threadp with
    | none => none
    | some thrp => checkFrom (checkAlarm s thrp) rs

def checkThreadAlarms (s : Clock τ) : Option (Clock τ) := checkFrom s s.runq

def timerCallback (flagBsp preemptOn : Bool) (s : Clock τ) : Option (Clock τ × Bool) :=
  let s := if flagBsp then { s with ticks := s.ticks + 1 } else s
  let checked := if ifHzEq s.ticks chkAlmHz then checkThreadAlarms s else some s
  checked.map fun s => (s, ifHzEq s.ticks schedHz && preemptOn)

/-- `TICK_SEC * sec`. -/
def pauseTicks (sec : UInt32) : UInt32 := clockIntHz * sec

/-- The alarm of a thread that calls `pause`. -/
def armAlarm (s : Clock τ) (t : τ) (sec : UInt32) : Clock τ :=
  { s with alarm := Function.update s.alarm t (alarmSet s.ticks (alarmReset (s.alarm t)) (pauseTicks sec)) }

def makeSleep (s : Clock τ) (t : τ) : Clock τ := { s with status := Function.update s.status t .blocked }

/-- `pause`, called by the running thread `t`. -/
def pause (s : Clock τ) (t : τ) (sec : UInt32) : Clock τ := makeSleep (armAlarm s t sec) t

end

/-! ## The comparison -/

theorem toInt32_neg_iff (x : UInt32) : x.toInt32 < 0 ↔ 2 ^ 31 ≤ x.toNat := by
  have hint : x.toInt32.toInt = if 2 * x.toNat < 2 ^ 32 then (x.toNat : Int) else x.toNat - 2 ^ 32 :=
    BitVec.toInt_eq_toNat_cond x.toBitVec
  have hlt := x.toNat_lt
  rw [Int32.lt_iff_toInt_lt, show (0 : Int32).toInt = 0 from rfl, hint]
  split <;> omega

/-- Ticks are compared right as long as the alarm is not late by more than half of the counter's range, wherever the
counter started. -/
theorem timeAfter_iff (start duration : UInt32) {k : Nat} (hduration : duration.toNat < 2 ^ 31)
    (hk : k ≤ duration.toNat + 2 ^ 31) :
    timeAfter (start + UInt32.ofNat k) (start + duration) = true ↔ duration.toNat < k := by
  have hdiff : (start + duration).toInt32 - (start + UInt32.ofNat k).toInt32 =
      ((start + duration) - (start + UInt32.ofNat k)).toInt32 := rfl
  have hnat : ((start + duration) - (start + UInt32.ofNat k)).toNat = (2 ^ 32 - k + duration.toNat) % 2 ^ 32 := by
    have hstart := start.toNat_lt
    simp only [UInt32.toNat_sub, UInt32.toNat_add, UInt32.toNat_ofNat']
    omega
  rw [timeAfter, decide_eq_true_iff, hdiff, toInt32_neg_iff, hnat]
  omega

/-! ## One interrupt -/

section
variable {τ : Type}

/-- The thread sleeps and its alarm is over. -/
def Rings (s : Clock τ) (u : τ) : Prop := s.status u = .blocked ∧ alarmCheck s.ticks (s.alarm u) = true

instance (s : Clock τ) (u : τ) : Decidable (Rings s u) :=
  inferInstanceAs (Decidable (s.status u = .blocked ∧ alarmCheck s.ticks (s.alarm u) = true))

/-- What a check leaves of a thread, if it looks at it. -/
def rung (s : Clock τ) (u : τ) : Status × Alarm :=
  if Rings s u then (.ready, alarmUnset (s.alarm u)) else (s.status u, s.alarm u)

theorem rung_congr {s s' : Clock τ} {u : τ} (hticks : s'.ticks = s.ticks) (hstatus : s'.status u = s.status u)
    (halarm : s'.alarm u = s.alarm u) : rung s' u = rung s u := by
  have hiff : Rings s' u ↔ Rings s u := by simp only [Rings, hticks, hstatus, halarm]
  rw [rung, rung, hstatus, halarm]
  exact if_congr hiff rfl rfl

variable [DecidableEq τ]

theorem checkAlarm_self (s : Clock τ) (t : τ) : ((checkAlarm s t).status t, (checkAlarm s t).alarm t) = rung s t := by
  unfold checkAlarm rung
  split
  · rename_i h
    rw [if_pos (show Rings s t from h)]
    simp [wakeUp, h.1]
  · rename_i h
    rw [if_neg (show ¬ Rings s t from h)]

theorem checkAlarm_ne (s : Clock τ) {t u : τ} (h : u ≠ t) :
    (checkAlarm s t).status u = s.status u ∧ (checkAlarm s t).alarm u = s.alarm u := by
  unfold checkAlarm
  split
  · exact ⟨wakeUp_of_ne _ h, Function.update_of_ne h ..⟩
  · exact ⟨rfl, rfl⟩

@[simp] theorem checkAlarm_ticks (s : Clock τ) (t : τ) : (checkAlarm s t).ticks = s.ticks := by
  unfold checkAlarm
  split <;> rfl

@[simp] theorem checkAlarm_runq (s : Clock τ) (t : τ) : (checkAlarm s t).runq = s.runq := by
  unfold checkAlarm
  split <;> rfl

/-- A thread that is looked at twice is woken once. -/
theorem rung_checkAlarm_self (s : Clock τ) (t : τ) : rung (checkAlarm s t) t = rung s t := by
  by_cases h : Rings s t
  · have hself := checkAlarm_self s t
    rw [rung, if_pos h, Prod.mk.injEq] at hself
    have hnot : ¬ Rings (checkAlarm s t) t := fun hrings => by
      rw [Rings, hself.1] at hrings
      exact Status.noConfusion hrings.1
    rw [rung, if_neg hnot, hself.1, hself.2, rung, if_pos h]
  · have hsame : checkAlarm s t = s := if_neg h
    rw [hsame]

/-- **The loop over the queue**: every thread on it is woken by its own alarm and by nothing else. -/
theorem checkFrom_spec {s s' : Clock τ} {es : List (Entry τ)} (h : checkFrom s es = some s') :
    s'.ticks = s.ticks ∧ s'.runq = s.runq ∧
      ∀ u, (s'.status u, s'.alarm u) = if u ∈ queued es then rung s u else (s.status u, s.alarm u) := by
  induction es generalizing s with
  | nil =>
    cases h
    exact ⟨rfl, rfl, fun u => (if_neg List.not_mem_nil).symm⟩
  | cons r rs ih =>
    rw [checkFrom] at h
    split at h
    · cases h
    · rename_i t ht
      obtain ⟨hticks, hrunq, hrest⟩ := ih h
      refine ⟨hticks.trans (checkAlarm_ticks s t), hrunq.trans (checkAlarm_runq s t), fun u => ?_⟩
      have hmem : u ∈ queued (r :: rs) ↔ u = t ∨ u ∈ queued rs := by
        simp [queued, ht]
      rw [hrest u]
      by_cases hut : u = t
      · subst hut
        rw [if_pos (hmem.2 (.inl rfl)), rung_checkAlarm_self, checkAlarm_self, ite_self]
      · obtain ⟨hstatus, halarm⟩ := checkAlarm_ne s hut
        rw [rung_congr (checkAlarm_ticks s t) hstatus halarm, hstatus, halarm]
        exact if_congr (by simp [hmem, hut]) rfl rfl

theorem checkFrom_eq_none_iff {s : Clock τ} {es : List (Entry τ)} :
    checkFrom s es = none ↔ ∃ e ∈ es, e.threadp = none := by
  induction es generalizing s with
  | nil => simp [checkFrom]
  | cons r rs ih =>
    rw [checkFrom]
    split
    · rename_i hnone
      simp [hnone]
    · rename_i t ht
      simp [ih, ht]

/-- Alarms are checked at every interrupt. -/
theorem ifHzEq_chkAlmHz (ticks : UInt32) : ifHzEq ticks chkAlmHz = true := by
  have hdiv : hzDiv chkAlmHz = 1 := rfl
  rw [ifHzEq, hdiv, decide_eq_true_iff]
  exact UInt32.toNat_inj.1 (Nat.mod_one _)

/-- The clock after the interrupt has counted. -/
def Clock.tick (s : Clock τ) : Clock τ := { s with ticks := s.ticks + 1 }

theorem timerCallback_eq (preemptOn : Bool) (s : Clock τ) :
    timerCallback true preemptOn s =
      (checkFrom s.tick s.runq).map fun s' => (s', ifHzEq s'.ticks schedHz && preemptOn) := by
  simp only [timerCallback, if_true, ifHzEq_chkAlmHz, checkThreadAlarms]
  rfl

section
variable {preemptOn sched : Bool} {s s' : Clock τ}

theorem timerCallback_spec (h : timerCallback true preemptOn s = some (s', sched)) :
    s'.ticks = s.ticks + 1 ∧ s'.runq = s.runq ∧
      ∀ u, (s'.status u, s'.alarm u) = if u ∈ queued s.runq then rung s.tick u else (s.status u, s.alarm u) := by
  rw [timerCallback_eq] at h
  obtain ⟨s₁, hcheck, heq⟩ := Option.map_eq_some_iff.1 h
  cases heq
  exact checkFrom_spec hcheck

/-- An interrupt changes the status of a thread only if the thread's own alarm is over. -/
theorem rings_of_status_ne (h : timerCallback true preemptOn s = some (s', sched)) {u : τ}
    (hne : s'.status u ≠ s.status u) : Rings s.tick u := by
  obtain ⟨-, -, hall⟩ := timerCallback_spec h
  by_contra hnot
  have hu := hall u
  rw [rung, if_neg hnot] at hu
  exact hne (congrArg Prod.fst (hu.trans (ite_self _)))

theorem timerCallback_eq_none_iff :
    timerCallback true preemptOn s = none ↔ ∃ e ∈ s.runq, e.threadp = none := by
  rw [timerCallback_eq, Option.map_eq_none_iff, checkFrom_eq_none_iff]

end

end

/-! ## A pause -/

section
variable {τ : Type}

/-- What other code does between two interrupts: it neither wakes the thread, nor touches its alarm, nor takes it off the
queue. -/
structure Elsewhere (t : τ) (s s' : Clock τ) : Prop where
  ticks : s'.ticks = s.ticks
  status : s'.status t = s.status t
  alarm : s'.alarm t = s.alarm t
  queued : t ∈ queued s.runq → t ∈ queued s'.runq

/-- The thread sleeps, `k` ticks after its alarm was set. -/
structure Sleeping (t : τ) (start duration : UInt32) (k : Nat) (s : Clock τ) : Prop where
  ticks : s.ticks = start + UInt32.ofNat k
  status : s.status t = .blocked
  alarm : s.alarm t = ⟨1, 0, start, duration⟩
  queued : t ∈ queued s.runq

variable {t : τ} {start duration : UInt32} {k : Nat} {s s' : Clock τ}

theorem Sleeping.other (hi : Sleeping t start duration k s) (h : Elsewhere t s s') : Sleeping t start duration k s' :=
  ⟨h.ticks.trans hi.ticks, h.status.trans hi.status, h.alarm.trans hi.alarm, h.queued hi.queued⟩

theorem Sleeping.tick_ticks (hi : Sleeping t start duration k s) : s.tick.ticks = start + UInt32.ofNat (k + 1) := by
  show s.ticks + 1 = _
  rw [hi.ticks, UInt32.ofNat_add, UInt32.add_assoc]
  rfl

theorem Sleeping.rings_iff (hi : Sleeping t start duration k s) (hduration : duration.toNat < 2 ^ 31)
    (hk : k ≤ duration.toNat) : Rings s.tick t ↔ k = duration.toNat := by
  have hafter := timeAfter_iff start duration hduration (show k + 1 ≤ duration.toNat + 2 ^ 31 by omega)
  have halarm : s.tick.alarm t = ⟨1, 0, start, duration⟩ := hi.alarm
  rw [Rings, hi.tick_ticks, halarm, alarmCheck, Bool.and_eq_true, hafter]
  constructor
  · rintro ⟨-, -, hlt⟩
    omega
  · rintro rfl
    exact ⟨hi.status, rfl, Nat.lt_succ_self _⟩

variable [DecidableEq τ]

/-- `k` interrupts, with anything elsewhere between them. -/
inductive Run (t : τ) (s : Clock τ) : Nat → Clock τ → Prop
  | refl : Run t s 0 s
  | tick {k : Nat} {s₁ s₂ : Clock τ} {preemptOn sched : Bool} (h : Run t s k s₁)
      (hs : timerCallback true preemptOn s₁ = some (s₂, sched)) : Run t s (k + 1) s₂
  | other {k : Nat} {s₁ s₂ : Clock τ} (h : Run t s k s₁) (hs : Elsewhere t s₁ s₂) : Run t s k s₂

variable {preemptOn sched : Bool}

theorem Sleeping.tick (hi : Sleeping t start duration k s) (hduration : duration.toNat < 2 ^ 31)
    (hk : k < duration.toNat) (h : timerCallback true preemptOn s = some (s', sched)) :
    Sleeping t start duration (k + 1) s' := by
  obtain ⟨hticks, hrunq, hall⟩ := timerCallback_spec h
  have hquiet : ¬ Rings s.tick t := fun hrings => by
    have heq := (hi.rings_iff hduration (Nat.le_of_lt hk)).1 hrings
    omega
  have ht := hall t
  rw [if_pos hi.queued, rung, if_neg hquiet, Prod.mk.injEq] at ht
  exact ⟨hticks.trans hi.tick_ticks, ht.1.trans hi.status, ht.2.trans hi.alarm, hrunq ▸ hi.queued⟩

/-- The tick after the last one. -/
theorem Sleeping.wake (hi : Sleeping t start duration duration.toNat s) (hduration : duration.toNat < 2 ^ 31)
    (h : timerCallback true preemptOn s = some (s', sched)) :
    s'.status t = .ready ∧ alarmIsset (s'.alarm t) = false := by
  obtain ⟨-, -, hall⟩ := timerCallback_spec h
  have hrings := (hi.rings_iff hduration (Nat.le_refl _)).2 rfl
  have ht := hall t
  rw [if_pos hi.queued, rung, if_pos hrings, Prod.mk.injEq] at ht
  rw [ht.1, ht.2]
  exact ⟨rfl, rfl⟩

/-- The thread sleeps on for as long as its alarm says, also if it went to sleep some ticks after it set the alarm. -/
theorem Sleeping.run {j : Nat} (hi : Sleeping t start duration j s) (hduration : duration.toNat < 2 ^ 31)
    (h : Run t s k s') (hk : j + k ≤ duration.toNat) : Sleeping t start duration (j + k) s' := by
  induction h with
  | refl => exact hi
  | tick _ hs ih => exact (ih (by omega)).tick hduration (by omega) hs
  | other _ hs ih => exact (ih hk).other hs

theorem toNat_pauseTicks {sec : UInt32} (hsec : 1000 * sec.toNat < 2 ^ 31) : (pauseTicks sec).toNat = 1000 * sec.toNat := by
  have hhz : clockIntHz.toNat = 1000 := rfl
  rw [pauseTicks, UInt32.toNat_mul, hhz]
  omega

theorem sleeping_pause (hq : t ∈ queued s.runq) (sec : UInt32) :
    Sleeping t s.ticks (pauseTicks sec) 0 (pause s t sec) where
  ticks := (UInt32.add_zero _).symm
  status := Function.update_self ..
  alarm := Function.update_self ..
  queued := hq

/-- **A pause lasts as long as it says**, wherever the tick counter stands and wraps around: the thread is blocked for the
first `1000 * sec` ticks and is made ready by the next one. An interrupt changes the status of a thread only if the
thread's own alarm is over, and returns unless an entry of the queue has no thread. -/
theorem pause_survives_wrap (s : Clock τ) (t : τ) (sec : UInt32) (hsec : 1000 * sec.toNat < 2 ^ 31)
    (hq : t ∈ queued s.runq) :
    (∀ k s', Run t (pause s t sec) k s' → k ≤ 1000 * sec.toNat →
      s'.status t = .blocked ∧ alarmIsset (s'.alarm t) = true) ∧
    (∀ s', Run t (pause s t sec) (1000 * sec.toNat) s' → ∀ preemptOn s'' sched,
      timerCallback true preemptOn s' = some (s'', sched) → s''.status t = .ready ∧ alarmIsset (s''.alarm t) = false) ∧
    ∀ (s' : Clock τ) preemptOn,
      (timerCallback true preemptOn s' = none ↔ ∃ e ∈ s'.runq, e.threadp = none) ∧
      ∀ s'' sched, timerCallback true preemptOn s' = some (s'', sched) →
        ∀ u, s''.status u ≠ s'.status u → s'.status u = .blocked ∧ alarmCheck (s'.ticks + 1) (s'.alarm u) = true := by
  have hticks := toNat_pauseTicks hsec
  have hstart := sleeping_pause hq sec
  have hduration : (pauseTicks sec).toNat < 2 ^ 31 := by rwa [hticks]
  refine ⟨fun k s' hrun hk => ?_, fun s' hrun preemptOn s'' sched hs => ?_, fun s' preemptOn => ⟨?_, ?_⟩⟩
  · have hsleep := hstart.run hduration hrun (by omega)
    exact ⟨hsleep.status, by rw [hsleep.alarm]; rfl⟩
  · have hsleep := hstart.run hduration hrun (by omega)
    rw [Nat.zero_add, ← hticks] at hsleep
    exact hsleep.wake hduration hs
  · exact timerCallback_eq_none_iff
  · exact fun s'' sched hs u hne => rings_of_status_ne hs hne

/-- Interrupts go on for as long as every entry of the queue has a thread. -/
theorem exists_run (t : τ) {s : Clock τ} (hnull : ∀ e ∈ s.runq, e.threadp ≠ none) (k : Nat) :
    ∃ s', Run t s k s' ∧ ∀ e ∈ s'.runq, e.threadp ≠ none := by
  induction k with
  | zero => exact ⟨s, .refl, hnull⟩
  | succ k ih =>
    obtain ⟨s₁, hrun, hnull₁⟩ := ih
    cases hs : timerCallback true true s₁ with
    | none =>
      obtain ⟨e, he, hnone⟩ := timerCallback_eq_none_iff.1 hs
      exact absurd hnone (hnull₁ e he)
    | some r =>
      obtain ⟨-, hrunq, -⟩ := timerCallback_spec hs
      exact ⟨r.1, hrun.tick hs, hrunq ▸ hnull₁⟩

end

/-- Two threads, three ticks before the counter wraps around. -/
def beforeWrap : Clock Nat := ⟨0xfffffffd, fun _ => ⟨0, 0, 0, 0⟩, fun _ => .running, [⟨0x1000, some 0⟩, ⟨0x2000, some 1⟩]⟩

theorem pause_survives_wrap_one_second :
    ∃ s' s'' sched, Run 0 (pause beforeWrap 0 1) 1000 s' ∧ s'.status 0 = .blocked ∧
      timerCallback true true s' = some (s'', sched) ∧ s''.status 0 = .ready := by
  obtain ⟨hblocked, hready, hreturns⟩ := pause_survives_wrap beforeWrap 0 1 (by decide) (by decide)
  obtain ⟨s', hrun, hnull⟩ := exists_run 0 (s := pause beforeWrap 0 1) (by decide) 1000
  cases hs : timerCallback true true s' with
  | none =>
    obtain ⟨e, he, hnone⟩ := (hreturns s' true).1.1 hs
    exact absurd hnone (hnull e he)
  | some r => exact ⟨s', r.1, r.2, hrun, (hblocked _ _ hrun (by decide)).1, hs, (hready _ hrun _ _ _ hs).1⟩

end RedMagic.Timer
