import RedMagic.Sched.Machine

/-!
# What the scheduler dereferences

`schedule` reads `rthread->status` before anything has looked whether there is a running thread, and
`find_thread_in_rq` gives the list head, not NULL, when the running thread is on the queue no more
(`sched.c:67`, `:332-343`). So the first `schedule` of a CPU goes through NULL, and the one at the end of
`__finish_thread` takes the list head for an entry, and through it, on an empty queue, whatever is there for a thread.

An execution of `schedule` that starts with a running thread that is on the queue touches only threads and entries of
the queue, to its end: while a CPU is in the loop its queue only grows, at the tail (`CpuOk`). That needs
the queues to hold no NULL thread, which a `create_thread` that got no thread struct puts there (`Created`).
-/

namespace RedMagic.Sched

open Lts

section
variable {n : Nat} {τ : Type}

/-- What a run has to keep to: `__create_thread` got its thread struct. -/
def Created (_ : Machine n τ) : Act n τ → Prop
  | .create _ new _ _ _ => new.isSome = true
  | _ => True

instance (s : Machine n τ) (a : Act n τ) : Decidable (Created s a) :=
  match a with
  | .create _ _ _ _ _ => inferInstanceAs (Decidable (_ = true))
  | .makeSleep _ | .preempt _ _ | .wakeUp _ | .finish _ | .step _ | .schedule _ | .timer _ | .scan _ _ =>
    inferInstanceAs (Decidable True)

/-- The pointer points to a thread that was made, or to an entry of the queue. -/
def Deref.Real (threads : List τ) (q : List (Entry τ)) : Deref τ → Prop
  | .thread p => ∃ t ∈ threads, p = .thread t
  | .entry p => Member q p

/-- The threads that CPU `x` knows are among `threads`; and where `schedule` found its thread on the queue, there is a
running thread and the cursor is on the queue. -/
structure CpuOk (threads : List τ) (x : Cpu n τ) : Prop where
  entries : ∀ e ∈ x.runq, ∃ t ∈ threads, e.threadp = some t
  rthread : ∀ t ∈ x.rthread, t ∈ threads
  prev : ∀ sc ∈ x.scan, ∀ t ∈ sc.prev, t ∈ threads
  cursor : ∀ sc ∈ x.scan, sc.wasQueued = true → x.rthread ≠ none ∧ Member x.runq sc.tlist

structure QueueInv (s : Machine n τ) : Prop where
  cpu : ∀ c, CpuOk s.threads (s.cpu c)
  adding : ∀ y new a on, s.pc y = .adding new a on → ∃ t ∈ s.threads, new = some t

variable {threads : List τ} {x : Cpu n τ} {s : Machine n τ} {c : Fin n}

/-! ## One CPU -/

theorem CpuOk.mono (h : CpuOk threads x) {l : List τ} (hl : threads ⊆ l) : CpuOk l x := by
  refine ⟨fun e he => ?_, fun t ht => hl (h.rthread t ht), fun sc hsc t ht => hl (h.prev sc hsc t ht), h.cursor⟩
  obtain ⟨t, ht, heq⟩ := h.entries e he
  exact ⟨t, hl ht, heq⟩

/-- An entry is added at the tail. -/
theorem CpuOk.push (h : CpuOk threads x) {t : τ} (ht : t ∈ threads) (a : Nat) :
    CpuOk threads { x with runq := x.runq ++ [⟨a, some t⟩] } := by
  refine ⟨fun e he => ?_, h.rthread, h.prev, fun sc hsc hw => ?_⟩
  · rcases List.mem_append.1 he with he | he
    · exact h.entries e he
    · rw [List.mem_singleton.1 he]
      exact ⟨t, ht, rfl⟩
  · obtain ⟨hr, hm⟩ := h.cursor sc hsc hw
    exact ⟨hr, hm.append _⟩

/-- Outside of `schedule` entries may leave the queue. -/
theorem CpuOk.sub (h : CpuOk threads x) (hs : x.scan = none) {q : List (Entry τ)} (hq : q ⊆ x.runq) :
    CpuOk threads { x with runq := q } := by
  refine ⟨fun e he => h.entries e (hq he), h.rthread, h.prev, fun sc hsc => ?_⟩
  rw [Option.mem_def, show ({ x with runq := q } : Cpu n τ).scan = none from hs] at hsc
  cases hsc

/-- Outside of `schedule` there may be no running thread. -/
theorem CpuOk.clean (h : CpuOk threads x) (hs : x.scan = none) : CpuOk threads { x with rthread := none } := by
  refine ⟨h.entries, nofun, h.prev, fun sc hsc => ?_⟩
  rw [Option.mem_def, show ({ x with rthread := none } : Cpu n τ).scan = none from hs] at hsc
  cases hsc

/-- A thread that the cursor gives is one that was made. -/
theorem CpuOk.threadOf (h : CpuOk threads x) {p : Ptr} {t : τ} (ht : threadOf x.runq p = .thread t) : t ∈ threads := by
  obtain ⟨e, he, heq⟩ := List.mem_filterMap.1 (threadOf_mem ht)
  obtain ⟨u, hu, hue⟩ := h.entries e he
  rw [hue, Option.some.injEq] at heq
  exact heq ▸ hu

/-- The cursor goes from an entry of the queue to an entry of the queue. -/
theorem advance_member {p : Ptr} (hr : x.rthread ≠ none) (hm : Member x.runq p) :
    (advance x p).1 = [.entry p] ∧ (advance x p).2.2 = x.rthread ∧ Member x.runq (advance x p).2.1 := by
  obtain ⟨t, ht⟩ := Option.ne_none_iff_exists'.1 hr
  simp only [advance, ht, true_and]
  split
  · refine firstEntry_member fun hnil => ?_
    rw [hnil] at hm
    obtain ⟨e, he, -⟩ := hm
    cases he
  · rename_i hlast
    rcases nextEntry_cases hm with h | h
    · exact absurd (decide_eq_true h) hlast
    · exact h

/-- Whatever the cursor was, the running thread after a round was made. -/
theorem CpuOk.advance_rthread (h : CpuOk threads x) (p : Ptr) : ∀ t ∈ (advance x p).2.2, t ∈ threads := by
  intro t ht
  unfold advance at ht
  split at ht
  · rename_i u hu
    cases ht
    exact h.rthread t hu
  · split at ht
    · cases ht
    · rename_i e q hq
      obtain ⟨u, hu, hue⟩ := h.entries e (by rw [hq]; exact List.mem_cons_self ..)
      rw [Option.mem_def, show e.threadp = some u from hue, Option.some.injEq] at ht
      exact ht ▸ hu

/-! ## The parts of a step -/

theorem QueueInv.setCpu (hi : QueueInv s) (h : CpuOk s.threads x) : QueueInv (s.setCpu c x) := by
  refine ⟨fun c' => ?_, hi.adding⟩
  by_cases hc : c' = c
  · rw [hc, setCpu_cpu_self]
    exact h
  · rw [setCpu_cpu_ne s c hc]
    exact hi.cpu c'

theorem QueueInv.preempt (hi : QueueInv s) (on : Bool) : QueueInv (s.preempt c on) :=
  hi.setCpu ⟨(hi.cpu c).entries, (hi.cpu c).rthread, (hi.cpu c).prev, (hi.cpu c).cursor⟩

theorem QueueInv.scanOn (hi : QueueInv s) {sc : Scan τ} (h : (s.cpu c).scan = some sc) : QueueInv (s.scanOn c sc) := by
  have hx := hi.cpu c
  refine hi.setCpu ⟨hx.entries, hx.advance_rthread sc.tlist, fun sc' hsc t ht => ?_, fun sc' hsc hw => ?_⟩
  · cases hsc
    exact hx.prev sc h t ht
  · cases hsc
    obtain ⟨hr, hm⟩ := hx.cursor sc h hw
    obtain ⟨-, hsame, hnext⟩ := advance_member hr hm
    exact ⟨by rw [hsame]; exact hr, hnext⟩

theorem queueInv_start : QueueInv (start n τ) :=
  ⟨fun _ => ⟨nofun, nofun, nofun, nofun⟩, nofun⟩

variable [DecidableEq τ]

/-- The context of a CPU goes on anywhere but to the start of `add_thread_to_rq`. -/
theorem QueueInv.goto (hi : QueueInv s) {p : Pc n τ}
    (hp : ∀ new a on, p = .adding new a on → ∃ t ∈ s.threads, new = some t) : QueueInv (s.goto c p) := by
  refine ⟨hi.cpu, fun y new a on hy => ?_⟩
  by_cases hyc : y = (s.cpu c).cur
  · rw [hyc, goto_pc_self] at hy
    exact hp new a on hy
  · rw [goto_pc_ne s c p hyc] at hy
    exact hi.adding y new a on hy

theorem QueueInv.setStatus (hi : QueueInv s) (r : Option τ) (st : Status) : QueueInv (s.setStatus r st) := by
  cases r with
  | none => exact hi
  | some t => exact ⟨hi.cpu, hi.adding⟩

/-- A thread is made. -/
theorem QueueInv.make (hi : QueueInv s) (new : Option τ) (task : Nat) : QueueInv (makeThread s new task) := by
  cases new with
  | none => exact hi
  | some t =>
    have hsub : s.threads ⊆ t :: s.threads := List.subset_cons_self ..
    refine ⟨fun c => (hi.cpu c).mono hsub, fun y new a on hy => ?_⟩
    by_cases hyt : y = .thread t
    · rw [hyt, makeThread_pc_self] at hy
      cases hy
    · rw [makeThread_pc_ne s task hyt] at hy
      obtain ⟨u, hu, hnew⟩ := hi.adding y new a on hy
      exact ⟨u, hsub hu, hnew⟩

/-- The cursor that `schedule` starts with, for a thread on the queue. -/
theorem startCursor_member (h : x.rthreadQueued = true) : x.rthread ≠ none ∧ Member x.runq x.startCursor := by
  obtain ⟨t, ht, hmem⟩ : ∃ t, x.rthread = some t ∧ t ∈ queued x.runq := by
    simpa [Cpu.rthreadQueued, Option.any_eq_true] using h
  refine ⟨by rw [ht]; nofun, ?_⟩
  rw [Cpu.startCursor, ht]
  exact findThreadInRq_member hmem

theorem QueueInv.enter (hi : QueueInv s) : QueueInv (enter s c) := by
  have hx := hi.cpu c
  have hc : QueueInv (s.setCpu c { s.cpu c with
      preemptOn := false, scan := some ⟨(s.cpu c).rthread, (s.cpu c).startCursor, (s.cpu c).rthreadQueued⟩ }) := by
    refine hi.setCpu ⟨hx.entries, hx.rthread, fun sc hsc t ht => ?_, fun sc hsc hw => ?_⟩
    · cases hsc
      exact hx.rthread t ht
    · cases hsc
      exact startCursor_member hw
  exact ⟨hc.cpu, hc.adding⟩

theorem QueueInv.switchTo (hi : QueueInv s) {t : τ} (ht : t ∈ s.threads) : QueueInv (switchTo s c t) := by
  have hx := hi.cpu c
  refine (hi.setStatus (some t) .running).setCpu ⟨hx.entries, fun u hu => ?_, nofun, nofun⟩
  cases hu
  exact ht

/-! ## Runs -/

theorem QueueInv.mstep (hi : QueueInv s) {a : Act n τ} {s' : Machine n τ} (hok : Created s a) (h : MStep s a s') :
    QueueInv s' := by
  cases h with
  | make => exact hi.make ..
  | @create c new task e on hr hnew =>
    obtain ⟨t, rfl⟩ := Option.isSome_iff_exists.1 hok
    have hm := hi.make (some t) task
    have he : QueueInv { makeThread s (some t) task with entries := e :: (makeThread s (some t) task).entries } :=
      ⟨hm.cpu, hm.adding⟩
    refine he.goto fun new' e' on' hp => ⟨t, List.mem_cons_self .., ?_⟩
    cases hp
    rfl
  | makeSleep => exact hi.setStatus ..
  | preempt => exact hi.preempt _
  | wakeUp => exact ⟨hi.cpu, hi.adding⟩
  | finish => exact (hi.goto (p := .exitStart) nofun).preempt false
  | @adding c new e on hs hp =>
    obtain ⟨t, ht, rfl⟩ := hi.adding _ new e on hp
    exact ((hi.setCpu ((hi.cpu on).push ht e)).goto (p := .readying (some t)) nofun).preempt true
  | readying => exact (hi.goto (p := .run) nofun).setStatus ..
  | @removed c e q hs hp hq =>
    have hsub : q ⊆ (s.cpu c).runq := by
      unfold removeThread at hq
      split at hq
      · cases hq
        exact List.eraseP_subset
      · cases hq
      · cases hq
    have he : QueueInv { s with entries := s.entries.erase e } := ⟨hi.cpu, hi.adding⟩
    exact ((he.setCpu ((hi.cpu c).sub hs hsub)).goto (p := .exitRemoved) nofun).preempt true
  | completed => exact (hi.goto (p := .exitComplete) nofun).setStatus ..
  | @cleaned c hs hp =>
    have hg : QueueInv (s.goto c .exitClean) := hi.goto nofun
    unfold cleanTask
    split
    · split
      · exact hg.setCpu ((hg.cpu c).clean hs)
      · exact hg
    · exact hg
  | stopped => exact (hi.goto (p := .stopped) nofun).enter
  | schedule | timer => exact hi.enter
  | tick => exact hi
  | scan hs => exact hi.scanOn hs
  | switch hs ht => exact (hi.scanOn hs).switchTo ((hi.cpu _).threadOf ht)

theorem reaches_queueInv (hrun : Reaches step Created (start n τ) s) : QueueInv s :=
  hrun.invariant queueInv_start fun _ _ _ hi hok hs => hi.mstep hok (step_cases hs)

/-! ## schedule -/

/-- What a call of `schedule` dereferences before its loop is real. -/
def EnterReal (s : Machine n τ) (c : Fin n) : Prop := ∀ d ∈ enterDerefs s c, d.Real s.threads (s.cpu c).runq

/-- What the next round of the loop dereferences is real, if CPU `c` is in the loop. -/
def RoundReal (s : Machine n τ) (c : Fin n) : Prop :=
  ∀ sc, (s.cpu c).scan = some sc → ∀ junk, ∀ d ∈ (scanStep s c sc junk).1, d.Real s.threads (s.cpu c).runq

theorem CpuOk.enterReal (h : CpuOk s.threads (s.cpu c)) (hq : (s.cpu c).rthreadQueued = true) : EnterReal s c := by
  obtain ⟨t, ht⟩ := Option.ne_none_iff_exists'.1 (startCursor_member hq).1
  intro d hd
  simp only [enterDerefs, ht, List.mem_cons] at hd
  rcases hd with rfl | hd
  · exact ⟨t, h.rthread t ht, rfl⟩
  · obtain ⟨p, rfl, hp⟩ := findThreadInRq_derefs _ _ d hd
    exact hp

theorem CpuOk.roundReal (h : CpuOk s.threads (s.cpu c)) {sc : Scan τ} (hsc : (s.cpu c).scan = some sc)
    (hw : sc.wasQueued = true) : RoundReal s c := by
  intro sc' hsc' junk
  cases hsc.symm.trans hsc'
  obtain ⟨hr, hm⟩ := h.cursor sc hsc hw
  obtain ⟨hlog, -, hnext⟩ := advance_member hr hm
  have hentries : ∀ e ∈ (s.cpu c).runq, e.threadp ≠ none := by
    intro e he
    obtain ⟨u, -, hu⟩ := h.entries e he
    rw [hu]
    nofun
  obtain ⟨t, ht⟩ := threadOf_member hentries hnext
  have hnull : (advance (s.cpu c) sc.tlist).2.1 ≠ .null := by
    obtain ⟨e, -, he⟩ := hnext
    rw [he]
    nofun
  have hround : ∀ d ∈ [Deref.entry sc.tlist] ++ [.entry (advance (s.cpu c) sc.tlist).2.1, .thread (.thread t)],
      d.Real s.threads (s.cpu c).runq := by
    intro d hd
    simp only [List.cons_append, List.nil_append, List.mem_cons, List.not_mem_nil, or_false] at hd
    rcases hd with rfl | rfl | rfl
    · exact hm
    · exact hnext
    · exact ⟨t, h.threadOf ht, rfl⟩
  intro d hd
  simp only [scanStep, if_neg hnull, ht, hlog] at hd
  split at hd
  · rcases List.mem_append.1 hd with hd | hd
    · exact hround d hd
    · -- the context that `switch_to` saves is the one of `rthread`
      obtain ⟨u, hu, rfl⟩ : ∃ u, sc.prev = some u ∧ Deref.thread (.thread u) = d := by simpa using hd
      exact ⟨u, h.prev sc hsc u hu, rfl⟩
  · exact hround d hd

theorem mem_scanStep_of_advance {sc : Scan τ} {junk : Status} {d : Deref τ} (hd : d ∈ (advance (s.cpu c) sc.tlist).1) :
    d ∈ (scanStep s c sc junk).1 := by
  simp only [scanStep]
  split
  · exact hd
  · split
    · split <;> simp [hd]
    · simp [hd]

/-- Without a running thread, `schedule` reads through NULL. -/
theorem EnterReal.rthread_ne (h : EnterReal s c) : (s.cpu c).rthread ≠ none := by
  intro hr
  obtain ⟨t, -, ht⟩ := h (.thread .null) (by simp [enterDerefs, hr, ThreadPtr.of])
  cases ht

/-- With a running thread that is not on the queue, the first round takes the list head for an entry. -/
theorem RoundReal.rthread_queued (h : RoundReal (enter s c) c) {t : τ} (ht : (s.cpu c).rthread = some t) :
    t ∈ queued (s.cpu c).runq := by
  by_contra hq
  have hcpu : (enter s c).cpu c = { s.cpu c with
      preemptOn := false, scan := some ⟨(s.cpu c).rthread, (s.cpu c).startCursor, (s.cpu c).rthreadQueued⟩ } :=
    setCpu_cpu_self s c _
  have hhead : (s.cpu c).startCursor = .head := by
    rw [Cpu.startCursor, ht]
    exact findThreadInRq_head hq
  have hmem : Deref.entry .head ∈ (advance ((enter s c).cpu c) (s.cpu c).startCursor).1 := by
    simp [hcpu, advance, ht, hhead]
  obtain ⟨e, -, he⟩ := h _ (by rw [hcpu]) .init _ (mem_scanStep_of_advance hmem)
  cases he

end

/-- **The scheduler only touches real threads and entries of the queue exactly when** it is called with a running thread
that is on the queue, in every run in which creations get their thread struct; and from such a call on, in every round
of its loop. -/
theorem schedule_derefs_real {n : Nat} {τ : Type} [DecidableEq τ] (s : Machine n τ)
    (hrun : Reaches step Created (start n τ) s) (c : Fin n) :
    (EnterReal s c ∧ RoundReal (enter s c) c ↔ (s.cpu c).rthreadQueued = true) ∧
    ∀ sc, (s.cpu c).scan = some sc → sc.wasQueued = true → RoundReal s c := by
  have hi := reaches_queueInv hrun
  refine ⟨⟨?_, fun hq => ⟨(hi.cpu c).enterReal hq, ?_⟩⟩, fun sc hsc hw => (hi.cpu c).roundReal hsc hw⟩
  · rintro ⟨hent, hround⟩
    obtain ⟨t, ht⟩ := Option.ne_none_iff_exists'.1 hent.rthread_ne
    simpa [Cpu.rthreadQueued, ht] using hround.rthread_queued ht
  · exact (hi.enter.cpu c).roundReal (by rw [enter]; exact congrArg Cpu.scan (setCpu_cpu_self s c _)) hq

/-- The boot code makes thread `false` and schedules it. -/
def firstThread {n : Nat} (c : Fin n) : List (Act n Bool) :=
  [.create c (some false) 1 (some 100) c, .step c, .step c, .schedule c, .scan c .init]

/-- A running thread calls `schedule`, and the loop goes round. -/
theorem schedule_derefs_real_yield :
    (∃ s, Reaches step Created (start 1 Bool) s ∧ s.atRun 0 = true ∧ (s.cpu 0).rthreadQueued = true ∧
      EnterReal s 0 ∧ RoundReal (enter s 0) 0) ∧
    ∃ s sc, Reaches step Created (start 1 Bool) s ∧ (s.cpu 0).scan = some sc ∧ sc.wasQueued = true ∧ RoundReal s 0 := by
  constructor
  · obtain ⟨s, hrun, hs⟩ := exists_reaches step Created (start 1 Bool) (firstThread 0)
      (fun s => s.atRun 0 && (s.cpu 0).rthreadQueued) (by decide)
    obtain ⟨h1, h2⟩ := Bool.and_eq_true_iff.1 hs
    exact ⟨s, hrun, h1, h2, (schedule_derefs_real s hrun 0).1.2 h2⟩
  · obtain ⟨s, hrun, hs⟩ := exists_reaches step Created (start 1 Bool) (firstThread 0 ++ [.schedule 0])
      (fun s => (s.cpu 0).scan.any (·.wasQueued)) (by decide)
    obtain ⟨sc, hsc, hw⟩ := (Option.any_eq_true _ _).1 hs
    exact ⟨s, sc, hrun, hsc, hw, (schedule_derefs_real s hrun 0).2 sc hsc hw⟩

/-- CPUs `c` and `c'` get one thread each of a task; the one of `c` exits. -/
def lastOfQueue {n : Nat} (c c' : Fin n) : List (Act n Bool) :=
  [.create c (some false) 1 (some 100) c, .step c, .step c, .create c (some true) 1 (some 200) c', .step c, .step c,
    .schedule c, .scan c .init, .finish c, .step c, .step c, .step c, .step c]

/-- **NULL and the list head.** The first `schedule` of a CPU reads the status of the thread at NULL, with a thread
waiting on the queue. The one at the end of `__finish_thread`, with the queue empty, takes the list head for an entry
and what it finds there for a thread. -/
theorem schedule_derefs_unreal :
    (∃ s, Reaches step Any (start 1 Bool) s ∧ s.atRun 0 = true ∧ (s.cpu 0).runq ≠ [] ∧
      .thread .null ∈ enterDerefs s 0) ∧
    ∃ s sc, Reaches step Any (start 2 Bool) s ∧ (s.cpu 0).scan = some sc ∧
      .entry .head ∈ (scanStep s 0 sc .init).1 ∧ .thread .junk ∈ (scanStep s 0 sc .init).1 := by
  constructor
  · obtain ⟨s, hrun, hs⟩ := exists_reaches step Any (start 1 Bool) ((firstThread 0).take 3)
      (fun s => s.atRun 0 = true ∧ (s.cpu 0).runq ≠ [] ∧ .thread .null ∈ enterDerefs s 0) (by decide)
    exact ⟨s, hrun, of_decide_eq_true hs⟩
  · obtain ⟨s, hrun, hs⟩ := exists_reaches step Any (start 2 Bool) (lastOfQueue 0 1)
      (fun s => (s.cpu 0).scan.any fun sc => .entry .head ∈ (scanStep s 0 sc .init).1 ∧
        .thread .junk ∈ (scanStep s 0 sc .init).1) (by decide)
    obtain ⟨sc, hsc, h⟩ := (Option.any_eq_true _ _).1 hs
    exact ⟨s, sc, hrun, hsc, of_decide_eq_true h⟩

end RedMagic.Sched
