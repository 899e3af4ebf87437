import RedMagic.Sched.Lifecycle

/-!
# No thread is lost

`__finish_thread` turns preemption off, takes the thread off its queue and then sets `T_COMPLETE`. The second of these
three ends with a `spin_unlock_irqrestore`, which turns preemption on again whoever turned it off. A timer
interrupt that comes before the third puts the thread back to `T_READY` and switches to another one, and nobody
finds it any more. Where no timer interrupt comes there (`NoExitPreempt`), every step keeps the threads' lives
(`LifeInv.mstep`), and a thread that is switched out is on one queue, once, until it is complete.
-/

namespace RedMagic.Sched

open Lts

section
variable {n : Nat} {τ : Type}

/-- What a run has to keep to: no timer interrupt calls `schedule` between `remove_thread_from_rq` and
`set_thread_status(T_COMPLETE)`. -/
def NoExitPreempt (s : Machine n τ) : Act n τ → Prop
  | .timer c => (s.cpu c).preemptOn = true → s.curPc c ≠ .exitRemoved
  | _ => True

end

section
variable {n : Nat} {τ : Type} [DecidableEq τ] {L : τ → Life n} {s : Machine n τ} {c : Fin n}

/-- The live addresses of the entries play no part. -/
theorem LifeInv.setEntries (hi : LifeInv L s) (l : List Nat) : LifeInv L { s with entries := l } :=
  { hi with }

/-! ## create_thread -/

theorem LifeInv.gotoAdding (hi : LifeInv L s) (h : s.curPc c = .run) {t : τ} (hL : L t = .made)
    (hno : ∀ x, (s.pc x).creates ≠ some t) (a : Nat) (on : Fin n) : LifeInv L (s.goto c (.adding (some t) a on)) := by
  refine hi.goto (by rw [h]; rfl) nofun (fun _ => by rw [h]; rfl) (fun _ _ => rfl) (fun u a' on' hu => ?_) nofun
    fun u x hu hx => ?_
  · cases hu
    exact hL
  · cases hu
    exact absurd hx (hno x)

/-- A context that is at no point of `create_thread` has started to put thread `t` on a queue. -/
theorem LifeInv.create (hi : LifeInv L s) (h : s.atRun c = true) {new : Option τ} (hnew : ∀ t ∈ new, t ∉ s.threads)
    (task : Nat) (a : Nat) (on : Fin n) : ∃ L', LifeStep L L' ∧
      LifeInv L' ({ makeThread s new task with entries := a :: (makeThread s new task).entries }.goto c
        (.adding new a on)) := by
  obtain ⟨-, hp⟩ := LifeInv.atRun h
  cases new with
  | none =>
    have hbefore : (s.curPc c).stage = .before := by
      rw [hp]
      rfl
    exact ⟨L, .inl rfl, (hi.setEntries (a :: s.entries)).gotoPlain hbefore rfl rfl rfl⟩
  | some t =>
    have hfresh := hnew t rfl
    have hL := hi.fresh t hfresh
    refine ⟨_, .inr ⟨t, .made, hL ▸ .make, rfl⟩, ((hi.make task hfresh).setEntries _).gotoAdding (c := c) ?_
      (Function.update_self ..) (fun x => ?_) a on⟩
    · have hcur : (s.cpu c).cur ≠ .thread t := by
        intro hcur
        have := (hi.cur c t hcur).1
        rw [hL] at this
        exact this
      show (makeThread s (some t) task).pc (s.cpu c).cur = .run
      exact (makeThread_pc_ne s task hcur).trans hp
    · show ((makeThread s (some t) task).pc x).creates ≠ some t
      by_cases hx : x = .thread t
      · simp [hx, Pc.creates]
      · rw [makeThread_pc_ne s task hx]
        exact hi.not_creating (by simp [hL]) (.inl (by simp [hL])) x

theorem goto_setRunq_goto (s : Machine n τ) (c on : Fin n) (p p' : Pc n τ) (q : List (Entry τ)) :
    ((s.goto c p).setRunq on q).goto c p' = (s.setRunq on q).goto c p' := by
  simp only [Machine.goto, setRunq_cur]
  simp [Machine.setRunq, Machine.setCpu]

/-- The thread is on its queue and the creator is about to make it ready. -/
theorem LifeInv.add (hi : LifeInv L s) {new : Option τ} {a : Nat} {on : Fin n} (hp : s.curPc c = .adding new a on) :
    ∃ L', LifeStep L L' ∧
      LifeInv L' (((s.setRunq on ((s.cpu on).runq ++ [⟨a, new⟩])).goto c (.readying new)).preempt c true) := by
  -- the creator is at no point of `create_thread` for a moment, and then at the next one
  have hrun : LifeInv L (s.goto c .run) := hi.gotoPlain (by rw [hp]; rfl) rfl rfl rfl
  have hcur : ∀ q, (((s.goto c .run).setRunq on q).cpu c).cur = (s.cpu c).cur := fun q => setRunq_cur _ on q c
  have hcurPc : ∀ q, ((s.goto c .run).setRunq on q).curPc c = .run := by
    intro q
    rw [Machine.curPc, hcur]
    exact goto_pc_self s c .run
  have hready : ∀ q, (((s.goto c .run).setRunq on q).goto c (.readying new)).curPc c ≠ .exitStart := by
    intro q h
    cases (goto_pc_self ((s.goto c .run).setRunq on q) c (.readying new)).symm.trans h
  rw [← goto_setRunq_goto s c on .run]
  cases new with
  | none =>
    have hq : LifeInv L ((s.goto c .run).setRunq on ((s.cpu on).runq ++ [⟨a, none⟩])) :=
      hrun.setCpu (by simp [queued, Machine.goto]) (hrun.cur on) (fun c' hc => hrun.cur_ne hc)
        (fun t => hrun.leaving t on) (fun t ht hx hs => by
          obtain ⟨c', h1, h2, h3⟩ := hrun.starting t hx
          have hc' : c' = on := hrun.inj c' on (h1.trans ht.symm)
          exact ⟨ht, hs, hc' ▸ h3⟩)
        (hrun.rthread on) (hrun.boot on)
    have hnext : LifeInv L (((s.goto c .run).setRunq on ((s.cpu on).runq ++ [⟨a, none⟩])).goto c (.readying none)) :=
      hq.gotoPlain (by rw [hcurPc]; rfl) rfl rfl rfl
    exact ⟨L, .inl rfl, hnext.preempt true (hready _)⟩
  | some t =>
    have hL : L t = .made := hi.adding (s.cpu c).cur t a on hp
    have hno : ∀ x, ((s.goto c .run).pc x).creates ≠ some t := by
      intro x hx
      rcases goto_pc_cases s c .run x with ⟨-, h⟩ | ⟨hxc, h⟩
      · rw [h] at hx
        cases hx
      · rw [h] at hx
        exact hxc (hi.creator x (s.cpu c).cur t hx (by rw [show s.pc (s.cpu c).cur = _ from hp]; rfl))
    have hnext : LifeInv (Function.update L t (.queued on))
        (((s.goto c .run).setRunq on ((s.cpu on).runq ++ [⟨a, some t⟩])).goto c (.readying (some t))) := by
      refine (hrun.addEntry a on hL hno).goto (by rw [hcurPc]; rfl) (by simp) (fun _ => by rw [hcurPc]; rfl)
        (fun _ _ => rfl) (by simp) (fun u hu => ?_) fun u x hu hx => ?_
      · cases hu
        have hst := hi.status t
        rw [hL] at hst
        exact ⟨hst, on, Function.update_self ..⟩
      · cases hu
        exact absurd hx (hno x)
    exact ⟨_, .inr ⟨t, .queued on, hL ▸ .add on, rfl⟩, hnext.preempt true (hready _)⟩

theorem LifeInv.ready (hi : LifeInv L s) {new : Option τ} (hp : s.curPc c = .readying new) :
    LifeInv L ((s.goto c .run).setStatus new .ready) := by
  have hrun : LifeInv L (s.goto c .run) := hi.gotoPlain (by rw [hp]; rfl) rfl rfl rfl
  cases new with
  | none => exact hrun
  | some t =>
    obtain ⟨-, c', hL⟩ := hi.readying (s.cpu c).cur t hp
    refine hrun.setStatus t (by rw [hL]; trivial) (fun _ _ => nofun) fun x hx => ?_
    rcases goto_pc_cases s c .run x with ⟨-, h⟩ | ⟨hxc, h⟩
    · rw [h] at hx
      cases hx
    · rw [h] at hx
      exact hxc (hi.creator x _ t (by rw [hx]; rfl) (by rw [show s.pc (s.cpu c).cur = _ from hp]; rfl))

/-! ## __finish_thread -/

/-- At a point of `__finish_thread` the CPU runs a thread. -/
theorem LifeInv.cur_thread (hi : LifeInv L s) (h : (s.curPc c).exiting = true) : ∃ t, (s.cpu c).cur = .thread t := by
  cases hc : (s.cpu c).cur with
  | boot b =>
    have := hi.bootPc b
    rw [Machine.curPc, hc, this] at h
    cases h
  | thread t => exact ⟨t, rfl⟩

/-- Up to `clean_task` that thread is the one `rthread` points to. -/
theorem LifeInv.cur_rthread (hi : LifeInv L s) {t : τ} (hc : (s.cpu c).cur = .thread t) (hs : (s.cpu c).scan = none)
    (hcl : (s.curPc c).cleaned = false) : (s.cpu c).rthread = some t := by
  refine hi.rthread c t hc hs ?_
  rw [← hc]
  exact hcl

/-- `remove_thread_from_rq`: the thread leaves the queue. -/
theorem LifeInv.remove (hi : LifeInv L s) (hs : (s.cpu c).scan = none) (hp : s.curPc c = .exitStart) {a : Nat}
    {q : List (Entry τ)} (hq : removeThread (s.cpu c).rthread (s.cpu c).runq = some (a, q)) : ∃ L', LifeStep L L' ∧
      LifeInv L' ((({ s with entries := s.entries.erase a }.setRunq c q).goto c .exitRemoved).preempt c true) := by
  obtain ⟨t, hc⟩ := hi.cur_thread (c := c) (by rw [hp]; rfl)
  have hcl : (s.curPc c).cleaned = false := by rw [hp]; rfl
  have hL : L t = .queued c := hi.cur_queued hc (by rw [hp]; rfl)
  have hrt : (s.cpu c).rthread = some t := hi.cur_rthread hc hs hcl
  obtain ⟨a', q', hq', heq⟩ := removeThread_spec (hi.queued_iff.2 hL)
  rw [hrt, hq', Option.some.injEq, Prod.mk.injEq] at hq
  obtain ⟨rfl, rfl⟩ := hq
  have hcount : ∀ u, (queued q').count u = if Function.update L t (.leaving c) u = .queued c then 1 else 0 := by
    intro u
    rw [heq]
    by_cases hut : u = t
    · subst hut
      rw [List.count_erase_self, hi.count, hL]
      simp
    · rw [List.count_erase_of_ne hut, hi.count, Function.update_of_ne hut]
  have hmove := (hi.setEntries (s.entries.erase a')).moveOn (p := .exitRemoved) hc hs hcl (.inl hL) hcount rfl
    nofun trivial (hi.cur c t hc).2 rfl nofun rfl
  rw [Function.update_eq_self] at hmove
  refine ⟨_, .inr ⟨t, .leaving c, hL ▸ .remove c, rfl⟩, LifeInv.preempt hmove true ?_⟩
  have hpc : ((({ s with entries := s.entries.erase a' } : Machine n τ).setRunq c q').goto c .exitRemoved).curPc c =
      .exitRemoved := goto_pc_self ..
  intro h
  cases hpc.symm.trans h

/-- `set_thread_status(T_COMPLETE)`. -/
theorem LifeInv.complete (hi : LifeInv L s) (hs : (s.cpu c).scan = none) (hp : s.curPc c = .exitRemoved) :
    ∃ L', LifeStep L L' ∧ LifeInv L' ((s.goto c .exitComplete).setStatus (s.cpu c).rthread .complete) := by
  obtain ⟨t, hc⟩ := hi.cur_thread (c := c) (by rw [hp]; rfl)
  have hcl : (s.curPc c).cleaned = false := by rw [hp]; rfl
  have hL : L t = .leaving c := by
    refine Life.leaving_of_on (hi.cur c t hc).1 ?_
    rw [← hi.stage, ← hc, show s.pc (s.cpu c).cur = _ from hp]
    rfl
  have hrt : (s.cpu c).rthread = some t := hi.cur_rthread hc hs hcl
  have hcount : ∀ u, (queued (s.cpu c).runq).count u = if Function.update L t .gone u = .queued c then 1 else 0 := by
    intro u
    rw [hi.count]
    by_cases hut : u = t
    · subst hut
      simp [hL]
    · rw [Function.update_of_ne hut]
  have hmove : LifeInv (Function.update L t .gone)
      { (s.setRunq c (s.cpu c).runq).goto c .exitComplete with status := Function.update s.status t .complete } :=
    hi.moveOn hc hs hcl (.inr hL) hcount trivial nofun rfl nofun rfl nofun rfl
  have hsame : s.setRunq c (s.cpu c).runq = s := by simp [Machine.setRunq, Machine.setCpu]
  rw [hsame] at hmove
  rw [hrt]
  exact ⟨_, .inr ⟨t, .gone, hL ▸ .complete c, rfl⟩, hmove⟩

/-- A thread that is complete goes on in `__finish_thread`. -/
theorem LifeInv.gotoAfter (hi : LifeInv L s) {p : Pc n τ} (h : (s.curPc c).stage = .after) (hp : p.stage = .after)
    (hcl : p.cleaned = true) : LifeInv L (s.goto c p) := by
  have hne : ∀ p' : Pc n τ, p'.stage ≠ .after → p ≠ p' := by
    rintro p' hp' rfl
    exact hp' hp
  refine hi.goto (hp.trans h.symm) (fun he => absurd he (hne _ nofun)) (fun hf => ?_) (fun b hb => ?_)
    (fun t a on he => absurd he (hne _ nofun)) (fun t he => absurd he (hne _ nofun)) fun t x he _ => ?_
  · rw [hcl] at hf
    cases hf
  · rw [Machine.curPc, hb] at h
    have := hi.bootPc b
    rw [Pc.exiting_of_after h] at this
    cases this
  · rw [Pc.creates_of_after hp] at he
    cases he

theorem LifeInv.cleanTask (hi : LifeInv L s) (hp : s.curPc c = .exitComplete) :
    LifeInv L (cleanTask (s.goto c .exitClean) c) := by
  have hi' : LifeInv L (s.goto c .exitClean) := hi.gotoAfter (by rw [hp]; rfl) rfl rfl
  unfold Sched.cleanTask
  split
  · split
    · exact hi'.clean (by rw [Machine.curPc]; exact congrArg Pc.cleaned (goto_pc_self s c .exitClean))
    · exact hi'
  · exact hi'

/-! ## Runs -/

/-- **Every step goes on with the life of at most one thread.** -/
theorem LifeInv.mstep (hi : LifeInv L s) {a : Act n τ} {s' : Machine n τ} (hok : NoExitPreempt s a) (h : MStep s a s') :
    ∃ L', LifeStep L L' ∧ LifeInv L' s' := by
  cases h with
  | @make c new task on hr hnew =>
    cases new with
    | none => exact ⟨L, .inl rfl, hi⟩
    | some t => exact ⟨_, .inr ⟨t, .made, hi.fresh t (hnew t rfl) ▸ .make, rfl⟩, hi.make task (hnew t rfl)⟩
  | create hr hnew => exact hi.create hr hnew _ _ _
  | makeSleep hr => exact ⟨L, .inl rfl, hi.makeSleep hr⟩
  | preempt hr => exact ⟨L, .inl rfl, hi.preempt _ (by rw [(LifeInv.atRun hr).2]; nofun)⟩
  | wakeUp => exact ⟨L, .inl rfl, hi.wakeUp _⟩
  | finish ht hr => exact ⟨L, .inl rfl, hi.finish hr ht⟩
  | adding hs hp => exact hi.add hp
  | readying hs hp => exact ⟨L, .inl rfl, hi.ready hp⟩
  | removed hs hp hq => exact hi.remove hs hp hq
  | completed hs hp => exact hi.complete hs hp
  | cleaned hs hp => exact ⟨L, .inl rfl, hi.cleanTask hp⟩
  | @stopped c hs hp =>
    have hi' : LifeInv L (s.goto c .stopped) := hi.gotoAfter (by rw [hp]; rfl) rfl rfl
    have hpc : (s.goto c .stopped).curPc c = .stopped := goto_pc_self s c .stopped
    exact ⟨L, .inl rfl, hi'.enter (by rw [hpc]; nofun) (by rw [hpc]; nofun)⟩
  | schedule hr =>
    obtain ⟨-, hp⟩ := LifeInv.atRun hr
    exact ⟨L, .inl rfl, hi.enter (by rw [hp]; nofun) (by rw [hp]; nofun)⟩
  | @timer c hon =>
    refine ⟨L, .inl rfl, hi.enter (fun hl => ?_) fun hx => ?_⟩
    · refine hok hon ?_
      cases hp : s.curPc c <;> rw [hp] at hl <;> first | rfl | cases hl
    · -- preemption is off from `preempt_disable` to `remove_thread_from_rq`
      obtain ⟨t, ht⟩ := hi.cur_thread (c := c) (by rw [hx]; rfl)
      obtain ⟨c', h1, -, h3⟩ := hi.starting t (by rw [← ht]; exact hx)
      rw [hi.inj c' c (h1.trans ht.symm), hon] at h3
      cases h3
  | tick => exact ⟨L, .inl rfl, hi⟩
  | scan hs => exact ⟨L, .inl rfl, hi.scanOn hs⟩
  | @switch c junk sc t hs ht hr =>
    have hscan : ((s.scanOn c sc).cpu c).scan = some { sc with tlist := (advance (s.cpu c) sc.tlist).2.1 } := by
      simp [Machine.scanOn]
    have hmem : t ∈ queued ((s.scanOn c sc).cpu c).runq := by simpa [Machine.scanOn] using threadOf_mem ht
    exact ⟨L, .inl rfl, (hi.scanOn hs).switchTo hscan hmem hr⟩

theorem lifeInv_start : LifeInv (fun _ => .unborn) (start n τ) := by
  refine ⟨fun t c => ?_, fun t => rfl, fun t => rfl, nofun, fun c c' h => ?_, nofun, nofun, nofun, fun _ _ _ _ => rfl,
    fun _ => rfl, fun _ _ => rfl, nofun, nofun, nofun⟩
  · simp [start, queued]
  · exact Ctx.boot.inj h

/-- **Every run of the machine is a run of the lives.** -/
theorem reaches_lifeInv (hrun : Reaches step NoExitPreempt (start n τ) s) :
    ∃ L, Relation.ReflTransGen LifeStep (fun _ => .unborn) L ∧ LifeInv L s := by
  refine hrun.invariant (I := fun s => ∃ L, Relation.ReflTransGen LifeStep (fun _ => .unborn) L ∧ LifeInv L s)
    ⟨_, .refl, lifeInv_start⟩ ?_
  rintro u a v ⟨L, hlives, hi⟩ hok hs
  obtain ⟨L', hnext, hi'⟩ := hi.mstep hok (step_cases hs)
  exact ⟨L', hlives.tail hnext, hi'⟩

end

/-- **No thread is lost**, in every run that keeps to `NoExitPreempt`: a thread that is `T_READY`, `T_RUNNING` or
`T_BLOCKED` and switched out is on exactly one CPU's queue, once; and a thread that has called `__finish_thread`
is not switched out before it is `T_COMPLETE`. -/
theorem threads_kept {n : Nat} {τ : Type} [DecidableEq τ] (s : Machine n τ)
    (hrun : Reaches step NoExitPreempt (start n τ) s) (t : τ) :
    (s.status t = .ready ∨ s.status t = .running ∨ s.status t = .blocked → (∀ c, (s.cpu c).cur ≠ .thread t) →
      ∃ c, (queued (s.cpu c).runq).count t = 1 ∧ ∀ c', c' ≠ c → t ∉ queued (s.cpu c').runq) ∧
    ((s.pc (.thread t)).exiting = true → s.status t ≠ .complete → ∃ c, (s.cpu c).cur = .thread t) := by
  obtain ⟨L, -, hi⟩ := reaches_lifeInv hrun
  have hst := hi.status t
  constructor
  · intro hs hout
    cases hL : L t <;> rw [hL] at hst
    case unborn | made =>
      rw [show s.status t = .init from hst] at hs
      rcases hs with hs | hs | hs <;> cases hs
    case queued c =>
      refine ⟨c, by rw [hi.count, if_pos hL], fun c' hc' hmem => hc' ?_⟩
      have := hi.queued_iff.1 hmem
      rw [hL] at this
      exact (Life.queued.inj this).symm
    case leaving c => exact absurd (hi.leaving t c hL).1 (hout c)
    case gone =>
      rw [show s.status t = .complete from hst] at hs
      rcases hs with hs | hs | hs <;> cases hs
  · intro hx hnc
    have hstage := hi.stage t
    cases hp : s.pc (.thread t) <;> rw [hp] at hx hstage
    case exitStart =>
      obtain ⟨c, hc, -⟩ := hi.starting t hp
      exact ⟨c, hc⟩
    case run | adding | readying => cases hx
    case exitRemoved =>
      cases hL : L t <;> rw [hL] at hstage
      case leaving c => exact ⟨c, (hi.leaving t c hL).1⟩
      all_goals cases hstage
    case exitComplete | exitClean | stopped =>
      cases hL : L t <;> rw [hL] at hstage hst
      case gone => exact absurd hst hnc
      all_goals cases hstage

instance {n : Nat} {τ : Type} [DecidableEq τ] (s : Machine n τ) (a : Act n τ) : Decidable (NoExitPreempt s a) :=
  match a with
  | .timer _ => inferInstanceAs (Decidable (_ = true → _ ≠ _))
  | .create _ _ _ _ _ | .makeSleep _ | .preempt _ _ | .wakeUp _ | .finish _ | .step _ | .schedule _ | .scan _ _ =>
    inferInstanceAs (Decidable True)

/-- The boot code makes thread `false` and schedules; the thread makes thread `true`, exits and leaves the queue. -/
def exitWithCompany {n : Nat} (c : Fin n) : List (Act n Bool) :=
  [.create c (some false) 1 (some 100) c, .step c, .step c, .schedule c, .scan c .init,
    .create c (some true) 1 (some 200) c, .step c, .step c, .finish c, .step c]

/-- Thread `true` waits on the queue while thread `false` leaves it. -/
theorem threads_kept_exit :
    ∃ s, Reaches step NoExitPreempt (start 1 Bool) s ∧
      (s.status true = .ready ∧ (∀ c, (s.cpu c).cur ≠ .thread true) ∧
        ∃ c, (queued (s.cpu c).runq).count true = 1 ∧ ∀ c', c' ≠ c → true ∉ queued (s.cpu c').runq) ∧
      (s.pc (.thread false)).exiting = true ∧ s.status false ≠ .complete ∧ ∃ c, (s.cpu c).cur = .thread false := by
  obtain ⟨s, hrun, hs⟩ := exists_reaches step NoExitPreempt (start 1 Bool) (exitWithCompany 0)
    (fun s => s.status true = .ready ∧ (∀ c, (s.cpu c).cur ≠ .thread true) ∧ (s.pc (.thread false)).exiting = true ∧
      s.status false ≠ .complete) (by decide)
  obtain ⟨h1, h2, h3, h4⟩ := of_decide_eq_true hs
  exact ⟨s, hrun, ⟨h1, h2, (threads_kept s hrun true).1 (.inl h1) h2⟩, h3, h4, (threads_kept s hrun false).2 h3 h4⟩

/-- **A lost thread.** A timer interrupt comes when thread `false` has left the queue: the thread is `T_READY` again,
switched out, and on no queue. -/
theorem thread_lost :
    ∃ s, Reaches step Any (start 1 Bool) s ∧ s.status false = .ready ∧ (∀ c, (s.cpu c).cur ≠ .thread false) ∧
      (∀ c, false ∉ queued (s.cpu c).runq) ∧ (s.pc (.thread false)).exiting = true := by
  obtain ⟨s, hrun, hs⟩ := exists_reaches step Any (start 1 Bool) (exitWithCompany 0 ++ [.timer 0, .scan 0 .init])
    (fun s => s.status false = .ready ∧ (∀ c, (s.cpu c).cur ≠ .thread false) ∧ (∀ c, false ∉ queued (s.cpu c).runq) ∧
      (s.pc (.thread false)).exiting = true) (by decide)
  exact ⟨s, hrun, of_decide_eq_true hs⟩

end RedMagic.Sched
