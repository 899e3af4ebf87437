import RedMagic.Sched.Machine

/-!
# The life of a thread

What the queues are for, told without them: a thread is made, is put on the queue of one CPU and stays there
until it exits; then it leaves the queue, on that CPU, and is complete (`Life`). `LifeInv L s` says that the
machine is in step with such lives `L`, and every step of the machine is a step of the lives, of at most one thread
(`LifeInv.mstep`), as long as no thread is switched out while it is leaving.
-/

namespace RedMagic.Sched

open Lts

inductive Life (n : Nat) where
  | unborn
  | made
  | queued (c : Fin n)
  | leaving (c : Fin n)
  | gone
deriving DecidableEq, Repr

inductive Life.Next {n : Nat} : Life n → Life n → Prop
  | make : Next .unborn .made
  | add (c : Fin n) : Next .made (.queued c)
  | remove (c : Fin n) : Next (.queued c) (.leaving c)
  | complete (c : Fin n) : Next (.leaving c) .gone

/-- At most one thread goes on with its life. -/
def LifeStep {n : Nat} {τ : Type} [DecidableEq τ] (L L' : τ → Life n) : Prop :=
  L' = L ∨ ∃ t l, (L t).Next l ∧ L' = Function.update L t l

/-- Where `__finish_thread` is: before it takes the thread off the queue, before it sets `T_COMPLETE`, after. -/
inductive Stage where
  | before
  | leaving
  | after

def Life.stage {n : Nat} : Life n → Stage
  | .unborn | .made | .queued _ => .before
  | .leaving _ => .leaving
  | .gone => .after

/-- The thread may be what CPU `c` runs. -/
def Life.on {n : Nat} (c : Fin n) : Life n → Prop
  | .queued c' | .leaving c' => c' = c
  | .gone => True
  | .unborn | .made => False

def Life.allows {n : Nat} (st : Status) : Life n → Prop
  | .unborn | .made => st = .init
  | .queued _ | .leaving _ => True
  | .gone => st = .complete

section
variable {n : Nat} {τ : Type}

def Pc.stage : Pc n τ → Stage
  | .run | .adding _ _ _ | .readying _ | .exitStart => .before
  | .exitRemoved => .leaving
  | .exitComplete | .exitClean | .stopped => .after

/-- `__finish_thread` has been called. -/
def Pc.exiting : Pc n τ → Bool
  | .run | .adding _ _ _ | .readying _ => false
  | .exitStart | .exitRemoved | .exitComplete | .exitClean | .stopped => true

/-- `clean_task_sched` may have been called. -/
def Pc.cleaned : Pc n τ → Bool
  | .exitClean | .stopped => true
  | _ => false

/-- The thread that is being put on a queue. -/
def Pc.creates : Pc n τ → Option τ
  | .adding new _ _ | .readying new => new
  | _ => none

theorem Pc.exiting_of_after {p : Pc n τ} (h : p.stage = .after) : p.exiting = true := by
  cases p <;> first | rfl | cases h

theorem Pc.creates_of_after {p : Pc n τ} (h : p.stage = .after) : p.creates = none := by
  cases p <;> first | rfl | cases h

theorem Pc.cleaned_of_before {p : Pc n τ} (h : p.stage = .before) : p.cleaned = false := by
  cases p <;> first | rfl | cases h

structure LifeInv (L : τ → Life n) (s : Machine n τ) [DecidableEq τ] : Prop where
  count : ∀ t c, (queued (s.cpu c).runq).count t = if L t = .queued c then 1 else 0
  status : ∀ t, (L t).allows (s.status t)
  stage : ∀ t, (s.pc (.thread t)).stage = (L t).stage
  cur : ∀ c t, (s.cpu c).cur = .thread t → (L t).on c ∧ s.status t ≠ .init
  inj : ∀ c c', (s.cpu c).cur = (s.cpu c').cur → c = c'
  leaving : ∀ t c, L t = .leaving c → (s.cpu c).cur = .thread t ∧ (s.cpu c).scan = none
  starting : ∀ t, s.pc (.thread t) = .exitStart →
    ∃ c, (s.cpu c).cur = .thread t ∧ (s.cpu c).scan = none ∧ (s.cpu c).preemptOn = false
  rthread : ∀ c t, (s.cpu c).cur = .thread t → (s.cpu c).scan = none → (s.pc (.thread t)).cleaned = false →
    (s.cpu c).rthread = some t
  boot : ∀ c b, (s.cpu c).cur = .boot b → (s.cpu c).scan = none → (s.cpu c).rthread = none
  bootPc : ∀ b, (s.pc (.boot b)).exiting = false
  fresh : ∀ t, t ∉ s.threads → L t = .unborn
  adding : ∀ x t a on, s.pc x = .adding (some t) a on → L t = .made
  readying : ∀ x t, s.pc x = .readying (some t) → s.status t = .init ∧ ∃ c, L t = .queued c
  creator : ∀ x y t, (s.pc x).creates = some t → (s.pc y).creates = some t → x = y

/-- The CPUs are the same up to their queues. -/
structure SameCpus (s s' : Machine n τ) : Prop where
  cur : ∀ c, (s'.cpu c).cur = (s.cpu c).cur
  scan : ∀ c, (s'.cpu c).scan = (s.cpu c).scan
  rthread : ∀ c, (s'.cpu c).rthread = (s.cpu c).rthread
  preemptOn : ∀ c, (s'.cpu c).preemptOn = (s.cpu c).preemptOn

theorem setRunq_sameCpus (s : Machine n τ) (c : Fin n) (q : List (Entry τ)) : SameCpus s (s.setRunq c q) :=
  ⟨setRunq_cur s c q, setRunq_scan s c q, setRunq_rthread s c q, setRunq_preemptOn s c q⟩

end

section
variable {n : Nat} {τ : Type} [DecidableEq τ] {L : τ → Life n} {s : Machine n τ} {c : Fin n}

theorem LifeInv.queued_iff (hi : LifeInv L s) {t : τ} : t ∈ queued (s.cpu c).runq ↔ L t = .queued c := by
  rw [← List.count_pos_iff, hi.count]
  split <;> simp_all

theorem Life.queued_of_on {l : Life n} (h : l.on c) (hs : l.stage = .before) : l = .queued c := by
  cases l with
  | queued c' => rw [show c' = c from h]
  | leaving => cases hs
  | gone => cases hs
  | unborn => cases h
  | made => cases h

/-- A thread that runs and has not left the queue is on its CPU's queue. -/
theorem LifeInv.cur_queued (hi : LifeInv L s) {t : τ} (hc : (s.cpu c).cur = .thread t)
    (hs : (s.curPc c).stage = .before) : L t = .queued c := by
  refine Life.queued_of_on (hi.cur c t hc).1 ?_
  rw [← hi.stage, ← hc]
  exact hs

/-! ## The parts of a step -/

/-- A thread's status. -/
theorem LifeInv.setStatus (hi : LifeInv L s) (t : τ) {st : Status} (ha : (L t).allows st)
    (hc : ∀ c, (s.cpu c).cur = .thread t → st ≠ .init) (hr : ∀ x, s.pc x ≠ .readying (some t)) :
    LifeInv L { s with status := Function.update s.status t st } := by
  refine { hi with
    status := fun u => ?_
    cur := fun c u hu => ⟨(hi.cur c u hu).1, ?_⟩
    readying := fun x u hu => ?_ }
  · by_cases hut : u = t
    · subst hut
      simpa using ha
    · simpa [Function.update_of_ne hut] using hi.status u
  · by_cases hut : u = t
    · subst hut
      simpa using hc c hu
    · simpa [Function.update_of_ne hut] using (hi.cur c u hu).2
  · have hut : u ≠ t := by
      rintro rfl
      exact hr x hu
    simpa [Function.update_of_ne hut] using hi.readying x u hu

/-- A thread that is not being created and has a status other than `T_INIT` and `T_COMPLETE` may get another. -/
theorem LifeInv.setAwake (hi : LifeInv L s) (t : τ) {st : Status} (h1 : s.status t ≠ .init)
    (h2 : s.status t ≠ .complete) (hst : st ≠ .init) :
    LifeInv L { s with status := Function.update s.status t st } := by
  refine hi.setStatus t ?_ (fun _ _ => hst) fun x hx => h1 (hi.readying x t hx).1
  have := hi.status t
  cases hl : L t <;> rw [hl] at this
  · exact absurd this h1
  · exact absurd this h1
  · trivial
  · trivial
  · exact absurd this h2

/-- The program points after the context of CPU `c` has gone on at `p`. -/
theorem goto_pc_cases (s : Machine n τ) (c : Fin n) (p : Pc n τ) (x : Ctx n τ) :
    (x = (s.cpu c).cur ∧ (s.goto c p).pc x = p) ∨ (x ≠ (s.cpu c).cur ∧ (s.goto c p).pc x = s.pc x) := by
  by_cases hx : x = (s.cpu c).cur
  · exact .inl ⟨hx, hx ▸ goto_pc_self s c p⟩
  · exact .inr ⟨hx, goto_pc_ne s c p hx⟩

/-- The context of a CPU goes on at a point of the same stage. -/
theorem LifeInv.goto (hi : LifeInv L s) {p : Pc n τ} (hp : p.stage = (s.curPc c).stage)
    (hs : p = .exitStart → (s.cpu c).scan = none ∧ (s.cpu c).preemptOn = false)
    (hcl : p.cleaned = false → (s.curPc c).cleaned = false) (hb : ∀ b, (s.cpu c).cur = .boot b → p.exiting = false)
    (hadd : ∀ t a on, p = .adding (some t) a on → L t = .made)
    (hrdy : ∀ t, p = .readying (some t) → s.status t = .init ∧ ∃ c, L t = .queued c)
    (hcr : ∀ t x, p.creates = some t → (s.pc x).creates = some t → x = (s.cpu c).cur) : LifeInv L (s.goto c p) := by
  have hpc := goto_pc_cases s c p
  refine { hi with
    stage := fun t => ?_
    starting := fun t ht => ?_
    rthread := fun c' t hc hsc hcd => ?_
    bootPc := fun b => ?_
    adding := fun x t a on hx => ?_
    readying := fun x t hx => ?_
    creator := fun x y t hx hy => ?_ }
  · rcases hpc (.thread t) with ⟨hx, h⟩ | ⟨-, h⟩
    · rw [h, hp, ← hi.stage, hx]
      rfl
    · rw [h, hi.stage]
  · rcases hpc (.thread t) with ⟨hx, h⟩ | ⟨-, h⟩
    · exact ⟨c, hx.symm, hs (h.symm.trans ht)⟩
    · exact hi.starting t (h ▸ ht)
  · rcases hpc (.thread t) with ⟨hx, h⟩ | ⟨-, h⟩
    · refine hi.rthread c' t hc hsc ?_
      rw [hx]
      exact hcl (h ▸ hcd)
    · exact hi.rthread c' t hc hsc (h ▸ hcd)
  · rcases hpc (.boot b) with ⟨hx, h⟩ | ⟨-, h⟩
    · rw [h]
      exact hb b hx.symm
    · rw [h]
      exact hi.bootPc b
  · rcases hpc x with ⟨-, h⟩ | ⟨-, h⟩
    · exact hadd t a on (h.symm.trans hx)
    · exact hi.adding x t a on (h ▸ hx)
  · rcases hpc x with ⟨-, h⟩ | ⟨-, h⟩
    · exact hrdy t (h.symm.trans hx)
    · exact hi.readying x t (h ▸ hx)
  · rcases hpc x with ⟨hxc, h⟩ | ⟨-, h⟩ <;> rcases hpc y with ⟨hyc, h'⟩ | ⟨-, h'⟩ <;> rw [h] at hx <;> rw [h'] at hy
    · rw [hxc, hyc]
    · exact hxc.trans (hcr t y hx hy).symm
    · exact (hcr t x hy hx).trans hyc.symm
    · exact hi.creator x y t hx hy

/-- The context of a CPU goes on, outside of `__finish_thread`, at a point where it puts no thread on a queue. -/
theorem LifeInv.gotoPlain (hi : LifeInv L s) {p : Pc n τ} (h : (s.curPc c).stage = .before) (hp : p.stage = .before)
    (hx : p.exiting = false) (hcr : p.creates = none) : LifeInv L (s.goto c p) := by
  refine hi.goto (hp.trans h.symm) ?_ (fun _ => Pc.cleaned_of_before h) (fun _ _ => hx) ?_ ?_ fun t x ht _ => ?_
  · rintro rfl
    cases hx
  · rintro t a on rfl
    cases hcr
  · rintro t rfl
    cases hcr
  · rw [hcr] at ht
    cases ht

/-- The record of CPU `c`. -/
theorem LifeInv.setCpu (hi : LifeInv L s) {x : Cpu n τ} (hq : queued x.runq = queued (s.cpu c).runq)
    (hcur : ∀ t, x.cur = .thread t → (L t).on c ∧ s.status t ≠ .init) (hinj : ∀ c', c' ≠ c → (s.cpu c').cur ≠ x.cur)
    (hleave : ∀ t, L t = .leaving c → x.cur = .thread t ∧ x.scan = none)
    (hstart : ∀ t, (s.cpu c).cur = .thread t → s.pc (.thread t) = .exitStart → (s.cpu c).scan = none →
      x.cur = .thread t ∧ x.scan = none ∧ x.preemptOn = false)
    (hrt : ∀ t, x.cur = .thread t → x.scan = none → (s.pc (.thread t)).cleaned = false → x.rthread = some t)
    (hboot : ∀ b, x.cur = .boot b → x.scan = none → x.rthread = none) : LifeInv L (s.setCpu c x) := by
  refine { hi with
    count := fun t c' => ?_
    cur := fun c' => ?_
    inj := fun c₁ c₂ h => ?_
    leaving := fun t c' => ?_
    starting := fun t ht => ?_
    rthread := fun c' => ?_
    boot := fun c' => ?_ }
  · by_cases hc : c' = c
    · rw [hc, setCpu_cpu_self, hq, hi.count]
    · rw [setCpu_cpu_ne s c hc, hi.count]
  · by_cases hc : c' = c
    · rw [hc, setCpu_cpu_self]
      exact hcur
    · rw [setCpu_cpu_ne s c hc]
      exact hi.cur c'
  · by_cases h₁ : c₁ = c
    · by_cases h₂ : c₂ = c
      · rw [h₁, h₂]
      · rw [h₁, setCpu_cpu_self, setCpu_cpu_ne s c h₂] at h
        exact absurd h.symm (hinj c₂ h₂)
    · by_cases h₂ : c₂ = c
      · rw [h₂, setCpu_cpu_self, setCpu_cpu_ne s c h₁] at h
        exact absurd h (hinj c₁ h₁)
      · rw [setCpu_cpu_ne s c h₁, setCpu_cpu_ne s c h₂] at h
        exact hi.inj c₁ c₂ h
  · by_cases hc : c' = c
    · rw [hc, setCpu_cpu_self]
      exact hleave t
    · rw [setCpu_cpu_ne s c hc]
      exact hi.leaving t c'
  · obtain ⟨c', h1, h2, h3⟩ := hi.starting t ht
    refine ⟨c', ?_⟩
    by_cases hc : c' = c
    · subst hc
      rw [setCpu_cpu_self]
      exact hstart t h1 ht h2
    · rw [setCpu_cpu_ne s c hc]
      exact ⟨h1, h2, h3⟩
  · by_cases hc : c' = c
    · rw [hc, setCpu_cpu_self]
      exact hrt
    · rw [setCpu_cpu_ne s c hc]
      exact hi.rthread c'
  · by_cases hc : c' = c
    · rw [hc, setCpu_cpu_self]
      exact hboot
    · rw [setCpu_cpu_ne s c hc]
      exact hi.boot c'

theorem LifeInv.cur_ne (hi : LifeInv L s) {c' : Fin n} (h : c' ≠ c) : (s.cpu c').cur ≠ (s.cpu c).cur :=
  fun he => h (hi.inj c' c he)

/-- `preempt_on`, unless the thread has just called `__finish_thread`. -/
theorem LifeInv.preempt (hi : LifeInv L s) (on : Bool) (h : s.curPc c ≠ .exitStart) : LifeInv L (s.preempt c on) := by
  refine hi.setCpu rfl (hi.cur c) (fun c' hc => hi.cur_ne hc) (fun t => hi.leaving t c) (fun t ht hp _ => ?_)
    (hi.rthread c) (hi.boot c)
  rw [Machine.curPc, ht] at h
  exact absurd hp h

/-- `rthread` when `clean_task_sched` takes it away. -/
theorem LifeInv.clean (hi : LifeInv L s) (h : (s.curPc c).cleaned = true) : LifeInv L (s.setRthread c none) := by
  refine hi.setCpu rfl (hi.cur c) (fun c' hc => hi.cur_ne hc) (fun t => hi.leaving t c) (fun t ht hp _ => ?_)
    (fun t ht _ hcl => ?_) (fun _ _ _ => rfl)
  · rw [Machine.curPc, ht, hp] at h
    cases h
  · rw [Machine.curPc, ht, hcl] at h
    cases h

/-- The CPU is inside `schedule`, for a thread that is neither leaving nor about to. -/
theorem LifeInv.scanning (hi : LifeInv L s) (r : Option τ) (on : Bool) (sc : Scan τ) (hl : ∀ t, L t ≠ .leaving c)
    (hx : (s.cpu c).scan = none → s.curPc c ≠ .exitStart) :
    LifeInv L (s.setCpu c { s.cpu c with rthread := r, preemptOn := on, scan := some sc }) := by
  refine hi.setCpu rfl (hi.cur c) (fun c' hc => hi.cur_ne hc) (fun t ht => absurd ht (hl t)) (fun t ht hp hsc => ?_)
    (fun _ _ h => by cases h) (fun _ _ h => by cases h)
  have := hx hsc
  rw [Machine.curPc, ht] at this
  exact absurd hp this

/-- While a CPU is inside `schedule`, no thread is leaving its queue. -/
theorem LifeInv.not_leaving (hi : LifeInv L s) {sc : Scan τ} (h : (s.cpu c).scan = some sc) (t : τ) :
    L t ≠ .leaving c := by
  intro ht
  rw [(hi.leaving t c ht).2] at h
  cases h

/-! ## The steps -/

theorem LifeInv.atRun (h : s.atRun c = true) : (s.cpu c).scan = none ∧ s.curPc c = .run := by
  simpa [Machine.atRun] using h

theorem LifeInv.readyRthread (hi : LifeInv L s) (r : Option τ) :
    LifeInv L { s with status := readyRthread s.status r } := by
  cases r with
  | none => exact hi
  | some t =>
    simp only [Sched.readyRthread]
    split
    · rename_i h
      exact hi.setAwake t (by rw [h]; nofun) (by rw [h]; nofun) nofun
    · exact hi

theorem LifeInv.enter (hi : LifeInv L s) (hl : (s.curPc c).stage ≠ .leaving) (hx : s.curPc c ≠ .exitStart) :
    LifeInv L (enter s c) := by
  refine (hi.readyRthread (s.cpu c).rthread).scanning (c := c) _ false _ (fun t ht => hl ?_) fun _ => hx
  rw [Machine.curPc, (hi.leaving t c ht).1, hi.stage, ht]
  rfl

theorem LifeInv.scanOn (hi : LifeInv L s) {sc : Scan τ} (h : (s.cpu c).scan = some sc) : LifeInv L (s.scanOn c sc) := by
  refine hi.scanning _ _ _ (hi.not_leaving h) fun hn => ?_
  rw [h] at hn
  cases hn

theorem LifeInv.switchTo (hi : LifeInv L s) {sc : Scan τ} {t : τ} (h : (s.cpu c).scan = some sc)
    (ht : t ∈ queued (s.cpu c).runq) (hr : s.status t = .ready) : LifeInv L (switchTo s c t) := by
  have hL : L t = .queued c := hi.queued_iff.1 ht
  have hi' : LifeInv L { s with status := Function.update s.status t .running } :=
    hi.setAwake t (by rw [hr]; nofun) (by rw [hr]; nofun) nofun
  refine hi'.setCpu rfl (fun u hu => ?_) (fun c' hc he => ?_) (fun u hu => absurd hu (hi.not_leaving h u))
    (fun u _ _ hs => ?_) (fun u hu _ _ => ?_) fun _ hb => by cases hb
  · cases hu
    refine ⟨?_, ?_⟩
    · rw [hL]
      exact rfl
    · simp
  · have := (hi.cur c' t he).1
    rw [hL] at this
    exact hc this.symm
  · rw [show (s.cpu c).scan = none from hs] at h
    cases h
  · cases hu
    rfl

theorem LifeInv.makeSleep (hi : LifeInv L s) (h : s.atRun c = true) :
    LifeInv L (s.setStatus (s.cpu c).rthread .blocked) := by
  obtain ⟨hs, hp⟩ := LifeInv.atRun h
  cases hr : (s.cpu c).rthread with
  | none => exact hi
  | some t =>
    have hc : (s.cpu c).cur = .thread t := by
      cases hcur : (s.cpu c).cur with
      | boot b =>
        rw [hi.boot c b hcur hs] at hr
        cases hr
      | thread u =>
        have := hi.rthread c u hcur hs (by rw [← hcur]; show (s.curPc c).cleaned = false; rw [hp]; rfl)
        rw [hr] at this
        rw [Option.some.inj this]
    refine hi.setStatus t ?_ (fun _ _ => nofun) fun x hx => (hi.cur c t hc).2 (hi.readying x t hx).1
    rw [hi.cur_queued hc (by rw [hp]; rfl)]
    trivial

theorem LifeInv.wakeUp (hi : LifeInv L s) (t : τ) : LifeInv L { s with status := wakeUp s.status t } := by
  unfold Sched.wakeUp
  split
  · rename_i h
    exact hi.setAwake t (by rw [h]; nofun) (by rw [h]; nofun) nofun
  · exact hi

theorem goto_preempt (s : Machine n τ) (c : Fin n) (p : Pc n τ) (on : Bool) :
    (s.goto c p).preempt c on = (s.preempt c on).goto c p := by
  simp [Machine.goto, Machine.preempt, Machine.setCpu]

theorem LifeInv.finish (hi : LifeInv L s) (h : s.atRun c = true) {t : τ} (ht : (s.cpu c).cur = .thread t) :
    LifeInv L ((s.goto c .exitStart).preempt c false) := by
  obtain ⟨hs, hp⟩ := LifeInv.atRun h
  have hi' := hi.preempt (c := c) false (by rw [hp]; nofun)
  have hcur : ((s.preempt c false).cpu c).cur = (s.cpu c).cur := by simp [Machine.preempt]
  have hp' : (s.preempt c false).curPc c = .run := by
    rw [Machine.curPc, hcur]
    exact hp
  rw [goto_preempt]
  refine hi'.goto (by rw [hp']; rfl) (fun _ => ?_) (fun _ => by rw [hp']; rfl) (fun b hb => ?_) nofun nofun nofun
  · simp [Machine.preempt, hs]
  · rw [hcur, ht] at hb
    cases hb

/-! ## A thread goes on with its life -/

/-- Thread `t`, which nobody is putting on a queue, goes on to the part `l` of its life. What is to be shown is about
`t` and the queues; the other threads and the CPUs are as before. -/
theorem LifeInv.goOn (hi : LifeInv L s) {s' : Machine n τ} {t : τ} {l : Life n} (hcpu : SameCpus s s')
    (hst : ∀ u, u ≠ t → s'.status u = s.status u) (hpc : ∀ x, x ≠ .thread t → s'.pc x = s.pc x)
    (hthreads : ∀ u, u ∉ s'.threads → u ≠ t ∧ u ∉ s.threads) (hno : ∀ x, (s.pc x).creates ≠ some t)
    (hcount : ∀ u c, u ≠ t → (queued (s'.cpu c).runq).count u = (queued (s.cpu c).runq).count u)
    (htcount : ∀ c, (queued (s'.cpu c).runq).count t = if l = .queued c then 1 else 0)
    (hallows : l.allows (s'.status t)) (hstage : (s'.pc (.thread t)).stage = l.stage)
    (hcur : ∀ c, (s.cpu c).cur = .thread t → l.on c ∧ s'.status t ≠ .init)
    (hleave : ∀ c, l = .leaving c → (s.cpu c).cur = .thread t ∧ (s.cpu c).scan = none)
    (hcl : (s'.pc (.thread t)).cleaned = false → (s.pc (.thread t)).cleaned = false)
    (hpt : s'.pc (.thread t) = s.pc (.thread t) ∨
      (s'.pc (.thread t)).creates = none ∧ s'.pc (.thread t) ≠ .exitStart) :
    LifeInv (Function.update L t l) s' := by
  have hthread : ∀ {u : τ}, u ≠ t → s'.pc (.thread u) = s.pc (.thread u) := fun hu =>
    hpc _ fun h => hu (Ctx.thread.inj h)
  -- who is creating a thread is where it was, and the thread is another one
  have hcreates : ∀ {x u}, (s'.pc x).creates = some u → s'.pc x = s.pc x ∧ u ≠ t := by
    intro x u hx
    have hsame : s'.pc x = s.pc x := by
      by_cases hxt : x = .thread t
      · subst hxt
        rcases hpt with h | ⟨h, -⟩
        · exact h
        · rw [h] at hx
          cases hx
      · exact hpc x hxt
    refine ⟨hsame, ?_⟩
    rintro rfl
    rw [hsame] at hx
    exact hno x hx
  refine {
    count := fun u c => ?_
    status := fun u => ?_
    stage := fun u => ?_
    cur := fun c u hu => ?_
    inj := fun c c' h => ?_
    leaving := fun u c hu => ?_
    starting := fun u hu => ?_
    rthread := fun c u hu hs hcd => ?_
    boot := fun c b hb hs => ?_
    bootPc := fun b => ?_
    fresh := fun u hu => ?_
    adding := fun x u a on hx => ?_
    readying := fun x u hx => ?_
    creator := fun x y u hx hy => ?_ }
  · by_cases hut : u = t
    · subst hut
      rw [Function.update_self, htcount]
    · rw [Function.update_of_ne hut, hcount u c hut, hi.count]
  · by_cases hut : u = t
    · subst hut
      rw [Function.update_self]
      exact hallows
    · rw [Function.update_of_ne hut, hst u hut]
      exact hi.status u
  · by_cases hut : u = t
    · subst hut
      rw [Function.update_self, hstage]
    · rw [Function.update_of_ne hut, hthread hut]
      exact hi.stage u
  · rw [hcpu.cur] at hu
    by_cases hut : u = t
    · subst hut
      rw [Function.update_self]
      exact hcur c hu
    · rw [Function.update_of_ne hut, hst u hut]
      exact hi.cur c u hu
  · rw [hcpu.cur, hcpu.cur] at h
    exact hi.inj c c' h
  · rw [hcpu.cur, hcpu.scan]
    by_cases hut : u = t
    · subst hut
      rw [Function.update_self] at hu
      exact hleave c hu
    · rw [Function.update_of_ne hut] at hu
      exact hi.leaving u c hu
  · have hold : s.pc (.thread u) = .exitStart := by
      by_cases hut : u = t
      · subst hut
        rcases hpt with h | ⟨-, h⟩
        · exact h.symm.trans hu
        · exact absurd hu h
      · exact (hthread hut).symm.trans hu
    obtain ⟨c, h1, h2, h3⟩ := hi.starting u hold
    exact ⟨c, by rw [hcpu.cur, h1], by rw [hcpu.scan, h2], by rw [hcpu.preemptOn, h3]⟩
  · rw [hcpu.cur] at hu
    rw [hcpu.scan] at hs
    rw [hcpu.rthread]
    refine hi.rthread c u hu hs ?_
    by_cases hut : u = t
    · subst hut
      exact hcl hcd
    · rw [← hthread hut]
      exact hcd
  · rw [hcpu.cur] at hb
    rw [hcpu.scan] at hs
    rw [hcpu.rthread]
    exact hi.boot c b hb hs
  · rw [hpc (.boot b) (by simp)]
    exact hi.bootPc b
  · obtain ⟨hut, hu⟩ := hthreads u hu
    rw [Function.update_of_ne hut]
    exact hi.fresh u hu
  · obtain ⟨hsame, hut⟩ := hcreates (x := x) (u := u) (by rw [hx]; rfl)
    rw [Function.update_of_ne hut]
    exact hi.adding x u a on (hsame.symm.trans hx)
  · obtain ⟨hsame, hut⟩ := hcreates (x := x) (u := u) (by rw [hx]; rfl)
    rw [Function.update_of_ne hut, hst u hut]
    exact hi.readying x u (hsame.symm.trans hx)
  · rw [(hcreates hx).1] at hx
    rw [(hcreates hy).1] at hy
    exact hi.creator x y u hx hy

/-- Only a thread that is made or `T_INIT` is being put on a queue. -/
theorem LifeInv.not_creating (hi : LifeInv L s) {t : τ} (hL : L t ≠ .made)
    (h : (∀ c, L t ≠ .queued c) ∨ s.status t ≠ .init) (x : Ctx n τ) : (s.pc x).creates ≠ some t := by
  intro hx
  cases hp : s.pc x <;> rw [hp] at hx <;> try cases hx
  · exact hL (hi.adding x t _ _ hp)
  · obtain ⟨h1, c, h2⟩ := hi.readying x t hp
    rcases h with h | h
    · exact h c h2
    · exact h h1

/-- A thread is made. -/
theorem LifeInv.make (hi : LifeInv L s) {t : τ} (task : Nat) (hnew : t ∉ s.threads) :
    LifeInv (Function.update L t .made) (makeThread s (some t) task) := by
  have hL : L t = .unborn := hi.fresh t hnew
  have hself := makeThread_pc_self s t task
  refine hi.goOn ⟨fun _ => rfl, fun _ => rfl, fun _ => rfl, fun _ => rfl⟩ (fun u hu => Function.update_of_ne hu ..)
    (fun x hx => makeThread_pc_ne s task hx) (fun u hu => ?_) (hi.not_creating (by simp [hL]) (.inl (by simp [hL])))
    (fun _ _ _ => rfl) (fun c => ?_) (Function.update_self ..) (by rw [hself]; rfl) (fun c hc => ?_) (by simp)
    (fun _ => ?_) (.inr (by simp [hself, Pc.creates]))
  · simpa [makeThread] using hu
  · show (queued (s.cpu c).runq).count t = _
    rw [hi.count, hL]
    simp
  · have := (hi.cur c t hc).1
    rw [hL] at this
    cases this
  · refine Pc.cleaned_of_before ?_
    rw [hi.stage, hL]
    rfl

/-- A made thread is put on the queue of CPU `on`. -/
theorem LifeInv.addEntry (hi : LifeInv L s) {t : τ} (a : Nat) (on : Fin n) (hL : L t = .made)
    (hno : ∀ x, (s.pc x).creates ≠ some t) :
    LifeInv (Function.update L t (.queued on)) (s.setRunq on ((s.cpu on).runq ++ [⟨a, some t⟩])) := by
  have hq : queued ((s.setRunq on ((s.cpu on).runq ++ [⟨a, some t⟩])).cpu on).runq = queued (s.cpu on).runq ++ [t] := by
    simp [Machine.setRunq, queued]
  refine hi.goOn (setRunq_sameCpus s on _) (fun _ _ => rfl) (fun _ _ => rfl) (fun u hu => ⟨?_, hu⟩) hno
    (fun u c hut => ?_) (fun c => ?_) trivial ((hi.stage t).trans (by rw [hL]; rfl)) (fun c hc => ?_) (by simp)
    (fun h => h) (.inl rfl)
  · rintro rfl
    rw [hi.fresh u hu] at hL
    cases hL
  · by_cases hc : c = on
    · rw [hc, hq, List.count_append]
      simp [Ne.symm hut]
    · rw [Machine.setRunq, setCpu_cpu_ne s on hc]
  · -- `t` was on no queue and is now on this one
    by_cases hc : c = on
    · rw [hc, hq, List.count_append, hi.count, hL]
      simp
    · rw [Machine.setRunq, setCpu_cpu_ne s on hc, hi.count, hL]
      simp [Ne.symm hc]
  · have := (hi.cur c t hc).1
    rw [hL] at this
    cases this

theorem Life.leaving_of_on {l : Life n} (h : l.on c) (hs : l.stage = .leaving) : l = .leaving c := by
  cases l with
  | leaving c' => rw [show c' = c from h]
  | queued => cases hs
  | gone => cases hs
  | unborn => cases h
  | made => cases h

/-- The thread that CPU `c` runs, in `__finish_thread`, goes on to the next part `l` of its life, at program point
`p`, with status `st`, and leaves `q` as the queue. -/
theorem LifeInv.moveOn (hi : LifeInv L s) {t : τ} {l : Life n} {p : Pc n τ} {q : List (Entry τ)} {st : Status}
    (hc : (s.cpu c).cur = .thread t) (hs : (s.cpu c).scan = none) (hcl : (s.curPc c).cleaned = false)
    (hold : L t = .queued c ∨ L t = .leaving c)
    (hq : ∀ u, (queued q).count u = if Function.update L t l u = .queued c then 1 else 0)
    (hon : l.on c) (hlq : ∀ c', l ≠ .queued c') (hst : l.allows st) (hinit : st ≠ .init) (hp : p.stage = l.stage)
    (hes : p ≠ .exitStart) (hcr : p.creates = none) :
    LifeInv (Function.update L t l)
      { (s.setRunq c q).goto c p with status := Function.update s.status t st } := by
  have hctx : ((s.setRunq c q).cpu c).cur = .thread t := by rw [setRunq_cur, hc]
  have hself : ((s.setRunq c q).goto c p).pc (.thread t) = p := by
    rw [← hctx]
    exact goto_pc_self ..
  have hcpu := setRunq_sameCpus s c q
  have honly : ∀ {c' : Fin n}, (s.cpu c').cur = .thread t → c' = c := fun h => hi.inj _ c (h.trans hc.symm)
  have hmade : L t ≠ .made := by rcases hold with h | h <;> simp [h]
  refine hi.goOn ⟨hcpu.cur, hcpu.scan, hcpu.rthread, hcpu.preemptOn⟩ (fun u hut => Function.update_of_ne hut ..)
    (fun x hx => goto_pc_ne _ c p (by rw [hctx]; exact hx)) (fun u hu => ⟨?_, hu⟩)
    (hi.not_creating hmade (.inr (hi.cur c t hc).2)) (fun u c' hut => ?_) (fun c' => ?_) (by simpa using hst)
    (by rw [← hp]; exact congrArg Pc.stage hself) (fun c' h => ?_) (fun c' hl => ?_) (fun _ => ?_)
    (.inr ⟨(congrArg Pc.creates hself).trans hcr, fun h => hes (hself.symm.trans h)⟩)
  · rintro rfl
    have := hi.fresh u hu
    rcases hold with h | h <;> rw [h] at this <;> cases this
  · show (queued ((s.setRunq c q).cpu c').runq).count u = _
    by_cases hcc : c' = c
    · rw [hcc, Machine.setRunq, setCpu_cpu_self, hi.count]
      exact (hq u).trans (by rw [Function.update_of_ne hut])
    · rw [Machine.setRunq, setCpu_cpu_ne s c hcc]
  · show (queued ((s.setRunq c q).cpu c').runq).count t = _
    by_cases hcc : c' = c
    · rw [hcc, Machine.setRunq, setCpu_cpu_self]
      exact (hq t).trans (by rw [Function.update_self])
    · rw [Machine.setRunq, setCpu_cpu_ne s c hcc, hi.count, if_neg (hlq c')]
      rcases hold with h | h <;> simp [h, Ne.symm hcc]
  · rw [honly h]
    simpa using ⟨hon, hinit⟩
  · subst hl
    rw [show c' = c from hon]
    exact ⟨hc, hs⟩
  · rw [← hc]
    exact hcl

end

end RedMagic.Sched
