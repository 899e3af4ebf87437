import RedMagic.Arch.Switch
import RedMagic.Lib.Transition

/-!
# Threads on CPUs (src/switch.s, src/sched.c:59-79, src/task.c:183-243)

Any number of CPUs share a memory. Each runs a thread, or its own boot code, and hands itself to another thread by `switch_to`
or, if it gives up what it runs, by `switch_to_init`. Between two calls it may do anything (`Act.work`), but for the contexts and
the stacks of others.

A thread that waits has a node of a wait queue on its stack, which is linked and unlinked by others: `wlist` of `__sem_down`
(`semaphore.c:61-65`) and of `mutex_lock` (`mutex.c:36`, `:48`), `waiter` of `wait_buffer` (`bbuf.c:251-256`). It has lent them
these bytes (`Sys.lent`).
-/

namespace RedMagic.Arch

open X86 Lts

structure Sys (κ τ : Type) where
  core : κ → Core
  /-- The thread that the CPU runs; `none` is its boot code. -/
  cur : κ → Option τ
  /-- The threads made so far that have not been given up. -/
  made : List τ
  mem : Mem
  /-- The bytes of its stack that a thread lets others write; not part of the code. -/
  lent : τ → Set Word

/-- What happens on a CPU between two calls of `switch_to` is any change of its machine. At its end the thread that the CPU runs
lends the bytes `lend`. -/
inductive Act (κ τ : Type) where
  | work (c : κ) (f : Machine → Machine) (lend : Set Word)
  | create (t : τ) (fn arg : Word)
  | switchTo (c : κ) (u : τ)
  | switchToInit (c : κ) (u : τ)

section
variable {κ τ : Type}

/-- The CPU and the thread it is handed to. -/
def Act.hands : Act κ τ → Option (κ × τ)
  | .work _ _ _ | .create _ _ _ => none
  | .switchTo c u | .switchToInit c u => some (c, u)

def Sys.machine (s : Sys κ τ) (c : κ) : Machine := { toCore := s.core c, mem := s.mem }

def Sys.put [DecidableEq κ] (s : Sys κ τ) (c : κ) (m : Machine) : Sys κ τ :=
  { s with core := Function.update s.core c m.toCore, mem := m.mem }

def Sys.run [DecidableEq κ] (s : Sys κ τ) (c : κ) (t : τ) : Sys κ τ := { s with cur := Function.update s.cur c (some t) }

variable [DecidableEq κ] [DecidableEq τ]

def Sys.lend (s : Sys κ τ) (c : κ) (l : Set Word) : Sys κ τ :=
  match s.cur c with
  | none => s
  | some t => { s with lent := Function.update s.lent t l }

/-- `switch_to_init` is called on a CPU without an `rthread`: by the boot code, or by a thread that has finished and does not
come back. -/
def step (k : Kernel τ) (s : Sys κ τ) : Act κ τ → Option (Sys κ τ)
  | .work c f l => some ((s.put c (f (s.machine c))).lend c l)
  | .create t fn arg => some { s with
      made := t :: s.made, mem := createThread k s.mem t fn arg, lent := Function.update s.lent t ∅ }
  | .switchTo c u => some ((s.put c (X86.run (env k.preemptEnable) switchTo (s.machine c))).run c u)
  | .switchToInit c u =>
    let s' := { s with made := s.made.filter fun t => s.cur c ≠ some t }
    some ((s'.put c (X86.run (env k.preemptEnable) switchToInit (s.machine c))).run c u)

/-- A thread writes to no context, and to no stack but its own and what others have lent of theirs. `schedule` calls
`switch_to` with the contexts of the running thread and of one that does not run, or is the same; the frame of the call is
not lent. -/
def Ok (k : Kernel τ) (s : Sys κ τ) : Act κ τ → Prop
  | .work c f _ => ∀ t ∈ s.made,
      (∀ x ∈ contextCells (k.context t), (f (s.machine c)).mem x = s.mem x) ∧
        (s.cur c ≠ some t → ∀ x ∈ stackCells (k.kstackBase t), x ∉ s.lent t → (f (s.machine c)).mem x = s.mem x)
  | .create t _ _ => t ∉ s.made
  | .switchTo c u => u ∈ s.made ∧ (∀ c', c' ≠ c → s.cur c' ≠ some u) ∧ ∃ t, s.cur c = some t ∧
      read32 s.mem ((s.core c).reg .esp + 4#32) = k.context t ∧ read32 s.mem ((s.core c).reg .esp + 8#32) = k.context u ∧
      k.Fits t ((s.core c).reg .esp) ∧ ∀ x ∈ cells ((s.core c).reg .esp) 12, x ∉ s.lent t
  | .switchToInit c u => u ∈ s.made ∧ (∀ c', s.cur c' ≠ some u) ∧ read32 s.mem ((s.core c).reg .esp + 4#32) = k.context u

structure Inv (k : Kernel τ) (s : Sys κ τ) : Prop where
  made : ∀ c t, s.cur c = some t → t ∈ s.made
  one : ∀ c c' t, s.cur c = some t → s.cur c' = some t → c = c'
  parked : ∀ t ∈ s.made, (∀ c, s.cur c ≠ some t) → ∃ y w, k.Keeps s.mem (s.lent t) t y w

end

section
variable {κ τ : Type} {k : Kernel τ} {s s' : Sys κ τ} {c : κ} {t u v : τ}

section
variable [DecidableEq τ] (s : Sys κ τ) (c : κ) (l : Set Word)

@[simp] theorem Sys.lend_core : (s.lend c l).core = s.core := by
  unfold Sys.lend
  split <;> rfl

@[simp] theorem Sys.lend_cur : (s.lend c l).cur = s.cur := by
  unfold Sys.lend
  split <;> rfl

@[simp] theorem Sys.lend_made : (s.lend c l).made = s.made := by
  unfold Sys.lend
  split <;> rfl

@[simp] theorem Sys.lend_mem : (s.lend c l).mem = s.mem := by
  unfold Sys.lend
  split <;> rfl

/-- A thread lends for itself only. -/
theorem Sys.lend_lent_of_ne {s : Sys κ τ} {c : κ} {t : τ} (h : s.cur c ≠ some t) : (s.lend c l).lent t = s.lent t := by
  unfold Sys.lend
  split
  · rfl
  · rename_i u hu
    refine Function.update_of_ne ?_ _ _
    rintro rfl
    exact h hu

end

/-- Both routines: what the caller leaves in memory, and the hand-over. -/
theorem switchTo_hands (hi : Inv k s) (hok : Ok k s (.switchTo c u)) :
    ∃ t mem, s.cur c = some t ∧ k.Keeps mem (s.lent t) t (contextOf (s.machine c)) s.mem ∧
      (∀ v, v ≠ t → ∀ lent y w, k.Keeps s.mem lent v y w → k.Keeps mem lent v y w) ∧
      (∃ y w, k.Keeps mem (s.lent u) u y w) ∧ k.Hands mem u (X86.run (env k.preemptEnable) switchTo (s.machine c)) := by
  obtain ⟨hmade, hfree, t, hcur, harg1, harg2, hfits, hframe⟩ := hok
  have hfits' : k.Fits t ((s.machine c).reg .esp) := hfits
  obtain ⟨m', hm', hrun⟩ := run_switchTo k.preemptEnable (s.machine c)
  have hmem : m'.mem = savedMem (s.machine c) (k.context t) := by
    rw [hm']
    exact congrArg _ harg1
  have hargu : read32 m'.mem ((s.machine c).reg .esp + 8#32) = k.context u := by
    rw [hmem, hfits'.saved_arg]
    exact harg2
  have hothers : ∀ v, v ≠ t → ∀ lent y w, k.Keeps s.mem lent v y w → k.Keeps m'.mem lent v y w := by
    intro v hv lent y w h
    rw [hmem]
    exact hfits'.saved_other hv h
  have hsaved : k.Keeps m'.mem (s.lent t) t (contextOf (s.machine c)) s.mem := by
    rw [hmem]
    exact hfits'.saved hframe
  have hkeeps : ∃ y w, k.Keeps m'.mem (s.lent u) u y w := by
    by_cases hut : u = t
    · subst hut
      exact ⟨_, _, hsaved⟩
    · -- nobody runs `u`
      have hnot : ∀ c', s.cur c' ≠ some u := by
        intro c' hc'
        by_cases hcc : c' = c
        · subst hcc
          rw [hcur] at hc'
          exact hut (Option.some.inj hc').symm
        · exact hfree c' hcc hc'
      obtain ⟨y, w, h⟩ := hi.parked u hmade hnot
      exact ⟨y, w, hothers u hut _ y w h⟩
  obtain ⟨y, w, hu⟩ := hkeeps
  refine ⟨t, m'.mem, hcur, hsaved, hothers, ⟨y, w, hu⟩, ?_⟩
  rw [hrun, hargu]
  exact hands_loaded hu

theorem switchToInit_hands (hi : Inv k s) (hok : Ok k s (.switchToInit c u)) :
    (∃ y w, k.Keeps s.mem (s.lent u) u y w) ∧ k.Hands s.mem u (X86.run (env k.preemptEnable) switchToInit (s.machine c)) := by
  obtain ⟨hmade, hfree, harg⟩ := hok
  obtain ⟨y, w, hu⟩ := hi.parked u hmade hfree
  obtain ⟨m', hm', hrun⟩ := run_switchToInit k.preemptEnable (s.machine c)
  have hmem : m'.mem = s.mem := hm'
  have hargu : read32 (s.machine c).mem ((s.machine c).reg .esp + 4#32) = k.context u := harg
  refine ⟨⟨y, w, hu⟩, ?_⟩
  rw [hrun, hargu]
  rw [← hmem] at hu
  have h := hands_loaded hu
  rw [hmem] at h
  exact h

/-- A thread that no CPU runs lends what it lent. -/
theorem step_lent [DecidableEq κ] [DecidableEq τ] {a : Act κ τ} (hok : Ok k s a) (h : step k s a = some s') (hmade : t ∈ s.made)
    (hnot : ∀ c, (∃ f l, a = .work c f l) → s.cur c ≠ some t) : s'.lent t = s.lent t := by
  cases a with
  | work c f l =>
    cases h
    exact Sys.lend_lent_of_ne l (hnot c ⟨f, l, rfl⟩)
  | create u fn arg =>
    cases h
    refine Function.update_of_ne ?_ _ _
    rintro rfl
    exact hok hmade
  | switchTo c u =>
    cases h
    rfl
  | switchToInit c u =>
    cases h
    rfl

/-- What every step does to the threads that it does not hand a CPU to. -/
theorem step_keeps [DecidableEq κ] [DecidableEq τ] (hi : Inv k s) {a : Act κ τ} (hok : Ok k s a) (h : step k s a = some s')
    (hmade : t ∈ s.made) (hnot : ∀ c, s.cur c ≠ some t) (hhands : ∀ c, a.hands ≠ some (c, t)) {y : Context} {w : Mem}
    (hk : k.Keeps s.mem (s.lent t) t y w) : k.Keeps s'.mem (s'.lent t) t y w := by
  rw [step_lent hok h hmade fun c _ => hnot c]
  cases a with
  | work c f l =>
    cases h
    obtain ⟨hc, hs⟩ := hok t hmade
    rw [Sys.lend_mem]
    exact hk.congr hc fun x hx => hs (hnot c) x (mem_stack_of_live hx)
  | create u fn arg =>
    cases h
    refine hk.createThread ?_ fn arg
    rintro rfl
    exact hok hmade
  | switchTo c u =>
    cases h
    obtain ⟨t', mem, hcur, -, hothers, -, hh⟩ := switchTo_hands hi hok
    have hne : t ≠ t' := by
      rintro rfl
      exact hnot c hcur
    have hut : t ≠ u := by
      rintro rfl
      exact hhands c rfl
    exact hh.others t hut _ y w (hothers t hne _ y w hk)
  | switchToInit c u =>
    cases h
    have hut : t ≠ u := by
      rintro rfl
      exact hhands c rfl
    exact (switchToInit_hands hi hok).2.others t hut _ y w hk

section
variable [DecidableEq κ] [DecidableEq τ]

/-- The thread that a CPU gives up is the one it runs. -/
theorem step_made {a : Act κ τ} (h : step k s a = some s') (hmade : t ∈ s.made)
    (hcur : ∀ c u, a = .switchToInit c u → s.cur c ≠ some t) : t ∈ s'.made := by
  cases a with
  | work c f l =>
    cases h
    rw [Sys.lend_made]
    exact hmade
  | create u fn arg =>
    cases h
    exact List.mem_cons_of_mem _ hmade
  | switchTo c u =>
    cases h
    exact hmade
  | switchToInit c u =>
    cases h
    exact List.mem_filter.2 ⟨hmade, by simpa using hcur c u rfl⟩

/-- Which thread a CPU runs is changed by the hand-over only. -/
theorem step_cur {a : Act κ τ} (h : step k s a = some s') (c : κ) :
    s'.cur c = s.cur c ∧ (∀ u, a.hands ≠ some (c, u)) ∨ ∃ u, a.hands = some (c, u) ∧ s'.cur c = some u := by
  cases a with
  | work d f l =>
    cases h
    exact .inl ⟨congrFun (Sys.lend_cur _ d l) c, fun _ => nofun⟩
  | create u fn arg =>
    cases h
    exact .inl ⟨rfl, fun _ => nofun⟩
  | switchTo d u =>
    cases h
    by_cases hcd : c = d
    · subst hcd
      exact .inr ⟨u, rfl, Function.update_self ..⟩
    · refine .inl ⟨Function.update_of_ne hcd _ _, fun v hv => hcd ?_⟩
      cases hv
      rfl
  | switchToInit d u =>
    cases h
    by_cases hcd : c = d
    · subst hcd
      exact .inr ⟨u, rfl, Function.update_self ..⟩
    · refine .inl ⟨Function.update_of_ne hcd _ _, fun v hv => hcd ?_⟩
      cases hv
      rfl

omit [DecidableEq κ] [DecidableEq τ] in
/-- The thread a CPU is handed to has been made, and no other CPU runs it. -/
theorem ok_hands {a : Act κ τ} (hok : Ok k s a) (h : a.hands = some (c, u)) : u ∈ s.made ∧ ∀ c', c' ≠ c → s.cur c' ≠ some u := by
  cases a with
  | work d f l => cases h
  | create u fn arg => cases h
  | switchTo d u =>
    cases h
    exact ⟨hok.1, hok.2.1⟩
  | switchToInit d u =>
    cases h
    exact ⟨hok.1, fun c' _ => hok.2.1 c'⟩

/-- The thread that gave the CPU away keeps its registers in its context. -/
theorem switchTo_keeps (hi : Inv k s) (hok : Ok k s (.switchTo c u)) (h : step k s (.switchTo c u) = some s')
    (hcur : s.cur c = some t) (hut : u ≠ t) : k.Keeps s'.mem (s.lent t) t (contextOf (s.machine c)) s.mem := by
  obtain ⟨t', mem, hcur', hsaved, -, -, hh⟩ := switchTo_hands hi hok
  obtain rfl : t = t' := Option.some.inj (hcur.symm.trans hcur')
  cases h
  exact hh.others t hut.symm _ _ _ hsaved

theorem step_made_hands {a : Act κ τ} (hok : Ok k s a) (h : step k s a = some s') (hh : a.hands = some (c, u)) : u ∈ s'.made := by
  refine step_made h (ok_hands hok hh).1 fun d v ha => ?_
  subst ha
  cases hh
  exact hok.2.1 c

theorem Inv.step (hi : Inv k s) {a : Act κ τ} (hok : Ok k s a) (h : step k s a = some s') : Inv k s' where
  made c t hc := by
    rcases step_cur h c with ⟨hcur, hno⟩ | ⟨u, hh, hcur⟩
    · refine step_made h (hi.made c t (hcur ▸ hc)) fun d v ha hd => ?_
      -- the CPU that is given up is another one
      obtain rfl : d = c := hi.one d c t hd (hcur ▸ hc)
      exact hno v (by rw [ha]; rfl)
    · rw [hcur] at hc
      cases hc
      exact step_made_hands hok h hh
  one c c' t hc hc' := by
    by_contra hne
    rcases step_cur h c with ⟨hcur, -⟩ | ⟨u, hh, hcur⟩ <;> rcases step_cur h c' with ⟨hcur', -⟩ | ⟨u', hh', hcur'⟩
    · exact hne (hi.one c c' t (hcur ▸ hc) (hcur' ▸ hc'))
    · obtain rfl : u' = t := Option.some.inj (hcur'.symm.trans hc')
      exact (ok_hands hok hh').2 c hne (hcur ▸ hc)
    · obtain rfl : u = t := Option.some.inj (hcur.symm.trans hc)
      exact (ok_hands hok hh).2 c' (fun hcc => hne hcc.symm) (hcur' ▸ hc')
    · rw [hh] at hh'
      cases hh'
      exact hne rfl
  parked t hmade hnot := by
    have hhands : ∀ c, a.hands ≠ some (c, t) := by
      intro c hc
      rcases step_cur h c with ⟨-, hno⟩ | ⟨u, hh, hcur⟩
      · exact hno t hc
      · rw [hh] at hc
        cases hc
        exact hnot c hcur
    by_cases hold : t ∈ s.made
    · by_cases hcur : ∀ c, s.cur c ≠ some t
      · obtain ⟨y, w, hk⟩ := hi.parked t hold hcur
        exact ⟨y, w, step_keeps hi hok h hold hcur hhands hk⟩
      · -- it has just given its CPU away
        obtain ⟨c, hc⟩ := not_forall_not.1 hcur
        rcases step_cur h c with ⟨hcur', -⟩ | ⟨u, hh, hcur'⟩
        · exact absurd (hcur'.trans hc) (hnot c)
        · cases a with
          | work d f l => cases hh
          | create v fn arg => cases hh
          | switchTo d v =>
            cases hh
            have hlent := step_lent hok h hold fun _ => nofun
            rw [hlent]
            refine ⟨_, _, switchTo_keeps hi hok h hc ?_⟩
            rintro rfl
            exact hnot c hcur'
          | switchToInit d v =>
            cases hh
            cases h
            have hne := (List.mem_filter.1 hmade).2
            simp [hc] at hne
    · cases a with
      | create u fn arg =>
        cases h
        rcases List.mem_cons.1 hmade with rfl | hin
        · refine ⟨k.firstContext t, createThread k s.mem t fn arg, ?_⟩
          show k.Keeps _ (Function.update s.lent t ∅ t) _ _ _
          rw [Function.update_self]
          exact keeps_createThread k s.mem t fn arg
        · exact absurd hin hold
      | work c f l =>
        cases h
        rw [Sys.lend_made] at hmade
        exact absurd hmade hold
      | switchTo c u =>
        cases h
        exact absurd hmade hold
      | switchToInit c u =>
        cases h
        exact absurd (List.mem_filter.1 hmade).1 hold

end

/-! ## Runs -/

/-- The CPUs are in their boot code, and no thread has been made. -/
def Sys.Boot (s : Sys κ τ) : Prop := (∀ c, s.cur c = none) ∧ s.made = []

theorem Sys.Boot.inv (h : s.Boot) : Inv k s where
  made c t hc := by
    rw [h.1 c] at hc
    cases hc
  one c c' t hc := by
    rw [h.1 c] at hc
    cases hc
  parked t ht := by
    rw [h.2] at ht
    cases ht

section
variable [DecidableEq κ] [DecidableEq τ]

/-- A run in which no CPU is handed to `t`. -/
def ReachesWithout (k : Kernel τ) (t : τ) : Sys κ τ → Sys κ τ → Prop :=
  Reaches (step k) fun s a => Ok k s a ∧ ∀ c, a.hands ≠ some (c, t)

theorem reaches_inv {s₀ : Sys κ τ} (h0 : s₀.Boot) (h : Reaches (step k) (Ok k) s₀ s) : Inv k s :=
  h.invariant h0.inv fun _ _ _ hi hok hs => hi.step hok hs

/-- A thread that does not run keeps its context and its stack until a CPU is handed to it, but for what it has lent. -/
theorem ReachesWithout.keeps {lent : Set Word} {y : Context} {w : Mem} (h : ReachesWithout k t s s') (hi : Inv k s)
    (hmade : t ∈ s.made) (hnot : ∀ c, s.cur c ≠ some t) (hlent : s.lent t = lent) (hk : k.Keeps s.mem lent t y w) :
    Inv k s' ∧ (∀ c, s'.cur c ≠ some t) ∧ k.Keeps s'.mem lent t y w := by
  subst hlent
  have hall : Inv k s' ∧ t ∈ s'.made ∧ (∀ c, s'.cur c ≠ some t) ∧ s'.lent t = s.lent t ∧ k.Keeps s'.mem (s'.lent t) t y w := by
    refine h.invariant (I := fun u => Inv k u ∧ t ∈ u.made ∧ (∀ c, u.cur c ≠ some t) ∧ u.lent t = s.lent t ∧
      k.Keeps u.mem (u.lent t) t y w) ⟨hi, hmade, hnot, rfl, hk⟩ ?_
    rintro u a v ⟨hi, hmade, hnot, hlent, hk⟩ ⟨hok, hhands⟩ hs
    refine ⟨hi.step hok hs, step_made hs hmade fun c _ _ => hnot c, fun c hc => ?_,
      (step_lent hok hs hmade fun c _ => hnot c).trans hlent, step_keeps hi hok hs hmade hnot hhands hk⟩
    rcases step_cur hs c with ⟨hcur, -⟩ | ⟨u', hh, hcur⟩
    · exact hnot c (hcur ▸ hc)
    · rw [hcur] at hc
      cases hc
      exact hhands c hh
  obtain ⟨hi', -, hnot', hlent, hk'⟩ := hall
  exact ⟨hi', hnot', hlent ▸ hk'⟩

omit [DecidableEq τ] in
theorem machine_put_run (s : Sys κ τ) (c : κ) (m : Machine) (t : τ) : ((s.put c m).run c t).machine c = m := by
  simp [Sys.put, Sys.run, Sys.machine]

/-- A CPU that is handed to `t` goes on with the context and the stack of `t`. -/
theorem hands_resumed {a : Act κ τ} {lent : Set Word} {y : Context} {w : Mem} (hi : Inv k s) (hnot : ∀ c, s.cur c ≠ some t)
    (hk : k.Keeps s.mem lent t y w) (hok : Ok k s a) (hh : a.hands = some (c, t)) (h : step k s a = some s') :
    Resumed y w (s'.machine c) ∧ ∀ x ∈ liveCells (k.kstackBase t) y.esp, x ∉ lent → s'.mem x = w x := by
  cases a with
  | work d f l => cases hh
  | create u fn arg => cases hh
  | switchTo d u =>
    cases hh
    obtain ⟨t', mem, hcur, -, hothers, -, hands⟩ := switchTo_hands hi hok
    have hne : t ≠ t' := by
      rintro rfl
      exact hnot c hcur
    obtain ⟨hres, hlive⟩ := hands.resumed lent y w (hothers t hne lent y w hk)
    cases h
    rw [machine_put_run]
    exact ⟨hres, hlive⟩
  | switchToInit d u =>
    cases hh
    obtain ⟨hres, hlive⟩ := (switchToInit_hands hi hok).2.resumed lent y w hk
    cases h
    rw [machine_put_run]
    exact ⟨hres, hlive⟩

variable {s₀ s₁ s₃ : Sys κ τ} {c' : κ}

/-- After thread `t` has called `switch_to` for `u` on the CPU `c`, some CPU `c'` is handed to `t` the next time. If `u` is `t`
itself, this is at once. -/
inductive ComesBack (k : Kernel τ) (t u : τ) (c : κ) (s₁ : Sys κ τ) : κ → Sys κ τ → Prop
  | same : u = t → ComesBack k t u c s₁ c s₁
  | later {s₂ s₃ : Sys κ τ} {a : Act κ τ} {c' : κ} : u ≠ t → ReachesWithout k t s₁ s₂ → Ok k s₂ a → a.hands = some (c', t) →
      step k s₂ a = some s₃ → ComesBack k t u c s₁ c' s₃

theorem ComesBack.resumed (hb : ComesBack k t u c s₁ c' s₃) (hi : Inv k s) (hcur : s.cur c = some t)
    (hok : Ok k s (.switchTo c u)) (h1 : step k s (.switchTo c u) = some s₁) :
    Resumed (contextOf (s.machine c)) s.mem (s₃.machine c') ∧
      ∀ x ∈ liveCells (k.kstackBase t) ((s.core c).reg .esp), x ∉ s.lent t → s₃.mem x = s.mem x := by
  cases hb with
  | same hut =>
    subst hut
    obtain ⟨t', mem, hcur', hsaved, -, -, hands⟩ := switchTo_hands hi hok
    obtain rfl : u = t' := Option.some.inj (hcur.symm.trans hcur')
    obtain ⟨hres, hlive⟩ := hands.resumed _ _ _ hsaved
    cases h1
    rw [machine_put_run]
    exact ⟨hres, hlive⟩
  | later hut hrun hok' ha h3 =>
    have hnot : ∀ d, s₁.cur d ≠ some t := by
      intro d hd
      rcases step_cur h1 d with ⟨hcur', hno⟩ | ⟨v, hh, hcur'⟩
      · obtain rfl : d = c := hi.one d c t (hcur' ▸ hd) hcur
        exact hno u rfl
      · cases hh
        exact hut (Option.some.inj (hcur'.symm.trans hd))
    have hmade := step_made h1 (hi.made c t hcur) fun _ _ => nofun
    have hlent := step_lent hok h1 (hi.made c t hcur) fun _ => nofun
    obtain ⟨hi₂, hnot₂, hk⟩ := hrun.keeps (hi.step hok h1) hmade hnot hlent (switchTo_keeps hi hok h1 hcur hut)
    exact hands_resumed hi₂ hnot₂ hk hok' ha h3

/-- **A thread gets its CPU back as it gave it away.** In every run, on any number of CPUs and whatever the threads do in
between: when `switch_to` is called by thread `t` and some CPU is handed to `t` the next time, `t` goes on behind its call, with
the registers that a call must keep and the interrupt flag as they were. Its stack is as it was but for the bytes that it had
lent to others when it called. -/
theorem switch_resumes_thread (hboot : s₀.Boot) (hr : Reaches (step k) (Ok k) s₀ s) (hcur : s.cur c = some t)
    (hok : Ok k s (.switchTo c u)) (h1 : step k s (.switchTo c u) = some s₁) :
    (u = t → Resumed (contextOf (s.machine c)) s.mem (s₁.machine c) ∧
      ∀ x ∈ liveCells (k.kstackBase t) ((s.core c).reg .esp), x ∉ s.lent t → s₁.mem x = s.mem x) ∧
    (u ≠ t → ∀ s₂ a c' s₃, ReachesWithout k t s₁ s₂ → Ok k s₂ a → a.hands = some (c', t) → step k s₂ a = some s₃ →
      Resumed (contextOf (s.machine c)) s.mem (s₃.machine c') ∧
        ∀ x ∈ liveCells (k.kstackBase t) ((s.core c).reg .esp), x ∉ s.lent t → s₃.mem x = s.mem x) := by
  have hi := reaches_inv hboot hr
  refine ⟨fun hut => ?_, fun hut s₂ a c' s₃ hrun hok' ha h3 => ?_⟩
  · exact (ComesBack.same hut).resumed hi hcur hok h1
  · exact (ComesBack.later hut hrun hok' ha h3).resumed hi hcur hok h1

/-- **A new thread starts in its function.** When a CPU is handed to a new thread for the first time, it runs `fn` on an
otherwise empty stack, as if `fn` had been called with `arg` from `__finish_thread`, with interrupts on. -/
theorem new_thread_starts {fn arg : Word} (hboot : s₀.Boot) (hr : Reaches (step k) (Ok k) s₀ s) (hok : Ok k s (.create t fn arg))
    (h1 : step k s (.create t fn arg) = some s₁) {s₂ : Sys κ τ} {a : Act κ τ} (hrun : ReachesWithout k t s₁ s₂)
    (hok' : Ok k s₂ a) (ha : a.hands = some (c, t)) (h3 : step k s₂ a = some s₃) :
    (s₃.core c).eip = fn ∧ (s₃.core c).reg .esp = k.top t - 8#32 ∧ read32 s₃.mem (k.top t - 8#32) = k.finishThread ∧
      read32 s₃.mem (k.top t - 4#32) = arg ∧ (s₃.core c).eflags.intr = true ∧
      ∀ r ∈ [Reg.ebp, .ebx, .esi, .edi], (s₃.core c).reg r = 0#32 := by
  have hi := reaches_inv hboot hr
  have hi₁ := hi.step hok h1
  have hnot : ∀ d, s₁.cur d ≠ some t := by
    intro d hd
    rcases step_cur h1 d with ⟨hcur', -⟩ | ⟨v, hh, -⟩
    · exact hok (hi.made d t (hcur' ▸ hd))
    · cases hh
  have hkeeps := keeps_createThread k s.mem t fn arg
  obtain ⟨hfn, hfin, harg⟩ := frame_createThread k s.mem t fn arg
  cases h1
  -- a new thread has lent nothing
  obtain ⟨hi₂, hnot₂, hk⟩ := hrun.keeps hi₁ List.mem_cons_self hnot (Function.update_self ..) hkeeps
  obtain ⟨hres, hlive⟩ := hands_resumed hi₂ hnot₂ hk hok' ha h3
  have hfits := k.fits_first t
  have hword (j : Word) (hj : j.toNat + 4 ≤ 12) : read32 s₃.mem ((k.firstContext t).esp + j) =
      read32 (createThread k s.mem t fn arg) ((k.firstContext t).esp + j) :=
    read32_congr fun x hx => hlive x (hfits.live hj hx) (Set.notMem_empty x)
  have h8 : (k.firstContext t).esp + 4#32 = k.top t - 8#32 := by
    show k.top t - 12#32 + 4#32 = _
    bv_omega
  have h4 : (k.firstContext t).esp + 8#32 = k.top t - 4#32 := by
    show k.top t - 12#32 + 8#32 = _
    bv_omega
  refine ⟨hres.eip.trans hfn, hres.esp.trans h8, ?_, ?_, hres.intr.trans (by decide : (0x200#32).getLsbD 9 = true), ?_⟩
  · have hw := hword 4#32 (by decide)
    rw [h8] at hw
    exact hw.trans hfin
  · have hw := hword 8#32 (by decide)
    rw [h4] at hw
    exact hw.trans harg
  · simp only [List.mem_cons, List.not_mem_nil, or_false]
    rintro r (rfl | rfl | rfl | rfl)
    · exact hres.ebp
    · exact hres.ebx
    · exact hres.esi
    · exact hres.edi

end

end

/-! ## A run with two threads -/

/-- Two threads, and a `preempt_enable` that leaves the machine alone. -/
def twoThreads : Kernel Bool where
  context b := if b then 0x2000#32 else 0x1000#32
  kstackBase b := if b then 0x20000#32 else 0x10000#32
  finishThread := 0x100#32
  preemptEnable := id
  depth := 0
  depth_le := by decide
  contexts_apart := by
    rintro (_ | _) (_ | _) h
    · exact absurd rfl h
    · exact apart_cells (by decide) (by decide)
    · exact apart_cells (by decide) (by decide)
    · exact absurd rfl h
  stacks_apart := by
    rintro (_ | _) (_ | _) h
    · exact absurd rfl h
    · exact apart_cells (by decide) (by decide)
    · exact apart_cells (by decide) (by decide)
    · exact absurd rfl h
  context_stack := by
    rintro (_ | _) (_ | _)
    · exact apart_cells (by decide) (by decide)
    · exact apart_cells (by decide) (by decide)
    · exact apart_cells (by decide) (by decide)
    · exact apart_cells (by decide) (by decide)
  cdecl := ⟨fun _ _ _ => rfl, fun _ => rfl⟩
  footprint _ _ _ _ _ _ := rfl

/-- `esp` is moved to where a call of `switch_to(prev, next)` leaves it, and the arguments are there. -/
def callSwitch (esp prev next : Word) (m : Machine) : Machine :=
  { m.setReg .esp esp with mem := write32 (write32 m.mem (esp + 4#32) prev) (esp + 8#32) next }

theorem callSwitch_mem {esp prev next x : Word} {m : Machine} (h : x ∉ cells (esp + 4#32) 8) :
    (callSwitch esp prev next m).mem x = m.mem x := by
  have h4 : x ∉ cells (esp + 4#32) 4 := by
    rw [mem_cells] at h ⊢
    omega
  have h8 : x ∉ cells (esp + 8#32) 4 := by
    rw [mem_cells] at h ⊢
    bv_omega
  exact (write32_of_notMem h8).trans (write32_of_notMem h4)

theorem ok_callSwitch {κ τ : Type} {k : Kernel τ} {s : Sys κ τ} {c : κ} {esp prev next : Word} (lend : Set Word)
    (h : ∀ t ∈ s.made, Apart (contextCells (k.context t)) (cells (esp + 4#32) 8) ∧
      (s.cur c ≠ some t → Apart (stackCells (k.kstackBase t)) (cells (esp + 4#32) 8))) :
    Ok k s (.work c (callSwitch esp prev next) lend) := fun t ht =>
  ⟨fun _ hx => callSwitch_mem ((h t ht).1 _ hx),
    fun hcur _ hx _ => callSwitch_mem ((h t ht).2 hcur _ hx)⟩

theorem callSwitch_args (esp prev next : Word) (m : Machine) :
    read32 (callSwitch esp prev next m).mem (esp + 4#32) = prev ∧ read32 (callSwitch esp prev next m).mem (esp + 8#32) = next := by
  refine ⟨?_, read32_write32 _ _ _⟩
  show read32 (write32 (write32 _ (esp + 4#32) prev) (esp + 8#32) next) (esp + 4#32) = prev
  rw [read32_write32_add (by decide) (by decide), read32_write32]

def bootSys : Sys Unit Bool :=
  ⟨fun _ => ⟨fun _ => 0#32, fun _ => 0#16, 0#32, .load 0#32⟩, fun _ => none, [], fun _ => 0#8, fun _ => ∅⟩

theorem bootSys_boot : bootSys.Boot := ⟨fun _ => rfl, rfl⟩

/-- One thread is made … -/
def oneMade : Sys Unit Bool :=
  { bootSys with
    made := [false], mem := createThread twoThreads bootSys.mem false 0x111#32 7#32, lent := Function.update bootSys.lent false ∅ }

/-- … and the other one; the boot code is about to call `switch_to_init` for the first. -/
def readySys : Sys Unit Bool :=
  let s := { oneMade with
    made := [true, false], mem := createThread twoThreads oneMade.mem true 0x222#32 8#32,
    lent := Function.update oneMade.lent true ∅ }
  s.put () (callSwitch 0x8000#32 0x1000#32 0#32 (s.machine ()))

/-- The node of a wait queue on the stack of the first thread. -/
def waitNode : Set Word := cells 0x10900#32 12

/-- It runs, queues its node, and is about to call `switch_to` for the other one. -/
def callingSys : Sys Unit Bool :=
  let s := (readySys.put () (X86.run (env id) switchToInit (readySys.machine ()))).run () false
  (s.put () (callSwitch 0x10800#32 0x1000#32 0x2000#32 (s.machine ()))).lend () waitNode

theorem oneMade_readySys : ReachesWithout twoThreads false oneMade readySys := by
  refine Reaches.head (a := .create true 0x222#32 8#32) ⟨by simp [Ok, oneMade], fun _ => nofun⟩ rfl ?_
  refine Reaches.head (a := .work () (callSwitch 0x8000#32 0x1000#32 0#32) ∅) ⟨ok_callSwitch ∅ ?_, fun _ => nofun⟩ rfl
    (Reaches.refl _)
  rintro (_ | _) -
  · exact ⟨apart_cells (by decide) (by decide), fun _ => apart_cells (by decide) (by decide)⟩
  · exact ⟨apart_cells (by decide) (by decide), fun _ => apart_cells (by decide) (by decide)⟩

theorem ok_readySys : Ok twoThreads readySys (.switchToInit () false) := by
  refine ⟨by simp [readySys, Sys.put], fun _ => nofun, ?_⟩
  exact (callSwitch_args 0x8000#32 0x1000#32 0#32 _).1

theorem new_thread_starts_first :
    ∃ s₃ : Sys Unit Bool, step twoThreads readySys (.switchToInit () false) = some s₃ ∧ (s₃.core ()).eip = 0x111#32 ∧
      read32 s₃.mem 0x10FFC#32 = 7#32 := by
  have h := new_thread_starts (k := twoThreads) (t := false) bootSys_boot (Reaches.refl _) (by simp [Ok, bootSys]) rfl
    oneMade_readySys ok_readySys rfl rfl
  exact ⟨_, rfl, h.1, h.2.2.2.1⟩

theorem callingSys_reached : Reaches (step twoThreads) (Ok twoThreads) bootSys callingSys := by
  refine Reaches.head (a := .create false 0x111#32 7#32) (by simp [Ok, bootSys]) rfl ?_
  refine (Reaches.mono oneMade_readySys fun _ _ h => h.1).trans ?_
  refine Reaches.head ok_readySys rfl ?_
  refine Reaches.head (a := .work () (callSwitch 0x10800#32 0x1000#32 0x2000#32) waitNode) (ok_callSwitch waitNode ?_) rfl
    (Reaches.refl _)
  rintro (_ | _) -
  · exact ⟨apart_cells (by decide) (by decide), fun h => absurd rfl h⟩
  · exact ⟨apart_cells (by decide) (by decide), fun _ => apart_cells (by decide) (by decide)⟩

theorem callingSys_cur : callingSys.cur () = some false := rfl

theorem callingSys_made : callingSys.made = [true, false] := rfl

theorem callingSys_lent : callingSys.lent false = waitNode := rfl

theorem callingSys_esp : (callingSys.core ()).reg .esp = 0x10800#32 := rfl

/-- Below the node there is room for a call. -/
theorem not_mem_waitNode {esp : Word} {n : Nat} (h : n ≤ (0x10900#32 - esp).toNat) (h' : 12 ≤ (esp - 0x10900#32).toNat) :
    ∀ x ∈ cells esp n, x ∉ waitNode := apart_cells h h'

/-- The second thread takes the node of the first out of its queue and calls `switch_to` for it. -/
def unlinks (m : Machine) : Machine :=
  callSwitch 0x20800#32 0x2000#32 0x1000#32 { m with mem := write32 m.mem 0x10904#32 0#32 }

theorem unlinks_mem {m : Machine} {x : Word} (h : x ∉ cells (0x20800#32 + 4#32) 8) (h' : x ∉ cells 0x10904#32 4) :
    (unlinks m).mem x = m.mem x :=
  (callSwitch_mem h).trans (write32_of_notMem h')

def handOver (s : Sys Unit Bool) (u : Bool) : Sys Unit Bool := (s.put () (X86.run (env id) switchTo (s.machine ()))).run () u

section
variable (s : Sys Unit Bool) (u : Bool)

theorem handOver_made : (handOver s u).made = s.made := rfl

theorem handOver_cur : (handOver s u).cur () = some u := rfl

theorem handOver_lent (t : Bool) : (handOver s u).lent t = s.lent t := rfl

end

def unlinked (s : Sys Unit Bool) : Sys Unit Bool := (s.put () (unlinks (s.machine ()))).lend () ∅

theorem unlinked_reached {s : Sys Unit Bool} (hcur : s.cur () = some true) (hlent : s.lent false = waitNode) :
    ReachesWithout twoThreads false s (unlinked s) := by
  refine Reaches.head (a := .work () unlinks ∅) ⟨?_, fun _ => nofun⟩ rfl (Reaches.refl _)
  rintro (_ | _) -
  · refine ⟨fun x hx => unlinks_mem ?_ ?_, fun _ x hx hnode => unlinks_mem ?_ ?_⟩
    · exact apart_cells (by decide) (by decide) x hx
    · exact apart_cells (by decide) (by decide) x hx
    · exact apart_cells (by decide) (by decide) x hx
    · intro hin
      rw [hlent] at hnode
      exact hnode (mem_cells_of_add (k := 4#32) (n := 12) hin (by decide))
  · refine ⟨fun x hx => unlinks_mem ?_ ?_, fun h => absurd hcur h⟩
    · exact apart_cells (by decide) (by decide) x hx
    · exact apart_cells (by decide) (by decide) x hx

theorem ok_unlinked {s : Sys Unit Bool} (hmade : s.made = [true, false]) (hcur : s.cur () = some true) :
    Ok twoThreads (unlinked s) (.switchTo () false) := by
  have hmem : (unlinked s).mem = (unlinks (s.machine ())).mem := Sys.lend_mem ..
  have hesp : ((unlinked s).core ()).reg .esp = 0x20800#32 := by
    rw [unlinked, Sys.lend_core]
    rfl
  have hnone : (unlinked s).lent true = ∅ := by
    have hput : (s.put () (unlinks (s.machine ()))).cur () = some true := hcur
    simp only [unlinked, Sys.lend, hput, Function.update_self]
  obtain ⟨h4, h8⟩ := callSwitch_args 0x20800#32 0x2000#32 0x1000#32 { s.machine () with mem := write32 s.mem 0x10904#32 0#32 }
  refine ⟨?_, fun c' hc' => absurd rfl hc', true, ?_, ?_, ?_, ?_, ?_⟩
  · rw [unlinked, Sys.lend_made]
    show false ∈ s.made
    rw [hmade]
    decide
  · rw [unlinked, Sys.lend_cur]
    exact hcur
  · rw [hesp, hmem]
    exact h4
  · rw [hesp, hmem]
    exact h8
  · rw [hesp]
    exact ⟨by decide, by decide⟩
  · rw [hnone]
    exact fun x _ => Set.notMem_empty x

/-- The node on the stack of the sleeping thread is written, and the rest of its stack is as it was. -/
theorem switch_resumes_thread_first :
    callingSys.cur () = some false ∧ callingSys.lent false = waitNode ∧ ∃ s₃ : Sys Unit Bool,
      ComesBack twoThreads false true () (handOver callingSys true) () s₃ ∧ (s₃.machine ()).reg .esp = 0x10804#32 ∧
      read32 s₃.mem 0x10910#32 = read32 callingSys.mem 0x10910#32 := by
  have hok : Ok twoThreads callingSys (.switchTo () true) := by
    refine ⟨by simp [callingSys_made], fun c' hc' => absurd rfl hc', false, callingSys_cur, ?_, ?_, ⟨by decide, by decide⟩, ?_⟩
    · exact (callSwitch_args 0x10800#32 0x1000#32 0x2000#32 _).1
    · exact (callSwitch_args 0x10800#32 0x1000#32 0x2000#32 _).2
    · rw [callingSys_lent]
      exact not_mem_waitNode (by decide) (by decide)
  have hcur := handOver_cur callingSys true
  have hrun := unlinked_reached hcur ((handOver_lent ..).trans callingSys_lent)
  have hok' := ok_unlinked ((handOver_made ..).trans callingSys_made) hcur
  have h := (switch_resumes_thread bootSys_boot callingSys_reached callingSys_cur hok rfl).2 (by decide)
    (unlinked (handOver callingSys true)) (.switchTo () false) () _ hrun hok' rfl rfl
  refine ⟨rfl, callingSys_lent, _, .later (by decide) hrun hok' rfl rfl, h.1.esp, read32_congr fun x hx => h.2 x ?_ ?_⟩
  · rw [callingSys_esp]
    rw [mem_cells] at hx
    simp only [liveCells, twoThreads, tStackSize, Set.mem_ofPred_eq, Bool.false_eq_true, if_false]
    bv_omega
  · rw [callingSys_lent]
    exact not_mem_waitNode (by decide) (by decide) x hx

end RedMagic.Arch
