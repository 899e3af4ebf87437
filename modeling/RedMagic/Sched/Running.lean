import RedMagic.Sched.Lifecycle

/-!
# One running thread per CPU

A thread is put on the queue of one CPU, its home, and only its home ever makes it its `rthread` (`Homes`). What
`schedule`, `make_sleep`, `wake_up`, `create_thread` and `__finish_thread` do to the status fits that
(`StatusInv`): a thread is `T_RUNNING` only as the `rthread` of its home. Both hold between any two steps, also
while some CPU is inside the loop of `__do_sched_rr`; to take `schedule` as one step is to look at fewer states.
-/

namespace RedMagic.Sched

open Lts

section
variable {n : Nat} {τ : Type}

/-- `H t` is the CPU whose queue the thread was put on, if it was. -/
structure Homes (H : τ → Option (Fin n)) (s : Machine n τ) : Prop where
  queue : ∀ c t, t ∈ queued (s.cpu c).runq → H t = some c
  rthread : ∀ c t, (s.cpu c).rthread = some t → H t = some c
  nodup : ∀ c, (queued (s.cpu c).runq).Nodup
  fresh : ∀ t, t ∉ s.threads → H t = none
  born : ∀ x t, (s.pc x).creates = some t → t ∈ s.threads
  adding : ∀ x t a on, s.pc x = .adding (some t) a on → H t = none
  creator : ∀ x y t, (s.pc x).creates = some t → (s.pc y).creates = some t → x = y

structure StatusInv (s : Machine n τ) : Prop where
  creating : ∀ x t, (s.pc x).creates = some t → s.status t = .init
  running : ∀ t, s.status t = .running → ∃ c, (s.cpu c).rthread = some t
  awake : ∀ c t, (s.cpu c).scan = none → (s.cpu c).rthread = some t → s.status t ≠ .init
  scanning : ∀ c t, (s.cpu c).scan ≠ none → (s.cpu c).rthread = some t → s.status t ≠ .running

theorem homes_start : Homes (fun _ => none) (start n τ) := by
  refine ⟨?_, ?_, fun _ => List.nodup_nil, fun _ _ => rfl, ?_, ?_, ?_⟩ <;> simp [start, queued, Pc.creates]

theorem statusInv_start : StatusInv (start n τ) := by
  constructor <;> simp [start, Pc.creates]

variable {H : τ → Option (Fin n)} {s s' : Machine n τ} {c : Fin n}

/-! ## What a step leaves as it is -/

theorem preempt_field {α : Type} (g : Cpu n τ → α) (hg : ∀ x on, g { x with preemptOn := on } = g x)
    (s : Machine n τ) (c c' : Fin n) (on : Bool) : g ((s.preempt c on).cpu c') = g (s.cpu c') := by
  by_cases hc : c' = c
  · rw [hc, Machine.preempt, setCpu_cpu_self, hg]
  · rw [Machine.preempt, setCpu_cpu_ne s c hc]

@[simp] theorem preempt_runq (c' : Fin n) (on : Bool) : ((s.preempt c on).cpu c').runq = (s.cpu c').runq :=
  preempt_field Cpu.runq (fun _ _ => rfl) s c c' on

@[simp] theorem preempt_rthread (c' : Fin n) (on : Bool) : ((s.preempt c on).cpu c').rthread = (s.cpu c').rthread :=
  preempt_field Cpu.rthread (fun _ _ => rfl) s c c' on

@[simp] theorem preempt_scan (c' : Fin n) (on : Bool) : ((s.preempt c on).cpu c').scan = (s.cpu c').scan :=
  preempt_field Cpu.scan (fun _ _ => rfl) s c c' on

theorem Homes.frame (hi : Homes H s) (hq : ∀ c, (queued (s'.cpu c).runq).Sublist (queued (s.cpu c).runq))
    (hr : ∀ c t, (s'.cpu c).rthread = some t → (s.cpu c).rthread = some t ∨ t ∈ queued (s.cpu c).runq)
    (hpc : ∀ x, (s'.pc x).creates = none ∨ s'.pc x = s.pc x) (ht : s.threads ⊆ s'.threads) : Homes H s' := by
  have hcreates : ∀ x t, (s'.pc x).creates = some t → (s.pc x).creates = some t := by
    intro x t h
    rcases hpc x with hnone | heq
    · rw [hnone] at h
      cases h
    · rwa [← heq]
  constructor
  · intro c t h
    exact hi.queue c t ((hq c).subset h)
  · intro c t h
    rcases hr c t h with h | h
    · exact hi.rthread c t h
    · exact hi.queue c t h
  · intro c
    exact (hi.nodup c).sublist (hq c)
  · intro t h
    exact hi.fresh t fun hmem => h (ht hmem)
  · intro x t h
    exact ht (hi.born x t (hcreates x t h))
  · intro x t a on h
    have hc : (s'.pc x).creates = some t := by
      rw [h]
      rfl
    rcases hpc x with hnone | heq
    · rw [hnone] at hc
      cases hc
    · exact hi.adding x t a on (heq ▸ h)
  · intro x y t hx hy
    exact hi.creator x y t (hcreates x t hx) (hcreates y t hy)

theorem StatusInv.frame (hi : StatusInv s) (hst : s'.status = s.status)
    (hr : ∀ c, (s'.cpu c).rthread = (s.cpu c).rthread) (hs : ∀ c, (s'.cpu c).scan = (s.cpu c).scan)
    (hpc : ∀ x t, (s'.pc x).creates = some t → (s.pc x).creates = some t) : StatusInv s' := by
  constructor
  · intro x t h
    rw [hst]
    exact hi.creating x t (hpc x t h)
  · intro t h
    rw [hst] at h
    obtain ⟨c, hc⟩ := hi.running t h
    exact ⟨c, (hr c).trans hc⟩
  · intro c t h1 h2
    rw [hst]
    rw [hs] at h1
    rw [hr] at h2
    exact hi.awake c t h1 h2
  · intro c t h1 h2
    rw [hst]
    rw [hs] at h1
    rw [hr] at h2
    exact hi.scanning c t h1 h2

theorem Homes.status (hi : Homes H s) (st : τ → Status) : Homes H { s with status := st } := { hi with }

theorem Homes.setEntries (hi : Homes H s) (l : List Nat) : Homes H { s with entries := l } := { hi with }

theorem Homes.setCpu (hi : Homes H s) {x : Cpu n τ} (hq : (queued x.runq).Sublist (queued (s.cpu c).runq))
    (hr : ∀ t, x.rthread = some t → (s.cpu c).rthread = some t ∨ t ∈ queued (s.cpu c).runq) :
    Homes H (s.setCpu c x) := by
  refine hi.frame ?_ ?_ (fun x => .inr rfl) (List.Subset.refl _)
  · intro c'
    by_cases hc : c' = c
    · rw [hc, setCpu_cpu_self]
      exact hq
    · have hsame : (s.setCpu c x).cpu c' = s.cpu c' := setCpu_cpu_ne s c hc x
      exact hsame ▸ List.Sublist.refl _
  · intro c' t h
    by_cases hc : c' = c
    · rw [hc, setCpu_cpu_self] at h
      rw [hc]
      exact hr t h
    · rw [setCpu_cpu_ne s c hc] at h
      exact .inl h

theorem Homes.preempt (hi : Homes H s) (on : Bool) : Homes H (s.preempt c on) :=
  hi.setCpu (List.Sublist.refl _) fun _ h => .inl h

theorem StatusInv.preempt (hi : StatusInv s) (on : Bool) : StatusInv (s.preempt c on) :=
  hi.frame rfl (fun c' => preempt_rthread c' on) (fun c' => preempt_scan c' on) fun _ _ h => h

theorem StatusInv.not_making (hi : StatusInv s) {t : τ} (h : s.status t ≠ .init) (x : Ctx n τ) : (s.pc x).creates ≠ some t :=
  fun hx => h (hi.creating x t hx)

/-- The thread a round sets as `rthread` is the old one or the first of the queue. -/
theorem advance_rthread_cases (x : Cpu n τ) (p : Ptr) {t : τ} (h : (advance x p).2.2 = some t) :
    x.rthread = some t ∨ x.rthread = none ∧ t ∈ queued x.runq := by
  unfold advance at h
  split at h
  · rename_i t' ht
    exact .inl (ht.trans h)
  · rename_i hnone
    split at h
    · cases h
    · rename_i e q hq
      refine .inr ⟨hnone, ?_⟩
      rw [hq]
      exact List.mem_filterMap.2 ⟨e, List.mem_cons_self .., h⟩

theorem queued_append_entry (s : Machine n τ) (on c : Fin n) (a : Nat) (new : Option τ) :
    queued ((s.setRunq on ((s.cpu on).runq ++ [⟨a, new⟩])).cpu c).runq =
      queued (s.cpu c).runq ++ if c = on then new.toList else [] := by
  by_cases hc : c = on
  · rw [hc, Machine.setRunq, setCpu_cpu_self, if_pos rfl]
    cases new <;> simp [queued]
  · rw [Machine.setRunq, setCpu_cpu_ne s on hc, if_neg hc, List.append_nil]

theorem Homes.scanOn (hi : Homes H s) (sc : Scan τ) : Homes H (s.scanOn c sc) := by
  refine hi.setCpu (List.Sublist.refl _) ?_
  intro t h
  rcases advance_rthread_cases (s.cpu c) sc.tlist h with h | ⟨-, h⟩
  · exact .inl h
  · exact .inr h

theorem Homes.cleanTask (hi : Homes H s) : Homes H (Sched.cleanTask s c) := by
  unfold Sched.cleanTask
  split
  · split
    · exact hi.setCpu (List.Sublist.refl _) fun t ht => by cases ht
    · exact hi
  · exact hi

theorem StatusInv.setRunq (hi : StatusInv s) (q : List (Entry τ)) : StatusInv (s.setRunq c q) :=
  hi.frame rfl (setRunq_rthread s c q) (setRunq_scan s c q) fun _ _ h => h

theorem StatusInv.setEntries (hi : StatusInv s) (l : List Nat) : StatusInv { s with entries := l } := { hi with }

/-- If a round sets `rthread`, it is to a thread that does not run. -/
theorem StatusInv.scanOn (hi : StatusInv s) (hh : Homes H s) {sc : Scan τ} (hsc : (s.cpu c).scan = some sc) :
    StatusInv (s.scanOn c sc) := by
  have hself : (s.scanOn c sc).cpu c = { s.cpu c with
      rthread := (advance (s.cpu c) sc.tlist).2.2,
      scan := some { sc with tlist := (advance (s.cpu c) sc.tlist).2.1 } } := setCpu_cpu_self ..
  have hne : ∀ c', c' ≠ c → (s.scanOn c sc).cpu c' = s.cpu c' := fun c' hc => setCpu_cpu_ne s c hc _
  refine ⟨hi.creating, ?_, ?_, ?_⟩
  · intro t ht
    obtain ⟨c', hc'⟩ := hi.running t ht
    refine ⟨c', ?_⟩
    by_cases hc : c' = c
    · subst hc
      rw [hself]
      simp only [advance, hc']
    · rw [hne c' hc]
      exact hc'
  · intro c' t hs hr
    by_cases hc : c' = c
    · rw [hc, hself] at hs
      cases hs
    · rw [hne c' hc] at hs hr
      exact hi.awake c' t hs hr
  · intro c' t hs hr
    by_cases hc : c' = c
    · subst hc
      rw [hself] at hr
      rcases advance_rthread_cases (s.cpu c') sc.tlist hr with hold | ⟨hnone, hq⟩
      · refine hi.scanning c' t ?_ hold
        rw [hsc]
        exact Option.some_ne_none sc
      · intro hrun
        obtain ⟨c'', hc''⟩ := hi.running t hrun
        have heq := (hh.rthread c'' t hc'').symm.trans (hh.queue c' t hq)
        cases heq
        rw [hnone] at hc''
        cases hc''
    · rw [hne c' hc] at hs hr
      exact hi.scanning c' t hs hr

end

section
variable {n : Nat} {τ : Type} [DecidableEq τ] {H : τ → Option (Fin n)} {s s' : Machine n τ} {c : Fin n}

theorem removeThread_sublist {r : Option τ} {q q' : List (Entry τ)} {a : Nat} (h : removeThread r q = some (a, q')) :
    q'.Sublist q := by
  unfold removeThread at h
  split at h
  · cases h
    exact List.eraseP_sublist
  · cases h
  · cases h

theorem enter_cpu_self (s : Machine n τ) (c : Fin n) : (enter s c).cpu c =
    { s.cpu c with
      preemptOn := false, scan := some ⟨(s.cpu c).rthread, (s.cpu c).startCursor, (s.cpu c).rthreadQueued⟩ } :=
  setCpu_cpu_self ..

theorem enter_cpu_ne (s : Machine n τ) (c : Fin n) {c' : Fin n} (h : c' ≠ c) : (enter s c).cpu c' = s.cpu c' :=
  setCpu_cpu_ne s c h _

theorem switchTo_cpu_self (s : Machine n τ) (c : Fin n) (t : τ) : (switchTo s c t).cpu c =
    { s.cpu c with rthread := some t, cur := .thread t, preemptOn := true, scan := none } :=
  setCpu_cpu_self ..

theorem switchTo_cpu_ne (s : Machine n τ) (c : Fin n) (t : τ) {c' : Fin n} (h : c' ≠ c) :
    (switchTo s c t).cpu c' = s.cpu c' :=
  setCpu_cpu_ne (s.setStatus (some t) .running) c h _

theorem goto_creates {p : Pc n τ} (hp : ∀ t, p.creates = some t → (s.curPc c).creates = some t) (x : Ctx n τ) (t : τ)
    (h : ((s.goto c p).pc x).creates = some t) : (s.pc x).creates = some t := by
  by_cases hx : x = (s.cpu c).cur
  · rw [hx, goto_pc_self] at h
    rw [hx]
    exact hp t h
  · rwa [goto_pc_ne s c p hx] at h

/-! ## Homes -/

theorem Homes.goto (hi : Homes H s) {p : Pc n τ} (hp : p.creates = none) : Homes H (s.goto c p) := by
  refine hi.frame (fun _ => List.Sublist.refl _) (fun _ _ h => .inl h) ?_ (List.Subset.refl _)
  intro x
  by_cases hx : x = (s.cpu c).cur
  · rw [hx, goto_pc_self]
    exact .inl hp
  · exact .inr (goto_pc_ne s c p hx)

theorem Homes.setStatus (hi : Homes H s) (r : Option τ) (st : Status) : Homes H (s.setStatus r st) := by
  cases r with
  | none => exact hi
  | some t => exact hi.status _

theorem Homes.make (hi : Homes H s) (new : Option τ) (task : Nat) : Homes H (makeThread s new task) := by
  cases new with
  | none => exact hi
  | some t =>
    refine hi.frame (fun _ => List.Sublist.refl _) (fun _ _ h => .inl h) ?_ (List.subset_cons_self ..)
    intro x
    by_cases hx : x = .thread t
    · rw [hx, makeThread_pc_self]
      exact .inl rfl
    · exact .inr (makeThread_pc_ne s task hx)

theorem makeThread_creates (hi : Homes H s) {new : Option τ} (hnew : ∀ t ∈ new, t ∉ s.threads) (task : Nat) {t : τ}
    (ht : t ∈ new) (x : Ctx n τ) : ((makeThread s new task).pc x).creates ≠ some t := by
  cases ht
  by_cases hx : x = .thread t
  · rw [hx, makeThread_pc_self]
    simp [Pc.creates]
  · rw [makeThread_pc_ne s task hx]
    exact fun h => hnew t rfl (hi.born x t h)

theorem makeThread_threads {new : Option τ} (task : Nat) {t : τ} (ht : t ∈ new) : t ∈ (makeThread s new task).threads := by
  cases ht
  exact List.mem_cons_self ..

/-- A context goes on to `add_thread_to_rq` for a thread nobody else adds. -/
theorem Homes.gotoAdding (hi : Homes H s) {new : Option τ} (hborn : ∀ t ∈ new, t ∈ s.threads)
    (hnone : ∀ t ∈ new, H t = none) (hno : ∀ t ∈ new, ∀ x, (s.pc x).creates ≠ some t) (a : Nat) (on : Fin n) :
    Homes H (s.goto c (.adding new a on)) := by
  refine { hi with born := ?_, adding := ?_, creator := ?_ }
  · intro x t h
    by_cases hx : x = (s.cpu c).cur
    · rw [hx, goto_pc_self] at h
      exact hborn t h
    · rw [goto_pc_ne s c _ hx] at h
      exact hi.born x t h
  · intro x t a' on' h
    by_cases hx : x = (s.cpu c).cur
    · rw [hx, goto_pc_self] at h
      cases h
      exact hnone t rfl
    · rw [goto_pc_ne s c _ hx] at h
      exact hi.adding x t a' on' h
  · intro x y t h h'
    by_cases hx : x = (s.cpu c).cur
    · by_cases hy : y = (s.cpu c).cur
      · rw [hx, hy]
      · rw [hx, goto_pc_self] at h
        rw [goto_pc_ne s c _ hy] at h'
        exact absurd h' (hno t h y)
    · rw [goto_pc_ne s c _ hx] at h
      by_cases hy : y = (s.cpu c).cur
      · rw [hy, goto_pc_self] at h'
        exact absurd h (hno t h' x)
      · rw [goto_pc_ne s c _ hy] at h'
        exact hi.creator x y t h h'

theorem Homes.create (hi : Homes H s) {new : Option τ} (hnew : ∀ t ∈ new, t ∉ s.threads) (task a : Nat) (on : Fin n) :
    Homes H ({ makeThread s new task with entries := a :: (makeThread s new task).entries }.goto c (.adding new a on)) := by
  refine ((hi.make new task).setEntries _).gotoAdding ?_ ?_ ?_ a on
  · intro t ht
    exact makeThread_threads task ht
  · intro t ht
    exact hi.fresh t (hnew t ht)
  · intro t ht
    exact makeThread_creates hi hnew task ht

/-- The program points after `list_add_tail`. -/
theorem add_pc {new : Option τ} {a : Nat} {on : Fin n} (hp : s.curPc c = .adding new a on) (q : List (Entry τ)) (x : Ctx n τ)
    (t : τ) (h : (((s.setRunq on q).goto c (.readying new)).pc x).creates = some t) : (s.pc x).creates = some t := by
  have hcur : (s.setRunq on q).curPc c = .adding new a on := by
    rw [Machine.curPc, setRunq_cur]
    exact hp
  refine goto_creates (s := s.setRunq on q) (c := c) ?_ x t h
  intro u hu
  rw [hcur]
  exact hu

/-- The thread that is put on a queue finds its home there. -/
theorem Homes.add (hi : Homes H s) {new : Option τ} {a : Nat} {on : Fin n} (hp : s.curPc c = .adding new a on) :
    ∃ H', Homes H' ((s.setRunq on ((s.cpu on).runq ++ [⟨a, new⟩])).goto c (.readying new)) := by
  have hpc := add_pc hp ((s.cpu on).runq ++ [⟨a, new⟩])
  have hq : ∀ c', queued ((s.setRunq on ((s.cpu on).runq ++ [⟨a, new⟩])).cpu c').runq =
      queued (s.cpu c').runq ++ if c' = on then new.toList else [] := fun c' => queued_append_entry s on c' a new
  have hr := setRunq_rthread s on ((s.cpu on).runq ++ [⟨a, new⟩])
  -- only the context that adds the thread is at `list_add_tail` for it, and it is past that now
  have hadding : ∀ x u a' on', ((s.setRunq on ((s.cpu on).runq ++ [⟨a, new⟩])).goto c (.readying new)).pc x =
      .adding (some u) a' on' → s.pc x = .adding (some u) a' on' ∧ x ≠ (s.cpu c).cur := by
    intro x u a' on' h
    have hcur : ((s.setRunq on ((s.cpu on).runq ++ [⟨a, new⟩])).cpu c).cur = (s.cpu c).cur := setRunq_cur ..
    by_cases hx : x = (s.cpu c).cur
    · rw [← hcur] at hx
      rw [hx, goto_pc_self] at h
      cases h
    · rw [goto_pc_ne _ c _ (hcur ▸ hx)] at h
      exact ⟨h, hx⟩
  have hcreates : ∀ u, new = some u → (s.pc (s.cpu c).cur).creates = some u := by
    rintro u rfl
    show (s.curPc c).creates = some u
    rw [hp]
    rfl
  have hnone : ∀ u, new = some u → H u = none := by
    rintro u rfl
    exact hi.adding _ u a on hp
  have hold : ∀ u c', H u = some c' → (if new = some u then some on else H u) = some c' := by
    intro u c' hu
    rw [if_neg, hu]
    intro hnew
    rw [hnone u hnew] at hu
    cases hu
  refine ⟨fun u => if new = some u then some on else H u, ?_, ?_, ?_, ?_, ?_, ?_, ?_⟩
  · intro c' u hu
    rcases List.mem_append.1 (hq c' ▸ hu) with hu | hu
    · exact hold u c' (hi.queue c' u hu)
    · split at hu
      · rename_i hc
        rw [if_pos (Option.mem_toList.1 hu), hc]
      · cases hu
  · intro c' u hu
    exact hold u c' (hi.rthread c' u ((hr c').symm.trans hu))
  · intro c'
    show (queued ((s.setRunq on ((s.cpu on).runq ++ [⟨a, new⟩])).cpu c').runq).Nodup
    rw [hq c', List.nodup_append]
    refine ⟨hi.nodup c', ?_, ?_⟩
    · split
      · cases new <;> simp
      · exact List.nodup_nil
    · intro u hu v hv huv
      subst huv
      split at hv
      · have := hi.queue c' u hu
        rw [hnone u (Option.mem_toList.1 hv)] at this
        cases this
      · cases hv
  · intro u hu
    have hne : new ≠ some u := fun hnew => hu (hi.born _ u (hcreates u hnew))
    simp only [if_neg hne]
    exact hi.fresh u hu
  · intro x u h
    exact hi.born x u (hpc x u h)
  · intro x u a' on' h
    obtain ⟨hx, hne⟩ := hadding x u a' on' h
    have hnew : new ≠ some u := by
      intro hnew
      refine hne (hi.creator x _ u ?_ (hcreates u hnew))
      rw [hx]
      rfl
    simp only [if_neg hnew]
    exact hi.adding x u a' on' hx
  · intro x y u hx hy
    exact hi.creator x y u (hpc x u hx) (hpc y u hy)

/-! ## The status -/

/-- A thread that nobody is making goes to another state than running. -/
theorem StatusInv.update (hi : StatusInv s) {t : τ} {st : Status} (hmade : ∀ x, (s.pc x).creates ≠ some t)
    (hinit : st ≠ .init) (hrun : st ≠ .running) : StatusInv { s with status := Function.update s.status t st } := by
  constructor
  · intro x u hu
    have hut : u ≠ t := by
      rintro rfl
      exact hmade x hu
    exact (Function.update_of_ne hut _ _).trans (hi.creating x u hu)
  · intro u hu
    replace hu : Function.update s.status t st u = .running := hu
    have hut : u ≠ t := by
      rintro rfl
      rw [Function.update_self] at hu
      exact hrun hu
    rw [Function.update_of_ne hut] at hu
    exact hi.running u hu
  · intro c u hs hr
    show Function.update s.status t st u ≠ .init
    rw [Function.update_apply]
    split
    · exact hinit
    · exact hi.awake c u hs hr
  · intro c u hs hr
    show Function.update s.status t st u ≠ .running
    rw [Function.update_apply]
    split
    · exact hrun
    · exact hi.scanning c u hs hr

/-- The thread that a CPU runs, outside `schedule`, goes to another state. -/
theorem StatusInv.setRthreadStatus (hi : StatusInv s) (hs : (s.cpu c).scan = none) {st : Status} (hinit : st ≠ .init)
    (hrun : st ≠ .running) : StatusInv (s.setStatus (s.cpu c).rthread st) := by
  cases hr : (s.cpu c).rthread with
  | none => exact hi
  | some t => exact hi.update (hi.not_making (hi.awake c t hs hr)) hinit hrun

theorem StatusInv.wakeUp (hi : StatusInv s) (t : τ) : StatusInv { s with status := wakeUp s.status t } := by
  unfold Sched.wakeUp
  split
  · rename_i hb
    exact hi.update (hi.not_making (by rw [hb]; decide)) (by decide) (by decide)
  · exact hi

/-- `schedule` has put a running thread back to ready; the CPU is in the loop. -/
theorem StatusInv.enter (hi : StatusInv s) : StatusInv (enter s c) := by
  -- first the status, then the CPU
  have hready : StatusInv { s with status := readyRthread s.status (s.cpu c).rthread } := by
    cases hr : (s.cpu c).rthread with
    | none => exact hi
    | some t =>
      simp only [readyRthread]
      split
      · rename_i hrun
        exact hi.update (hi.not_making (by rw [hrun]; decide)) (by decide) (by decide)
      · exact hi
  have hrthread : ∀ c', ((Sched.enter s c).cpu c').rthread = (s.cpu c').rthread := by
    intro c'
    by_cases hc : c' = c
    · rw [hc, enter_cpu_self]
    · rw [enter_cpu_ne s c hc]
  have hscan : ∀ c', c' ≠ c → ((Sched.enter s c).cpu c').scan = (s.cpu c').scan := by
    intro c' hc
    rw [enter_cpu_ne s c hc]
  have hself : ((Sched.enter s c).cpu c).scan ≠ none := by
    rw [enter_cpu_self]
    exact Option.some_ne_none _
  refine ⟨hready.creating, ?_, ?_, ?_⟩
  · intro t ht
    obtain ⟨c', hc'⟩ := hready.running t ht
    exact ⟨c', (hrthread c').trans hc'⟩
  · intro c' t hs hr
    have hc : c' ≠ c := by
      rintro rfl
      exact hself hs
    exact hready.awake c' t ((hscan c' hc).symm.trans hs) ((hrthread c').symm.trans hr)
  · intro c' t hs hr
    by_cases hc : c' = c
    · subst hc
      rw [hrthread] at hr
      show readyRthread s.status (s.cpu c').rthread t ≠ .running
      rw [hr]
      simp only [readyRthread]
      split
      · simp
      · assumption
    · rw [hscan c' hc] at hs
      exact hready.scanning c' t hs ((hrthread c').symm.trans hr)

theorem StatusInv.make (hi : StatusInv s) (hh : Homes H s) {new : Option τ} (hnew : ∀ t ∈ new, t ∉ s.threads) (task : Nat) :
    StatusInv (makeThread s new task) := by
  cases new with
  | none => exact hi
  | some t =>
    have hfresh := hnew t rfl
    have hrt : ∀ c u, (s.cpu c).rthread = some u → u ≠ t := by
      rintro c u hu rfl
      have := hh.rthread c u hu
      rw [hh.fresh u hfresh] at this
      cases this
    constructor
    · intro x u hu
      have hut : u ≠ t := by
        rintro rfl
        exact makeThread_creates hh hnew task rfl x hu
      have hx : x ≠ .thread t := by
        rintro rfl
        rw [makeThread_pc_self] at hu
        cases hu
      rw [makeThread_pc_ne s task hx] at hu
      exact (Function.update_of_ne hut _ _).trans (hi.creating x u hu)
    · intro u hu
      have hut : u ≠ t := by
        rintro rfl
        have hself : (makeThread s (some u) task).status u = .init := Function.update_self ..
        rw [hself] at hu
        cases hu
      exact hi.running u ((Function.update_of_ne hut _ _).symm.trans hu)
    · intro c u hs hr
      have : (makeThread s (some t) task).status u = s.status u := Function.update_of_ne (hrt c u hr) _ _
      rw [this]
      exact hi.awake c u hs hr
    · intro c u hs hr
      have : (makeThread s (some t) task).status u = s.status u := Function.update_of_ne (hrt c u hr) _ _
      rw [this]
      exact hi.scanning c u hs hr

theorem StatusInv.gotoAdding (hi : StatusInv s) {new : Option τ} (hinit : ∀ t ∈ new, s.status t = .init) (a : Nat) (on : Fin n) :
    StatusInv (s.goto c (.adding new a on)) := by
  refine { hi with creating := ?_ }
  intro x t h
  by_cases hx : x = (s.cpu c).cur
  · rw [hx, goto_pc_self] at h
    exact hinit t h
  · rw [goto_pc_ne s c _ hx] at h
    exact hi.creating x t h

theorem StatusInv.goto (hi : StatusInv s) {p : Pc n τ} (hp : p.creates = none) : StatusInv (s.goto c p) := by
  refine hi.frame rfl (fun _ => rfl) (fun _ => rfl) ?_
  exact goto_creates fun t h => by
    rw [hp] at h
    cases h

theorem StatusInv.ready (hi : StatusInv s) (hh : Homes H s) {new : Option τ} (hp : s.curPc c = .readying new) :
    StatusInv ((s.goto c .run).setStatus new .ready) := by
  have hgoto : StatusInv (s.goto c .run) := hi.goto rfl
  cases new with
  | none => exact hgoto
  | some t =>
    have hcur : (s.pc (s.cpu c).cur).creates = some t := by
      show (s.curPc c).creates = some t
      rw [hp]
      rfl
    refine hgoto.update ?_ (by decide) (by decide)
    -- only the context that goes on was making the thread
    intro x hx
    by_cases hxc : x = (s.cpu c).cur
    · rw [hxc, goto_pc_self] at hx
      cases hx
    · rw [goto_pc_ne s c _ hxc] at hx
      exact hxc (hh.creator x _ t hx hcur)

/-- A thread whose task is done is complete. -/
theorem StatusInv.cleanTask (hi : StatusInv s) (hh : Homes H s) : StatusInv (cleanTask s c) := by
  unfold Sched.cleanTask
  split
  · rename_i t ht
    split
    · rename_i hdone
      have hmem : t ∈ s.threads := by
        by_contra hno
        have := hh.rthread c t ht
        rw [hh.fresh t hno] at this
        cases this
      have hcomplete : s.status t = .complete := by
        have := List.all_eq_true.1 hdone t hmem
        simpa using this
      have hself : ((s.setRthread c none).cpu c).rthread = none := by
        rw [Machine.setRthread, setCpu_cpu_self]
      have hne : ∀ c', c' ≠ c → (s.setRthread c none).cpu c' = s.cpu c' := fun c' hc => setCpu_cpu_ne s c hc _
      refine ⟨hi.creating, ?_, ?_, ?_⟩
      · intro u hu
        obtain ⟨c', hc'⟩ := hi.running u hu
        have hcc : c' ≠ c := by
          rintro rfl
          rw [ht] at hc'
          cases hc'
          rw [show s.status t = .running from hu] at hcomplete
          cases hcomplete
        exact ⟨c', by rw [hne c' hcc]; exact hc'⟩
      · intro c' u hs hr
        by_cases hc : c' = c
        · rw [hc, hself] at hr
          cases hr
        · rw [hne c' hc] at hs hr
          exact hi.awake c' u hs hr
      · intro c' u hs hr
        by_cases hc : c' = c
        · rw [hc, hself] at hr
          cases hr
        · rw [hne c' hc] at hs hr
          exact hi.scanning c' u hs hr
    · exact hi
  · exact hi

/-- The thread that is switched to is the only one of its CPU that runs. -/
theorem StatusInv.switchTo (hi : StatusInv s) (hh : Homes H s) {t : τ} (hs : (s.cpu c).scan ≠ none)
    (hq : t ∈ queued (s.cpu c).runq) (hr : s.status t = .ready) : StatusInv (switchTo s c t) := by
  have hother : ∀ c' u, c' ≠ c → (s.cpu c').rthread = some u → u ≠ t := by
    rintro c' u hc hu rfl
    have heq := (hh.rthread c' u hu).symm.trans (hh.queue c u hq)
    cases heq
    exact hc rfl
  have hst : ∀ u, u ≠ t → (Sched.switchTo s c t).status u = s.status u := fun u hu => Function.update_of_ne hu _ _
  have hself : (Sched.switchTo s c t).status t = .running := Function.update_self ..
  refine ⟨?_, ?_, ?_, ?_⟩
  · intro x u hu
    have hut : u ≠ t := by
      rintro rfl
      exact hi.not_making (by rw [hr]; decide) x hu
    rw [hst u hut]
    exact hi.creating x u hu
  · intro u hu
    by_cases hut : u = t
    · exact ⟨c, by rw [switchTo_cpu_self, hut]⟩
    · rw [hst u hut] at hu
      obtain ⟨c', hc'⟩ := hi.running u hu
      -- the thread that ran here has been put back
      have hc : c' ≠ c := by
        rintro rfl
        exact hi.scanning c' u hs hc' hu
      exact ⟨c', by rw [switchTo_cpu_ne s c t hc]; exact hc'⟩
  · intro c' u hs' hr'
    by_cases hc : c' = c
    · rw [hc, switchTo_cpu_self] at hr'
      cases hr'
      rw [hself]
      decide
    · rw [switchTo_cpu_ne s c t hc] at hs' hr'
      rw [hst u (hother c' u hc hr')]
      exact hi.awake c' u hs' hr'
  · intro c' u hs' hr'
    by_cases hc : c' = c
    · rw [hc, switchTo_cpu_self] at hs'
      exact absurd rfl hs'
    · rw [switchTo_cpu_ne s c t hc] at hs' hr'
      rw [hst u (hother c' u hc hr')]
      exact hi.scanning c' u hs' hr'

/-! ## Steps and runs -/

theorem Homes.enter (hi : Homes H s) : Homes H (enter s c) :=
  Homes.status (s := s.setCpu c { s.cpu c with
    preemptOn := false, scan := some ⟨(s.cpu c).rthread, (s.cpu c).startCursor, (s.cpu c).rthreadQueued⟩ })
    (hi.setCpu (List.Sublist.refl _) fun _ h => .inl h) _

theorem Homes.switchTo (hi : Homes H s) {t : τ} (hq : t ∈ queued (s.cpu c).runq) : Homes H (switchTo s c t) := by
  refine (hi.setStatus (some t) .running).setCpu (List.Sublist.refl _) ?_
  intro u hu
  cases hu
  exact .inr hq

theorem Homes.mstep (hi : Homes H s) {a : Act n τ} (h : MStep s a s') : ∃ H', Homes H' s' := by
  cases h with
  | make hr hnew => exact ⟨H, hi.make _ _⟩
  | create hr hnew => exact ⟨H, hi.create hnew _ _ _⟩
  | makeSleep => exact ⟨H, hi.setStatus _ _⟩
  | preempt => exact ⟨H, hi.preempt _⟩
  | wakeUp => exact ⟨H, hi.status _⟩
  | finish => exact ⟨H, (hi.goto rfl).preempt _⟩
  | adding hs hp =>
    obtain ⟨H', hi'⟩ := hi.add hp
    exact ⟨H', hi'.preempt true⟩
  | readying => exact ⟨H, (hi.goto rfl).setStatus _ _⟩
  | @removed c a q hs hp hq =>
    have hsub : (queued q).Sublist (queued (s.cpu c).runq) := (removeThread_sublist hq).filterMap _
    refine ⟨H, Homes.preempt (Homes.goto ?_ rfl) true⟩
    exact (hi.setEntries (s.entries.erase a)).setCpu hsub fun _ h => .inl h
  | completed => exact ⟨H, (hi.goto rfl).setStatus _ _⟩
  | cleaned => exact ⟨H, (hi.goto rfl).cleanTask⟩
  | stopped => exact ⟨H, (hi.goto rfl).enter⟩
  | schedule => exact ⟨H, hi.enter⟩
  | timer => exact ⟨H, hi.enter⟩
  | tick => exact ⟨H, hi⟩
  | scan => exact ⟨H, hi.scanOn _⟩
  | switch hs ht hr =>
    refine ⟨H, (hi.scanOn _).switchTo ?_⟩
    rw [Machine.scanOn, setCpu_cpu_self]
    exact threadOf_mem ht

theorem StatusInv.mstep (hi : StatusInv s) (hh : Homes H s) {a : Act n τ} (h : MStep s a s') : StatusInv s' := by
  cases h with
  | make hr hnew => exact hi.make hh hnew _
  | @create c new task a on hr hnew =>
    refine ((hi.make hh hnew task).setEntries _).gotoAdding ?_ a on
    intro t ht
    cases ht
    exact Function.update_self ..
  | makeSleep hr => exact hi.setRthreadStatus (LifeInv.atRun hr).1 (by decide) (by decide)
  | preempt => exact hi.preempt _
  | wakeUp => exact hi.wakeUp _
  | finish => exact (hi.goto rfl).preempt _
  | @adding c new a on hs hp =>
    have hadd : StatusInv ((s.setRunq on ((s.cpu on).runq ++ [⟨a, new⟩])).goto c (.readying new)) :=
      hi.frame rfl (setRunq_rthread s on _) (setRunq_scan s on _) (add_pc hp _)
    exact hadd.preempt true
  | readying hs hp => exact hi.ready hh hp
  | removed hs hp hq => exact (((hi.setEntries _).setRunq _).goto rfl).preempt true
  | completed hs hp => exact (hi.goto rfl).setRthreadStatus hs (by decide) (by decide)
  | cleaned => exact (hi.goto rfl).cleanTask (hh.goto rfl)
  | stopped => exact (hi.goto rfl).enter
  | schedule => exact hi.enter
  | timer => exact hi.enter
  | tick => exact hi
  | scan hs => exact hi.scanOn hh hs
  | @switch c junk sc t hs ht hr =>
    have hself : (s.scanOn c sc).cpu c = _ := setCpu_cpu_self ..
    refine (hi.scanOn hh hs).switchTo (hh.scanOn sc) ?_ ?_ hr
    · rw [hself]
      exact Option.some_ne_none _
    · rw [hself]
      exact threadOf_mem ht

theorem reaches_homes {ok : Machine n τ → Act n τ → Prop} (hrun : Reaches step ok (start n τ) s) :
    (∃ H, Homes H s) ∧ StatusInv s := by
  refine hrun.invariant (I := fun s => (∃ H, Homes H s) ∧ StatusInv s) ⟨⟨_, homes_start⟩, statusInv_start⟩ ?_
  rintro u a v ⟨⟨H, hh⟩, hi⟩ - hstep
  exact ⟨hh.mstep (step_cases hstep), hi.mstep hh (step_cases hstep)⟩

/-- `schedule` on CPU `c` ends in this step, with `t` as the next thread. -/
def Chooses (c : Fin n) (t : τ) (s s' : Machine n τ) : Prop :=
  ∃ junk, step s (.scan c junk) = some s' ∧ (s'.cpu c).scan = none ∧ (s'.cpu c).rthread = some t

theorem Chooses.ready {t : τ} (h : Chooses c t s s') : t ∈ queued (s.cpu c).runq ∧ s.status t = .ready := by
  obtain ⟨junk, hstep, hscan, hr⟩ := h
  cases step_cases hstep with
  | scan hs =>
    rw [Machine.scanOn, setCpu_cpu_self] at hscan
    cases hscan
  | switch hs ht hready =>
    rw [switchTo_cpu_self] at hr
    cases hr
    exact ⟨threadOf_mem ht, hready⟩

end

theorem length_le_one_of_eq {α : Type} {l : List α} (hnd : l.Nodup) (h : ∀ a ∈ l, ∀ b ∈ l, a = b) : l.length ≤ 1 := by
  match l, hnd, h with
  | [], _, _ => exact Nat.zero_le 1
  | [a], _, _ => exact Nat.le_refl 1
  | a :: b :: l, hnd, h =>
    have hab : a = b := h a (by simp) b (by simp)
    simp [hab] at hnd

/-- **One running thread per CPU.** In every state that any number of CPUs reach by `schedule`, timer
interrupts, `make_sleep`, `wake_up`, `create_thread` and `__finish_thread`, in any interleaving: a thread is
`T_RUNNING` only if it is the `rthread` of a CPU; no thread is the `rthread` of two CPUs; a run queue holds at
most one thread that is `T_RUNNING`; and the thread that `schedule` chooses is on the queue and `T_READY` when
it is chosen. -/
theorem one_running_thread {n : Nat} {τ : Type} [DecidableEq τ] (s : Machine n τ) (hrun : Reaches step Any (start n τ) s) :
    (∀ t, s.status t = .running → ∃ c, (s.cpu c).rthread = some t) ∧
      (∀ c c' t, (s.cpu c).rthread = some t → (s.cpu c').rthread = some t → c = c') ∧
      (∀ c, ((queued (s.cpu c).runq).filter fun t => s.status t = .running).length ≤ 1) ∧
      ∀ c t s', Chooses c t s s' → t ∈ queued (s.cpu c).runq ∧ s.status t = .ready := by
  obtain ⟨⟨H, hh⟩, hi⟩ := reaches_homes hrun
  refine ⟨hi.running, ?_, ?_, fun c t s' h => h.ready⟩
  · intro c c' t h h'
    exact Option.some.inj ((hh.rthread c t h).symm.trans (hh.rthread c' t h'))
  · intro c
    -- a running thread of the queue is the `rthread` of its home
    have hone : ∀ t ∈ (queued (s.cpu c).runq).filter (fun t => s.status t = .running), (s.cpu c).rthread = some t := by
      intro t ht
      obtain ⟨hq, hrunning⟩ := List.mem_filter.1 ht
      obtain ⟨c', hc'⟩ := hi.running t (by simpa using hrunning)
      have hcc := (hh.rthread c' t hc').symm.trans (hh.queue c t hq)
      cases hcc
      exact hc'
    refine length_le_one_of_eq ((hh.nodup c).filter _) ?_
    intro t ht u hu
    exact Option.some.inj ((hone t ht).symm.trans (hone u hu))

/-- The boot code of CPU `c` makes a thread for `c` and one for `c'`, and both are scheduled. -/
def twoCpus {n : Nat} (c c' : Fin n) : List (Act n Bool) :=
  [.create c (some false) 1 (some 100) c, .step c, .step c, .create c (some true) 1 (some 200) c', .step c, .step c,
    .schedule c, .scan c .init, .schedule c', .scan c' .init]

/-- Both threads run, each on a CPU. -/
theorem one_running_thread_two_cpus :
    ∃ s, Reaches step Any (start 2 Bool) s ∧ s.status false = .running ∧ s.status true = .running ∧
      (∃ c, (s.cpu c).rthread = some false) ∧ ∃ c, (s.cpu c).rthread = some true := by
  obtain ⟨s, hrun, hs⟩ := exists_reaches step Any (start 2 Bool) (twoCpus 0 1)
    (fun s => s.status false = .running ∧ s.status true = .running) (by decide)
  obtain ⟨h1, h2⟩ := of_decide_eq_true hs
  obtain ⟨hrunning, -⟩ := one_running_thread s hrun
  exact ⟨s, hrun, h1, h2, hrunning false h1, hrunning true h2⟩

end RedMagic.Sched
