import RedMagic.Sched.Entries

/-!
# Round robin (src/sched.c:105-146)

The loop of `__do_sched_rr` goes round the queue from the entry of the running thread. While a thread `u` waits,
ready, on the queue of a CPU, the cursor stays on the arc from the thread `t` that was chosen last up to `u`: it cannot
come round to `t` again without meeting `u` (`Ahead`). The arc is lost when the running thread has left the queue:
`find_thread_in_rq` then ends at the list head and the round begins with the first entry.
-/

namespace RedMagic.Sched

open Lts

/-! ## Positions on a ring -/

/-- Position `x` is on the way round from `i` up to `j`. -/
def Arc (i j x : Nat) : Prop := if i < j then i ≤ x ∧ x < j else i ≤ x ∨ x < j

/-- The position after `x` on a ring of `len`. -/
def nextPos (len x : Nat) : Nat := if x + 1 < len then x + 1 else 0

theorem arc_self (i j : Nat) : Arc i j i := by
  unfold Arc
  split <;> omega

/-- The way goes on to its end or past no other thing than what is on it. -/
theorem Arc.next {i j x len : Nat} (h : Arc i j x) (hj : j < len) (hx : x < len) :
    nextPos len x = j ∨ Arc i j (nextPos len x) ∧ nextPos len x ≠ i := by
  unfold Arc nextPos at *
  split at h <;> split <;> omega

section
variable {n : Nat} {τ : Type} {q : List (Entry τ)} {p : Ptr} {t u : τ} {i j : Nat}

/-- The cursor is at the entry at position `i`. -/
def At (q : List (Entry τ)) (p : Ptr) (i : Nat) : Prop := ∃ e, q[i]? = some e ∧ p = .entry e.addr

/-- The thread's entry is at position `i`. -/
def Holds (q : List (Entry τ)) (t : τ) (i : Nat) : Prop := ∃ e, q[i]? = some e ∧ e.threadp = some t

theorem Holds.lt (h : Holds q t i) : i < q.length := by
  obtain ⟨e, he, -⟩ := h
  exact (List.getElem?_eq_some_iff.1 he).1

theorem At.lt (h : At q p i) : i < q.length := by
  obtain ⟨e, he, -⟩ := h
  exact (List.getElem?_eq_some_iff.1 he).1

theorem exists_holds (h : t ∈ queued q) : ∃ i, Holds q t i := by
  obtain ⟨e, he, ht⟩ := List.mem_filterMap.1 h
  obtain ⟨i, hi⟩ := List.getElem?_of_mem he
  exact ⟨i, e, hi, ht⟩

/-- Positions stay when an entry is put at the end. -/
theorem Holds.append {q' l : List (Entry τ)} (h : Holds q t i) (hq : q' = q ++ l) : Holds q' t i := by
  obtain ⟨e, he, ht⟩ := id h
  rw [hq]
  exact ⟨e, (List.getElem?_append_left h.lt).trans he, ht⟩

theorem At.append {q' l : List (Entry τ)} (h : At q p i) (hq : q' = q ++ l) : At q' p i := by
  obtain ⟨e, he, hp⟩ := id h
  rw [hq]
  exact ⟨e, (List.getElem?_append_left h.lt).trans he, hp⟩

/-- A thread has one entry. -/
theorem Holds.unique (hnd : (queued q).Nodup) (hi : Holds q t i) (hj : Holds q t j) : i = j := by
  have hpair := List.pairwise_iff_getElem.1 (List.pairwise_filterMap.1 hnd)
  obtain ⟨e, he, het⟩ := hi
  obtain ⟨e', he', het'⟩ := hj
  obtain ⟨hil, rfl⟩ := List.getElem?_eq_some_iff.1 he
  obtain ⟨hjl, rfl⟩ := List.getElem?_eq_some_iff.1 he'
  rcases Nat.lt_trichotomy i j with hlt | heq | hlt
  · exact absurd rfl (hpair i j hil hjl hlt t het t het')
  · exact heq
  · exact absurd rfl (hpair j i hjl hil hlt t het' t het)

/-- The cursor reads the thread of the entry it is at. -/
theorem At.threadOf_iff (hnd : (q.map (·.addr)).Nodup) (h : At q p i) : threadOf q p = .thread t ↔ Holds q t i := by
  obtain ⟨e, he, rfl⟩ := h
  rw [threadOf_entry hnd (List.mem_of_getElem? he)]
  constructor
  · intro ht
    refine ⟨e, he, ?_⟩
    cases hte : e.threadp with
    | none =>
      rw [hte] at ht
      cases ht
    | some v =>
      rw [hte] at ht
      cases ht
      rfl
  · rintro ⟨e', he', ht⟩
    rw [he] at he'
    cases he'
    rw [ht]
    rfl

/-- `list_next_entry`, and `list_first_entry` from the last one. -/
theorem At.next (hnd : (q.map (·.addr)).Nodup) (h : At q p i) :
    At q (if listIsLast q p then firstEntry q else nextEntry q p) (nextPos q.length i) := by
  have hlt := h.lt
  obtain ⟨e, he, rfl⟩ := h
  rw [listIsLast, nextEntry_entry hnd he, nextPos]
  by_cases hi : i + 1 < q.length
  · have hfirst : firstEntry (q.drop (i + 1)) = .entry (q[i + 1]).addr := by
      rw [List.drop_eq_getElem_cons hi]
      rfl
    rw [hfirst, if_neg (by simp), if_pos hi]
    exact ⟨q[i + 1], List.getElem?_eq_getElem hi, rfl⟩
  · have hfirst : firstEntry (q.drop (i + 1)) = .head := by
      rw [List.drop_eq_nil_of_le (Nat.le_of_not_lt hi)]
      rfl
    rw [hfirst, if_pos (by simp), if_neg hi]
    cases q with
    | nil => simp at hlt
    | cons x q => exact ⟨x, rfl, rfl⟩

/-- `find_thread_in_rq` finds the entry of a thread on the queue. -/
theorem findThreadInRq_at [DecidableEq τ] (h : t ∈ queued q) :
    ∃ i, At q (findThreadInRq (some t) q).2 i ∧ Holds q t i := by
  induction q with
  | nil => cases h
  | cons e q ih =>
    by_cases he : e.threadp = some t
    · exact ⟨0, ⟨e, rfl, by simp [findThreadInRq, he]⟩, e, rfl, he⟩
    · obtain ⟨i, ⟨e₁, he₁, hp⟩, e₂, he₂, hte⟩ := ih ((mem_queued_cons.1 h).resolve_left he)
      refine ⟨i + 1, ⟨e₁, he₁, ?_⟩, e₂, he₂, hte⟩
      simp only [findThreadInRq, if_neg he]
      exact hp

end

/-! ## The cursor and a waiting thread -/

section
variable {n : Nat} {τ : Type}

/-- The thread is on the queue of `c` and ready. -/
def Waiting (c : Fin n) (u : τ) (s : Machine n τ) : Prop := u ∈ queued (s.cpu c).runq ∧ s.status u = .ready

/-- On its way round from thread `t` the CPU has not come to thread `u`, or it will not call `schedule` again: its
running thread has left the queue. -/
inductive Ahead (t u : τ) (x : Cpu n τ) : Prop
  | gone (hs : x.scan = none) (hr : ∀ r, x.rthread = some r → r ∉ queued x.runq)
  | resting {i j k : Nat} {r : τ} (ht : Holds x.runq t i) (hu : Holds x.runq u j) (hs : x.scan = none)
      (hr : x.rthread = some r) (hk : Holds x.runq r k) (harc : Arc i j k)
  | moving {i j k : Nat} {r : τ} {sc : Scan τ} (ht : Holds x.runq t i) (hu : Holds x.runq u j) (hs : x.scan = some sc)
      (hr : x.rthread = some r) (hk : At x.runq sc.tlist k) (harc : Arc i j k)

variable {c : Fin n} {t u : τ} {x x' : Cpu n τ}

/-- What is put at the end of the queue changes no position. -/
theorem Ahead.append (h : Ahead t u x) {l : List (Entry τ)} (hq : x'.runq = x.runq ++ l) (hr : x'.rthread = x.rthread)
    (hs : x'.scan = x.scan) (hl : ∀ r, x.rthread = some r → r ∉ queued l) : Ahead t u x' := by
  cases h with
  | gone hs' hr' =>
    refine .gone (hs.trans hs') ?_
    intro r hrr
    rw [hr] at hrr
    rw [hq, queued, List.filterMap_append, List.mem_append]
    rintro (hmem | hmem)
    · exact hr' r hrr hmem
    · exact hl r hrr hmem
  | resting ht hu hs' hr' hk harc =>
    exact .resting (ht.append hq) (hu.append hq) (hs.trans hs') (hr.trans hr') (hk.append hq) harc
  | moving ht hu hs' hr' hk harc =>
    exact .moving (ht.append hq) (hu.append hq) (hs.trans hs') (hr.trans hr') (hk.append hq) harc

theorem Ahead.congr (h : Ahead t u x) (hq : x'.runq = x.runq) (hr : x'.rthread = x.rthread) (hs : x'.scan = x.scan) :
    Ahead t u x' :=
  h.append (hq.trans (List.append_nil _).symm) hr hs fun _ _ => List.not_mem_nil

theorem Ahead.preempt {s : Machine n τ} (h : Ahead t u (s.cpu c)) (c' : Fin n) (on : Bool) :
    Ahead t u ((s.preempt c' on).cpu c) :=
  h.congr (preempt_runq c on) (preempt_rthread c on) (preempt_scan c on)

/-- A thread that is put on a queue has no home yet, so it is not the running one. -/
theorem Ahead.add {H : τ → Option (Fin n)} {s : Machine n τ} (hh : Homes H s) (h : Ahead t u (s.cpu c)) {c' on : Fin n}
    {new : Option τ} {b : Nat} (hp : s.curPc c' = .adding new b on) :
    Ahead t u ((s.setRunq on ((s.cpu on).runq ++ [⟨b, new⟩])).cpu c) := by
  by_cases hc : c = on
  · subst hc
    refine h.append (l := [⟨b, new⟩]) ?_ (setRunq_rthread ..) (setRunq_scan ..) ?_
    · rw [Machine.setRunq, setCpu_cpu_self]
    · intro r hr hmem
      obtain ⟨e, hmem, her⟩ := List.mem_filterMap.1 hmem
      rw [List.mem_singleton.1 hmem] at her
      replace her : new = some r := her
      subst her
      have hhome := hh.rthread c r hr
      rw [hh.adding _ r b c hp] at hhome
      cases hhome
  · rw [Machine.setRunq, setCpu_cpu_ne s on hc]
    exact h

/-- `clean_task` clears `rthread`, or does nothing. -/
theorem Ahead.cleanTask {s : Machine n τ} (h : Ahead t u (s.cpu c)) {c' : Fin n} (hs : (s.cpu c').scan = none) :
    Ahead t u ((Sched.cleanTask s c').cpu c) := by
  unfold Sched.cleanTask
  split
  · split
    · by_cases hc : c = c'
      · subst hc
        rw [Machine.setRthread, setCpu_cpu_self]
        exact .gone hs fun r hr => by cases hr
      · rw [Machine.setRthread, setCpu_cpu_ne _ c' hc]
        exact h
    · exact h
  · exact h

/-- Where the cursor goes in one round. -/
theorem advance_at {s : Machine n τ} {O : Nat → Option (Fin n ⊕ Ctx n τ)} (he : EntryInv O s) {r : τ} (hr : (s.cpu c).rthread = some r) {p : Ptr} {k : Nat}
    (hk : At (s.cpu c).runq p k) :
    At (s.cpu c).runq (advance (s.cpu c) p).2.1 (nextPos (s.cpu c).runq.length k) ∧ (advance (s.cpu c) p).2.2 = some r := by
  simp only [advance, hr]
  exact ⟨hk.next (he.addrs c), trivial⟩

end

section
variable {n : Nat} {τ : Type} [DecidableEq τ] {H : τ → Option (Fin n)} {O : Nat → Option (Fin n ⊕ Ctx n τ)}
  {s s' : Machine n τ} {c : Fin n} {t u : τ}

/-- What a run has to keep to: `schedule` is called on `c` only while the running thread is on the queue. -/
def Placed (c : Fin n) (s : Machine n τ) : Act n τ → Prop
  | .schedule c' => c' = c → (s.cpu c).rthreadQueued = true
  | .timer c' => c' = c → (s.cpu c).preemptOn = true → (s.cpu c).rthreadQueued = true
  | .step c' => c' = c → s.curPc c = .exitClean → (s.cpu c).rthreadQueued = true
  | _ => True

/-- `schedule` starts its round at the running thread. -/
theorem Ahead.enter (hh : Homes H s) (h : Ahead t u (s.cpu c)) (hs : (s.cpu c).scan = none)
    (hq : (s.cpu c).rthreadQueued = true) : Ahead t u ((enter s c).cpu c) := by
  obtain ⟨r, hr, hmem⟩ : ∃ r, (s.cpu c).rthread = some r ∧ r ∈ queued (s.cpu c).runq := by
    simpa [Cpu.rthreadQueued, Option.any_eq_true] using hq
  rw [enter_cpu_self]
  cases h with
  | gone hs' hr' => exact absurd hmem (hr' r hr)
  | @resting i j k r' ht hu hs' hr' hk harc =>
    rw [hr] at hr'
    cases hr'
    obtain ⟨k', hat, hk'⟩ := findThreadInRq_at hmem
    have hkk : k' = k := hk'.unique (hh.nodup c) hk
    subst hkk
    refine .moving (k := k') ht hu rfl hr ?_ harc
    show At (s.cpu c).runq (s.cpu c).startCursor k'
    rw [Cpu.startCursor, hr]
    exact hat
  | moving ht hu hs' =>
    rw [hs] at hs'
    cases hs'

/-- The `schedule` of any CPU. -/
theorem Ahead.enterOn (hh : Homes H s) (h : Ahead t u (s.cpu c)) {c' : Fin n} (hs : (s.cpu c').scan = none)
    (hq : c' = c → (s.cpu c).rthreadQueued = true) : Ahead t u ((Sched.enter s c').cpu c) := by
  by_cases hc : c' = c
  · subst hc
    exact h.enter hh hs (hq rfl)
  · rw [enter_cpu_ne _ c' (Ne.symm hc)]
    exact h

/-- The running thread of a CPU leaves the queue. -/
theorem Ahead.remove (hh : Homes H s) (h : Ahead t u (s.cpu c)) {c' : Fin n} {a : Nat} {q : List (Entry τ)}
    (hs : (s.cpu c').scan = none) (hq : removeThread (s.cpu c').rthread (s.cpu c').runq = some (a, q)) :
    Ahead t u ((s.setRunq c' q).cpu c) := by
  by_cases hc : c' = c
  · subst hc
    refine .gone ((setRunq_scan ..).trans hs) ?_
    intro r hr
    rw [setRunq_rthread] at hr
    obtain ⟨e, l₁, l₂, hrunq, rfl, -, he⟩ := removeThread_split hq
    have hnd := hh.nodup c'
    rw [hr] at he
    rw [hrunq, queued, List.filterMap_append, List.filterMap_cons_some he, List.nodup_middle, List.nodup_cons,
      ← List.filterMap_append] at hnd
    rw [Machine.setRunq, setCpu_cpu_self]
    exact hnd.1
  · rw [Machine.setRunq, setCpu_cpu_ne _ c' (Ne.symm hc)]
    exact h

/-- A ready thread that the cursor comes to is switched to. -/
theorem scan_switches {sc : Scan τ} {v : τ} (junk : Status) (hs : (s.cpu c).scan = some sc)
    (ht : threadOf (s.cpu c).runq (advance (s.cpu c) sc.tlist).2.1 = .thread v) (hr : s.status v = .ready) :
    step s (.scan c junk) = some (switchTo (s.scanOn c sc) c v) := by
  have hnull : (advance (s.cpu c) sc.tlist).2.1 ≠ .null := by
    intro hnull
    rw [hnull] at ht
    cases ht
  simp only [step, hs, scanStep, if_neg hnull, ht, if_pos hr]

/-- One round: the cursor comes to `u`, which is switched to, or it stays on its way and `t` is not chosen. -/
theorem Ahead.round (hh : Homes H s) (he : EntryInv O s) (hw : Waiting c u s) (h : Ahead t u (s.cpu c)) {junk : Status}
    (hstep : step s (.scan c junk) = some s') :
    (∃ sc, s' = switchTo (s.scanOn c sc) c u) ∨
      Ahead t u (s'.cpu c) ∧ ((s'.cpu c).scan = none → (s'.cpu c).rthread ≠ some t) := by
  have hscan : (s.cpu c).scan ≠ none := by
    intro hnone
    simp [step, hnone] at hstep
  cases h with
  | gone hs => exact absurd hs hscan
  | resting _ _ hs => exact absurd hs hscan
  | @moving i j k r sc ht hu hs hr hk harc =>
    obtain ⟨hat, hsame⟩ := advance_at he hr hk
    rcases harc.next hu.lt hk.lt with hj | ⟨harc', hne⟩
    · -- the waiting thread is next
      rw [hj] at hat
      have hthread := (hat.threadOf_iff (he.addrs c)).2 hu
      rw [scan_switches junk hs hthread hw.2] at hstep
      cases hstep
      exact .inl ⟨sc, rfl⟩
    · refine .inr ?_
      have hself : (s.scanOn c sc).cpu c = { s.cpu c with
          rthread := (advance (s.cpu c) sc.tlist).2.2,
          scan := some { sc with tlist := (advance (s.cpu c) sc.tlist).2.1 } } := setCpu_cpu_self ..
      cases step_cases hstep with
      | scan hs' =>
        rw [hs] at hs'
        cases hs'
        rw [hself]
        exact ⟨.moving ht hu rfl hsame hat harc', fun hnone => by cases hnone⟩
      | @switch _ _ _ v hs' hv hready =>
        rw [hs] at hs'
        cases hs'
        have hvk := (hat.threadOf_iff (he.addrs c)).1 hv
        rw [switchTo_cpu_self, hself]
        refine ⟨.resting ht hu rfl rfl hvk harc', ?_⟩
        rintro - hvt
        cases hvt
        exact hne (hvk.unique (hh.nodup c) ht)

/-- **The cursor stays on its way** from `t` to a thread that waits. -/
theorem Ahead.step_inv (hh : Homes H s) (he : EntryInv O s) (hquiet : Quiet s) (hw : Waiting c u s) (hw' : Waiting c u s')
    (h : Ahead t u (s.cpu c)) {a : Act n τ} (hok : Placed c s a) (hstep : step s a = some s') : Ahead t u (s'.cpu c) := by
  have hround : ∀ junk, a = .scan c junk → Ahead t u (s'.cpu c) := by
    rintro junk rfl
    rcases h.round hh he hw hstep with ⟨sc, rfl⟩ | ⟨hahead, -⟩
    · have hrunning : (switchTo (s.scanOn c sc) c u).status u = .running := Function.update_self ..
      have hready := hw'.2
      rw [hrunning] at hready
      cases hready
    · exact hahead
  cases step_cases hstep with
  | make =>
    rw [makeThread_cpu]
    exact h
  | create =>
    show Ahead t u ((makeThread s _ _).cpu c)
    rw [makeThread_cpu]
    exact h
  | makeSleep =>
    rw [setStatus_cpu]
    exact h
  | preempt => exact h.preempt ..
  | wakeUp => exact h
  | finish => exact h.preempt ..
  | adding hs hp => exact (h.add hh hp).preempt ..
  | readying =>
    rw [setStatus_cpu]
    exact h
  | @removed c' b q hs hp hq =>
    exact (Ahead.remove (s := { s with entries := s.entries.erase b }) (hh.setEntries _) h hs hq).preempt ..
  | completed =>
    rw [setStatus_cpu]
    exact h
  | @cleaned c' hs hp => exact Ahead.cleanTask (s := s.goto c' .exitClean) h hs
  | @stopped c' hs hp =>
    exact Ahead.enterOn (s := s.goto c' .stopped) (hh.goto rfl) h hs fun hc => hok hc (hc ▸ hp)
  | schedule hr => exact h.enterOn hh (LifeInv.atRun hr).1 hok
  | @timer c' hp =>
    have hscan : (s.cpu c').scan = none := by
      by_contra hsome
      rw [hquiet c' hsome] at hp
      cases hp
    exact h.enterOn hh hscan fun hc => hok hc (hc ▸ hp)
  | tick => exact h
  | @scan c' junk sc hs =>
    by_cases hc : c' = c
    · subst hc
      exact hround junk rfl
    · rw [Machine.scanOn, setCpu_cpu_ne _ c' (Ne.symm hc)]
      exact h
  | @switch c' junk sc v hs hv hr =>
    by_cases hc : c' = c
    · subst hc
      exact hround junk rfl
    · rw [switchTo_cpu_ne _ c' v (Ne.symm hc), Machine.scanOn, setCpu_cpu_ne _ c' (Ne.symm hc)]
      exact h

/-- Once `t` is chosen the way to every waiting thread begins at `t`. -/
theorem Chooses.ahead (h : Chooses c t s s') (hw : Waiting c u s') : Ahead t u (s'.cpu c) := by
  obtain ⟨hq, -⟩ := h.ready
  obtain ⟨junk, hstep, hscan, hr⟩ := h
  obtain ⟨j, hj⟩ := exists_holds hw.1
  cases step_cases hstep with
  | scan hs =>
    rw [Machine.scanOn, setCpu_cpu_self] at hscan
    cases hscan
  | @switch _ _ sc v hs hv hready =>
    have hself : (switchTo (s.scanOn c sc) c v).cpu c =
        { (s.scanOn c sc).cpu c with rthread := some v, cur := .thread v, preemptOn := true, scan := none } :=
      switchTo_cpu_self ..
    have hrunq : ((switchTo (s.scanOn c sc) c v).cpu c).runq = (s.cpu c).runq := by
      rw [hself, Machine.scanOn, setCpu_cpu_self]
    rw [← hrunq] at hq
    obtain ⟨i, hi⟩ := exists_holds hq
    exact .resting hi hj hscan hr hi (arc_self i j)

end

/-! ## Runs -/

/-- **Round robin.** Let `schedule` on CPU `c` choose thread `t` in a state that any run reaches. As long as another
thread `u` is on the queue of `c` and ready, and `schedule` is called on `c` only while the running thread is on the
queue, `schedule` does not choose `t` again. -/
theorem round_robin_fair {n : Nat} {τ : Type} [DecidableEq τ] (c : Fin n) (t u : τ) (htu : t ≠ u) (s s₁ s₂ s₃ : Machine n τ)
    (hrun : Reaches step Any (start n τ) s) (hfirst : Chooses c t s s₁)
    (hwait : Reaches step (fun v a => Placed c v a ∧ Waiting c u v) s₁ s₂) (hw : Waiting c u s₂) :
    ¬ Chooses c t s₂ s₃ := by
  obtain ⟨junk₁, hstep₁, -⟩ := id hfirst
  have hinv : Queues s₂ ∧ (Waiting c u s₂ → Ahead t u (s₂.cpu c)) := by
    refine hwait.invariant (I := fun v => Queues v ∧ (Waiting c u v → Ahead t u (v.cpu c)))
      ⟨(reaches_queues hrun).step_inv hstep₁, hfirst.ahead⟩ ?_
    rintro v a v' ⟨hq, hahead⟩ ⟨hok, hwv⟩ hstep
    refine ⟨hq.step_inv hstep, fun hwv' => ?_⟩
    obtain ⟨⟨H, hh⟩, ⟨O, he⟩, hquiet⟩ := hq
    exact (hahead hwv).step_inv hh he hquiet hwv hwv' hok hstep
  obtain ⟨⟨⟨H, hh⟩, ⟨O, he⟩, -⟩, hahead⟩ := hinv
  rintro ⟨junk, hstep, hscan, hr⟩
  rcases (hahead hw).round hh he hw hstep with ⟨sc, rfl⟩ | ⟨-, hne⟩
  · rw [switchTo_cpu_self] at hr
    exact htu (Option.some.inj hr).symm
  · exact hne hscan hr

instance {n : Nat} {τ : Type} [DecidableEq τ] (c : Fin n) (u : τ) (s : Machine n τ) : Decidable (Waiting c u s) :=
  inferInstanceAs (Decidable (_ ∧ _))

instance {n : Nat} {τ : Type} [DecidableEq τ] (c : Fin n) (s : Machine n τ) (a : Act n τ) : Decidable (Placed c s a) :=
  match a with
  | .schedule c' => inferInstanceAs (Decidable (c' = c → (s.cpu c).rthreadQueued = true))
  | .timer c' => inferInstanceAs (Decidable (c' = c → (s.cpu c).preemptOn = true → (s.cpu c).rthreadQueued = true))
  | .step c' => inferInstanceAs (Decidable (c' = c → s.curPc c = .exitClean → (s.cpu c).rthreadQueued = true))
  | .create _ _ _ _ _ | .makeSleep _ | .preempt _ _ | .wakeUp _ | .finish _ | .scan _ _ => inferInstanceAs (Decidable True)

inductive Three where
  | first
  | second
  | third
deriving DecidableEq, Repr

/-- The first thread makes the second and the third; the three are scheduled in turn until it is the first one's
turn again. -/
def threeInTurn {n : Nat} (c : Fin n) : List (Act n Three) :=
  [.create c (some .first) 1 (some 100) c, .step c, .step c, .schedule c, .scan c .init,
    .create c (some .second) 1 (some 200) c, .step c, .step c, .create c (some .third) 1 (some 300) c, .step c, .step c,
    .timer c, .scan c .init, .timer c, .scan c .init, .timer c]

/-- `schedule` ends in the next step and chooses `t`. -/
def choosesNext {n : Nat} {τ : Type} [DecidableEq τ] (c : Fin n) (t : τ) (s : Machine n τ) : Option (Machine n τ) :=
  (step s (.scan c .init)).filter fun s' => (s'.cpu c).scan.isNone && (s'.cpu c).rthread = some t

theorem chooses_of_next {n : Nat} {τ : Type} [DecidableEq τ] {c : Fin n} {t : τ} {s s' : Machine n τ}
    (h : choosesNext c t s = some s') : Chooses c t s s' := by
  obtain ⟨hstep, htest⟩ := Option.filter_eq_some_iff.1 h
  obtain ⟨hscan, hr⟩ : (s'.cpu c).scan = none ∧ (s'.cpu c).rthread = some t := by
    simpa using htest
  exact ⟨.init, hstep, hscan, hr⟩

/-- The form in which two concrete runs with a choice between them are evaluated. -/
theorem exists_chosen_run {n : Nat} {τ : Type} [DecidableEq τ] (c : Fin n) (t u : τ) (ok : Machine n τ → Act n τ → Prop)
    [∀ v a, Decidable (ok v a)] (as bs : List (Act n τ)) (P : Machine n τ → Bool)
    (h : ((execOk step Any (start n τ) as).any fun s => (choosesNext c t s).any fun s₁ =>
      (execOk step ok s₁ bs).any fun s₂ => decide (Waiting c u s₂) && P s₂) = true) :
    ∃ s s₁ s₂, Reaches step Any (start n τ) s ∧ Chooses c t s s₁ ∧ Reaches step ok s₁ s₂ ∧ Waiting c u s₂ ∧ P s₂ = true := by
  obtain ⟨s, hs, h⟩ := (Option.any_eq_true _ _).1 h
  obtain ⟨s₁, hs₁, h⟩ := (Option.any_eq_true _ _).1 h
  obtain ⟨s₂, hs₂, h⟩ := (Option.any_eq_true _ _).1 h
  obtain ⟨hw, hP⟩ : Waiting c u s₂ ∧ P s₂ = true := by
    simpa using h
  exact ⟨s, s₁, s₂, reaches_of_execOk step Any as hs, chooses_of_next hs₁, reaches_of_execOk step ok bs hs₂, hw, hP⟩

/-- The second thread has its turn; the third waits, so the first is not chosen. -/
theorem round_robin_fair_three :
    ∃ s s₁ s₂ : Machine 1 Three, Reaches step Any (start 1 Three) s ∧ Chooses 0 .first s s₁ ∧
      Reaches step (fun v a => Placed 0 v a ∧ Waiting 0 .third v) s₁ s₂ ∧ Waiting 0 .third s₂ ∧
      ∀ s₃, ¬ Chooses 0 .first s₂ s₃ := by
  obtain ⟨s, s₁, s₂, hrun, hfirst, hwait, hw, -⟩ := exists_chosen_run (n := 1) 0 Three.first .third
    (fun v a => Placed 0 v a ∧ Waiting 0 .third v) (threeInTurn 0) [.timer 0, .scan 0 .init, .timer 0] (fun _ => true)
    (by decide +kernel)
  exact ⟨s, s₁, s₂, hrun, hfirst, hwait, hw, fun s₃ =>
    round_robin_fair 0 .first .third (by decide) s s₁ s₂ s₃ hrun hfirst hwait hw⟩

/-- **A thread passed over.** The second thread has its turn and exits; `schedule` begins with the first entry of the
queue, and the first thread is chosen again while the third one waits. -/
theorem round_robin_passes_over :
    ∃ s s₁ s₂ s₃ : Machine 1 Three, Reaches step Any (start 1 Three) s ∧ Chooses 0 .first s s₁ ∧
      Reaches step (fun v _ => Waiting 0 .third v) s₁ s₂ ∧ Waiting 0 .third s₂ ∧ Chooses 0 .first s₂ s₃ := by
  obtain ⟨s, s₁, s₂, hrun, hfirst, hwait, hw, hP⟩ := exists_chosen_run (n := 1) 0 Three.first .third
    (fun v _ => Waiting 0 .third v) (threeInTurn 0)
    [.timer 0, .scan 0 .init, .finish 0, .step 0, .step 0, .step 0, .step 0] (fun v => (choosesNext 0 .first v).isSome)
    (by decide +kernel)
  obtain ⟨s₃, hs₃⟩ := Option.isSome_iff_exists.1 hP
  exact ⟨s, s₁, s₂, s₃, hrun, hfirst, hwait, hw, chooses_of_next hs₃⟩

end RedMagic.Sched
