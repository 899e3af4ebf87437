import Mathlib.Data.List.Nodup
import RedMagic.Sched.Running

/-!
# The entries of the run queues

Every `rthread_list_t` in use is in one place: on one queue, or with the context that is about to put it on
one (`EntryInv`). So the entries of a queue have different addresses, and a cursor is at one position.
-/

namespace RedMagic.Sched

open Lts

section
variable {n : Nat} {τ : Type}

/-- Before `list_add_tail`. -/
def Pc.adds : Pc n τ → Bool
  | .adding _ _ _ => true
  | _ => false

/-- `O a` is the place of the entry at `a`: a queue, or a context in `add_thread_to_rq`. -/
structure EntryInv (O : Nat → Option (Fin n ⊕ Ctx n τ)) (s : Machine n τ) : Prop where
  used : ∀ a p, O a = some p → a ∈ s.entries
  queue : ∀ c, ∀ e ∈ (s.cpu c).runq, O e.addr = some (.inl c)
  adding : ∀ x new a on, s.pc x = .adding new a on → O a = some (.inr x)
  addrs : ∀ c, ((s.cpu c).runq.map (·.addr)).Nodup
  nodup : s.entries.Nodup

theorem entryInv_start : EntryInv (fun _ => none) (start n τ) := by
  refine ⟨?_, ?_, ?_, fun _ => List.nodup_nil, List.nodup_nil⟩ <;> simp [start]

variable {O : Nat → Option (Fin n ⊕ Ctx n τ)} {s s' : Machine n τ} {c : Fin n}

theorem EntryInv.frame (hi : EntryInv O s) (hent : s'.entries = s.entries) (hq : ∀ c, (s'.cpu c).runq = (s.cpu c).runq)
    (hpc : ∀ x new a on, s'.pc x = .adding new a on → s.pc x = .adding new a on) : EntryInv O s' := by
  constructor
  · intro a p h
    rw [hent]
    exact hi.used a p h
  · intro c e he
    rw [hq] at he
    exact hi.queue c e he
  · intro x new a on h
    exact hi.adding x new a on (hpc x new a on h)
  · intro c
    rw [hq]
    exact hi.addrs c
  · rw [hent]
    exact hi.nodup

theorem EntryInv.setCpu (hi : EntryInv O s) {x : Cpu n τ} (hq : x.runq = (s.cpu c).runq) : EntryInv O (s.setCpu c x) := by
  refine hi.frame rfl ?_ fun _ _ _ _ h => h
  intro c'
  by_cases hc : c' = c
  · rw [hc, setCpu_cpu_self, hq]
  · rw [setCpu_cpu_ne s c hc]

theorem EntryInv.status (hi : EntryInv O s) (st : τ → Status) : EntryInv O { s with status := st } := { hi with }

theorem EntryInv.cleanTask (hi : EntryInv O s) : EntryInv O (cleanTask s c) := by
  unfold Sched.cleanTask
  split
  · split
    · exact hi.setCpu rfl
    · exact hi
  · exact hi

end

section
variable {n : Nat} {τ : Type} [DecidableEq τ] {O : Nat → Option (Fin n ⊕ Ctx n τ)} {s s' : Machine n τ} {c : Fin n}

theorem EntryInv.setStatus (hi : EntryInv O s) (r : Option τ) (st : Status) : EntryInv O (s.setStatus r st) := by
  cases r with
  | none => exact hi
  | some t => exact hi.status _

theorem EntryInv.goto (hi : EntryInv O s) {p : Pc n τ} (hp : p.adds = false) : EntryInv O (s.goto c p) := by
  refine hi.frame rfl (fun _ => rfl) ?_
  intro x new a on h
  by_cases hx : x = (s.cpu c).cur
  · rw [hx, goto_pc_self] at h
    rw [h] at hp
    cases hp
  · rwa [goto_pc_ne s c p hx] at h

theorem EntryInv.make (hi : EntryInv O s) (new : Option τ) (task : Nat) : EntryInv O (makeThread s new task) := by
  cases new with
  | none => exact hi
  | some t =>
    refine hi.frame rfl (fun _ => rfl) ?_
    intro x new' a on h
    by_cases hx : x = .thread t
    · rw [hx, makeThread_pc_self] at h
      cases h
    · rwa [makeThread_pc_ne s task hx] at h

/-- A new entry, with the context that made it. -/
theorem EntryInv.alloc (hi : EntryInv O s) {a : Nat} (ha : a ∉ s.entries) (new : Option τ) (on : Fin n) :
    EntryInv (Function.update O a (some (.inr (s.cpu c).cur))) ({ s with entries := a :: s.entries }.goto c (.adding new a on)) := by
  have hne : ∀ b p, O b = some p → b ≠ a := by
    rintro b p hb rfl
    exact ha (hi.used b p hb)
  have hold : ∀ b p, O b = some p → Function.update O a (some (.inr (s.cpu c).cur)) b = some p :=
    fun b p hb => (Function.update_of_ne (hne b p hb) _ _).trans hb
  refine ⟨?_, ?_, ?_, hi.addrs, List.nodup_cons.2 ⟨ha, hi.nodup⟩⟩
  · intro b p hb
    by_cases hba : b = a
    · rw [hba]
      exact List.mem_cons_self ..
    · rw [Function.update_of_ne hba] at hb
      exact List.mem_cons_of_mem _ (hi.used b p hb)
  · intro c' e he
    exact hold _ _ (hi.queue c' e he)
  · intro x new' b on' h
    by_cases hx : x = (s.cpu c).cur
    · have hself : ({ s with entries := a :: s.entries }.goto c (.adding new a on)).pc (s.cpu c).cur = .adding new a on :=
        Function.update_self ..
      rw [hx, hself] at h
      cases h
      rw [hx, Function.update_self]
    · have hsame : ({ s with entries := a :: s.entries }.goto c (.adding new a on)).pc x = s.pc x :=
        Function.update_of_ne hx _ _
      rw [hsame] at h
      exact hold _ _ (hi.adding x new' b on' h)

/-- The entry goes from its context to the queue. -/
theorem EntryInv.add (hi : EntryInv O s) {new : Option τ} {a : Nat} {on : Fin n} (hp : s.curPc c = .adding new a on) :
    EntryInv (Function.update O a (some (.inl on)))
      ((s.setRunq on ((s.cpu on).runq ++ [⟨a, new⟩])).goto c (.readying new)) := by
  have ha : O a = some (.inr (s.cpu c).cur) := hi.adding _ new a on hp
  have hne : ∀ c', ∀ e ∈ (s.cpu c').runq, e.addr ≠ a := by
    intro c' e he hea
    have := hi.queue c' e he
    rw [hea, ha] at this
    cases this
  have hrunq : ∀ c', c' ≠ on → (s.setRunq on ((s.cpu on).runq ++ [⟨a, new⟩])).cpu c' = s.cpu c' :=
    fun c' hc => setCpu_cpu_ne s on hc _
  have hself : ((s.setRunq on ((s.cpu on).runq ++ [⟨a, new⟩])).cpu on).runq = (s.cpu on).runq ++ [⟨a, new⟩] := by
    rw [Machine.setRunq, setCpu_cpu_self]
  have hcur : ((s.setRunq on ((s.cpu on).runq ++ [⟨a, new⟩])).cpu c).cur = (s.cpu c).cur := setRunq_cur ..
  refine ⟨?_, ?_, ?_, ?_, hi.nodup⟩
  · intro b p hb
    by_cases hba : b = a
    · rw [hba]
      exact hi.used a _ ha
    · rw [Function.update_of_ne hba] at hb
      exact hi.used b p hb
  · intro c' e he
    replace he : e ∈ ((s.setRunq on ((s.cpu on).runq ++ [⟨a, new⟩])).cpu c').runq := he
    by_cases hc : c' = on
    · rw [hc, hself] at he
      rcases List.mem_append.1 he with he | he
      · rw [hc, Function.update_of_ne (hne on e he)]
        exact hi.queue on e he
      · rw [List.mem_singleton.1 he, hc, Function.update_self]
    · rw [hrunq c' hc] at he
      rw [Function.update_of_ne (hne c' e he)]
      exact hi.queue c' e he
  · intro x new' b on' h
    by_cases hx : x = (s.cpu c).cur
    · rw [← hcur] at hx
      rw [hx, goto_pc_self] at h
      cases h
    · rw [goto_pc_ne _ c _ (hcur ▸ hx)] at h
      have hb := hi.adding x new' b on' h
      have hba : b ≠ a := by
        rintro rfl
        rw [ha] at hb
        cases hb
        exact hx rfl
      rw [Function.update_of_ne hba]
      exact hb
  · intro c'
    show (((s.setRunq on ((s.cpu on).runq ++ [⟨a, new⟩])).cpu c').runq.map (·.addr)).Nodup
    by_cases hc : c' = on
    · rw [hc, hself, List.map_append, List.nodup_append]
      refine ⟨hi.addrs on, List.pairwise_singleton _ _, ?_⟩
      intro b hb b' hb' hbb
      obtain ⟨e, he, rfl⟩ := List.mem_map.1 hb
      rw [List.mem_map] at hb'
      obtain ⟨e', he', rfl⟩ := hb'
      rw [List.mem_singleton.1 he'] at hbb
      exact hne on e he hbb
    · rw [hrunq c' hc]
      exact hi.addrs c'

/-- The entry that `removeThread` takes out: the first one with the thread. -/
theorem removeThread_split {r : Option τ} {q q' : List (Entry τ)} {a : Nat} (h : removeThread r q = some (a, q')) :
    ∃ e l₁ l₂, q = l₁ ++ e :: l₂ ∧ q' = l₁ ++ l₂ ∧ e.addr = a ∧ e.threadp = r := by
  induction q generalizing q' with
  | nil => cases h
  | cons e q ih =>
    by_cases he : e.threadp = r
    · simp only [removeThread, findThreadInRq, if_pos he] at h
      cases h
      exact ⟨e, [], q, rfl, by simp [List.eraseP_cons_of_pos, he], rfl, he⟩
    · have hcons : removeThread r (e :: q) = (removeThread r q).map fun x => (x.1, e :: x.2) := by
        simp only [removeThread, findThreadInRq, if_neg he]
        cases (findThreadInRq r q).2 with
        | entry b => simp [List.eraseP_cons_of_neg, he]
        | null => rfl
        | head => rfl
      rw [hcons, Option.map_eq_some_iff] at h
      obtain ⟨⟨b, q₁⟩, hq₁, heq⟩ := h
      cases heq
      obtain ⟨e', l₁, l₂, rfl, rfl, hb, hr⟩ := ih hq₁
      exact ⟨e', e :: l₁, l₂, rfl, rfl, hb, hr⟩

/-- An entry leaves its queue and is freed. -/
theorem EntryInv.remove (hi : EntryInv O s) {r : Option τ} {a : Nat} {q : List (Entry τ)}
    (h : removeThread r (s.cpu c).runq = some (a, q)) :
    EntryInv (Function.update O a none) ({ s with entries := s.entries.erase a }.setRunq c q) := by
  obtain ⟨e, l₁, l₂, hrunq, rfl, rfl, -⟩ := removeThread_split h
  have hsub : (l₁ ++ l₂).Sublist (s.cpu c).runq := by
    rw [hrunq]
    exact List.Sublist.append_left (List.sublist_cons_self ..) _
  have he : O e.addr = some (.inl c) := hi.queue c e (by rw [hrunq]; simp)
  have hself : (({ s with entries := s.entries.erase e.addr }.setRunq c (l₁ ++ l₂)).cpu c).runq = l₁ ++ l₂ := by
    rw [Machine.setRunq, setCpu_cpu_self]
  have hne : ∀ c', c' ≠ c → ({ s with entries := s.entries.erase e.addr }.setRunq c (l₁ ++ l₂)).cpu c' = s.cpu c' :=
    fun c' hc => setCpu_cpu_ne { s with entries := s.entries.erase e.addr } c hc _
  -- the addresses of the other entries of the queue are others
  have hrest : ∀ x ∈ l₁ ++ l₂, x.addr ≠ e.addr := by
    have hnd := hi.addrs c
    rw [hrunq, List.map_append, List.map_cons, List.nodup_middle] at hnd
    intro x hx hxe
    refine (List.nodup_cons.1 hnd).1 ?_
    rw [← List.map_append, ← hxe]
    exact List.mem_map_of_mem hx
  refine ⟨?_, ?_, ?_, ?_, hi.nodup.erase _⟩
  · intro b p hb
    have hbe : b ≠ e.addr := by
      rintro rfl
      rw [Function.update_self] at hb
      cases hb
    rw [Function.update_of_ne hbe] at hb
    exact (List.mem_erase_of_ne hbe).2 (hi.used b p hb)
  · intro c' x hx
    by_cases hc : c' = c
    · rw [hc, hself] at hx
      rw [hc, Function.update_of_ne (hrest x hx)]
      exact hi.queue c x (hsub.subset hx)
    · rw [hne c' hc] at hx
      have hO := hi.queue c' x hx
      have hxe : x.addr ≠ e.addr := by
        intro hxe
        rw [hxe, he] at hO
        cases hO
        exact hc rfl
      rw [Function.update_of_ne hxe]
      exact hO
  · intro x new b on hx
    have hO := hi.adding x new b on hx
    have hbe : b ≠ e.addr := by
      rintro rfl
      rw [he] at hO
      cases hO
    rw [Function.update_of_ne hbe]
    exact hO
  · intro c'
    by_cases hc : c' = c
    · rw [hc, hself]
      exact (hi.addrs c).sublist (hsub.map _)
    · rw [hne c' hc]
      exact hi.addrs c'

theorem EntryInv.enter (hi : EntryInv O s) : EntryInv O (enter s c) := by
  refine hi.frame rfl ?_ fun _ _ _ _ h => h
  intro c'
  by_cases hc : c' = c
  · rw [hc, enter_cpu_self]
  · rw [enter_cpu_ne s c hc]

/-! ## Steps and runs -/

/-- The address of a new entry is not in use. -/
theorem create_fresh {new : Option τ} {task a : Nat} {on : Fin n} (h : step s (.create c new task (some a) on) = some s') :
    a ∉ s.entries := by
  simp only [step] at h
  split at h
  · rename_i hg
    exact hg.2.2 a rfl
  · cases h

theorem EntryInv.step_inv (hi : EntryInv O s) {a : Act n τ} (h : step s a = some s') : ∃ O', EntryInv O' s' := by
  cases step_cases h with
  | make hr hnew => exact ⟨O, hi.make _ _⟩
  | @create c new task a on hr hnew =>
    have hent : (makeThread s new task).entries = s.entries := by
      cases new <;> rfl
    exact ⟨_, (hi.make new task).alloc (hent ▸ create_fresh h) new on⟩
  | makeSleep => exact ⟨O, hi.setStatus _ _⟩
  | preempt => exact ⟨O, hi.setCpu rfl⟩
  | wakeUp => exact ⟨O, hi.status _⟩
  | finish => exact ⟨O, (hi.goto rfl).setCpu rfl⟩
  | adding hs hp => exact ⟨_, (hi.add hp).setCpu rfl⟩
  | readying => exact ⟨O, (hi.goto rfl).setStatus _ _⟩
  | removed hs hp hq => exact ⟨_, ((hi.remove hq).goto rfl).setCpu rfl⟩
  | completed => exact ⟨O, (hi.goto rfl).setStatus _ _⟩
  | cleaned => exact ⟨O, (hi.goto rfl).cleanTask⟩
  | stopped => exact ⟨O, (hi.goto rfl).enter⟩
  | schedule => exact ⟨O, hi.enter⟩
  | timer => exact ⟨O, hi.enter⟩
  | tick => exact ⟨O, hi⟩
  | scan => exact ⟨O, hi.setCpu rfl⟩
  | @switch c junk sc t hs ht hr =>
    have hscan : EntryInv O (s.scanOn c sc) := hi.setCpu rfl
    exact ⟨O, (hscan.setStatus (some t) .running).setCpu rfl⟩

/-! ## The timer in the loop -/

/-- No timer interrupt calls `schedule` on a CPU that is in `schedule`. -/
def Quiet (s : Machine n τ) : Prop := ∀ c, (s.cpu c).scan ≠ none → (s.cpu c).preemptOn = false

omit [DecidableEq τ] in
theorem Quiet.setCpu (hi : Quiet s) {x : Cpu n τ} (hx : x.scan ≠ none → x.preemptOn = false) : Quiet (s.setCpu c x) := by
  intro c'
  by_cases hc : c' = c
  · rw [hc, setCpu_cpu_self]
    exact hx
  · rw [setCpu_cpu_ne s c hc]
    exact hi c'

theorem Quiet.setStatus (hi : Quiet s) (r : Option τ) (st : Status) : Quiet (s.setStatus r st) := by
  cases r <;> exact hi

theorem Quiet.goto (hi : Quiet s) (p : Pc n τ) : Quiet (s.goto c p) := hi

theorem Quiet.make (hi : Quiet s) (new : Option τ) (task : Nat) : Quiet (makeThread s new task) := by
  cases new <;> exact hi

theorem Quiet.enter (hi : Quiet s) : Quiet (enter s c) := hi.setCpu fun _ => rfl

theorem Quiet.mstep (hi : Quiet s) {a : Act n τ} (h : MStep s a s') : Quiet s' := by
  cases h with
  | make => exact hi.make _ _
  | create => exact hi.make _ _
  | makeSleep => exact hi.setStatus _ _
  | preempt hr => exact hi.setCpu fun hs => absurd (LifeInv.atRun hr).1 hs
  | wakeUp => exact hi
  | finish => exact hi.setCpu fun _ => rfl
  | @adding c new a on hs hp =>
    have hq : Quiet (s.setRunq on ((s.cpu on).runq ++ [⟨a, new⟩])) := hi.setCpu (hi on)
    refine hq.setCpu fun hscan => absurd ?_ hscan
    exact (setRunq_scan s on _ c).trans hs
  | readying => exact (hi.goto _).setStatus _ _
  | @removed c a q hs hp hq =>
    have hq : Quiet ({ s with entries := s.entries.erase a }.setRunq c q) := hi.setCpu (hi c)
    refine hq.setCpu fun hscan => absurd ?_ hscan
    exact (setRunq_scan { s with entries := s.entries.erase a } c _ c).trans hs
  | completed => exact (hi.goto _).setStatus _ _
  | @cleaned c hs hp =>
    unfold cleanTask
    split
    · split
      · exact hi.setCpu (hi c)
      · exact hi
    · exact hi
  | stopped => exact hi.enter
  | schedule => exact hi.enter
  | timer => exact hi.enter
  | tick => exact hi
  | @scan c junk sc hs => exact hi.setCpu fun _ => hi c (hs ▸ Option.some_ne_none sc)
  | @switch c junk sc t hs ht hr =>
    have hscan : Quiet (s.scanOn c sc) := hi.setCpu fun _ => hi c (hs ▸ Option.some_ne_none sc)
    exact (hscan.setStatus (some t) .running).setCpu fun h => absurd rfl h

/-- What holds of the queues and their entries. -/
structure Queues (s : Machine n τ) : Prop where
  homes : ∃ H, Homes H s
  entries : ∃ O, EntryInv O s
  quiet : Quiet s

theorem Queues.step_inv (hi : Queues s) {a : Act n τ} (h : step s a = some s') : Queues s' := by
  obtain ⟨⟨H, hh⟩, ⟨O, he⟩, hq⟩ := hi
  exact ⟨hh.mstep (step_cases h), he.step_inv h, hq.mstep (step_cases h)⟩

theorem reaches_queues {ok : Machine n τ → Act n τ → Prop} (hrun : Reaches step ok (start n τ) s) : Queues s := by
  refine hrun.invariant ⟨⟨_, homes_start⟩, ⟨_, entryInv_start⟩, fun _ h => absurd rfl h⟩ ?_
  intro u a v hi _ hstep
  exact hi.step_inv hstep

end

end RedMagic.Sched
