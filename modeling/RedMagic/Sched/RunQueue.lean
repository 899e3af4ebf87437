import Mathlib.Data.List.Nodup
import Mathlib.Data.List.TakeWhile

/-!
# Run queues (src/sched.c, include/list.h)

A run queue is the list of its entries in order. A cursor over it is a `rthread_list_t *`, and the list macros
make one out of any `list_head_t *`: past the last entry they make one out of the list head itself, which is
no entry but a part of `cpu_state_t`.

| here | there |
| --- | --- |
| `Entry`  | `rthread_list_t` (`sched.h:38-45`), with its address |
| `Ptr`    | a `rthread_list_t *` |
| `ThreadPtr` | a `thread_t *`; `.junk` is what lies where the list head would have `threadp` |
| `firstEntry`, `nextEntry`, `listIsLast` | `list_first_entry`, `list_next_entry`, `list_is_last` (`list.h`) |
| `findThreadInRq` | `find_thread_in_rq` (`sched.c:332-343`) |
| `removeThread`   | `find_thread_in_rq` and `list_del` of `__remove_thread_from_rq` (`sched.c:321-324`) |

The functions that follow pointers also give the list of what they dereference.
-/

namespace RedMagic.Sched

structure Entry (τ : Type) where
  addr : Nat
  threadp : Option τ
deriving DecidableEq, Repr

inductive Ptr where
  | null
  | head
  | entry (addr : Nat)
deriving DecidableEq, Repr

inductive ThreadPtr (τ : Type) where
  | null
  | thread (t : τ)
  | junk
deriving DecidableEq, Repr

def ThreadPtr.of {τ : Type} : Option τ → ThreadPtr τ
  | none => .null
  | some t => .thread t

/-- A pointer that is dereferenced, as a thread or as a queue entry. -/
inductive Deref (τ : Type) where
  | thread (p : ThreadPtr τ)
  | entry (p : Ptr)
deriving DecidableEq, Repr

section
variable {τ : Type}

/-- The threads of the entries, in order. -/
def queued (q : List (Entry τ)) : List τ := q.filterMap (·.threadp)

theorem mem_queued_cons {e : Entry τ} {q : List (Entry τ)} {t : τ} :
    t ∈ queued (e :: q) ↔ e.threadp = some t ∨ t ∈ queued q := by
  simp [queued, List.mem_filterMap]

def firstEntry : List (Entry τ) → Ptr
  | [] => .head
  | e :: _ => .entry e.addr

/-- The entry after `p`. From the head it is the first one; an entry that is not on the queue has no
successor there. -/
def nextEntry (q : List (Entry τ)) : Ptr → Ptr
  | .null => .null
  | .head => firstEntry q
  | .entry a =>
    match q.dropWhile (fun e => e.addr ≠ a) with
    | [] => .null
    | _ :: rest => firstEntry rest

def listIsLast (q : List (Entry τ)) (p : Ptr) : Bool := nextEntry q p = .head

/-- `p->threadp`. -/
def threadOf (q : List (Entry τ)) : Ptr → ThreadPtr τ
  | .entry a =>
    match q.find? (fun e => e.addr = a) with
    | some e => .of e.threadp
    | none => .junk
  | .null | .head => .junk

/-- `p` points to an entry of the queue. -/
def Member (q : List (Entry τ)) (p : Ptr) : Prop := ∃ e ∈ q, p = .entry e.addr

theorem Member.append {q : List (Entry τ)} {p : Ptr} (h : Member q p) (l : List (Entry τ)) : Member (q ++ l) p := by
  obtain ⟨e, he, rfl⟩ := h
  exact ⟨e, List.mem_append_left l he, rfl⟩

theorem firstEntry_member {q : List (Entry τ)} (h : q ≠ []) : Member q (firstEntry q) := by
  cases q with
  | nil => exact absurd rfl h
  | cons e q => exact ⟨e, List.mem_cons_self .., rfl⟩

theorem firstEntry_cases (q : List (Entry τ)) : firstEntry q = .head ∨ Member q (firstEntry q) := by
  cases q with
  | nil => exact .inl rfl
  | cons e q => exact .inr ⟨e, List.mem_cons_self .., rfl⟩

/-- From an entry of the queue the cursor goes to the head or to another entry. -/
theorem nextEntry_cases {q : List (Entry τ)} {p : Ptr} (h : Member q p) :
    nextEntry q p = .head ∨ Member q (nextEntry q p) := by
  obtain ⟨e, he, rfl⟩ := h
  simp only [nextEntry]
  split
  · rename_i hnil
    simpa using List.dropWhile_eq_nil_iff.1 hnil e he
  · rename_i e' rest hrest
    rcases firstEntry_cases rest with h | ⟨e'', he'', h⟩
    · exact .inl h
    · have hmem : e'' ∈ q.dropWhile (fun x => x.addr ≠ e.addr) := by
        rw [hrest]
        exact List.mem_cons_of_mem _ he''
      exact .inr ⟨e'', (List.dropWhile_sublist _).subset hmem, h⟩

theorem threadOf_mem {q : List (Entry τ)} {p : Ptr} {t : τ} (h : threadOf q p = .thread t) : t ∈ queued q := by
  cases p with
  | null => cases h
  | head => cases h
  | entry a =>
    simp only [threadOf] at h
    split at h
    · rename_i e he
      refine List.mem_filterMap.2 ⟨e, List.mem_of_find?_eq_some he, ?_⟩
      cases ht : e.threadp with
      | none =>
        rw [ht] at h
        cases h
      | some u =>
        rw [ht] at h
        cases h
        rfl
    · cases h

/-- On a queue without NULL entries, an entry's thread is a thread. -/
theorem threadOf_member {q : List (Entry τ)} (hq : ∀ e ∈ q, e.threadp ≠ none) {p : Ptr} (h : Member q p) :
    ∃ t, threadOf q p = .thread t := by
  obtain ⟨e, he, rfl⟩ := h
  simp only [threadOf]
  split
  · rename_i e' he'
    obtain ⟨t, ht⟩ := Option.ne_none_iff_exists'.1 (hq e' (List.mem_of_find?_eq_some he'))
    exact ⟨t, by rw [ht]; rfl⟩
  · rename_i hnone
    simpa using List.find?_eq_none.1 hnone e he

end

/-! ## Queues whose entries have different addresses -/

section
variable {τ : Type} {q : List (Entry τ)} (hnd : (q.map (·.addr)).Nodup) {e : Entry τ} {i : Nat}
include hnd

theorem find?_addr (he : e ∈ q) : q.find? (fun x => x.addr = e.addr) = some e := by
  cases hfind : q.find? (fun x => x.addr = e.addr) with
  | none => simpa using List.find?_eq_none.1 hfind e he
  | some e' =>
    have haddr : e'.addr = e.addr := by
      simpa using List.find?_some hfind
    rw [List.inj_on_of_nodup_map hnd (List.mem_of_find?_eq_some hfind) he haddr]

theorem threadOf_entry (he : e ∈ q) : threadOf q (.entry e.addr) = .of e.threadp := by
  simp only [threadOf, find?_addr hnd he]

theorem dropWhile_addr (he : q[i]? = some e) :
    q.dropWhile (fun x => x.addr ≠ e.addr) = q.drop i := by
  induction q generalizing i with
  | nil => simp at he
  | cons x q ih =>
    rw [List.map_cons, List.nodup_cons] at hnd
    cases i with
    | zero =>
      cases he
      simp
    | succ i =>
      have hmem : e.addr ∈ q.map (·.addr) := List.mem_map_of_mem (List.mem_of_getElem? he)
      have hne : x.addr ≠ e.addr := fun h => hnd.1 (h ▸ hmem)
      rw [List.dropWhile_cons_of_pos (by simpa using hne), List.drop_succ_cons]
      exact ih hnd.2 he

theorem nextEntry_entry (he : q[i]? = some e) : nextEntry q (.entry e.addr) = firstEntry (q.drop (i + 1)) := by
  have hdrop : q.drop i = e :: q.drop (i + 1) := by
    obtain ⟨hil, rfl⟩ := List.getElem?_eq_some_iff.1 he
    exact List.drop_eq_getElem_cons hil
  simp only [nextEntry, dropWhile_addr hnd he, hdrop]

end

section
variable {τ : Type} [DecidableEq τ]

/-- `find_thread_in_rq`, with the entries it dereferences. When the loop runs to its end the cursor is the
list head. -/
def findThreadInRq (threadp : Option τ) : List (Entry τ) → List (Deref τ) × Ptr
  | [] => ([], .head)
  | e :: q =>
    if e.threadp = threadp then ([.entry (.entry e.addr)], .entry e.addr)
    else
      let r := findThreadInRq threadp q
      (.entry (.entry e.addr) :: r.1, r.2)

/-- The entry that is found leaves the queue; its address and the rest. A list head that is taken for the
entry and deleted leaves no queue. -/
def removeThread (threadp : Option τ) (q : List (Entry τ)) : Option (Nat × List (Entry τ)) :=
  match (findThreadInRq threadp q).2 with
  | .entry a => some (a, q.eraseP (fun e => e.threadp = threadp))
  | .null | .head => none

/-- Only entries of the queue are dereferenced. -/
theorem findThreadInRq_derefs (threadp : Option τ) (q : List (Entry τ)) :
    ∀ d ∈ (findThreadInRq threadp q).1, ∃ p, d = .entry p ∧ Member q p := by
  induction q with
  | nil => simp [findThreadInRq]
  | cons e q ih =>
    have hself : Member (e :: q) (.entry e.addr) := ⟨e, List.mem_cons_self .., rfl⟩
    intro d hd
    simp only [findThreadInRq] at hd
    split at hd
    · rw [List.mem_singleton.1 hd]
      exact ⟨_, rfl, hself⟩
    · rcases List.mem_cons.1 hd with rfl | hd
      · exact ⟨_, rfl, hself⟩
      · obtain ⟨p, rfl, e', he', rfl⟩ := ih d hd
        exact ⟨_, rfl, e', List.mem_cons_of_mem _ he', rfl⟩

theorem findThreadInRq_member {t : τ} {q : List (Entry τ)} (h : t ∈ queued q) :
    Member q (findThreadInRq (some t) q).2 := by
  induction q with
  | nil => cases h
  | cons e q ih =>
    simp only [findThreadInRq]
    split
    · exact ⟨e, List.mem_cons_self .., rfl⟩
    · rename_i hne
      obtain ⟨e', he', hp⟩ := ih ((mem_queued_cons.1 h).resolve_left hne)
      exact ⟨e', List.mem_cons_of_mem _ he', hp⟩

/-- A thread that is not on the queue is looked for in vain, and the cursor ends up at the head. -/
theorem findThreadInRq_head {t : τ} {q : List (Entry τ)} (h : t ∉ queued q) :
    (findThreadInRq (some t) q).2 = .head := by
  induction q with
  | nil => rfl
  | cons e q ih =>
    have he : e.threadp ≠ some t := fun he => h (mem_queued_cons.2 (.inl he))
    have hq : t ∉ queued q := fun hq => h (mem_queued_cons.2 (.inr hq))
    simp only [findThreadInRq, if_neg he]
    exact ih hq

theorem queued_eraseP (t : τ) (q : List (Entry τ)) :
    queued (q.eraseP fun e => e.threadp = some t) = (queued q).erase t := by
  induction q with
  | nil => rfl
  | cons e q ih =>
    by_cases he : e.threadp = some t
    · simp [queued, he]
    · rw [List.eraseP_cons_of_neg (by simpa using he)]
      cases hte : e.threadp with
      | none => simpa [queued, hte] using ih
      | some u =>
        have hut : u ≠ t := fun h => he (by rw [hte, h])
        simpa [queued, hte, hut, List.erase_cons] using ih

/-- A thread that is on the queue is found, and only it leaves the queue. -/
theorem removeThread_spec {t : τ} {q : List (Entry τ)} (h : t ∈ queued q) :
    ∃ a q', removeThread (some t) q = some (a, q') ∧ queued q' = (queued q).erase t := by
  obtain ⟨e, -, he⟩ := findThreadInRq_member h
  refine ⟨e.addr, _, ?_, queued_eraseP t q⟩
  rw [removeThread, he]

end

end RedMagic.Sched
