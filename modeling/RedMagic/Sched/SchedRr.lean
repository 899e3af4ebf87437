import Mathlib.Data.List.Rotate
import RedMagic.Lib.Loop
import RedMagic.Sched.Pick
import RedMagic.Sched.RoundRobin

/-!
# One call of `__do_sched_rr` (src/sched.c:105-146)

| here | there |
| --- | --- |
| `rrRound`   | a round of its `do` loop; the cursor moves as in `advance` |
| `doSchedRr` | `__do_sched_rr`, with at most `fuel` rounds: the CPU it leaves and the thread it returns |

The statuses do not change during the call. The cursor goes round the queue from the entry of the running thread, so its
entries come in the order of a rotation, and the loop stops at the first one that is ready (`sched_rr_selects`).
-/

namespace RedMagic.Sched

open Loop

section
variable {n : Nat} {τ : Type} (status : ThreadPtr τ → Status)

/-- A `continue` ends at the condition too. -/
def rrRound (c : Cpu n τ × Ptr) : (Cpu n τ × Ptr) ⊕ (Cpu n τ × ThreadPtr τ) :=
  let tlist := (advance c.1 c.2).2.1
  let cur := { c.1 with rthread := (advance c.1 c.2).2.2 }
  if tlist = .null ∨ status (threadOf cur.runq tlist) ≠ .ready then .inl (cur, tlist)
  else .inr (cur, threadOf cur.runq tlist)

def doSchedRr [DecidableEq τ] (fuel : Nat) (cur : Cpu n τ) : Option (Cpu n τ × ThreadPtr τ) :=
  loop (rrRound status) fuel (cur, cur.startCursor)

/-- The first entry of a list whose thread is ready. -/
def firstReady (l : List (Entry τ)) : Option (Entry τ) := l.find? fun e => status (.of e.threadp) = .ready

/-! ## The rounds -/

theorem nextPos_eq_mod {len x : Nat} (h : x < len) : nextPos len x = (x + 1) % len := by
  unfold nextPos
  split
  · rename_i hlt
    rw [Nat.mod_eq_of_lt hlt]
  · rw [show x + 1 = len by omega, Nat.mod_self]

variable {x : Cpu n τ} {p : Ptr} {i : Nat}

/-- A round with a running thread looks at the entry after the cursor. -/
theorem rrRound_next (hnd : (x.runq.map (·.addr)).Nodup) (hr : x.rthread ≠ none) (hat : At x.runq p i) {e : Entry τ}
    (he : x.runq[(i + 1) % x.runq.length]? = some e) :
    ∃ p', At x.runq p' ((i + 1) % x.runq.length) ∧
      rrRound status (x, p) = if status (.of e.threadp) = .ready then .inr (x, .of e.threadp) else .inl (x, p') := by
  obtain ⟨t, ht⟩ := Option.ne_none_iff_exists'.1 hr
  have hnext := hat.next hnd
  rw [nextPos_eq_mod hat.lt] at hnext
  obtain ⟨e', he', hp'⟩ := id hnext
  rw [he] at he'
  cases he'
  have hthread := threadOf_entry hnd (List.mem_of_getElem? he)
  have hsame : { x with rthread := some t } = x := by rw [← ht]
  refine ⟨_, hnext, ?_⟩
  simp only [rrRound, advance, ht, hp', hthread, hsame, reduceCtorEq, false_or, ne_eq, ite_not]

/-- The place `k` behind the entry after `i` is the place `k + 1` behind `i`. -/
theorem getElem?_rotate_succ {α : Type} {l : List α} {k : Nat} (hk : k + 1 < l.length) (i : Nat) :
    (l.rotate ((i + 1) % l.length + 1))[k]? = (l.rotate (i + 1))[k + 1]? := by
  rw [List.getElem?_rotate (by omega), List.getElem?_rotate hk]
  congr 1
  rw [show k + ((i + 1) % l.length + 1) = (k + 1) + (i + 1) % l.length by omega, Nat.add_mod_mod]

/-- From the entry at `i` the entries come in the order of the queue rotated behind it. -/
theorem rr_loop (hnd : (x.runq.map (·.addr)).Nodup) (hr : x.rthread ≠ none) (hat : At x.runq p i) {k fuel : Nat}
    {e : Entry τ} (he : (x.runq.rotate (i + 1))[k]? = some e) (hready : status (.of e.threadp) = .ready)
    (hbefore : ∀ j < k, ∀ e', (x.runq.rotate (i + 1))[j]? = some e' → status (.of e'.threadp) ≠ .ready)
    (hfuel : k < fuel) : loop (rrRound status) fuel (x, p) = some (x, .of e.threadp) := by
  have hk : k < x.runq.length := by
    simpa using (List.getElem?_eq_some_iff.1 he).1
  have hlen : 0 < x.runq.length := Nat.lt_of_le_of_lt (Nat.zero_le k) hk
  induction k generalizing i p fuel with
  | zero =>
    rw [List.getElem?_rotate hlen, Nat.zero_add] at he
    obtain ⟨p', -, hround⟩ := rrRound_next status hnd hr hat he
    obtain ⟨fuel, rfl⟩ : ∃ m, fuel = m + 1 := ⟨fuel - 1, by omega⟩
    rw [loop, hround, if_pos hready]
  | succ k ih =>
    obtain ⟨e₀, he₀⟩ : ∃ e₀, x.runq[(i + 1) % x.runq.length]? = some e₀ :=
      ⟨_, List.getElem?_eq_getElem (Nat.mod_lt _ hlen)⟩
    have hfirst : (x.runq.rotate (i + 1))[0]? = some e₀ := by
      rw [List.getElem?_rotate hlen, Nat.zero_add, he₀]
    obtain ⟨p', hat', hround⟩ := rrRound_next status hnd hr hat he₀
    obtain ⟨fuel, rfl⟩ : ∃ m, fuel = m + 1 := ⟨fuel - 1, by omega⟩
    rw [loop, hround, if_neg (hbefore 0 (Nat.succ_pos k) e₀ hfirst)]
    -- the loop goes on from the next entry
    refine ih hat' ?_ ?_ (by omega) (by omega)
    · rw [getElem?_rotate_succ hk, he]
    · intro j hj e' he'
      rw [getElem?_rotate_succ (by omega)] at he'
      exact hbefore (j + 1) (by omega) e' he'

/-- The loop returns the first ready thread of the rotated queue, within as many rounds as there are entries. -/
theorem rr_loop_firstReady (hnd : (x.runq.map (·.addr)).Nodup) (hr : x.rthread ≠ none) (hat : At x.runq p i)
    (hready : ∃ e ∈ x.runq, status (.of e.threadp) = .ready) :
    ∃ r, firstReady status (x.runq.rotate (i + 1)) = some r ∧
      loop (rrRound status) x.runq.length (x, p) = some (x, .of r.threadp) := by
  obtain ⟨r, hr'⟩ : ∃ r, firstReady status (x.runq.rotate (i + 1)) = some r := by
    obtain ⟨e, he, hse⟩ := hready
    refine Option.isSome_iff_exists.1 (List.find?_isSome.2 ⟨e, List.mem_rotate.2 he, ?_⟩)
    exact decide_eq_true hse
  obtain ⟨hsr, k, hk, hget, hbefore⟩ := List.find?_eq_some_iff_getElem.1 hr'
  refine ⟨r, hr', rr_loop status hnd hr hat (k := k) ?_ (of_decide_eq_true hsr) ?_ ?_⟩
  · rw [List.getElem?_eq_getElem hk, hget]
  · intro j hj e' he'
    obtain ⟨hlt, rfl⟩ := List.getElem?_eq_some_iff.1 he'
    simpa using hbefore j hj
  · simpa using hk

/-- With no running thread the first round looks at the first entry, and its thread is the one that runs from then on. -/
theorem rrRound_first {e : Entry τ} {q : List (Entry τ)} (hq : x.runq = e :: q) (hr : x.rthread = none)
    (hnd : (x.runq.map (·.addr)).Nodup) :
    rrRound status (x, p) =
      if status (.of e.threadp) = .ready then .inr ({ x with rthread := e.threadp }, .of e.threadp)
      else .inl ({ x with rthread := e.threadp }, .entry e.addr) := by
  have hthread := threadOf_entry hnd (show e ∈ x.runq by rw [hq]; exact List.mem_cons_self)
  simp only [rrRound, advance, hr, hq] at hthread ⊢
  simp only [hthread, reduceCtorEq, false_or, ne_eq, ite_not]

/-- A queue whose first entry is not ready, with no running thread. -/
theorem rr_loop_first (hnd : (x.runq.map (·.addr)).Nodup) (hr : x.rthread = none) {e r : Entry τ} {q : List (Entry τ)}
    (hq : x.runq = e :: q) (hnull : e.threadp ≠ none) (hr' : firstReady status (e :: q) = some r) :
    loop (rrRound status) x.runq.length (x, p) = some ({ x with rthread := e.threadp }, .of r.threadp) := by
  have hlen : x.runq.length = q.length + 1 := by rw [hq, List.length_cons]
  rw [hlen, loop, rrRound_first status hq hr hnd]
  by_cases hse : status (.of e.threadp) = .ready
  · have hself : firstReady status (e :: q) = some e := List.find?_cons_of_pos (decide_eq_true hse)
    rw [hself] at hr'
    cases hr'
    rw [if_pos hse]
  · have hrest : firstReady status (e :: q) = q.find? fun e => status (.of e.threadp) = .ready :=
      List.find?_cons_of_neg (by simpa using hse)
    obtain ⟨hsr, k, hk, hget, hbefore⟩ := List.find?_eq_some_iff_getElem.1 (hrest.symm.trans hr')
    have hrotate : (e :: q).rotate (0 + 1) = q ++ [e] := by simp
    have hat : At x.runq (.entry e.addr) 0 := ⟨e, by rw [hq]; rfl, rfl⟩
    rw [if_neg hse]
    refine rr_loop (x := { x with rthread := e.threadp }) status hnd hnull hat (k := k) ?_ (of_decide_eq_true hsr) ?_ hk
    · show (x.runq.rotate (0 + 1))[k]? = some r
      rw [hq, hrotate, List.getElem?_append_left hk, List.getElem?_eq_getElem hk, hget]
    · intro j hj e' he'
      replace he' : (x.runq.rotate (0 + 1))[j]? = some e' := he'
      rw [hq, hrotate, List.getElem?_append_left (by omega)] at he'
      obtain ⟨hlt, rfl⟩ := List.getElem?_eq_some_iff.1 he'
      simpa using hbefore j hj

/-- `find_thread_in_rq` stops at the first entry of the thread. -/
theorem findThreadInRq_split [DecidableEq τ] {t : τ} {q : List (Entry τ)} (h : t ∈ queued q) :
    ∃ l₁ e l₂, q = l₁ ++ e :: l₂ ∧ e.threadp = some t ∧ t ∉ queued l₁ ∧ (findThreadInRq (some t) q).2 = .entry e.addr := by
  induction q with
  | nil => cases h
  | cons e q ih =>
    by_cases he : e.threadp = some t
    · exact ⟨[], e, q, rfl, he, List.not_mem_nil, by simp [findThreadInRq, he]⟩
    · obtain ⟨l₁, e₁, l₂, rfl, he₁, hl₁, hfind⟩ := ih ((mem_queued_cons.1 h).resolve_left he)
      refine ⟨e :: l₁, e₁, l₂, rfl, he₁, ?_, ?_⟩
      · exact fun hmem => hl₁ ((mem_queued_cons.1 hmem).resolve_left he)
      · simp only [findThreadInRq, if_neg he]
        exact hfind

end

/-- **Round-robin selection.** The loop ends, within as many rounds as the queue has entries. With a running thread it
returns the first ready one behind it, round the end of the queue and with the running one last; with none the first
ready one of the queue. -/
theorem sched_rr_selects {n : Nat} {τ : Type} [DecidableEq τ] (status : ThreadPtr τ → Status) (x : Cpu n τ)
    (hok : QueueOk x.runq) (hready : ∃ e ∈ x.runq, status (.of e.threadp) = .ready) :
    (∀ t, x.rthread = some t → t ∈ queued x.runq →
      ∃ l₁ e l₂ r, x.runq = l₁ ++ e :: l₂ ∧ e.threadp = some t ∧ t ∉ queued l₁ ∧
        firstReady status (l₂ ++ l₁ ++ [e]) = some r ∧
        doSchedRr status x.runq.length x = some (x, .of r.threadp)) ∧
    (x.rthread = none → (∀ e ∈ x.runq.head?, e.threadp ≠ none) →
      ∃ e r, x.runq.head? = some e ∧ firstReady status x.runq = some r ∧
        doSchedRr status x.runq.length x = some ({ x with rthread := e.threadp }, .of r.threadp)) := by
  refine ⟨fun t ht hqueued => ?_, fun hnone hnull => ?_⟩
  · obtain ⟨l₁, e, l₂, hq, het, hl₁, hfind⟩ := findThreadInRq_split hqueued
    have hrotate : x.runq.rotate (l₁.length + 1) = l₂ ++ l₁ ++ [e] := by
      have hsplit : x.runq = (l₁ ++ [e]) ++ l₂ := by rw [hq, List.append_assoc, List.singleton_append]
      rw [hsplit, show l₁.length + 1 = (l₁ ++ [e]).length by simp, List.rotate_append_length_eq, List.append_assoc]
    have hat : At x.runq x.startCursor l₁.length := by
      refine ⟨e, by simp [hq], ?_⟩
      rw [Cpu.startCursor, ht]
      exact hfind
    obtain ⟨r, hfirst, hloop⟩ := rr_loop_firstReady status hok.nodup (by simp [ht]) hat hready
    rw [hrotate] at hfirst
    exact ⟨l₁, e, l₂, r, hq, het, hl₁, hfirst, hloop⟩
  · obtain ⟨e₀, he₀, hse₀⟩ := hready
    obtain ⟨e, q, hq⟩ := List.exists_cons_of_ne_nil (List.ne_nil_of_mem he₀)
    have hhead : x.runq.head? = some e := by rw [hq]; rfl
    obtain ⟨r, hr⟩ : ∃ r, firstReady status x.runq = some r :=
      Option.isSome_iff_exists.1 (List.find?_isSome.2 ⟨e₀, he₀, decide_eq_true hse₀⟩)
    exact ⟨e, r, hhead, hr, rr_loop_first status hok.nodup hnone hq (hnull e hhead) (hq ▸ hr)⟩

/-- Three threads, of which the second one runs. -/
def secondRuns : Cpu 1 Nat :=
  ⟨[⟨0x1000, some 0⟩, ⟨0x2000, some 1⟩, ⟨0x3000, some 2⟩], some 1, false, .thread 1, none⟩

/-- The first two threads are ready. -/
def lastBlocked : ThreadPtr Nat → Status
  | .thread 2 => .blocked
  | _ => .ready

theorem sched_rr_selects_round_the_end :
    ∃ l₁ e l₂ r, secondRuns.runq = l₁ ++ e :: l₂ ∧ e.threadp = some 1 ∧ 1 ∉ queued l₁ ∧
      firstReady lastBlocked (l₂ ++ l₁ ++ [e]) = some r ∧
      doSchedRr lastBlocked secondRuns.runq.length secondRuns = some (secondRuns, .of r.threadp) :=
  (sched_rr_selects lastBlocked secondRuns ⟨by decide, by decide⟩ ⟨⟨0x1000, some 0⟩, by decide, by decide⟩).1 1 rfl
    (by decide)

example : (doSchedRr lastBlocked 3 secondRuns).map (·.2) = some (.thread 0) := rfl

end RedMagic.Sched
