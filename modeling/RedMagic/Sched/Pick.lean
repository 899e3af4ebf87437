import Mathlib.Data.List.Perm.Subperm
import Mathlib.Data.Nat.Find
import Mathlib.Data.Prod.Lex
import RedMagic.Lib.Loop
import RedMagic.Mm.Colour
import RedMagic.Sched.RunQueue
import RedMagic.Sched.Status

/-!
# The choice of a processor (src/sched.c:153-204)

| here | there |
| --- | --- |
| `rqCalcLenAndReady` | `rq_calc_len_and_ready` (`sched.c:184-204`) |
| `pickProcessorFsr`  | `__pick_processor_fsr` (`sched.c:161-182`), with the indices into `cpuset` whose queues it walks |
| `pickProcessor`     | `pick_processor` (`sched.c:153-159`) |

`cpu` is both the running minimum and the array that `cpu[i]` indexes, so once it has moved to `&cpuset[k]`
with `k > 0` the loop looks at `cpuset[k + i]`. The last round then looks past the last CPU; as long as `cpu`
is `cpuset` up to that round, the choice is right (`pick_processor_least`).
-/

namespace RedMagic.Sched

open Mm Loop

section
variable {τ : Type} (status : ThreadPtr τ → Status)

/-- `tlist`, `*len` and `*ready`. -/
structure RqWalk where
  tlist : Ptr
  len : Nat
  ready : Nat

/-- One round of the loop of `rq_calc_len_and_ready`. -/
def rqRound (q : List (Entry τ)) (w : RqWalk) : RqWalk ⊕ (Nat × Nat) :=
  let len := u32 (w.len + 1)
  let ready := if status (threadOf q w.tlist) = .ready then u32 (w.ready + 1) else w.ready
  if listIsLast q w.tlist then .inr (len, ready) else .inl ⟨nextEntry q w.tlist, len, ready⟩

def rqCalcLenAndReady (q : List (Entry τ)) : Option (Nat × Nat) :=
  if q.isEmpty then some (0, 0) else loop (rqRound status q) q.length ⟨firstEntry q, 0, 0⟩

/-- The length of a queue and the number of its ready threads, compared in this order. -/
def load (q : List (Entry τ)) : Nat ×ₗ Nat :=
  toLex (q.length, q.countP fun e => status (.of e.threadp) = .ready)

/-- The entries of a queue have addresses of their own, which are not NULL. -/
structure QueueOk (q : List (Entry τ)) : Prop where
  nodup : (q.map (·.addr)).Nodup
  addr : ∀ e ∈ q, 0 < e.addr ∧ e.addr < 2 ^ 32

theorem QueueOk.length_lt {q : List (Entry τ)} (h : QueueOk q) : q.length < 2 ^ 32 := by
  have hsub : q.map (·.addr) ⊆ (List.range' 1 (2 ^ 32 - 1)) := by
    intro a ha
    obtain ⟨e, he, rfl⟩ := List.mem_map.1 ha
    have := h.addr e he
    rw [List.mem_range'_1]
    omega
  have hle := (h.nodup.subperm hsub).length_le
  simp only [List.length_map, List.length_range'] at hle
  omega

/-- The loop from entry `i` on counts the entries that are left. -/
theorem rqRound_loop {q : List (Entry τ)} (hok : QueueOk q) (k : Nat) {i len ready : Nat} {e : Entry τ}
    (he : q[i]? = some e) (hk : q.length = i + k) (hlen : len ≤ i) (hready : ready ≤ i) :
    loop (rqRound status q) k ⟨.entry e.addr, len, ready⟩ =
      some (len + k, ready + (q.drop i).countP fun e => status (.of e.threadp) = .ready) := by
  have hlt := hok.length_lt
  induction k generalizing i len ready e with
  | zero =>
    have := (List.getElem?_eq_some_iff.1 he).1
    omega
  | succ k ih =>
    obtain ⟨hi, rfl⟩ := List.getElem?_eq_some_iff.1 he
    have hone : (if status (.of q[i].threadp) = .ready then u32 (ready + 1) else ready) =
        ready + if status (.of q[i].threadp) = .ready then 1 else 0 := by
      split
      · exact u32_of_lt (by omega)
      · rfl
    rw [List.drop_eq_getElem_cons hi, List.countP_cons]
    simp only [loop, rqRound, listIsLast, threadOf_entry hok.nodup (List.mem_of_getElem? he),
      nextEntry_entry hok.nodup he, u32_of_lt (show len + 1 < 2 ^ 32 by omega), hone, decide_eq_true_eq]
    by_cases hlast : i + 1 < q.length
    · -- the next round is at the next entry
      have hfirst : firstEntry (q.drop (i + 1)) = .entry q[i + 1].addr := by
        rw [List.drop_eq_getElem_cons hlast]
        rfl
      rw [hfirst, if_neg (by simp)]
      have hrest := ih (List.getElem?_eq_getElem hlast) (by omega) (show len + 1 ≤ i + 1 by omega)
        (show ready + (if status (.of q[i].threadp) = .ready then 1 else 0) ≤ i + 1 by split <;> omega)
      simp only [hrest, Option.some.injEq, Prod.mk.injEq]
      omega
    · have hnil : q.drop (i + 1) = [] := List.drop_eq_nil_of_le (by omega)
      have hk0 : k = 0 := by omega
      rw [hnil]
      simp [firstEntry, hk0]

theorem rqCalcLenAndReady_eq {q : List (Entry τ)} (hok : QueueOk q) :
    rqCalcLenAndReady status q = some (ofLex (load status q)) := by
  cases q with
  | nil => rfl
  | cons e q =>
    have hloop := rqRound_loop status hok (e :: q).length (show (e :: q)[0]? = some e from rfl) (by simp)
      (Nat.le_refl 0) (Nat.le_refl 0)
    rw [rqCalcLenAndReady, List.isEmpty_cons, if_neg (by simp)]
    simpa [load, firstEntry] using hloop

/-! ## `__pick_processor_fsr` -/

structure Pick where
  /-- `cpu` is `&cpuset[cpu]`. -/
  cpu : Nat
  prevLen : Nat
  prevReady : Nat
  /-- The indices of the queues walked so far. -/
  seen : List Nat
deriving DecidableEq, Repr

/-- One round of the loop, with `rq j` the queue of `cpuset[j]`. -/
def pickRound (rq : Nat → List (Entry τ)) (p : Pick) (i : Nat) : Option Pick :=
  (rqCalcLenAndReady status (rq (p.cpu + i))).map fun r =>
    if i = 0 ∨ r.1 < p.prevLen ∨ (r.1 = p.prevLen ∧ r.2 < p.prevReady) then ⟨i, r.1, r.2, p.seen ++ [p.cpu + i]⟩
    else { p with seen := p.seen ++ [p.cpu + i] }

def pickProcessorFsr (rq : Nat → List (Entry τ)) (ncpu : Nat) : Option Pick :=
  (List.range ncpu).foldlM (pickRound status rq) ⟨0, 0, 0, []⟩

/-- The index of the CPU to run a new thread on; `self` is `get_processor()`. -/
def pickProcessor (ismp : Bool) (self : Nat) (rq : Nat → List (Entry τ)) (ncpu : Nat) : Option Nat :=
  if ismp then (pickProcessorFsr status rq ncpu).map (·.cpu) else some self

/-- The first of the CPUs below `ncpu` with a least load. -/
structure FirstLeast (rq : Nat → List (Entry τ)) (ncpu c : Nat) : Prop where
  lt : c < ncpu
  least : ∀ j < ncpu, load status (rq c) ≤ load status (rq j)
  first : ∀ j < c, load status (rq c) < load status (rq j)

variable {status} {rq : Nat → List (Entry τ)}

theorem pickProcessorFsr_succ (n : Nat) :
    pickProcessorFsr status rq (n + 1) = (pickProcessorFsr status rq n).bind fun p => pickRound status rq p n := by
  simp [pickProcessorFsr, List.range_succ, List.foldlM_append]

/-- On queues that are lists the loops end. -/
theorem pickProcessor_returns (hok : ∀ j, QueueOk (rq j)) (ismp : Bool) (self ncpu : Nat) :
    ∃ cpu, pickProcessor status ismp self rq ncpu = some cpu := by
  have hloop : ∀ n, ∃ p, pickProcessorFsr status rq n = some p := by
    intro n
    induction n with
    | zero => exact ⟨_, rfl⟩
    | succ n ih =>
      obtain ⟨p, hp⟩ := ih
      rw [pickProcessorFsr_succ, hp, Option.bind_some, pickRound, rqCalcLenAndReady_eq status (hok _)]
      exact ⟨_, rfl⟩
  obtain ⟨p, hp⟩ := hloop ncpu
  cases ismp with
  | false => exact ⟨self, rfl⟩
  | true =>
    rw [pickProcessor, if_pos rfl, hp]
    exact ⟨p.cpu, rfl⟩

/-- The state of the loop with CPU `c` the best one. -/
def pickAt (status : ThreadPtr τ → Status) (rq : Nat → List (Entry τ)) (c : Nat) (seen : List Nat) : Pick :=
  ⟨c, (ofLex (load status (rq c))).1, (ofLex (load status (rq c))).2, seen⟩

/-- A round as long as `cpu` is `cpuset`. -/
theorem pickRound_unmoved {i : Nat} {seen : List Nat} (hok : QueueOk (rq i)) :
    pickRound status rq (pickAt status rq 0 seen) i =
      some (pickAt status rq (if i = 0 ∨ load status (rq i) < load status (rq 0) then i else 0) (seen ++ [i])) := by
  simp only [pickRound, pickAt, Nat.zero_add, rqCalcLenAndReady_eq status hok, Option.map_some, Prod.Lex.lt_iff]
  split
  · rfl
  · rfl

/-- What holds as long as no CPU is better than the first one. -/
theorem pick_unmoved {n : Nat} (hpos : 0 < n) (hok : ∀ j < n, QueueOk (rq j))
    (hno : ∀ i, 0 < i → i < n → ¬ load status (rq i) < load status (rq 0)) :
    pickProcessorFsr status rq n = some (pickAt status rq 0 (List.range n)) := by
  induction n with
  | zero => omega
  | succ n ih =>
    rw [pickProcessorFsr_succ]
    rcases Nat.eq_zero_or_pos n with rfl | hn
    · show (rqCalcLenAndReady status (rq 0)).map _ = _
      rw [rqCalcLenAndReady_eq status (hok 0 hpos)]
      rfl
    · have hkeep : ¬ (n = 0 ∨ load status (rq n) < load status (rq 0)) := by
        rintro (h0 | hlt)
        · omega
        · exact hno n hn (by omega) hlt
      rw [ih hn (fun j hj => hok j (by omega)) (fun i h0 hi => hno i h0 (by omega)), Option.bind_some,
        pickRound_unmoved (hok n (by omega)), if_neg hkeep, List.range_succ]

/-- Once `cpu` has moved, it does not come back to the first CPU. -/
theorem pick_moved {k n : Nat} (hk : 0 < k) (hkn : k ≤ n) {p : Pick}
    (hmoved : ∀ p', pickProcessorFsr status rq k = some p' → 0 < p'.cpu)
    (h : pickProcessorFsr status rq n = some p) : 0 < p.cpu := by
  induction n, hkn using Nat.le_induction generalizing p with
  | base => exact hmoved p h
  | succ n hle ih =>
    rw [pickProcessorFsr_succ] at h
    obtain ⟨p', hp', hround⟩ := Option.bind_eq_some_iff.1 h
    obtain ⟨r, -, rfl⟩ := Option.map_eq_some_iff.1 hround
    have hpos := ih hp'
    split
    · show 0 < n
      omega
    · exact hpos

/-- The first CPU that is better than CPU 0 becomes `cpu`. -/
theorem pick_moves {k : Nat} (hk : 0 < k) (hok : ∀ j < k + 1, QueueOk (rq j))
    (hfirst : ∀ i, 0 < i → i < k → ¬ load status (rq i) < load status (rq 0))
    (hlt : load status (rq k) < load status (rq 0)) {p : Pick}
    (h : pickProcessorFsr status rq (k + 1) = some p) : 0 < p.cpu := by
  rw [pickProcessorFsr_succ, pick_unmoved hk (fun j hj => hok j (by omega)) hfirst, Option.bind_some,
    pickRound_unmoved (hok k (by omega)), if_pos (.inr hlt)] at h
  cases h
  exact hk

/-- With a CPU better than CPU 0 before the last one, the last round looks past the last CPU. -/
theorem pick_past_end {n : Nat} (hok : ∀ j < n + 1, QueueOk (rq j))
    (hbetter : ∃ i, 0 < i ∧ i < n ∧ load status (rq i) < load status (rq 0)) {p : Pick}
    (h : pickProcessorFsr status rq (n + 1) = some p) : ∃ j ∈ p.seen, n < j := by
  classical
  obtain ⟨hk0, hkn, hlt⟩ := Nat.find_spec hbetter
  have hfirst : ∀ i, 0 < i → i < Nat.find hbetter → ¬ load status (rq i) < load status (rq 0) :=
    fun i h0 hi hlt => Nat.find_min hbetter hi ⟨h0, by omega, hlt⟩
  rw [pickProcessorFsr_succ] at h
  obtain ⟨p', hp', hround⟩ := Option.bind_eq_some_iff.1 h
  have hcpu := pick_moved (by omega) (show Nat.find hbetter + 1 ≤ n from hkn)
    (fun p' hp' => pick_moves hk0 (fun j hj => hok j (by omega)) hfirst hlt hp') hp'
  obtain ⟨r, -, rfl⟩ := Option.map_eq_some_iff.1 hround
  refine ⟨p'.cpu + n, ?_, by omega⟩
  split
  · simp
  · simp

/-- With CPU 0 the best one of the first `n`, the choice is between it and the next CPU. -/
theorem firstLeast_last {n : Nat} (hn : 0 < n) (hleast : ∀ j < n, load status (rq 0) ≤ load status (rq j)) :
    FirstLeast status rq (n + 1) (if n = 0 ∨ load status (rq n) < load status (rq 0) then n else 0) := by
  by_cases hlt : load status (rq n) < load status (rq 0)
  · rw [if_pos (.inr hlt)]
    have hbest : ∀ j < n, load status (rq n) < load status (rq j) :=
      fun j hj => lt_of_lt_of_le hlt (hleast j hj)
    refine ⟨by omega, fun j hj => ?_, hbest⟩
    rcases Nat.lt_succ_iff_lt_or_eq.1 hj with hj | rfl
    · exact (hbest j hj).le
    · exact le_refl _
  · have hkeep : ¬ (n = 0 ∨ load status (rq n) < load status (rq 0)) := by
      rintro (h0 | h)
      · omega
      · exact hlt h
    rw [if_neg hkeep]
    refine ⟨by omega, fun j hj => ?_, fun j hj => by omega⟩
    rcases Nat.lt_succ_iff_lt_or_eq.1 hj with hj | rfl
    · exact hleast j hj
    · exact not_lt.1 hlt

/-- **Processor choice.** On every number of CPUs and all contents of their queues: `__pick_processor_fsr` looks
at queues of these CPUs only and returns the first CPU of least load if, and only if, no CPU between the first
and the last one has a smaller load than the first. -/
theorem pick_processor_least (ncpu : Nat) (hpos : 0 < ncpu) (hok : ∀ j < ncpu, QueueOk (rq j)) :
    (∃ p, pickProcessorFsr status rq ncpu = some p ∧ (∀ j ∈ p.seen, j < ncpu) ∧ FirstLeast status rq ncpu p.cpu) ↔
      ∀ i, 0 < i → i + 1 < ncpu → ¬ load status (rq i) < load status (rq 0) := by
  obtain ⟨n, rfl⟩ : ∃ n, ncpu = n + 1 := ⟨ncpu - 1, by omega⟩
  constructor
  · rintro ⟨p, hp, hseen, -⟩ i h0 hi hlt
    obtain ⟨j, hj, hpast⟩ := pick_past_end hok ⟨i, h0, by omega, hlt⟩ hp
    have := hseen j hj
    omega
  · intro hno
    rcases Nat.eq_zero_or_pos n with rfl | hn
    · have hone : pickProcessorFsr status rq 1 = _ := pick_unmoved hpos hok fun i h0 hi => by omega
      refine ⟨_, hone, by simp [pickAt], ⟨by simp [pickAt], fun j hj => ?_, fun j hj => by cases hj⟩⟩
      rw [show j = 0 by omega]
      exact le_refl _
    · have hleast : ∀ j < n, load status (rq 0) ≤ load status (rq j) := by
        intro j hj
        rcases Nat.eq_zero_or_pos j with rfl | h0
        · exact le_refl _
        · exact not_lt.1 (hno j h0 (by omega))
      have hlast : pickProcessorFsr status rq (n + 1) = some (pickAt status rq
          (if n = 0 ∨ load status (rq n) < load status (rq 0) then n else 0) (List.range (n + 1))) := by
        rw [pickProcessorFsr_succ, pick_unmoved hn (fun j hj => hok j (by omega)) (fun i h0 hi => hno i h0 (by omega)),
          Option.bind_some, pickRound_unmoved (hok n (by omega)), ← List.range_succ]
      exact ⟨_, hlast, fun j hj => List.mem_range.1 hj, firstLeast_last hn hleast⟩

end

/-- CPU `j` has a queue of `lens[j]` threads. -/
def queuesOf (lens : List Nat) (j : Nat) : List (Entry Nat) :=
  (List.range (lens.getD j 0)).map fun i => ⟨0x1000 * (j + 1) + 0x20 * i, some i⟩

/-- Three CPUs, the last one with the shortest queue. -/
theorem pick_processor_least_last :
    ∃ p, pickProcessorFsr (fun _ => .ready) (queuesOf [1, 2, 0]) 3 = some p ∧ p.cpu = 2 ∧
      FirstLeast (fun _ => .ready) (queuesOf [1, 2, 0]) 3 p.cpu := by
  have hok : ∀ j < 3, QueueOk (queuesOf [1, 2, 0] j) := by
    intro j hj
    obtain rfl | rfl | rfl : j = 0 ∨ j = 1 ∨ j = 2 := by omega
    · exact ⟨by decide, by decide⟩
    · exact ⟨by decide, by decide⟩
    · exact ⟨by decide, by decide⟩
  have hno : ∀ i, 0 < i → i + 1 < 3 →
      ¬ load (fun _ => .ready) (queuesOf [1, 2, 0] i) < load (fun _ => .ready) (queuesOf [1, 2, 0] 0) := by
    intro i h0 hi
    obtain rfl : i = 1 := by omega
    decide
  obtain ⟨p, hp, -, hfirst⟩ := (pick_processor_least 3 (by decide) hok).2 hno
  have hcpu : (pickProcessorFsr (fun _ => .ready) (queuesOf [1, 2, 0]) 3).map (·.cpu) = some 2 := by decide
  rw [hp] at hcpu
  exact ⟨p, hp, Option.some.inj hcpu, hfirst⟩

/-- Three CPUs with 2, 1 and 0 threads: the last round walks the queue of `cpuset[3]`, and CPU 1 is chosen. -/
theorem pick_processor_past_end :
    pickProcessorFsr (fun _ => .ready) (queuesOf [2, 1, 0, 5]) 3 = some ⟨1, 1, 1, [0, 1, 3]⟩ ∧
      ¬ FirstLeast (fun _ => .ready) (queuesOf [2, 1, 0, 5]) 3 1 := by
  refine ⟨by decide, fun h => ?_⟩
  exact absurd (h.least 2 (by decide)) (by decide)

end RedMagic.Sched
