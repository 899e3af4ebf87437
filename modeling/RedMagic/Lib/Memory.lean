import Mathlib.Logic.Function.Basic

/-!
# A memory that remembers which cells were written

`copyDown d n` is the loop `m[i] = m[i + d]` for `i` from 0 up to `n`, in place; `fill lo n a` the loop `m[i] = a` for the `n`
cells from `lo` on.
-/

namespace Memory

structure Mem (α : Type) where
  cell : Nat → α
  written : List Nat

variable {α : Type}

namespace Mem

def write (m : Mem α) (i : Nat) (a : α) : Mem α := ⟨Function.update m.cell i a, i :: m.written⟩

def copyDown (m : Mem α) (d n : Nat) : Mem α := (List.range n).foldl (fun m i => m.write i (m.cell (i + d))) m

def fill (m : Mem α) (lo n : Nat) (a : α) : Mem α := (List.range' lo n).foldl (fun m i => m.write i a) m

theorem cell_write (m : Mem α) (i : Nat) (a : α) (j : Nat) : (m.write i a).cell j = if j = i then a else m.cell j :=
  Function.update_apply _ _ _ _

@[simp] theorem mem_written_write {m : Mem α} {i j : Nat} {a : α} : j ∈ (m.write i a).written ↔ j = i ∨ j ∈ m.written :=
  List.mem_cons

theorem copyDown_succ (m : Mem α) (d n : Nat) :
    m.copyDown d (n + 1) = (m.copyDown d n).write n ((m.copyDown d n).cell (n + d)) := by
  simp [copyDown, List.range_succ]

theorem fill_succ (m : Mem α) (lo n : Nat) (a : α) : m.fill lo (n + 1) a = (m.fill lo n a).write (lo + n) a := by
  simp [fill, List.range'_concat]

/-- A cell is read before the loop comes to it. -/
theorem cell_copyDown (m : Mem α) {d : Nat} (hd : 0 < d) (n i : Nat) :
    (m.copyDown d n).cell i = if i < n then m.cell (i + d) else m.cell i := by
  induction n generalizing i with
  | zero => rfl
  | succ n ih =>
    rw [copyDown_succ, cell_write, ih, ih]
    by_cases hi : i = n
    · subst hi
      rw [if_pos rfl, if_neg (by omega), if_pos (Nat.lt_succ_self i)]
    · grind

theorem mem_written_copyDown {m : Mem α} {d n i : Nat} : i ∈ (m.copyDown d n).written ↔ i < n ∨ i ∈ m.written := by
  induction n with
  | zero => simp [copyDown]
  | succ n ih =>
    rw [copyDown_succ, mem_written_write, ih]
    grind

theorem cell_fill (m : Mem α) (lo n : Nat) (a : α) (i : Nat) :
    (m.fill lo n a).cell i = if lo ≤ i ∧ i < lo + n then a else m.cell i := by
  induction n with
  | zero =>
    rw [if_neg (by omega)]
    rfl
  | succ n ih =>
    rw [fill_succ, cell_write, ih]
    grind

theorem mem_written_fill {m : Mem α} {lo n i : Nat} {a : α} :
    i ∈ (m.fill lo n a).written ↔ (lo ≤ i ∧ i < lo + n) ∨ i ∈ m.written := by
  induction n with
  | zero =>
    have hno : ¬ (lo ≤ i ∧ i < lo + 0) := by omega
    rw [or_iff_right hno]
    rfl
  | succ n ih =>
    rw [fill_succ, mem_written_write, ih]
    grind

end Mem

end Memory
