import Mathlib.Data.List.Basic
import Mathlib.Logic.Function.Basic

/-!
# Copying cells in place

`moves m ps` does the assignments `m[d] = m[s]` for the pairs `(d, s)` of `ps`, one after the other. `Safe ps`: no
assignment overwrites a cell that a later one reads, or writes. Then every cell that is written gets what was in its
source before the first assignment.
-/

namespace Moves

variable {α β : Type} [DecidableEq α] {m : α → β} {ps : List (α × α)}

def moves (m : α → β) : List (α × α) → α → β
  | [] => m
  | p :: ps => moves (Function.update m p.1 (m p.2)) ps

def Safe (ps : List (α × α)) : Prop := ps.Pairwise fun p q => p.1 ≠ q.1 ∧ p.1 ≠ q.2

theorem moves_of_forall_ne {a : α} (h : ∀ p ∈ ps, p.1 ≠ a) : moves m ps a = m a := by
  induction ps generalizing m with
  | nil => rfl
  | cons p ps ih =>
    have hp : a ≠ p.1 := fun hc => h p List.mem_cons_self hc.symm
    rw [moves, ih fun q hq => h q (List.mem_cons_of_mem _ hq), Function.update_of_ne hp]

theorem moves_of_mem (h : Safe ps) {p : α × α} (hp : p ∈ ps) : moves m ps p.1 = m p.2 := by
  induction ps generalizing m with
  | nil => cases hp
  | cons q ps ih =>
    obtain ⟨hq, hps⟩ := List.pairwise_cons.1 h
    rcases List.mem_cons.1 hp with rfl | hp
    · -- no later assignment writes the cell again
      rw [moves, moves_of_forall_ne fun r hr => (hq r hr).1.symm, Function.update_self]
    · rw [moves, ih hps hp, Function.update_of_ne (hq p hp).2.symm]

end Moves
