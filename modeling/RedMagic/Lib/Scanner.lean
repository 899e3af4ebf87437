import Mathlib.Data.List.Basic

/-!
# Scanners that look one character ahead

A scanner reads the front of a text and returns what it has found and the text that is left. `Peeks F`: when
`F` stops in front of a character, it has looked at what it has passed and at that character, and at nothing
behind: with any other text there, it does the same.
-/

namespace RedMagic.Scanner

variable {α β γ : Type}

def Peeks (F : List α → β × List α) : Prop :=
  ∀ l r c cs, F l = (r, c :: cs) → ∃ a, l = a ++ c :: cs ∧ ∀ other, F (a ++ c :: other) = (r, c :: other)

/-- What is left is a rest of the text. -/
theorem Peeks.suffix {F : List α → β × List α} (hF : Peeks F) (l : List α) : (F l).2 <:+ l := by
  cases h : (F l).2 with
  | nil => exact List.nil_suffix
  | cons c cs =>
    obtain ⟨a, hl, -⟩ := hF l (F l).1 c cs (Prod.ext rfl h)
    exact ⟨a, hl.symm⟩

/-- One scanner after the other. -/
def next (F : List α → β × List α) (G : β → List α → γ × List α) (l : List α) : γ × List α := G (F l).1 (F l).2

theorem Peeks.next {F : List α → β × List α} {G : β → List α → γ × List α} (hF : Peeks F)
    (hG : ∀ r, Peeks (G r)) : Peeks (next F G) := by
  intro l r c cs h
  obtain ⟨a₂, hl₂, hother₂⟩ := hG (F l).1 (F l).2 r c cs h
  -- where the first one stopped
  cases a₂ with
  | nil =>
    obtain ⟨a₁, hl₁, hother₁⟩ := hF l (F l).1 c cs (Prod.ext rfl hl₂)
    refine ⟨a₁, hl₁, fun other => ?_⟩
    rw [Scanner.next, hother₁]
    exact hother₂ other
  | cons x a₂ =>
    obtain ⟨a₁, hl₁, hother₁⟩ := hF l (F l).1 x (a₂ ++ c :: cs) (Prod.ext rfl hl₂)
    refine ⟨a₁ ++ x :: a₂, by simpa using hl₁, fun other => ?_⟩
    have htext : a₁ ++ x :: a₂ ++ c :: other = a₁ ++ x :: (a₂ ++ c :: other) := by simp
    rw [Scanner.next, htext, hother₁]
    exact hother₂ other

end RedMagic.Scanner
