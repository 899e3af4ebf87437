import Mathlib.Logic.Basic

/-!
# Computations that may fail

`bind_eq_ok` takes a computation that has succeeded apart; `bind_ok` and `bind_error` run one that has a state too, and
`zoom` runs one on a part of the state.
`Lockstep R x y` is about two computations: they fail together, with the same error, or both succeed with
results that `R` relates; the rules below build it up along the computations.
-/

namespace RedMagic.Fallible

variable {ε α α' β β' : Type}

theorem bind_eq_ok {x : Except ε α} {f : α → Except ε β} {r : β} :
    (x >>= f) = .ok r ↔ ∃ a, x = .ok a ∧ f a = .ok r := by
  cases x with
  | error e => exact ⟨nofun, nofun⟩
  | ok a => exact ⟨fun h => ⟨a, rfl, h⟩, fun ⟨_, h, hf⟩ => Except.ok.inj h ▸ hf⟩

section
variable {σ : Type} {x : EStateM ε σ α} {f : α → EStateM ε σ β} {s s' : σ} {a : α} {e : ε}

theorem bind_ok (h : x s = .ok a s') : (x >>= f) s = f a s' := by
  show EStateM.bind x f s = f a s'
  rw [EStateM.bind, h]

theorem bind_modify (g : σ → σ) (f : Unit → EStateM ε σ β) : (modify g >>= f) s = f () (g s) := rfl

theorem bind_error (h : x s = .error e s') : (x >>= f) s = .error e s' := by
  show EStateM.bind x f s = .error e s'
  rw [EStateM.bind, h]

/-- A computation on a part of the state. -/
def zoom {ρ : Type} (part : σ → ρ) (put : ρ → σ → σ) (x : EStateM ε ρ α) : EStateM ε σ α := fun s =>
  match x (part s) with
  | .ok a r => .ok a (put r s)
  | .error e r => .error e (put r s)

theorem zoom_ok {ρ : Type} {part : σ → ρ} {put : ρ → σ → σ} {x : EStateM ε ρ α} {r : ρ} (h : x (part s) = .ok a r) :
    zoom part put x s = .ok a (put r s) := by
  rw [zoom, h]

end

def Lockstep (R : α → α' → Prop) : Except ε α → Except ε α' → Prop
  | .ok a, .ok a' => R a a'
  | .error e, .error e' => e = e'
  | _, _ => False

namespace Lockstep

variable {R : α → α' → Prop} {S : β → β' → Prop} {x : Except ε α} {x' : Except ε α'}

theorem ok {a : α} {a' : α'} (h : R a a') : Lockstep R (.ok a : Except ε α) (.ok a') := h

theorem error (e : ε) : Lockstep R (.error e : Except ε α) (.error e) := rfl

theorem bind {f : α → Except ε β} {f' : α' → Except ε β'} (hx : Lockstep R x x')
    (hf : ∀ a a', x = .ok a → R a a' → Lockstep S (f a) (f' a')) : Lockstep S (x >>= f) (x' >>= f') := by
  cases x with
  | ok a =>
    cases x' with
    | ok a' => exact hf a a' rfl hx
    | error e => exact hx.elim
  | error e =>
    cases x' with
    | ok a' => exact hx.elim
    | error e' => exact hx

theorem mono {R' : α → α' → Prop} (hx : Lockstep R x x') (hR : ∀ a a', R a a' → R' a a') : Lockstep R' x x' := by
  cases x with
  | ok a =>
    cases x' with
    | ok a' => exact hR a a' hx
    | error e => exact hx.elim
  | error e =>
    cases x' with
    | ok a' => exact hx.elim
    | error e' => exact hx

/-- What the second computation does, once the first has succeeded. -/
theorem of_ok {a : α} (h : Lockstep R (.ok a) x') : ∃ a', x' = .ok a' ∧ R a a' := by
  cases x' with
  | ok a' => exact ⟨a', rfl, h⟩
  | error e => exact h.elim

end Lockstep

end RedMagic.Fallible
