import Mathlib.Logic.Relation

/-!
# Transition systems given by a partial step function

A system is a function `step : σ → α → Option σ`: `step s a = some t` says that action `a` is
enabled in state `s` and leads to `t`. A run is a finite sequence of actions. `Reaches step ok s₀ s`:
some run from `s₀` ends in `s`, and every action `a` taken in a state `u` on the way met `ok u a`.
`Any` puts no condition on the actions.
-/

namespace Lts

variable {σ α : Type}

/-- The condition that every action meets. -/
def Any : σ → α → Prop := fun _ _ => True

instance (s : σ) (a : α) : Decidable (Any s a) := inferInstanceAs (Decidable True)

/-- One step by an action that meets `ok`. -/
def Next (step : σ → α → Option σ) (ok : σ → α → Prop) (s t : σ) : Prop :=
  ∃ a, ok s a ∧ step s a = some t

/-- `s` is reached from `s₀` by a run whose actions all meet `ok`. -/
def Reaches (step : σ → α → Option σ) (ok : σ → α → Prop) (s₀ s : σ) : Prop :=
  Relation.ReflTransGen (Next step ok) s₀ s

/-- Run a list of actions, stopping at the first one that is not enabled. -/
def exec (step : σ → α → Option σ) : σ → List α → Option σ
  | s, [] => some s
  | s, a :: as =>
    match step s a with
    | some t => exec step t as
    | none => none

theorem exec_append (step : σ → α → Option σ) (s : σ) (p q : List α) :
    exec step s (p ++ q) = (exec step s p).bind fun t => exec step t q := by
  induction p generalizing s with
  | nil => rfl
  | cons a p ih =>
    rw [List.cons_append, exec, exec]
    cases step s a with
    | none => rfl
    | some t => exact ih t

section
variable {step : σ → α → Option σ} {ok : σ → α → Prop} {s₀ s t : σ}

theorem Reaches.refl (s : σ) : Reaches step ok s s := Relation.ReflTransGen.refl

theorem Reaches.head {a : α} (hok : ok s₀ a) (hs : step s₀ a = some s) (h : Reaches step ok s t) :
    Reaches step ok s₀ t :=
  Relation.ReflTransGen.head ⟨a, hok, hs⟩ h

theorem Reaches.trans {s' : σ} (h : Reaches step ok s₀ s) (h' : Reaches step ok s s') : Reaches step ok s₀ s' :=
  Relation.ReflTransGen.trans h h'

/-- A run under a stronger condition. -/
theorem Reaches.mono {ok' : σ → α → Prop} (h : Reaches step ok s₀ s) (hok : ∀ u a, ok u a → ok' u a) :
    Reaches step ok' s₀ s := by
  refine Relation.ReflTransGen.mono (fun u v huv => ?_) _ _ h
  obtain ⟨a, ha, hs⟩ := huv
  exact ⟨a, hok u a ha, hs⟩

/-- **The invariant rule.** What holds at the start and is kept by every step that meets `ok` holds
in every state reached. -/
theorem Reaches.invariant {I : σ → Prop} (h : Reaches step ok s₀ s) (h0 : I s₀)
    (hstep : ∀ u a v, I u → ok u a → step u a = some v → I v) : I s := by
  induction h with
  | refl => exact h0
  | tail _ hn ih =>
    obtain ⟨a, hok, hs⟩ := hn
    exact hstep _ a _ ih hok hs

/-- The invariant rule for an invariant `J` whose steps need what `I` says of every state reached. -/
theorem Reaches.invariant_of {I J : σ → Prop} (h : Reaches step ok s₀ s) (hI : ∀ u, Reaches step ok s₀ u → I u)
    (h0 : J s₀) (hstep : ∀ u a v, I u → J u → ok u a → step u a = some v → J v) : J s := by
  induction h with
  | refl => exact h0
  | tail hr hn ih =>
    obtain ⟨a, hok, hs⟩ := hn
    exact hstep _ a _ (hI _ hr) ih hok hs

end

section
variable (step : σ → α → Option σ) (ok : σ → α → Prop) [∀ u a, Decidable (ok u a)]

/-- Execution that also checks each action against `ok`. -/
def execOk : σ → List α → Option σ := exec fun u a => if ok u a then step u a else none

/-- A list of actions that executes, each checked against `ok`, is a run. -/
theorem reaches_of_execOk {s₀ s : σ} (as : List α) (h : execOk step ok s₀ as = some s) :
    Reaches step ok s₀ s := by
  induction as generalizing s₀ with
  | nil =>
    simp only [execOk, exec, Option.some.injEq] at h
    subst h
    exact Reaches.refl _
  | cons a as ih =>
    simp only [execOk, exec] at h
    split at h
    · rename_i t ht
      split at ht
      · rename_i hok
        exact Reaches.head hok ht (ih h)
      · cases ht
    · cases h

/-- **The refinement rule.** An abstract state that follows every action describes the last state of a
checked execution by the fold of the actions. -/
theorem execOk_refines {β : Type} {R : σ → β → Prop} (abs : β → α → β)
    (hstep : ∀ u a v b, R u b → ok u a → step u a = some v → R v (abs b a)) {s₀ s : σ} {b₀ : β} (as : List α)
    (h0 : R s₀ b₀) (h : execOk step ok s₀ as = some s) : R s (as.foldl abs b₀) := by
  induction as generalizing s₀ b₀ with
  | nil =>
    simp only [execOk, exec, Option.some.injEq] at h
    subst h
    exact h0
  | cons a as ih =>
    simp only [execOk, exec] at h
    split at h
    · rename_i t ht
      split at ht
      · rename_i hok
        exact ih (hstep _ a _ _ h0 hok ht) h
      · cases ht
    · cases h

/-- The same for a run whose last state is only known to pass a test: the form in which concrete runs
are evaluated. -/
theorem exists_reaches (s₀ : σ) (as : List α) (P : σ → Bool)
    (h : (execOk step ok s₀ as).any P = true) : ∃ s, Reaches step ok s₀ s ∧ P s = true := by
  cases hs : execOk step ok s₀ as with
  | none => simp [hs] at h
  | some s => exact ⟨s, reaches_of_execOk step ok as hs, by simpa [hs] using h⟩

end

end Lts
