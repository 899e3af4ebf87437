import Mathlib.Data.List.Basic
import RedMagic.Lib.Transition

/-!
# Properly nested regions

A region of a kind is opened by `enter` and closed by `leave`. `Nested bs`: the regions of `bs` are properly nested, and all
are closed. `track st bs` is the kinds of the regions that are open after `bs`, the innermost first, if `st` were before.

`follows` is the rule for a machine with a step for each bracket: a relation of the open regions and the state that every
enter and leave keeps holds along the whole sequence, and the machine gets through it.
-/

namespace Nesting

open Lts

inductive Bracket (κ : Type) where
  | enter (k : κ)
  | leave (k : κ)
deriving DecidableEq, Repr

variable {κ : Type}

inductive Nested : List (Bracket κ) → Prop
  | nil : Nested []
  | region (k : κ) {body rest : List (Bracket κ)} (hbody : Nested body) (hrest : Nested rest) :
      Nested (.enter k :: (body ++ .leave k :: rest))

variable [DecidableEq κ]

def track : List κ → List (Bracket κ) → Option (List κ)
  | st, [] => some st
  | st, .enter k :: bs => track (k :: st) bs
  | [], .leave _ :: _ => none
  | k' :: st, .leave k :: bs => if k' = k then track st bs else none

theorem track_append (st : List κ) (p q : List (Bracket κ)) : track st (p ++ q) = (track st p).bind fun st' => track st' q := by
  induction p generalizing st with
  | nil => rfl
  | cons b p ih =>
    cases b with
    | enter k => exact ih (k :: st)
    | leave k =>
      cases st with
      | nil => rfl
      | cons k' st =>
        rw [List.cons_append, track, track]
        split
        · exact ih st
        · rfl

theorem track_leave {st st' : List κ} {k : κ} {bs : List (Bracket κ)} (h : track st (.leave k :: bs) = some st') :
    ∃ st₁, st = k :: st₁ ∧ track st₁ bs = some st' := by
  cases st with
  | nil => cases h
  | cons k' st₁ =>
    rw [track] at h
    split at h
    · rename_i hk
      exact ⟨st₁, by rw [hk], h⟩
    · cases h

theorem Nested.track {bs : List (Bracket κ)} (h : Nested bs) (st : List κ) : track st bs = some st := by
  induction h generalizing st with
  | nil => rfl
  | region k _ _ ihb ihr =>
    rw [Nesting.track, track_append, ihb, Option.bind_some, Nesting.track, if_pos rfl]
    exact ihr st

/-- The regions that are open at a point of a nested sequence. -/
theorem Nested.split {p q : List (Bracket κ)} (h : Nested (p ++ q)) :
    ∃ st, Nesting.track [] p = some st ∧ Nesting.track st q = some [] := by
  have ht := h.track []
  rw [track_append] at ht
  exact Option.bind_eq_some_iff.1 ht

/-- Where two regions are open, the inner one of two is closed later. -/
theorem exists_leave_inner {st : List κ} {q : List (Bracket κ)} (h : track st q = some []) (hst : 2 ≤ st.length) :
    ∃ q₁ k st₁ q₂, q = q₁ ++ .leave k :: q₂ ∧ track st q₁ = some (k :: st₁) ∧ st₁ ≠ [] := by
  induction q generalizing st with
  | nil =>
    cases h
    cases hst
  | cons b q ih =>
    cases b with
    | enter k =>
      obtain ⟨q₁, k₁, st₁, q₂, rfl, htrack, hne⟩ := ih (show track (k :: st) q = some [] from h) (by rw [List.length_cons]; omega)
      exact ⟨.enter k :: q₁, k₁, st₁, q₂, rfl, htrack, hne⟩
    | leave k =>
      obtain ⟨st₁, rfl, -⟩ := track_leave h
      refine ⟨[], k, st₁, q, rfl, rfl, ?_⟩
      rintro rfl
      simp at hst

section
variable {σ : Type} {step : σ → Bracket κ → Option σ} {R : List κ → σ → Prop} {P : List κ → κ → Prop}

/-- Every region of `bs` is opened where `P` allows it, with `st` open before. -/
def Allowed (P : List κ → κ → Prop) (st : List κ) (bs : List (Bracket κ)) : Prop :=
  ∀ p k q, bs = p ++ .enter k :: q → ∀ st', track st p = some st' → P st' k

theorem allowed_nil (st : List κ) : Allowed P st [] := by
  intro p k q h
  simp at h

theorem allowed_enter {st : List κ} {k : κ} {bs : List (Bracket κ)} :
    Allowed P st (.enter k :: bs) ↔ P st k ∧ Allowed P (k :: st) bs := by
  constructor
  · intro h
    refine ⟨h [] k bs rfl st rfl, ?_⟩
    rintro p k' q rfl st' hst'
    exact h (.enter k :: p) k' q rfl st' hst'
  · rintro ⟨hk, hrest⟩ p k' q hp st' hst'
    cases p with
    | nil =>
      cases hp
      cases hst'
      exact hk
    | cons b p =>
      cases hp
      exact hrest p k' q rfl st' hst'

theorem allowed_leave {st : List κ} {k : κ} {bs : List (Bracket κ)} : Allowed P (k :: st) (.leave k :: bs) ↔ Allowed P st bs := by
  constructor
  · rintro h p k' q rfl st' hst'
    refine h (.leave k :: p) k' q rfl st' ?_
    rw [track, if_pos rfl]
    exact hst'
  · intro h p k' q hp st' hst'
    cases p with
    | nil => cases hp
    | cons b p =>
      cases hp
      rw [track, if_pos rfl] at hst'
      exact h p k' q rfl st' hst'

theorem Allowed.of_append {st : List κ} {p q : List (Bracket κ)} (h : Allowed P st (p ++ q)) : Allowed P st p := by
  rintro p' k q' rfl st' hst'
  exact h p' k (q' ++ q) (by simp) st' hst'

theorem follows (henter : ∀ st s k, R st s → P st k → ∃ u, step s (.enter k) = some u ∧ R (k :: st) u)
    (hleave : ∀ st s k, R (k :: st) s → ∃ u, step s (.leave k) = some u ∧ R st u) {bs : List (Bracket κ)} {st st' : List κ} {s : σ}
    (htrack : track st bs = some st') (hok : Allowed P st bs) (h : R st s) : ∃ u, exec step s bs = some u ∧ R st' u := by
  induction bs generalizing st s with
  | nil =>
    cases htrack
    exact ⟨s, rfl, h⟩
  | cons b bs ih =>
    cases b with
    | enter k =>
      obtain ⟨hk, hrest⟩ := allowed_enter.1 hok
      obtain ⟨u, hu, hRu⟩ := henter st s k h hk
      obtain ⟨v, hv, hRv⟩ := ih htrack hrest hRu
      exact ⟨v, by rw [exec, hu]; exact hv, hRv⟩
    | leave k =>
      obtain ⟨st₁, rfl, htrack₁⟩ := track_leave htrack
      obtain ⟨u, hu, hRu⟩ := hleave st₁ s k h
      obtain ⟨v, hv, hRv⟩ := ih htrack₁ (allowed_leave.1 hok) hRu
      exact ⟨v, by rw [exec, hu]; exact hv, hRv⟩

end

end Nesting
