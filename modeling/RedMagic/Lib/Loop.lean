/-!
# Loops that may not end

A loop is given by the body of one round: `body s = .inl t` goes round again with `t`, `body s = .inr r`
leaves with `r`. `Ends body s r`: from `s` the loop leaves with `r` after some number of rounds; a loop for
which no `r` does never ends. `loop body n s` makes at most `n` rounds.
-/

namespace Loop

variable {σ ρ : Type} {body : σ → σ ⊕ ρ} {s t : σ} {r r' : ρ}

def loop (body : σ → σ ⊕ ρ) : Nat → σ → Option ρ
  | 0, _ => none
  | n + 1, s =>
    match body s with
    | .inl t => loop body n t
    | .inr r => some r

inductive Ends (body : σ → σ ⊕ ρ) : σ → ρ → Prop
  | done {s : σ} {r : ρ} (h : body s = .inr r) : Ends body s r
  | again {s t : σ} {r : ρ} (h : body s = .inl t) (ht : Ends body t r) : Ends body s r

theorem ends_iff : Ends body s r ↔ ∃ n, loop body n s = some r := by
  constructor
  · intro h
    induction h with
    | done h => exact ⟨1, by simp [loop, h]⟩
    | again h _ ih =>
      obtain ⟨n, hn⟩ := ih
      exact ⟨n + 1, by simp [loop, h, hn]⟩
  · rintro ⟨n, hn⟩
    induction n generalizing s with
    | zero => cases hn
    | succ n ih =>
      rw [loop] at hn
      split at hn
      · rename_i t ht
        exact .again ht (ih hn)
      · rename_i r₀ hr
        cases hn
        exact .done hr

/-- More rounds make no difference to a loop that has ended. -/
theorem loop_mono {n m : Nat} (h : loop body n s = some r) (hnm : n ≤ m) : loop body m s = some r := by
  induction n generalizing s m with
  | zero => cases h
  | succ n ih =>
    obtain ⟨m, rfl⟩ : ∃ k, m = k + 1 := ⟨m - 1, by omega⟩
    rw [loop] at h ⊢
    cases hb : body s with
    | inl t =>
      rw [hb] at h
      exact ih h (by omega)
    | inr r₀ =>
      rw [hb] at h
      exact h

theorem Ends.unique (h : Ends body s r) (h' : Ends body s r') : r = r' := by
  induction h with
  | done h =>
    cases h' with
    | done h' => simpa [h] using h'
    | again h' _ => simp [h] at h'
  | again h _ ih =>
    cases h' with
    | done h' => simp [h] at h'
    | again h' ht =>
      rw [h] at h'
      cases h'
      exact ih ht

/-- Two loops of which one sees a part of the other's state, round by round, end together. -/
theorem Ends.project {σ' ρ' : Type} {body' : σ' → σ' ⊕ ρ'} {f : σ → σ'} {g : ρ → ρ'}
    (hround : ∀ u, body' (f u) = (body u).map f g) (h : Ends body s r) : Ends body' (f s) (g r) := by
  induction h with
  | @done s r h =>
    refine .done ?_
    rw [hround, h]
    rfl
  | @again s t r h _ ih =>
    refine .again ?_ ih
    rw [hround, h]
    rfl

/-- A loop that goes round again in every state it can get to does not end. -/
theorem not_ends {I : σ → Prop} (hs : I s) (hround : ∀ u, I u → ∃ v, body u = .inl v ∧ I v) : ¬ Ends body s r := by
  intro h
  induction h with
  | done h =>
    obtain ⟨v, hv, -⟩ := hround _ hs
    rw [h] at hv
    cases hv
  | again h _ ih =>
    obtain ⟨v, hv, hI⟩ := hround _ hs
    rw [h] at hv
    cases hv
    exact ih hI

end Loop
