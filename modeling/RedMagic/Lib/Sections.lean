import Mathlib.Logic.Function.Basic
import RedMagic.Lib.Transition

/-!
# Sections under a test-and-set lock

A section is the code that a thread runs from the test-and-set that takes a lock to the write that gives it back. `Code` is
code on the data under the lock, one access after the other. A section may besides access what is not under the lock, once: it
tests the access's condition in one step and, if it holds, does the access's effect in another. Threads on any number of
processors run their sections step by step and in any interleaving (`Program.step`), and the part that is not under the lock
changes by itself between any two of their steps.

`Atomic` says what a system that does every section in a single step has to be like. Then each state that the steps reach
stands for a state that it reaches (`Sim`, `reaches_sim`): a section takes effect with its access, or with its last step if it
has none. Until then the data is on its way from that state, and afterwards on its way to it.
-/

namespace Sections

open Lts

/-- `act f k` replaces the data `d` by `f d` in one access and goes on with `k d`. -/
inductive Code (σ β : Type) where
  | done (b : β)
  | act (f : σ → σ) (k : σ → Code σ β)

namespace Code
variable {σ β : Type}

def read (k : σ → Code σ β) : Code σ β := .act id k

def write (f : σ → σ) (k : Code σ β) : Code σ β := .act f fun _ => k

/-- What the code returns, and the data after it. -/
def run : Code σ β → σ → β × σ
  | .done b, d => (b, d)
  | .act f k, d => (k d).run (f d)

@[simp] theorem run_done (b : β) (d : σ) : (Code.done b).run d = (b, d) := rfl

@[simp] theorem run_act (f : σ → σ) (k : σ → Code σ β) (d : σ) : (Code.act f k).run d = (k d).run (f d) := rfl

@[simp] theorem run_read (k : σ → Code σ β) (d : σ) : (read k).run d = (k d).run d := rfl

@[simp] theorem run_write (f : σ → σ) (k : Code σ β) (d : σ) : (write f k).run d = k.run (f d) := rfl

end Code

/-- What comes after the first part of a section. -/
inductive Exit (σ ω π : Type) where
  /-- An assertion has failed. -/
  | panic
  /-- The section ends, and leaves the thread at `p`. -/
  | leave (p : π)
  /-- The access `w`, and the rest of the section. -/
  | access (w : ω) (rest : Code σ π)

abbrev Section (σ ω π : Type) : Type := Code σ (Exit σ ω π)

structure Program (τ σ χ π ι ω ε : Type) where
  /-- The section that the call `i` of thread `t` is, made at `p`. -/
  sect : ι → τ → π → Option (Section σ ω π)
  /-- The thread may make the call. -/
  may : ι → τ → χ → Bool
  cond : ω → χ → Bool
  eff : ω → χ → χ
  /-- What happens by itself. It may look at where the threads are that are not in a call. -/
  env : ε → (τ → Option π) → χ → Option χ

/-! ## The steps -/

/-- Where a thread is. -/
inductive Ctl (σ π ι ω : Type) where
  | idle (p : π)
  /-- At the test-and-set. -/
  | trying (i : ι) (p : π) (c : Section σ ω π)
  | inside (i : ι) (p : π) (c : Section σ ω π)
  /-- The condition of the access has held. -/
  | armed (i : ι) (p : π) (w : ω) (c : Code σ π)
  | after (c : Code σ π)
  /-- The lock is given back and the call is not over. -/
  | leaving (p : π)
  | panicked

namespace Ctl
variable {σ π ι ω : Type}

def holds : Ctl σ π ι ω → Bool
  | inside .. | armed .. | after _ => true
  | idle _ | trying .. | leaving _ | panicked => false

def idle? : Ctl σ π ι ω → Option π
  | idle p => some p
  | trying .. | inside .. | armed .. | after _ | leaving _ | panicked => none

theorem eq_of_idle? {c : Ctl σ π ι ω} {p : π} (h : c.idle? = some p) : c = .idle p := by
  cases c with
  | idle q =>
    cases h
    rfl
  | _ => cases h

end Ctl

structure St (τ σ χ π ι ω : Type) where
  /-- The word of the lock. -/
  taken : Bool
  data : σ
  shared : χ
  ctl : τ → Ctl σ π ι ω

inductive Act (τ ι ε : Type) where
  | call (t : τ) (i : ι)
  | goOn (t : τ)
  | env (e : ε)

section
variable {τ σ χ π ι ω ε : Type} [DecidableEq τ]

def St.goto (s : St τ σ χ π ι ω) (t : τ) (c : Ctl σ π ι ω) : St τ σ χ π ι ω := { s with ctl := Function.update s.ctl t c }

variable (P : Program τ σ χ π ι ω ε)

/-- A thread goes on inside a call. -/
def Program.goOn (s : St τ σ χ π ι ω) (t : τ) : Option (St τ σ χ π ι ω) :=
  match s.ctl t with
  | .idle _ | .panicked => none
  | .trying i p c => some (if s.taken then s else { s with taken := true }.goto t (.inside i p c))
  | .inside i p (.act f k) => some ({ s with data := f s.data }.goto t (.inside i p (k s.data)))
  | .inside _ _ (.done .panic) => some (s.goto t .panicked)
  | .inside _ _ (.done (.leave p)) => some ({ s with taken := false }.goto t (.leaving p))
  | .inside i p (.done (.access w c)) => some (s.goto t (if P.cond w s.shared then .armed i p w c else .after c))
  | .armed _ _ w c => some ({ s with shared := P.eff w s.shared }.goto t (.after c))
  | .after (.act f k) => some ({ s with data := f s.data }.goto t (.after (k s.data)))
  | .after (.done p) => some ({ s with taken := false }.goto t (.leaving p))
  | .leaving p => some (s.goto t (.idle p))

def Program.call (s : St τ σ χ π ι ω) (t : τ) (i : ι) : Option (St τ σ χ π ι ω) :=
  match s.ctl t with
  | .idle p =>
    match P.sect i t p with
    | some c => if P.may i t s.shared then some (s.goto t (.trying i p c)) else none
    | none => none
  | _ => none

def Program.step (s : St τ σ χ π ι ω) : Act τ ι ε → Option (St τ σ χ π ι ω)
  | .call t i => P.call s t i
  | .goOn t => P.goOn s t
  | .env e => (P.env e (fun t => (s.ctl t).idle?) s.shared).map fun x => { s with shared := x }

/-- An access in one step. -/
def Program.access (w : ω) (x : χ) : χ := if P.cond w x then P.eff w x else x

/-- A section in one step: where it leaves the thread, the data and the rest. -/
def Program.effect (c : Section σ ω π) (d : σ) (x : χ) : Option (π × σ × χ) :=
  match c.run d with
  | (.panic, _) => none
  | (.leave p, d') => some (p, d', x)
  | (.access w r, d') => some ((r.run d').1, (r.run d').2, P.access w x)

end

/-! ## Sections in one step -/

/-- The parts of a state of the system that does a section in one step. -/
structure View (A τ σ χ π : Type) where
  data : A → σ
  shared : A → χ
  place : A → τ → π

section
variable {τ σ χ π ι ω ε A α : Type} [DecidableEq τ] (P : Program τ σ χ π ι ω ε) (step : A → α → Option A) (I : A → Prop)
  (v : View A τ σ χ π)

/-- Each state with the invariant `I` has a step for every section that may be run there, and one for everything that happens by
itself. What happens by itself changes neither whether a thread that is in a call might make it nor the condition of an access that
a section has come to, and the access of one thread's section leaves the calls of the others possible. -/
structure Atomic : Prop where
  keeps : ∀ {a b a'}, I a → step a b = some a' → I a'
  section_step : ∀ {a i t c}, I a → P.sect i t (v.place a t) = some c → P.may i t (v.shared a) →
    ∃ r b a', P.effect c (v.data a) (v.shared a) = some r ∧ step a b = some a' ∧ v.data a' = r.2.1 ∧ v.shared a' = r.2.2 ∧
      v.place a' = Function.update (v.place a) t r.1
  env_step : ∀ {a e f x}, I a → (∀ t p, f t = some p → v.place a t = p) → P.env e f (v.shared a) = some x →
    ∃ b a', step a b = some a' ∧ v.data a' = v.data a ∧ v.shared a' = x ∧ v.place a' = v.place a
  env_may : ∀ {e f x x' i t}, f t = none → P.env e f x = some x' → P.may i t x → P.may i t x'
  env_cond : ∀ {a e f x i t c w r d}, I a → (∀ t p, f t = some p → v.place a t = p) → P.sect i t (v.place a t) = some c →
    c.run (v.data a) = (.access w r, d) → P.env e f (v.shared a) = some x → P.cond w (v.shared a) → P.cond w x
  eff_may : ∀ {a i t c w r d j u}, I a → P.sect i t (v.place a t) = some c → c.run (v.data a) = (.access w r, d) →
    P.cond w (v.shared a) → u ≠ t → P.may j u (v.shared a) → P.may j u (P.eff w (v.shared a))

/-- A thread at `c`, with the data `d` and the rest `x`, and where it is in the state `a`. -/
def At (d : σ) (x : χ) (a : A) (t : τ) : Ctl σ π ι ω → Prop
  | .idle p => v.place a t = p
  | .trying i p c => v.place a t = p ∧ P.sect i t p = some c ∧ P.may i t x
  | .inside i p c => v.place a t = p ∧ P.may i t x ∧ ∃ c₀, P.sect i t p = some c₀ ∧ c₀.run (v.data a) = c.run d
  | .armed i p w c =>
    v.place a t = p ∧ P.may i t x ∧ P.cond w x ∧ ∃ c₀, P.sect i t p = some c₀ ∧ c₀.run (v.data a) = (.access w c, d)
  | .after c => c.run d = (v.place a t, v.data a)
  | .leaving p => v.place a t = p
  | .panicked => False

structure Sim (s : St τ σ χ π ι ω) (a : A) : Prop where
  inv : I a
  shared : v.shared a = s.shared
  ctl : ∀ t, At P v s.data s.shared a t (s.ctl t)
  free : s.taken = false → v.data a = s.data
  taken : s.taken = true ↔ ∃ t, (s.ctl t).holds
  one : ∀ t u, (s.ctl t).holds → (s.ctl u).holds → t = u

end

section
variable {τ σ χ π ι ω ε A : Type} {P : Program τ σ χ π ι ω ε} {v : View A τ σ χ π} {a a' : A} {d d' : σ} {x x' : χ} {t : τ}
  {c : Ctl σ π ι ω}

/-- A thread that does not hold the lock does not depend on the data. -/
theorem At.frame (h : At P v d x a t c) (hc : c.holds = false) (hplace : v.place a' t = v.place a t)
    (hmay : ∀ i, P.may i t x → P.may i t x') : At P v d' x' a' t c := by
  cases c with
  | idle p => exact hplace.trans h
  | trying i p c => exact ⟨hplace.trans h.1, h.2.1, hmay i h.2.2⟩
  | inside i p c => cases hc
  | armed i p w c => cases hc
  | after c => cases hc
  | leaving p => exact hplace.trans h
  | panicked => exact h

end

section
variable {τ σ χ π ι ω ε A α : Type} [DecidableEq τ] {P : Program τ σ χ π ι ω ε} {step : A → α → Option A} {I : A → Prop}
  {v : View A τ σ χ π} {s s' : St τ σ χ π ι ω} {a a' : A} {t : τ}

omit [DecidableEq τ] in
theorem Sim.alone (hs : Sim P I v s a) (ht : (s.ctl t).holds) {u : τ} (hu : u ≠ t) : (s.ctl u).holds = false := by
  cases h : (s.ctl u).holds with
  | false => rfl
  | true => exact absurd (hs.one u t h ht) hu

omit [DecidableEq τ] in
theorem Sim.nobody (hs : Sim P I v s a) (ht : s.taken = false) (u : τ) : (s.ctl u).holds = false := by
  cases h : (s.ctl u).holds with
  | false => rfl
  | true =>
    rw [hs.taken.2 ⟨u, h⟩] at ht
    cases ht

/-- A step of thread `t` while no other thread holds the lock. -/
theorem Sim.locked (hs : Sim P I v s a) (hothers : ∀ u, u ≠ t → (s.ctl u).holds = false) {b : Bool} {d : σ} {x : χ}
    {c : Ctl σ π ι ω} (hinv : I a') (hshared : v.shared a' = x) (hplace : ∀ u, u ≠ t → v.place a' u = v.place a u)
    (hmay : ∀ u i, u ≠ t → P.may i u s.shared → P.may i u x) (hc : At P v d x a' t c) (hb : b = c.holds)
    (hfree : b = false → v.data a' = d) : Sim P I v ⟨b, d, x, Function.update s.ctl t c⟩ a' := by
  have hholds : ∀ u, (Function.update s.ctl t c u).holds → u = t := by
    intro u hu
    by_contra hne
    rw [Function.update_of_ne hne, hothers u hne] at hu
    cases hu
  refine ⟨hinv, hshared, fun u => ?_, hfree, ⟨fun h => ⟨t, ?_⟩, fun h => ?_⟩, fun u w hu hw => ?_⟩
  · show At P v d x a' u (Function.update s.ctl t c u)
    by_cases hu : u = t
    · subst hu
      rw [Function.update_self]
      exact hc
    · rw [Function.update_of_ne hu]
      exact (hs.ctl u).frame (hothers u hu) (hplace u hu) fun i => hmay u i hu
  · show (Function.update s.ctl t c t).holds = true
    rw [Function.update_self, ← hb]
    exact h
  · obtain ⟨u, hu⟩ := h
    obtain rfl := hholds u hu
    have hu' : (Function.update s.ctl u c u).holds = true := hu
    rw [Function.update_self] at hu'
    exact hb.trans hu'
  · rw [hholds u hu, hholds w hw]

/-- A step of a thread that holds the lock and keeps its effect to itself. -/
theorem Sim.silent (hs : Sim P I v s a) (ht : (s.ctl t).holds) {d : σ} {c : Ctl σ π ι ω} (hholds : c.holds)
    (hc : At P v d s.shared a t c) : Sim P I v ({ s with data := d }.goto t c) a := by
  have htaken : s.taken = true := hs.taken.2 ⟨t, ht⟩
  refine hs.locked (fun u hu => hs.alone ht hu) hs.inv hs.shared (fun _ _ => rfl) (fun _ _ _ h => h) hc ?_ fun h => ?_
  · rw [htaken, hholds]
  · rw [htaken] at h
    cases h

/-- A step of a thread that neither holds the lock nor takes it. -/
theorem Sim.unlocked (hs : Sim P I v s a) (ht : (s.ctl t).holds = false) {c : Ctl σ π ι ω} (hholds : c.holds = false)
    (hc : At P v s.data s.shared a t c) : Sim P I v (s.goto t c) a := by
  have hiff : ∀ u, (Function.update s.ctl t c u).holds = (s.ctl u).holds := by
    intro u
    by_cases hu : u = t
    · rw [hu, Function.update_self, hholds, ht]
    · rw [Function.update_of_ne hu]
  refine ⟨hs.inv, hs.shared, fun u => ?_, hs.free, ?_, fun u w hu hw => ?_⟩
  · by_cases hu : u = t
    · subst hu
      simp only [St.goto, Function.update_self]
      exact hc
    · simp only [St.goto, Function.update_of_ne hu]
      exact hs.ctl u
  · simp only [St.goto, hiff]
    exact hs.taken
  · simp only [St.goto, hiff] at hu hw
    exact hs.one u w hu hw

theorem Sim.call (hs : Sim P I v s a) {i : ι} (h : P.call s t i = some s') : Sim P I v s' a := by
  unfold Program.call at h
  have hat := hs.ctl t
  cases hc : s.ctl t with
  | idle p =>
    rw [hc] at h hat
    dsimp only at h
    split at h
    · rename_i c hsect
      split at h
      · rename_i hmay
        cases h
        exact hs.unlocked (by rw [hc]; rfl) rfl ⟨hat, hsect, hmay⟩
      · cases h
    · cases h
  | _ =>
    rw [hc] at h
    cases h

/-- What happens by itself, for the state `a` and for the threads in their sections. -/
theorem Sim.env (hA : Atomic P step I v) (hs : Sim P I v s a) {e : ε} {x : χ}
    (h : P.env e (fun t => (s.ctl t).idle?) s.shared = some x) :
    ∃ a', Reaches step Any a a' ∧ Sim P I v { s with shared := x } a' := by
  have hidle : ∀ t p, (s.ctl t).idle? = some p → v.place a t = p := by
    intro t p ht
    have hat := hs.ctl t
    rw [Ctl.eq_of_idle? ht] at hat
    exact hat
  have h' := h
  rw [← hs.shared] at h'
  obtain ⟨b, a', hstep, hdata, hshared, hplace⟩ := hA.env_step hs.inv hidle h'
  refine ⟨a', .head trivial hstep (.refl _), hA.keeps hs.inv hstep, hshared, fun t => ?_, fun hf => ?_, hs.taken, hs.one⟩
  · have hat := hs.ctl t
    show At P v s.data x a' t (s.ctl t)
    have hmay : ∀ i, (s.ctl t).idle? = none → P.may i t s.shared → P.may i t x := fun i hn => hA.env_may hn h
    cases hc : s.ctl t with
    | idle p =>
      rw [hc] at hat
      exact (congrFun hplace t).trans hat
    | trying i p c =>
      rw [hc] at hat hmay
      exact ⟨(congrFun hplace t).trans hat.1, hat.2.1, hmay i rfl hat.2.2⟩
    | inside i p c =>
      rw [hc] at hat hmay
      obtain ⟨hp, hm, c₀, hsect, hrun⟩ := hat
      exact ⟨(congrFun hplace t).trans hp, hmay i rfl hm, c₀, hsect, by rw [hdata, hrun]⟩
    | armed i p w c =>
      rw [hc] at hat hmay
      obtain ⟨hp, hm, hcond, c₀, hsect, hrun⟩ := hat
      refine ⟨(congrFun hplace t).trans hp, hmay i rfl hm, ?_, c₀, hsect, by rw [hdata, hrun]⟩
      subst hp
      rw [← hs.shared] at hcond
      exact hA.env_cond hs.inv hidle hsect hrun h' hcond
    | after c =>
      rw [hc] at hat
      show c.run s.data = (v.place a' t, v.data a')
      rw [hplace, hdata]
      exact hat
    | leaving p =>
      rw [hc] at hat
      exact (congrFun hplace t).trans hat
    | panicked =>
      rw [hc] at hat
      exact hat
  · exact hdata.trans (hs.free hf)

/-- A section takes effect. -/
theorem Sim.commit (hA : Atomic P step I v) (hs : Sim P I v s a) {i : ι} {c : Section σ ω π}
    (hsect : P.sect i t (v.place a t) = some c) (hmay : P.may i t s.shared) {p : π} {d : σ} {x : χ}
    (heff : P.effect c (v.data a) s.shared = some (p, d, x)) :
    ∃ a', Reaches step Any a a' ∧ I a' ∧ v.data a' = d ∧ v.shared a' = x ∧ v.place a' t = p ∧
      ∀ u, u ≠ t → v.place a' u = v.place a u := by
  rw [← hs.shared] at hmay heff
  obtain ⟨r, b, a', hr, hstep, hd, hx, hp⟩ := hA.section_step hs.inv hsect hmay
  rw [heff] at hr
  cases hr
  refine ⟨a', .head trivial hstep (.refl _), hA.keeps hs.inv hstep, hd, hx, ?_, fun u hu => ?_⟩
  · rw [hp, Function.update_self]
  · rw [hp, Function.update_of_ne hu]

/-- The lock is given back at the end of the section. -/
theorem Sim.release (hs : Sim P I v s a) (ht : (s.ctl t).holds) (hinv : I a') (hshared : v.shared a' = s.shared)
    (hdata : v.data a' = s.data) (hplace : ∀ u, u ≠ t → v.place a' u = v.place a u) {p : π} (hp : v.place a' t = p) :
    Sim P I v ({ s with taken := false }.goto t (.leaving p)) a' :=
  hs.locked (fun _ hu => hs.alone ht hu) hinv hshared hplace (fun _ _ _ h => h) hp rfl fun _ => hdata

theorem Sim.goOn (hA : Atomic P step I v) (hs : Sim P I v s a) (h : P.goOn s t = some s') :
    ∃ a', Reaches step Any a a' ∧ Sim P I v s' a' := by
  unfold Program.goOn at h
  have hat := hs.ctl t
  cases hc : s.ctl t with
  | idle p =>
    rw [hc] at h
    cases h
  | panicked =>
    rw [hc] at h
    cases h
  | leaving p =>
    rw [hc] at h hat
    cases h
    exact ⟨a, .refl _, hs.unlocked (by rw [hc]; rfl) rfl hat⟩
  | trying i p c =>
    rw [hc] at h hat
    cases h
    refine ⟨a, .refl _, ?_⟩
    cases htaken : s.taken with
    | true => exact hs
    | false =>
      -- nobody holds the lock, and the data is that of `a`
      refine hs.locked (fun u _ => hs.nobody htaken u) hs.inv hs.shared (fun _ _ => rfl) (fun _ _ _ h => h) ?_ rfl (by simp)
      exact ⟨hat.1, hat.2.2, c, hat.2.1, by rw [hs.free htaken]⟩
  | inside i p c =>
    have ht : (s.ctl t).holds := by rw [hc]; rfl
    rw [hc] at h hat
    obtain ⟨hp, hmay, c₀, hsect, hrun⟩ := hat
    subst hp
    cases c with
    | act f k =>
      cases h
      exact ⟨a, .refl _, hs.silent ht rfl ⟨rfl, hmay, c₀, hsect, hrun⟩⟩
    | done b =>
      cases b with
      | panic =>
        -- an assertion that fails would fail in the one step too
        have hmay' := hmay
        rw [← hs.shared] at hmay'
        obtain ⟨r, _, _, hr, _⟩ := hA.section_step hs.inv hsect hmay'
        rw [Program.effect, hrun] at hr
        cases hr
      | leave p =>
        cases h
        obtain ⟨a', hreach, hinv, hd, hx, hp, hplace⟩ := hs.commit hA hsect hmay
          (show P.effect c₀ (v.data a) s.shared = some (p, s.data, s.shared) by rw [Program.effect, hrun]; rfl)
        exact ⟨a', hreach, hs.release ht hinv hx hd hplace hp⟩
      | access w r =>
        cases h
        cases hcond : P.cond w s.shared with
        | true => exact ⟨a, .refl _, hs.silent ht rfl ⟨rfl, hmay, hcond, c₀, hsect, hrun⟩⟩
        | false =>
          obtain ⟨a', hreach, hinv, hd, hx, hp, hplace⟩ := hs.commit hA hsect hmay
            (show P.effect c₀ (v.data a) s.shared = some ((r.run s.data).1, (r.run s.data).2, s.shared) by
              rw [Program.effect, hrun]
              simp only [Code.run_done, Program.access, hcond, Bool.false_eq_true, if_false])
          have htaken : s.taken = true := hs.taken.2 ⟨t, ht⟩
          refine ⟨a', hreach, hs.locked (fun u hu => hs.alone ht hu) hinv hx hplace (fun _ _ _ h => h) ?_ htaken fun hf => ?_⟩
          · show r.run s.data = (v.place a' t, v.data a')
            rw [hp, hd]
          · rw [htaken] at hf
            cases hf
  | armed i p w r =>
    have ht : (s.ctl t).holds := by rw [hc]; rfl
    rw [hc] at h hat
    cases h
    obtain ⟨hp, hmay, hcond, c₀, hsect, hrun⟩ := hat
    subst hp
    obtain ⟨a', hreach, hinv, hd, hx, hp, hplace⟩ := hs.commit hA hsect hmay
      (show P.effect c₀ (v.data a) s.shared = some ((r.run s.data).1, (r.run s.data).2, P.eff w s.shared) by
        rw [Program.effect, hrun]
        simp only [Program.access, hcond, if_true])
    have htaken : s.taken = true := hs.taken.2 ⟨t, ht⟩
    refine ⟨a', hreach, hs.locked (fun u hu => hs.alone ht hu) hinv hx hplace (fun u j hu hj => ?_) ?_ htaken fun hf => ?_⟩
    · rw [← hs.shared] at hcond hj ⊢
      exact hA.eff_may hs.inv hsect hrun hcond hu hj
    · show r.run s.data = (v.place a' t, v.data a')
      rw [hp, hd]
    · rw [htaken] at hf
      cases hf
  | after c =>
    have ht : (s.ctl t).holds := by rw [hc]; rfl
    rw [hc] at h hat
    cases c with
    | act f k =>
      cases h
      exact ⟨a, .refl _, hs.silent ht rfl hat⟩
    | done p =>
      cases h
      obtain ⟨hp, hd⟩ := Prod.mk.inj (show (p, s.data) = (v.place a t, v.data a) from hat)
      exact ⟨a, .refl _, hs.release ht hs.inv hs.shared hd.symm (fun _ _ => rfl) hp.symm⟩

theorem Sim.next (hA : Atomic P step I v) (hs : Sim P I v s a) {b : Act τ ι ε} (h : P.step s b = some s') :
    ∃ a', Reaches step Any a a' ∧ Sim P I v s' a' := by
  cases b with
  | call t i => exact ⟨a, .refl _, hs.call h⟩
  | goOn t => exact hs.goOn hA h
  | env e =>
    obtain ⟨x, hx, rfl⟩ := Option.map_eq_some_iff.1 h
    exact hs.env hA hx

/-- **Sections under a lock are atomic.** Whatever the steps of the threads reach stands for a state that the sections, done in
one step each, reach. -/
theorem reaches_sim (hA : Atomic P step I v) {s₀ : St τ σ χ π ι ω} {a₀ : A} (h0 : Sim P I v s₀ a₀)
    (h : Reaches P.step Any s₀ s) : ∃ a, Reaches step Any a₀ a ∧ Sim P I v s a := by
  induction h with
  | refl => exact ⟨a₀, .refl _, h0⟩
  | tail _ hn ih =>
    obtain ⟨a, hr, hs⟩ := ih
    obtain ⟨b, -, hstep⟩ := hn
    obtain ⟨a', hr', hs'⟩ := hs.next hA hstep
    exact ⟨a', hr.trans hr', hs'⟩

end

end Sections
