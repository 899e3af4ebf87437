import Mathlib.Data.List.Basic
import Mathlib.Logic.Function.Iterate
import RedMagic.Lib.CString

/-!
# A cursor that moves over a string in memory

A `Reader` starts at an address and returns a result, the address it stops at and the addresses it has read, or nothing if
it does not end. `Runs t x l c r` is about the string `t`, of which `l` and `r` are rests: from the first character of `l` (or
from the NUL, if `l` is empty) the reader `x` returns `c` and stops at `r`, and all it has read are characters of the string
and its NUL. The cursor may be moved anywhere; only a `peek` must be inside.
-/

namespace Cursor

open CString

def Reader (α γ : Type) : Type := α → Option (γ × α × List α)

variable {α β γ δ : Type}

instance : Monad (Reader α) where
  pure c := fun p => some (c, p, [])
  bind x f := fun p => (x p).bind fun r => (f r.1 r.2.1).map fun r' => (r'.1, r'.2.1, r.2.2 ++ r'.2.2)

/-- It does not end. -/
def never : Reader α γ := fun _ => none

def peek (m : α → β) : Reader α β := fun p => some (m p, p, [p])

def move (f : α → α) : Reader α Unit := fun p => some ((), f p, [])

/-- The string `chars` from the address `start` on. -/
structure Text (next : α → α) (m : α → β) [Zero β] where
  start : α
  chars : List β
  isString : StringAt next m start chars

section
variable [Zero β] {next : α → α} {m : α → β} {t : Text next m} {l r : List β} {c : γ}

/-- The address of the character with number `i`; that of the NUL comes last. -/
def Text.cell (t : Text next m) (i : Nat) : α := next^[i] t.start

/-- Where the rest `l` of the string begins. -/
def Text.addr (t : Text next m) (l : List β) : α := t.cell (t.chars.length - l.length)

theorem cell_of_stringAt {p : α} {s : List β} (h : StringAt next m p s) {i : Nat} (hi : i ≤ s.length) :
    m (next^[i] p) = s.getD i 0 := by
  induction h generalizing i with
  | nil hp =>
    obtain rfl := Nat.le_zero.1 hi
    exact hp
  | cons hp _ _ ih =>
    cases i with
    | zero => exact hp
    | succ i =>
      rw [Function.iterate_succ_apply, ih (Nat.le_of_succ_le_succ hi)]
      rfl

theorem ne_zero_of_stringAt {p : α} {s : List β} (h : StringAt next m p s) : ∀ x ∈ s, x ≠ 0 := by
  induction h with
  | nil => exact nofun
  | cons _ hne _ ih =>
    intro x hx
    rcases List.mem_cons.1 hx with rfl | hx
    · exact hne
    · exact ih x hx

theorem Text.ne_zero {x : β} (hl : x :: l <:+ t.chars) : x ≠ 0 :=
  ne_zero_of_stringAt t.isString x (hl.subset List.mem_cons_self)

theorem Text.read_addr (hl : l <:+ t.chars) : m (t.addr l) = l.headD 0 := by
  obtain ⟨u, hu⟩ := hl
  have hlen : t.chars.length - l.length = u.length := by
    rw [← hu, List.length_append]
    omega
  rw [Text.addr, Text.cell, hlen, cell_of_stringAt t.isString (by rw [← hu, List.length_append]; omega), ← hu,
    List.getD_eq_getElem?_getD, List.getElem?_append_right (Nat.le_refl _), Nat.sub_self]
  cases l <;> rfl

def Runs (t : Text next m) (x : Reader α γ) (l : List β) (c : γ) (r : List β) : Prop :=
  ∃ log, x (t.addr l) = some (c, t.addr r, log) ∧ ∀ a ∈ log, ∃ i ≤ t.chars.length, a = t.cell i

theorem Runs.pure (c : γ) (l : List β) : Runs t (pure c) l c l := ⟨[], rfl, nofun⟩

theorem Runs.bind {x : Reader α γ} {f : γ → Reader α δ} {d : δ} {r' : List β} (hx : Runs t x l c r) (hf : Runs t (f c) r d r') :
    Runs t (x >>= f) l d r' := by
  obtain ⟨log, hlog, hin⟩ := hx
  obtain ⟨log', hlog', hin'⟩ := hf
  refine ⟨log ++ log', ?_, fun a ha => ?_⟩
  · show ((x (t.addr l)).bind fun r => (f r.1 r.2.1).map fun r' => (r'.1, r'.2.1, r.2.2 ++ r'.2.2)) = _
    rw [hlog, Option.bind_some, hlog', Option.map_some]
  · rcases List.mem_append.1 ha with ha | ha
    · exact hin a ha
    · exact hin' a ha

theorem Runs.peek (hl : l <:+ t.chars) : Runs t (peek m) l (l.headD 0) l := by
  refine ⟨[t.addr l], ?_, fun a ha => ?_⟩
  · rw [Cursor.peek, Text.read_addr hl]
  · rw [List.mem_singleton.1 ha]
    exact ⟨_, Nat.sub_le _ _, rfl⟩

theorem Text.addr_tail {x : β} (hl : x :: l <:+ t.chars) : t.addr l = next (t.addr (x :: l)) := by
  have hlen := hl.length_le
  rw [List.length_cons] at hlen
  have hsucc : t.chars.length - l.length = t.chars.length - (x :: l).length + 1 := by
    rw [List.length_cons]
    omega
  rw [Text.addr, Text.addr, Text.cell, Text.cell, hsucc, Function.iterate_succ_apply']

theorem Runs.advance {x : β} (hl : x :: l <:+ t.chars) : Runs t (move next) (x :: l) () l :=
  ⟨[], by rw [move, Text.addr_tail hl], nofun⟩

theorem Runs.retreat {prev : α → α} (hprev : ∀ a, prev (next a) = a) {x : β} (hl : x :: l <:+ t.chars) :
    Runs t (move prev) l () (x :: l) :=
  ⟨[], by rw [move, Text.addr_tail hl, hprev], nofun⟩

end

end Cursor
