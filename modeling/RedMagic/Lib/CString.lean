/-!
# NUL-terminated strings

Memory is a function from addresses to cells and `next` is the address behind another one. `StringAt next m p s`: the
cells from `p` on are the characters `s`, none of them 0, and then a 0. `read` finds the string, if it ends in time.
-/

namespace CString

variable {α β : Type} [Zero β] {next : α → α} {m : α → β}

inductive StringAt (next : α → α) (m : α → β) : α → List β → Prop
  | nil {p : α} (h : m p = 0) : StringAt next m p []
  | cons {p : α} {c : β} {s : List β} (hc : m p = c) (hne : c ≠ 0) (h : StringAt next m (next p) s) :
      StringAt next m p (c :: s)

/-- The string at an address, of fewer than `n` characters. -/
def read [DecidableEq β] (next : α → α) (m : α → β) : Nat → α → Option (List β)
  | 0, _ => none
  | n + 1, p => if m p = 0 then some [] else (read next m n (next p)).map (m p :: ·)

theorem stringAt_of_read [DecidableEq β] {n : Nat} {p : α} {s : List β} (h : read next m n p = some s) :
    StringAt next m p s := by
  induction n generalizing p s with
  | zero => cases h
  | succ n ih =>
    rw [read] at h
    split at h
    · rename_i hzero
      cases h
      exact .nil hzero
    · rename_i hne
      obtain ⟨t, ht, rfl⟩ := Option.map_eq_some_iff.1 h
      exact .cons rfl hne (ih ht)

end CString
