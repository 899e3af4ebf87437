import Mathlib.Data.UInt
import RedMagic.Lib.Moves

/-!
# `memmove` (src/string.c:43-60)

| here | there |
| --- | --- |
| `copyUp`   | `while (n-- > 0) *d++ = *s++` |
| `copyDown` | `while (n-- > 0) *--d = *--s` |
| `memmove`  | `memmove` |

A `char *` is a 32-bit address, and memory is a function of it. Pointers wrap: `s + n` and `d + n` are 0 for an area
that ends with the address space.
-/

namespace RedMagic.Str

open Moves

def copyUp : Nat → (UInt32 → UInt8) → UInt32 → UInt32 → UInt32 → UInt8
  | 0, m, _, _ => m
  | n + 1, m, d, s => copyUp n (Function.update m d (m s)) (d + 1) (s + 1)

def copyDown : Nat → (UInt32 → UInt8) → UInt32 → UInt32 → UInt32 → UInt8
  | 0, m, _, _ => m
  | n + 1, m, d, s => copyDown n (Function.update m (d - 1) (m (s - 1))) (d - 1) (s - 1)

/-- The pointer that is returned, and the memory. -/
def memmove (m : UInt32 → UInt8) (dst src n : UInt32) : UInt32 × (UInt32 → UInt8) :=
  (dst,
    if src < dst ∧ src + n > dst then copyDown n.toNat m (dst + n) (src + n)
    else copyUp n.toNat m dst src)

/-! ## The assignments of the loops -/

/-- Byte `i` of the one area goes to byte `i` of the other. -/
def pair (d s : UInt32) (i : Nat) : UInt32 × UInt32 := (d + UInt32.ofNat i, s + UInt32.ofNat i)

theorem add_one_add_ofNat (a : UInt32) (i : Nat) : a + 1 + UInt32.ofNat i = a + UInt32.ofNat (i + 1) := by
  rw [UInt32.ofNat_add, UInt32.add_assoc, UInt32.add_comm 1]
  rfl

theorem add_ofNat_succ_sub_one (a : UInt32) (i : Nat) : a + UInt32.ofNat (i + 1) - 1 = a + UInt32.ofNat i := by
  rw [UInt32.ofNat_add, ← UInt32.add_assoc]
  exact UInt32.add_sub_cancel _ _

theorem copyUp_eq (n : Nat) (m : UInt32 → UInt8) (d s : UInt32) :
    copyUp n m d s = moves m ((List.range n).map (pair d s)) := by
  induction n generalizing m d s with
  | zero => rfl
  | succ n ih =>
    have htail : (pair d s ∘ Nat.succ) = pair (d + 1) (s + 1) := by
      funext i
      simp only [Function.comp_apply, pair, add_one_add_ofNat]
    have hhead : pair d s 0 = (d, s) := by simp [pair]
    rw [copyUp, ih, List.range_succ_eq_map, List.map_cons, List.map_map, htail, hhead, moves]

theorem copyDown_eq (n : Nat) (m : UInt32 → UInt8) (d s : UInt32) :
    copyDown n m (d + UInt32.ofNat n) (s + UInt32.ofNat n) = moves m ((List.range n).reverse.map (pair d s)) := by
  induction n generalizing m with
  | zero => rfl
  | succ n ih =>
    rw [copyDown, add_ofNat_succ_sub_one, add_ofNat_succ_sub_one, ih, List.range_succ, List.reverse_append,
      List.reverse_singleton, List.singleton_append, List.map_cons, moves]
    rfl

/-! ## Overlapping areas -/

section
variable {d s n : UInt32}

theorem toNat_add_ofNat {a : UInt32} {i : Nat} (h : a.toNat + i < 2 ^ 32) : (a + UInt32.ofNat i).toNat = a.toNat + i := by
  rw [UInt32.toNat_add, UInt32.toNat_ofNat', Nat.add_mod_mod, Nat.mod_eq_of_lt h]

/-- Bytes `i` of the one area and `j` of the other are one byte. -/
theorem add_ofNat_inj {a b : UInt32} {k i j : Nat} (ha : a.toNat + k ≤ 2 ^ 32) (hb : b.toNat + k ≤ 2 ^ 32) (hi : i < k)
    (hj : j < k) : a + UInt32.ofNat i = b + UInt32.ofNat j ↔ a.toNat + i = b.toNat + j := by
  rw [← UInt32.toNat_inj, toNat_add_ofNat (by omega), toNat_add_ofNat (by omega)]

/-- Upwards, unless the destination begins inside the source. -/
theorem safe_up (hs : s.toNat + n.toNat ≤ 2 ^ 32) (hd : d.toNat + n.toNat ≤ 2 ^ 32)
    (h : ¬ (s.toNat < d.toNat ∧ d.toNat < s.toNat + n.toNat)) : Safe ((List.range n.toNat).map (pair d s)) := by
  refine List.pairwise_map.2 (List.Pairwise.imp_of_mem ?_ List.pairwise_lt_range)
  intro i j hi hj hij
  have hi' := List.mem_range.1 hi
  have hj' := List.mem_range.1 hj
  simp only [pair, ne_eq, add_ofNat_inj hd hd hi' hj', add_ofNat_inj hd hs hi' hj']
  omega

/-- Downwards, if it does not begin in front of it. -/
theorem safe_down (hs : s.toNat + n.toNat ≤ 2 ^ 32) (hd : d.toNat + n.toNat ≤ 2 ^ 32) (h : s.toNat ≤ d.toNat) :
    Safe ((List.range n.toNat).reverse.map (pair d s)) := by
  refine List.pairwise_map.2 (List.pairwise_reverse.2 (List.Pairwise.imp_of_mem ?_ List.pairwise_lt_range))
  intro i j hi hj hij
  have hi' := List.mem_range.1 hi
  have hj' := List.mem_range.1 hj
  simp only [pair, ne_eq, add_ofNat_inj hd hd hj' hi', add_ofNat_inj hd hs hj' hi']
  omega

/-- The `n` bytes at `d` are those that were at `s`, and no other byte has changed. -/
structure Copied (m m' : UInt32 → UInt8) (d s n : UInt32) : Prop where
  bytes : ∀ i, i < n → m' (d + i) = m (s + i)
  frame : ∀ a : UInt32, ¬ (d.toNat ≤ a.toNat ∧ a.toNat < d.toNat + n.toNat) → m' a = m a

theorem copied_moves {m : UInt32 → UInt8} (hd : d.toNat + n.toNat ≤ 2 ^ 32) {ps : List (UInt32 × UInt32)} (hsafe : Safe ps)
    (hps : ∀ p, p ∈ ps ↔ ∃ i < n.toNat, pair d s i = p) : Copied m (moves m ps) d s n := by
  constructor
  · intro i hi
    have hlt : i.toNat < n.toNat := UInt32.lt_iff_toNat_lt.1 hi
    have hmem : (d + i, s + i) ∈ ps := (hps _).2 ⟨i.toNat, hlt, by rw [pair, UInt32.ofNat_toNat]⟩
    exact moves_of_mem hsafe hmem
  · intro a ha
    refine moves_of_forall_ne fun p hp hpa => ha ?_
    obtain ⟨i, hi, rfl⟩ := (hps p).1 hp
    rw [← hpa, pair, toNat_add_ofNat (by omega)]
    omega

theorem copied_copyUp (m : UInt32 → UInt8) (hs : s.toNat + n.toNat ≤ 2 ^ 32) (hd : d.toNat + n.toNat ≤ 2 ^ 32)
    (h : ¬ (s.toNat < d.toNat ∧ d.toNat < s.toNat + n.toNat)) : Copied m (copyUp n.toNat m d s) d s n := by
  rw [copyUp_eq]
  exact copied_moves hd (safe_up hs hd h) fun p => by simp

theorem copied_copyDown (m : UInt32 → UInt8) (hs : s.toNat + n.toNat ≤ 2 ^ 32) (hd : d.toNat + n.toNat ≤ 2 ^ 32)
    (h : s.toNat ≤ d.toNat) : Copied m (copyDown n.toNat m (d + n) (s + n)) d s n := by
  have heq := copyDown_eq n.toNat m d s
  rw [UInt32.ofNat_toNat] at heq
  rw [heq]
  exact copied_moves hd (safe_down hs hd h) fun p => by simp

/-- **`memmove` copies as if through a temporary**, whatever the overlap: the bytes at `dst` are those that were at `src`,
and no other byte changes. -/
theorem memmove_copies (m : UInt32 → UInt8) (dst src n : UInt32) (hsrc : src.toNat + n.toNat ≤ 2 ^ 32)
    (hdst : dst.toNat + n.toNat ≤ 2 ^ 32) :
    (memmove m dst src n).1 = dst ∧ Copied m (memmove m dst src n).2 dst src n := by
  refine ⟨rfl, ?_⟩
  unfold memmove
  dsimp only
  split
  · rename_i hdir
    have hlt : src.toNat < dst.toNat := UInt32.lt_iff_toNat_lt.1 hdir.1
    exact copied_copyDown m hsrc hdst (Nat.le_of_lt hlt)
  · rename_i hdir
    refine copied_copyUp m hsrc hdst ?_
    -- a source in front of the destination does not end with the address space, so `s + n` has not wrapped
    rintro ⟨hlt, hin⟩
    refine hdir ⟨UInt32.lt_iff_toNat_lt.2 hlt, UInt32.lt_iff_toNat_lt.2 ?_⟩
    rw [UInt32.toNat_add, Nat.mod_eq_of_lt (by omega)]
    exact hin

/-- Two overlapping areas at the end of the address space. -/
theorem memmove_copies_at_the_end :
    Copied UInt32.toUInt8 (memmove UInt32.toUInt8 0xFFFFFFFC 0xFFFFFFFA 4).2 0xFFFFFFFC 0xFFFFFFFA 4 :=
  (memmove_copies UInt32.toUInt8 0xFFFFFFFC 0xFFFFFFFA 4 (by decide) (by decide)).2

end

end RedMagic.Str
