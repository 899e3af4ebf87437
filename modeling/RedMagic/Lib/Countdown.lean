import Mathlib.Algebra.Ring.Int.Defs

/-!
# Loops that count an `int` down

`post lo a n` is the loop `while (lo < n--) *str++ = a;` and `pre a n` the loop `while (--n > 0) *str++ = a;`: what is written,
and the value `n` is left with. The counter wraps around.
-/

namespace Countdown

variable {α : Type}

/-- A difference that an `int` can hold. -/
theorem toInt_sub_of_le {a b : Int32} (hlo : -2 ^ 31 ≤ a.toInt - b.toInt) (hhi : a.toInt - b.toInt < 2 ^ 31) :
    (a - b).toInt = a.toInt - b.toInt := by
  rw [Int32.toInt_sub, Int.bmod_eq_of_le] <;> omega

theorem toInt_one : (1 : Int32).toInt = 1 := rfl

theorem toInt_zero : (0 : Int32).toInt = 0 := rfl

theorem toInt_pred {n : Int32} (h : -2 ^ 31 < n.toInt) : (n - 1).toInt = n.toInt - 1 := by
  have hlt := n.toInt_lt
  rw [toInt_sub_of_le, toInt_one] <;> rw [toInt_one] <;> omega

def post (lo : Int32) (a : α) (n : Int32) : List α × Int32 :=
  if lo < n then
    let r := post lo a (n - 1)
    (a :: r.1, r.2)
  else ([], n - 1)
termination_by (n.toInt - lo.toInt).toNat
decreasing_by
  rename_i h
  have hlo := lo.le_toInt
  rw [Int32.lt_iff_toInt_lt] at h
  rw [toInt_pred (by omega)]
  omega

def pre (a : α) (n : Int32) : List α × Int32 :=
  if 0 < n - 1 then
    let r := pre a (n - 1)
    (a :: r.1, r.2)
  else ([], n - 1)
termination_by (n - 1).toInt.toNat
decreasing_by
  rename_i h
  rw [Int32.lt_iff_toInt_lt, toInt_zero] at h
  rw [toInt_pred (n := n - 1) (by omega)]
  omega

theorem mem_post {lo : Int32} {a x : α} {n : Int32} (h : x ∈ (post lo a n).1) : x = a := by
  fun_induction post lo a n with
  | case1 n hlt r ih =>
    rcases List.mem_cons.1 h with h | h
    · exact h
    · exact ih h
  | case2 n hle => cases h

theorem mem_pre {a x : α} {n : Int32} (h : x ∈ (pre a n).1) : x = a := by
  fun_induction pre a n with
  | case1 n hlt r ih =>
    rcases List.mem_cons.1 h with h | h
    · exact h
    · exact ih h
  | case2 n hle => cases h

theorem post_of_le {lo n : Int32} (a : α) (h : n.toInt ≤ lo.toInt) : post lo a n = ([], n - 1) := by
  rw [post, if_neg]
  rw [Int32.lt_iff_toInt_lt]
  omega

theorem post_of_lt {lo n : Int32} (a : α) (h : lo.toInt < n.toInt) :
    post lo a n = (List.replicate (n.toInt - lo.toInt).toNat a, lo - 1) := by
  -- the counter goes down to `lo`
  obtain ⟨k, hk⟩ : ∃ k : Nat, n.toInt = lo.toInt + 1 + k := ⟨(n.toInt - lo.toInt - 1).toNat, by omega⟩
  induction k generalizing n with
  | zero =>
    have hlo := lo.le_toInt
    have hpred : n - 1 = lo := by
      rw [← Int32.toInt_inj, toInt_pred (by omega)]
      omega
    rw [post, if_pos (Int32.lt_iff_toInt_lt.2 h), hpred, post_of_le a (Int.le_refl _)]
    rw [show (n.toInt - lo.toInt).toNat = 1 by omega]
    rfl
  | succ k ih =>
    have hlo := lo.le_toInt
    have hpred : (n - 1).toInt = n.toInt - 1 := toInt_pred (by omega)
    rw [post, if_pos (Int32.lt_iff_toInt_lt.2 h), ih (by omega) (by omega), hpred]
    rw [show (n.toInt - lo.toInt).toNat = (n.toInt - 1 - lo.toInt).toNat + 1 by omega, List.replicate_succ]

/-- Down to 0: whatever is written, the counter ends below 0. -/
theorem post_zero {n : Int32} (a : α) (h : -2 ^ 31 < n.toInt) :
    (post 0 a n).1 = List.replicate n.toInt.toNat a ∧ (post 0 a n).2.toInt = min (n.toInt - 1) (-1) := by
  by_cases hn : n.toInt ≤ 0
  · rw [post_of_le a hn]
    refine ⟨?_, ?_⟩
    · rw [show n.toInt.toNat = 0 by omega]
      rfl
    · rw [toInt_pred h]
      omega
  · have hlast : ((0 : Int32) - 1).toInt = -1 := rfl
    rw [post_of_lt a (by rw [toInt_zero]; omega), hlast, toInt_zero, Int.sub_zero]
    refine ⟨rfl, ?_⟩
    omega

/-- A counter that is not positive. -/
theorem post_zero_nil {n : Int32} (a : α) (h : n.toInt ≤ 0) : (post 0 a n).1 = [] := by
  rw [post_of_le a h]

theorem pre_of_le {n : Int32} (a : α) (h : (n - 1).toInt ≤ 0) : pre a n = ([], n - 1) := by
  rw [pre, if_neg]
  rw [Int32.lt_iff_toInt_lt, toInt_zero]
  omega

theorem pre_of_lt {n : Int32} (a : α) (h : 1 < n.toInt) : pre a n = (List.replicate (n.toInt.toNat - 1) a, 0) := by
  obtain ⟨k, hk⟩ : ∃ k : Nat, n.toInt = 2 + k := ⟨(n.toInt - 2).toNat, by omega⟩
  have hpred : (n - 1).toInt = n.toInt - 1 := toInt_pred (by omega)
  have hpos : 0 < n - 1 := by
    rw [Int32.lt_iff_toInt_lt, toInt_zero]
    omega
  induction k generalizing n with
  | zero =>
    have hpred' : n - 1 - 1 = 0 := by
      rw [← Int32.toInt_inj, toInt_pred (by omega), toInt_zero]
      omega
    have hle : (n - 1 - 1).toInt ≤ 0 := Int.le_of_eq (by rw [hpred', toInt_zero])
    rw [pre, if_pos hpos, pre_of_le a hle, hpred']
    rw [show n.toInt.toNat - 1 = 1 by omega]
    rfl
  | succ k ih =>
    have hpred' : (n - 1 - 1).toInt = (n - 1).toInt - 1 := toInt_pred (by omega)
    rw [pre, if_pos hpos, ih (by omega) (by omega) hpred' (by rw [Int32.lt_iff_toInt_lt, toInt_zero]; omega), hpred]
    rw [show n.toInt.toNat - 1 = (n.toInt - 1).toNat - 1 + 1 by omega, List.replicate_succ]

end Countdown
