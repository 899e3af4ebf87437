import RedMagic.Printk.Basic
import Mathlib.Data.Nat.Digits.Lemmas

/-!
# What `number` writes

A sign, the prefix of the base, zeros up to the precision, the digits, and padding up to the width on the side that the
flags say (`layout`). `number` gets there by counting `size` down in three loops, one after the other; that the later
ones do nothing rests on `size` not wrapping around (`number_layout`).
-/

namespace RedMagic.Printk

open Countdown

/-! ## The digits -/

/-- `tmp` has room for the digits. -/
theorem divLoop_eq {base : Nat} (hbase : 2 ≤ base) {room num : Nat} (h : num < base ^ room) :
    divLoop base room num = some (base.digits num) := by
  induction room generalizing num with
  | zero =>
    obtain rfl : num = 0 := by simpa using h
    simp [divLoop]
  | succ room ih =>
    cases num with
    | zero => simp [divLoop]
    | succ num =>
      have hlt : (num + 1) / base < base ^ room := Nat.div_lt_of_lt_mul (by rwa [pow_succ, Nat.mul_comm] at h)
      rw [divLoop, ih hlt, Option.map_some, Nat.digits_def' (by omega) (Nat.succ_pos num)]

/-- The digits of a number, the least one first; 0 has one. -/
def digitsOf (base n : Nat) : List Nat := if n = 0 then [0] else base.digits n

theorem tmp_eq {base : Nat} (hbase : 2 ≤ base) (num : UInt32) :
    (if num = 0 then some [0] else divLoop base 36 num.toNat) = some (digitsOf base num.toNat) := by
  have hlt : num.toNat < base ^ 36 := by
    calc num.toNat < 2 ^ 32 := num.toNat_lt
      _ ≤ 2 ^ 36 := by decide
      _ ≤ base ^ 36 := Nat.pow_le_pow_left hbase 36
  have hzero : num = 0 ↔ num.toNat = 0 := UInt32.toNat_inj.symm
  unfold digitsOf
  by_cases h : num = 0
  · rw [if_pos h, if_pos (hzero.1 h)]
  · rw [if_neg h, if_neg fun hn => h (hzero.2 hn), divLoop_eq hbase hlt]

/-- A 32-bit number has at most 32 digits. -/
theorem length_digitsOf_le {base : Nat} (hbase : 2 ≤ base) (num : UInt32) : (digitsOf base num.toNat).length ≤ 32 := by
  unfold digitsOf
  split
  · decide
  · refine (Nat.digits_length_le_iff (by omega) _).2 ?_
    calc num.toNat < 2 ^ 32 := num.toNat_lt
      _ ≤ base ^ 32 := Nat.pow_le_pow_left hbase 32

theorem toInt_toInt32 (num : UInt32) :
    num.toInt32.toInt = if 2 * num.toNat < 2 ^ 32 then (num.toNat : Int) else num.toNat - 2 ^ 32 :=
  BitVec.toInt_eq_toNat_cond num.toBitVec

/-- The absolute value of a signed number, an unsigned number itself. -/
def absValue (num : UInt32) (type : Flags) : Nat := if type.sign then num.toInt32.toInt.natAbs else num.toNat

theorem toNat_magnitude (num : UInt32) (type : Flags) : (magnitude num type).toNat = absValue num type := by
  have hlt := num.toNat_lt
  have hint := toInt_toInt32 num
  have hneg : num.toInt32 < 0 ↔ num.toInt32.toInt < 0 := Int32.lt_iff_toInt_lt
  unfold magnitude absValue
  cases type.sign with
  | false => rfl
  | true =>
    by_cases hcase : num.toInt32.toInt < 0
    · rw [if_pos (by simpa using hneg.2 hcase), UInt32.toNat_neg, show UInt32.size = 2 ^ 32 from rfl, if_pos rfl]
      split at hint <;> omega
    · rw [if_neg (by simpa using fun hlt => hcase (hneg.1 hlt)), if_pos rfl]
      split at hint <;> omega

/-! ## The layout -/

/-- What is written for a number, for the width and the precision as natural numbers; 0 for none. -/
def layout (num : UInt32) (base width precision : Nat) (type : Flags) : List UInt8 :=
  let head := signOf num type ++ baseOf base type
  let ds := (digitsOf base (absValue num type)).reverse.map fun d => (digits type.small).getD d 0
  let body := List.replicate (precision - ds.length) '0'.toUInt8 ++ ds
  let pad := width - (head.length + body.length)
  if type.left then head ++ body ++ List.replicate pad ' '.toUInt8
  else if type.zeropad then head ++ List.replicate pad '0'.toUInt8 ++ body
  else List.replicate pad ' '.toUInt8 ++ head ++ body

theorem number_eq {base : Nat} (hbase : 2 ≤ base ∧ base ≤ 36) (num : UInt32) (size precision : Int32) (type : Flags) :
    number num base size precision type =
      some (place (digitsOf base (magnitude num (adjust type)).toNat) num base size precision (adjust type)) := by
  simp only [number]
  rw [if_neg (by omega), tmp_eq hbase.1, Option.map_some]

theorem number_isSome {base : Nat} (hbase : 2 ≤ base ∧ base ≤ 36) (num : UInt32) (size precision : Int32) (type : Flags) :
    (number num base size precision type).isSome := by
  rw [number_eq hbase]
  rfl

theorem length_signOf (num : UInt32) (type : Flags) :
    (signOf num type).length = if signOf num type = [] then 0 else 1 := by
  unfold signOf
  split
  · rfl
  · split
    · rfl
    · split <;> rfl

theorem length_baseOf (base : Nat) (type : Flags) :
    (baseOf base type).length = if type.special then if base = 16 then 2 else if base = 8 then 1 else 0 else 0 := by
  unfold baseOf
  split
  · split
    · rename_i h
      simp [h]
    · split <;> rfl
  · rfl

theorem length_head_le (num : UInt32) (base : Nat) (type : Flags) : (signOf num type ++ baseOf base type).length ≤ 3 := by
  have hsign : (signOf num type).length ≤ 1 := by
    rw [length_signOf]
    split <;> decide
  have hbase : (baseOf base type).length ≤ 2 := by
    rw [length_baseOf]
    grind
  rw [List.length_append]
  omega

theorem toInt_afterHead (num : UInt32) (base : Nat) {size : Int32} (type : Flags) (h : -1 ≤ size.toInt) :
    (afterHead num base size type).toInt = size.toInt - (signOf num type ++ baseOf base type).length := by
  have hlt := size.toInt_lt
  have hsign : (if signOf num type = [] then size else size - 1).toInt = size.toInt - (signOf num type).length := by
    rw [length_signOf]
    split
    · simp
    · rw [toInt_pred (by omega)]
      rfl
  have hle : (signOf num type).length ≤ 1 := by
    rw [length_signOf]
    split <;> decide
  have htwo : (2 : Int32).toInt = 2 := rfl
  rw [List.length_append, length_baseOf]
  simp only [afterHead]
  split
  · split
    · rw [toInt_sub_of_le (by rw [htwo]; omega) (by rw [htwo]; omega), hsign, htwo]
      omega
    · split
      · rw [toInt_pred (by omega), hsign]
        omega
      · rw [hsign]
        omega
  · rw [hsign]
    omega

theorem layout_adjust (num : UInt32) (base width precision : Nat) (type : Flags) :
    layout num base width precision (adjust type) = layout num base width precision type := by
  unfold adjust
  split
  · rename_i h
    simp only [layout, signOf, baseOf, absValue, h, if_true]
  · rfl

/-- A width or a precision as an `int`; -1 for none. -/
def IntOf (n : Nat) (i : Int32) : Prop := i.toInt = n ∨ (n = 0 ∧ i.toInt = -1)

section
variable (base : Nat) (num : UInt32) {width prec : Nat} {size precision : Int32} (type : Flags) (tmp : List Nat)

/-- The precision that the digits leave. -/
theorem toInt_precision (hprec : IntOf prec precision) (hlen : tmp.length ≤ 32) :
    (if precision < Int32.ofNat tmp.length then Int32.ofNat tmp.length else precision).toInt = max prec tmp.length := by
  have hi : (Int32.ofNat tmp.length).toInt = tmp.length := Int32.toInt_ofNat_of_lt (by omega)
  unfold IntOf at hprec
  split
  · rename_i h
    rw [Int32.lt_iff_toInt_lt, hi] at h
    rw [hi]
    omega
  · rename_i h
    rw [Int32.lt_iff_toInt_lt, hi] at h
    omega

/-- The zeros between the prefix and the digits. -/
theorem zeros_eq (hprec : IntOf prec precision) (hlen : tmp.length ≤ 32) :
    (post (Int32.ofNat tmp.length) '0'.toUInt8
      (if precision < Int32.ofNat tmp.length then Int32.ofNat tmp.length else precision)).1 =
        List.replicate (prec - tmp.length) '0'.toUInt8 := by
  have hi : (Int32.ofNat tmp.length).toInt = tmp.length := Int32.toInt_ofNat_of_lt (by omega)
  have hp := toInt_precision tmp hprec hlen
  by_cases hle : prec ≤ tmp.length
  · rw [post_of_le _ (by omega), show prec - tmp.length = 0 by omega]
    rfl
  · have hcount : (((max prec tmp.length : Nat) : Int) - tmp.length).toNat = prec - tmp.length := by omega
    rw [post_of_lt _ (by omega), hp, hi, hcount]

/-- `size` after the digits: what is to be padded, if it is positive. -/
theorem toInt_rest (hsize : IntOf width size) (hprec : IntOf prec precision) (hlen : tmp.length ≤ 32)
    (hfit : ((signOf num type ++ baseOf base type).length + max prec tmp.length : Nat) ≤ size.toInt + 2 ^ 31) :
    (afterHead num base size type -
        if precision < Int32.ofNat tmp.length then Int32.ofNat tmp.length else precision).toInt =
      size.toInt - ((signOf num type ++ baseOf base type).length + max prec tmp.length : Nat) := by
  have hp := toInt_precision tmp hprec hlen
  have hlt := size.toInt_lt
  have hhead := length_head_le num base type
  have hge : -1 ≤ size.toInt := by
    unfold IntOf at hsize
    omega
  have hafter := toInt_afterHead num base type hge
  rw [toInt_sub_of_le (by omega) (by omega), hp, hafter]
  omega

end

/-- What is written before the padding, in characters. -/
def bodyLength (num : UInt32) (base prec : Nat) (type : Flags) : Nat :=
  (signOf num type ++ baseOf base type).length + max prec (digitsOf base (absValue num type)).length

theorem bodyLength_adjust (num : UInt32) (base prec : Nat) (type : Flags) :
    bodyLength num base prec (adjust type) = bodyLength num base prec type := by
  unfold adjust
  split <;> rfl

theorem bodyLength_le {base : Nat} (hbase : 2 ≤ base) (num : UInt32) (prec : Nat) (type : Flags) :
    bodyLength num base prec type ≤ 3 + max prec 32 := by
  have hhead := length_head_le num base type
  have hlen := length_digitsOf_le hbase (magnitude num type)
  rw [toNat_magnitude] at hlen
  unfold bodyLength
  omega

/-- **`number` writes the layout**, if `size` stays within `int` in every loop but the last. -/
theorem number_layout {base : Nat} (hbase : 2 ≤ base ∧ base ≤ 36) (num : UInt32) {width prec : Nat} {size precision : Int32}
    (hsize : IntOf width size) (hprec : IntOf prec precision) (type : Flags)
    (hfit : (bodyLength num base prec type + if type.left then 1 else 2 : Nat) ≤ size.toInt + 2 ^ 31) :
    number num base size precision type = some (layout num base width prec type) := by
  rw [number_eq hbase, ← layout_adjust]
  rw [← bodyLength_adjust, show type.left = (adjust type).left by unfold adjust; split <;> rfl] at hfit
  generalize adjust type = type at hfit
  have hlen := length_digitsOf_le hbase.1 (magnitude num type)
  rw [toNat_magnitude] at hlen ⊢
  generalize htmp : digitsOf base (absValue num type) = tmp at hlen
  simp only [bodyLength, htmp] at hfit
  have hrest := toInt_rest base num type tmp hsize hprec hlen (by omega)
  have hzeros := zeros_eq tmp hprec hlen
  simp only [place, layout, htmp, hzeros]
  generalize (afterHead num base size type -
    if precision < Int32.ofNat tmp.length then Int32.ofNat tmp.length else precision) = rest at hrest
  have hhead := length_head_le num base type
  -- what is left to pad is the same number for the three places where it can stand
  have hpad : rest.toInt.toNat = width - ((signOf num type ++ baseOf base type).length +
      (List.replicate (prec - (tmp.reverse.map fun d => (digits type.small).getD d 0).length) '0'.toUInt8 ++
        tmp.reverse.map fun d => (digits type.small).getD d 0).length) := by
    simp only [List.length_append, List.length_replicate, List.length_map, List.length_reverse] at hrest hhead ⊢
    unfold IntOf at hsize
    omega
  rw [← hpad]
  have hge : -2 ^ 31 + (if type.left then 1 else 2 : Nat) ≤ rest.toInt := by omega
  have hgt : -2 ^ 31 < rest.toInt := by
    split at hge <;> omega
  obtain ⟨hspaces, hspent⟩ := post_zero ' '.toUInt8 hgt
  obtain ⟨hfill, hfilled⟩ := post_zero '0'.toUInt8 hgt
  cases hleft : type.left with
  | true => simp [hspaces]
  | false =>
    rw [hleft, if_neg Bool.false_ne_true] at hge
    cases hzero : type.zeropad with
    | true =>
      have hnone := post_zero_nil ' '.toUInt8 (show (post 0 '0'.toUInt8 rest).2.toInt ≤ 0 by omega)
      simp [hfill, hnone, -List.replicate_append_replicate]
    | false =>
      -- the first loop has counted `size` down to where the other two do nothing
      have hnone := post_zero_nil ' '.toUInt8 (show (post 0 ' '.toUInt8 rest).2.toInt ≤ 0 by omega)
      obtain ⟨-, hspent'⟩ := post_zero ' '.toUInt8 (show -2 ^ 31 < (post 0 ' '.toUInt8 rest).2.toInt by omega)
      have hnone' := post_zero_nil ' '.toUInt8 (show (post 0 ' '.toUInt8 (post 0 ' '.toUInt8 rest).2).2.toInt ≤ 0 by omega)
      simp [hspaces, hnone, hnone']

end RedMagic.Printk
