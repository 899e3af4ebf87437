import RedMagic.Printk.Number

/-!
# The text of a number, part by part

`Renders` says what the text of a number is, without the code: the sign, the mark of the base, the digits by the value
that reading them gives, and where the padding stands. `number_renders`: every text that `number` writes is one of these.
-/

namespace RedMagic.Printk

/-! ## Reading digits -/

/-- The value of a digit, in the case that `small` says. -/
def digitValue (small : Bool) (c : UInt8) : Option Nat :=
  let a := if small then 'a'.toUInt8 else 'A'.toUInt8
  if isDigit c then some (c.toNat - '0'.toUInt8.toNat)
  else if a ≤ c ∧ c < a + 26 then some (c.toNat - a.toNat + 10)
  else none

/-- A numeral from its first digit on; `n` is the number read so far. -/
def readDigits (small : Bool) (base : Nat) : Nat → List UInt8 → Option Nat
  | n, [] => some n
  | n, c :: cs => (digitValue small c).bind fun d => if d < base then readDigits small base (n * base + d) cs else none

theorem digitValue_digits (small : Bool) {d : Nat} (h : d < 36) : digitValue small ((digits small).getD d 0) = some d := by
  revert d
  cases small with
  | true => decide +kernel
  | false => decide +kernel

theorem readDigits_map (small : Bool) {base : Nat} (hbase : base ≤ 36) {ds : List Nat} (hds : ∀ d ∈ ds, d < base) (n : Nat) :
    readDigits small base n (ds.map fun d => (digits small).getD d 0) = some (ds.foldl (fun n d => n * base + d) n) := by
  induction ds generalizing n with
  | nil => rfl
  | cons d ds ih =>
    have hd : d < base := hds d List.mem_cons_self
    rw [List.map_cons, readDigits, digitValue_digits small (by omega), Option.bind_some, if_pos hd]
    exact ih (fun e he => hds e (List.mem_cons_of_mem _ he)) _

theorem digitsOf_lt {base : Nat} (hbase : 2 ≤ base) {n d : Nat} (h : d ∈ digitsOf base n) : d < base := by
  unfold digitsOf at h
  split at h
  · obtain rfl := List.mem_singleton.1 h
    omega
  · exact Nat.digits_lt_base (by omega) h

theorem ofDigits_digitsOf (base n : Nat) : Nat.ofDigits base (digitsOf base n) = n := by
  unfold digitsOf
  split
  · rename_i h
    simp [h]
  · exact Nat.ofDigits_digits base n

theorem digitsOf_ne_nil (base n : Nat) : digitsOf base n ≠ [] := by
  unfold digitsOf
  split
  · exact List.cons_ne_nil _ _
  · rename_i h
    exact Nat.digits_ne_nil_iff_ne_zero.2 h

/-- The digits of a number, the first one first, give the number back. -/
theorem readDigits_digitsOf (small : Bool) {base : Nat} (hbase : 2 ≤ base ∧ base ≤ 36) (n : Nat) :
    readDigits small base 0 ((digitsOf base n).reverse.map fun d => (digits small).getD d 0) = some n := by
  have hlt : ∀ d ∈ (digitsOf base n).reverse, d < base := fun d hd => digitsOf_lt hbase.1 (List.mem_reverse.1 hd)
  have hfold : (digitsOf base n).reverse.foldl (fun n d => n * base + d) 0 = n := by
    rw [List.foldl_reverse]
    conv_rhs => rw [← ofDigits_digitsOf base n, Nat.ofDigits_eq_foldr]
    refine congrArg (fun f => List.foldr f 0 (digitsOf base n)) ?_
    funext d m
    simp only [Nat.cast_id]
    ring
  rw [readDigits_map small hbase.2 hlt, hfold]

/-- Only the number 0 begins with a 0. -/
theorem digitsOf_last {base : Nat} {n : Nat} (h : (digitsOf base n).getLast? = some 0) : digitsOf base n = [0] := by
  unfold digitsOf at h ⊢
  split at h
  · rename_i hn
    rw [if_pos hn]
  · rename_i hn
    have hne : base.digits n ≠ [] := Nat.digits_ne_nil_iff_ne_zero.2 hn
    rw [List.getLast?_eq_some_getLast hne] at h
    exact absurd (Option.some.inj h) (Nat.getLast_digit_ne_zero base hn)

/-! ## The parts -/

structure Parts where
  /-- Spaces. -/
  lead : Nat
  sign : List UInt8
  /-- `0` or `0X`. -/
  mark : List UInt8
  zeros : Nat
  digits : List UInt8
  /-- Spaces. -/
  trail : Nat

def Parts.text (x : Parts) : List UInt8 :=
  List.replicate x.lead ' '.toUInt8 ++ x.sign ++ x.mark ++ List.replicate x.zeros '0'.toUInt8 ++ x.digits ++
    List.replicate x.trail ' '.toUInt8

/-- The parts are those of the number, in the base, width and precision and with the flags. -/
structure Renders (num : UInt32) (base : Nat) (size precision : Int) (type : Flags) (x : Parts) : Prop where
  sign : x.sign =
    if type.sign ∧ num.toInt32.toInt < 0 then ['-'.toUInt8]
    else if type.plus then ['+'.toUInt8]
    else if type.space then [' '.toUInt8]
    else []
  mark : x.mark =
    if type.special ∧ base = 8 then ['0'.toUInt8]
    else if type.special ∧ base = 16 then ['0'.toUInt8, if type.small then 'x'.toUInt8 else 'X'.toUInt8]
    else []
  value : ∃ n : Nat, readDigits type.small base 0 x.digits = some n ∧
    if type.sign then num.toInt32.toInt = if x.sign = ['-'.toUInt8] then -(n : Int) else n else num.toNat = n
  nonempty : x.digits ≠ []
  noLeadingZero : x.digits.head? = some '0'.toUInt8 → x.digits = ['0'.toUInt8]
  atLeast : max 1 precision ≤ x.zeros + x.digits.length
  length : (x.text.length : Int) = max size (x.sign.length + x.mark.length + max precision x.digits.length)
  left : type.left → x.lead = 0 ∧ x.zeros = precision.toNat - x.digits.length
  zeropad : ¬ type.left → type.zeropad → x.lead = 0 ∧ x.trail = 0
  leading : ¬ type.left → ¬ type.zeropad → x.zeros = precision.toNat - x.digits.length ∧ x.trail = 0

/-- The parts of a layout. -/
def layoutParts (num : UInt32) (base width precision : Nat) (type : Flags) : Parts :=
  let ds := (digitsOf base (absValue num type)).reverse.map fun d => (digits type.small).getD d 0
  let pad := width - bodyLength num base precision type
  { lead := if type.left || type.zeropad then 0 else pad
    sign := signOf num type
    mark := baseOf base type
    zeros := (if !type.left && type.zeropad then pad else 0) + (precision - ds.length)
    digits := ds
    trail := if type.left then pad else 0 }

theorem layoutParts_text (num : UInt32) (base width precision : Nat) (type : Flags) :
    (layoutParts num base width precision type).text = layout num base width precision type := by
  have hbody : ∀ tmp : List Nat, (precision - tmp.length) + tmp.length = max precision tmp.length := by
    intro tmp
    omega
  simp only [layout, layoutParts, Parts.text, bodyLength, List.length_append, List.length_replicate, List.length_map,
    List.length_reverse, hbody]
  cases type.left with
  | true => simp
  | false =>
    cases type.zeropad with
    | true => simp [-List.replicate_append_replicate, List.replicate_add]
    | false => simp

theorem signOf_eq (num : UInt32) (type : Flags) :
    signOf num type =
      if type.sign ∧ num.toInt32.toInt < 0 then ['-'.toUInt8]
      else if type.plus then ['+'.toUInt8]
      else if type.space then [' '.toUInt8]
      else [] := by
  have hneg : num.toInt32 < 0 ↔ num.toInt32.toInt < 0 := Int32.lt_iff_toInt_lt
  simp only [signOf, Bool.and_eq_true, decide_eq_true_eq, hneg]

theorem baseOf_eq (base : Nat) (type : Flags) :
    baseOf base type =
      if type.special ∧ base = 8 then ['0'.toUInt8]
      else if type.special ∧ base = 16 then ['0'.toUInt8, if type.small then 'x'.toUInt8 else 'X'.toUInt8]
      else [] := by
  have hletter : (digits type.small).getD 33 0 = if type.small then 'x'.toUInt8 else 'X'.toUInt8 := by
    cases type.small <;> rfl
  unfold baseOf
  cases type.special with
  | true => simp only [if_true, true_and, hletter]
  | false => simp

/-- The number that the digits have, with its sign. -/
theorem value_eq (num : UInt32) (type : Flags) :
    if type.sign then
      num.toInt32.toInt = if signOf num type = ['-'.toUInt8] then -(absValue num type : Int) else absValue num type
    else num.toNat = absValue num type := by
  unfold absValue
  rw [signOf_eq]
  cases type.sign with
  | false => simp
  | true =>
    simp only [if_true, true_and]
    by_cases hneg : num.toInt32.toInt < 0
    · rw [if_pos hneg, if_pos rfl]
      omega
    · have hsign : (if type.plus then ['+'.toUInt8] else if type.space then [' '.toUInt8] else []) ≠ ['-'.toUInt8] := by
        split
        · decide
        · split <;> decide
      rw [if_neg hneg, if_neg hsign]
      omega

theorem head?_digits_eq_zero (small : Bool) {base : Nat} (hbase : 2 ≤ base ∧ base ≤ 36) {n : Nat}
    (h : ((digitsOf base n).reverse.map fun d => (digits small).getD d 0).head? = some '0'.toUInt8) :
    digitsOf base n = [0] := by
  rw [List.head?_map, List.head?_reverse] at h
  obtain ⟨d, hlast, hd⟩ := Option.map_eq_some_iff.1 h
  have hlt : d < base := digitsOf_lt hbase.1 (List.mem_of_getLast? hlast)
  have hvalue := digitValue_digits small (show d < 36 by omega)
  have hzero : digitValue small '0'.toUInt8 = some 0 := by cases small <;> rfl
  rw [hd, hzero, Option.some_inj] at hvalue
  exact digitsOf_last (hvalue ▸ hlast)

theorem layoutParts_length (num : UInt32) (base width precision : Nat) (type : Flags) :
    (layoutParts num base width precision type).text.length = max width (bodyLength num base precision type) := by
  simp only [layoutParts, Parts.text, bodyLength, List.length_append, List.length_replicate, List.length_map,
    List.length_reverse]
  cases type.left with
  | true =>
    simp only [if_true, Bool.true_or, Bool.not_true, Bool.false_and, Bool.false_eq_true, if_false]
    omega
  | false =>
    cases type.zeropad with
    | true =>
      simp only [if_true, Bool.or_true, Bool.not_false, Bool.and_true, Bool.false_eq_true, if_false]
      omega
    | false =>
      simp only [Bool.or_false, Bool.and_false, Bool.false_eq_true, if_false]
      omega

theorem layoutParts_renders {base : Nat} (hbase : 2 ≤ base ∧ base ≤ 36) (num : UInt32) {size precision : Int}
    (hsize : -1 ≤ size) (hprec : -1 ≤ precision) (type : Flags) :
    Renders num base size precision type (layoutParts num base size.toNat precision.toNat type) where
  sign := signOf_eq num type
  mark := baseOf_eq base type
  value := ⟨absValue num type, readDigits_digitsOf type.small hbase _, value_eq num type⟩
  nonempty := by simp [layoutParts, digitsOf_ne_nil]
  noLeadingZero := by
    intro h
    have hzero := head?_digits_eq_zero type.small hbase h
    simp only [layoutParts, hzero]
    cases type.small <;> rfl
  atLeast := by
    have hlen := List.length_pos_of_ne_nil (digitsOf_ne_nil base (absValue num type))
    simp only [layoutParts, List.length_map, List.length_reverse]
    omega
  length := by
    have hlen := List.length_pos_of_ne_nil (digitsOf_ne_nil base (absValue num type))
    rw [layoutParts_length]
    simp only [layoutParts, bodyLength, List.length_append, List.length_map, List.length_reverse]
    omega
  left := by
    intro hleft
    simp [layoutParts, hleft]
  zeropad := by
    intro hleft hzero
    simp [layoutParts, hleft, hzero]
  leading := by
    intro hleft hzero
    simp [layoutParts, hleft, hzero]

/-- No counter leaves `int`: `size` is lowest behind the last of its one, two or three loops. -/
def NoOverflow (num : UInt32) (base : Nat) (size precision : Int) (type : Flags) : Prop :=
  -2 ^ 31 ≤ size - bodyLength num base precision.toNat type - if type.left then 1 else if type.zeropad then 2 else 3

theorem intOf_toNat {i : Int32} (h : -1 ≤ i.toInt) : IntOf i.toInt.toNat i := by
  unfold IntOf
  omega

/-- **Every number is rendered right**: whatever the number, the base, the width, the precision and the flags. -/
theorem number_renders {base : Nat} (hbase : 2 ≤ base ∧ base ≤ 36) (num : UInt32) {size precision : Int32}
    (hsize : -1 ≤ size.toInt) (hprec : -1 ≤ precision.toInt) (type : Flags)
    (hfit : NoOverflow num base size.toInt precision.toInt type) :
    ∃ x : Parts, number num base size precision type = some x.text ∧
      Renders num base size.toInt precision.toInt type x := by
  have hroom : (bodyLength num base precision.toInt.toNat type + if type.left then 1 else 2 : Nat) ≤
      size.toInt + 2 ^ 31 := by
    unfold NoOverflow at hfit
    cases hleft : type.left with
    | true =>
      rw [hleft, if_pos rfl] at hfit
      rw [if_pos rfl]
      omega
    | false =>
      rw [hleft, if_neg Bool.false_ne_true] at hfit
      rw [if_neg Bool.false_ne_true]
      split at hfit <;> omega
  refine ⟨layoutParts num base size.toInt.toNat precision.toInt.toNat type, ?_, layoutParts_renders hbase num hsize hprec type⟩
  rw [layoutParts_text, number_layout hbase num (intOf_toNat hsize) (intOf_toNat hprec) type hroom]

/-- `%+016.12d` of the smallest `int`. -/
theorem number_renders_int_min : ∃ x : Parts,
    number 0x80000000 10 16 12 ⟨true, true, true, false, false, false, false⟩ = some x.text ∧
      Renders 0x80000000 10 16 12 ⟨true, true, true, false, false, false, false⟩ x := by
  refine @number_renders 10 (by decide) 0x80000000 16 12 (by decide) (by decide) _ ?_
  have hbody := @bodyLength_le 10 (by decide) 0x80000000 12 ⟨true, true, true, false, false, false, false⟩
  have hsize : (16 : Int32).toInt = 16 := rfl
  have hprec : (12 : Int32).toInt.toNat = 12 := rfl
  rw [NoOverflow, hsize, hprec]
  simp only [if_true, Bool.false_eq_true, if_false]
  omega

end RedMagic.Printk
