import Mathlib.Data.List.TakeWhile
import RedMagic.Printk.Number

/-!
# `vsprintf` and its grammar

A format is a list of items: literal characters, `%%`, and directives `%[flags][width][.precision][qualifier]conversion`
(`Item`, `Item.text`). An item has a rendering of its own, which depends on its argument and on nothing else (`Item.render`).
`vsprintf_renders`: what `vsprintf` writes for the text of any list of items is the renderings, one after the other.
-/

namespace RedMagic.Printk

open Countdown

/-! ## Items -/

inductive FlagChar where
  | minus | plus | space | hash | zero
deriving DecidableEq, Repr

def FlagChar.char : FlagChar → UInt8
  | .minus => '-'.toUInt8
  | .plus => '+'.toUInt8
  | .space => ' '.toUInt8
  | .hash => '#'.toUInt8
  | .zero => '0'.toUInt8

def FlagChar.set (f : Flags) : FlagChar → Flags
  | .minus => { f with left := true }
  | .plus => { f with plus := true }
  | .space => { f with space := true }
  | .hash => { f with special := true }
  | .zero => { f with zeropad := true }

def digitByte (d : Fin 10) : UInt8 := UInt8.ofNat (48 + d.val)

/-- The number that decimal digits denote. -/
def value (ds : List (Fin 10)) : Nat := ds.foldl (fun v d => v * 10 + d.val) 0

/-- A positive width, without a leading zero, that an `int` can hold. -/
structure Width where
  first : Fin 10
  rest : List (Fin 10)
  pos : 0 < first.val
  lt : value (first :: rest) < 2 ^ 31

def Width.digits (w : Width) : List (Fin 10) := w.first :: w.rest

structure Precision where
  digits : List (Fin 10)
  lt : value digits < 2 ^ 31

inductive Qualifier where
  | h | l | L
deriving DecidableEq, Repr

def Qualifier.char : Qualifier → UInt8
  | .h => 'h'.toUInt8
  | .l => 'l'.toUInt8
  | .L => 'L'.toUInt8

/-- The conversions to a number. -/
inductive NumConv where
  | d | i | u | o | x | X | p | b
deriving DecidableEq, Repr

inductive Conv where
  | c
  | s
  | num (k : NumConv)
deriving DecidableEq, Repr

def Conv.char : Conv → UInt8
  | .c => 'c'.toUInt8
  | .s => 's'.toUInt8
  | .num .d => 'd'.toUInt8
  | .num .i => 'i'.toUInt8
  | .num .u => 'u'.toUInt8
  | .num .o => 'o'.toUInt8
  | .num .x => 'x'.toUInt8
  | .num .X => 'X'.toUInt8
  | .num .p => 'p'.toUInt8
  | .num .b => 'b'.toUInt8

structure Directive where
  flags : List FlagChar
  width : Option Width
  precision : Option Precision
  qualifier : Option Qualifier
  conv : Conv

structure Literal where
  char : UInt8
  notNul : char ≠ 0
  notPercent : char ≠ '%'.toUInt8

inductive Item where
  | lit (l : Literal)
  | percent
  | directive (d : Directive)

def widthText : Option Width → List UInt8
  | none => []
  | some w => w.digits.map digitByte

def precisionText : Option Precision → List UInt8
  | none => []
  | some p => '.'.toUInt8 :: p.digits.map digitByte

def qualifierText : Option Qualifier → List UInt8
  | none => []
  | some q => [q.char]

/-- A directive without its `%`. -/
def Directive.body (d : Directive) : List UInt8 :=
  d.flags.map FlagChar.char ++ (widthText d.width ++ (precisionText d.precision ++ (qualifierText d.qualifier ++ [d.conv.char])))

def Item.text : Item → List UInt8
  | .lit l => [l.char]
  | .percent => ['%'.toUInt8, '%'.toUInt8]
  | .directive d => '%'.toUInt8 :: d.body

/-! ## Renderings -/

/-- `body`, padded with spaces to the width; `-` puts the spaces behind it. -/
def pad (left : Bool) (width : Nat) (body : List UInt8) : List UInt8 :=
  if left then body ++ List.replicate (width - body.length) ' '.toUInt8
  else List.replicate (width - body.length) ' '.toUInt8 ++ body

namespace NumConv

def base : NumConv → Nat
  | .d | .i | .u => 10
  | .o => 8
  | .x | .X | .p => 16
  | .b => 2

/-- What a conversion adds to the parameters of its directive. -/
def adjust (k : NumConv) (r : Spec) : Spec :=
  match k with
  | .d | .i => { r with flags := { r.flags with sign := true } }
  | .x => { r with flags := { r.flags with small := true } }
  | .p => if r.fieldWidth = -1 then { r with fieldWidth := 8, flags := { r.flags with zeropad := true } } else r
  | .u | .o | .X | .b => r

end NumConv

namespace Directive

variable (d : Directive)

def left : Bool := decide (.minus ∈ d.flags)

def widthValue : Nat := d.width.elim 0 fun w => value w.digits

def precisionValue : Nat := d.precision.elim 0 fun p => value p.digits

/-- The parameters of the directive as `vsprintf` holds them. -/
def spec (pos : Nat) : Spec where
  flags := d.flags.foldl FlagChar.set noFlags
  fieldWidth := d.width.elim (-1) fun w => Int32.ofNat (value w.digits)
  precision := d.precision.elim (-1) fun p => Int32.ofNat (value p.digits)
  pos := pos

/-- The text of a conversion to a number. -/
def numberText (k : NumConv) (num : UInt32) : List UInt8 :=
  let r := k.adjust (d.spec 0)
  (number num k.base r.fieldWidth r.precision r.flags).getD []

/-- The rendering of a directive whose argument is argument number `pos`. -/
def render (env : Env) (pos : Nat) : List UInt8 :=
  match d.conv with
  | .c => pad d.left d.widthValue [(env.arg pos).toUInt8]
  | .s =>
    let s := (env.str (env.arg pos)).chars
    pad d.left d.widthValue (s.take (d.precision.elim s.length fun p => min (value p.digits) s.length))
  | .num k => d.numberText k (env.arg pos)

end Directive

namespace Item

def render (env : Env) (pos : Nat) : Item → List UInt8
  | .lit l => [l.char]
  | .percent => ['%'.toUInt8]
  | .directive d => d.render env pos

/-- The number of arguments an item takes. -/
def args : Item → Nat
  | .directive _ => 1
  | _ => 0

end Item

/-- The renderings of a list of items, each with its own argument. -/
def renderAll (env : Env) : Nat → List Item → List UInt8
  | _, [] => []
  | pos, it :: items => it.render env pos ++ renderAll env (pos + it.args) items

/-! ## Scanning a directive -/

/-- The first character of a text, if it has one, meets `P`. -/
def Starts (P : UInt8 → Prop) (l : List UInt8) : Prop := ∀ c ∈ l.head?, P c

theorem digitByte_facts : ∀ d : Fin 10, isDigit (digitByte d) = true ∧
    (digitByte d).toInt8.toInt32 = Int32.ofNat (48 + d.val) := by
  decide

theorem skipAtoi_stop {l : List UInt8} (h : Starts (isDigit · = false) l) (i : Int32) : skipAtoi l i = (i, l) := by
  cases l with
  | nil => rfl
  | cons c cs =>
    have hc : isDigit c = false := h c rfl
    simp [skipAtoi, hc]

/-- `skip_atoi` reads the digits, in `int` arithmetic. -/
theorem skipAtoi_digits (ds : List (Fin 10)) {l : List UInt8} (h : Starts (isDigit · = false) l) (v : Nat) :
    skipAtoi (ds.map digitByte ++ l) (Int32.ofNat v) =
      (Int32.ofNat (ds.foldl (fun v d => v * 10 + d.val) v), l) := by
  induction ds generalizing v with
  | nil => exact skipAtoi_stop h _
  | cons d ds ih =>
    obtain ⟨hdigit, hint⟩ := digitByte_facts d
    have hstep : Int32.ofNat v * 10 + Int32.ofNat (48 + d.val) - 48 = Int32.ofNat (v * 10 + d.val) := by
      rw [Int32.ofNat_add, Int32.ofNat_add, Int32.ofNat_mul, Int32.add_comm (Int32.ofNat 48), ← Int32.add_assoc]
      exact Int32.add_sub_cancel _ _
    rw [List.map_cons, List.cons_append, skipAtoi, if_pos hdigit, hint, hstep, ih]
    rfl

/-- Not one of the flags. -/
def NotFlag (c : UInt8) : Prop := ∀ k : FlagChar, c ≠ k.char

theorem scanFlags_stop {l : List UInt8} (h : Starts NotFlag l) (f : Flags) : scanFlags l f = (f, l) := by
  cases l with
  | nil => rfl
  | cons c cs =>
    have hc : NotFlag c := h c rfl
    have hminus : c ≠ '-'.toUInt8 := hc .minus
    have hplus : c ≠ '+'.toUInt8 := hc .plus
    have hspace : c ≠ ' '.toUInt8 := hc .space
    have hhash : c ≠ '#'.toUInt8 := hc .hash
    have hzero : c ≠ '0'.toUInt8 := hc .zero
    rw [scanFlags, if_neg hminus, if_neg hplus, if_neg hspace, if_neg hhash, if_neg hzero]

theorem scanFlags_flags (fs : List FlagChar) {l : List UInt8} (h : Starts NotFlag l) (f : Flags) :
    scanFlags (fs.map FlagChar.char ++ l) f = (fs.foldl FlagChar.set f, l) := by
  induction fs generalizing f with
  | nil => exact scanFlags_stop h f
  | cons k fs ih =>
    rw [List.foldl_cons, ← ih]
    cases k <;> rfl

/-- What can follow the digits of a number: not a digit, and not a `*`. -/
def Ends (c : UInt8) : Prop := isDigit c = false ∧ c ≠ '*'.toUInt8

theorem scanWidth_text (env : Env) (r : Spec) (hr : r.fieldWidth = -1) (w : Option Width) {l : List UInt8} (h : Starts Ends l) :
    scanWidth env r (widthText w ++ l) =
      ({ r with fieldWidth := w.elim (-1) fun w => Int32.ofNat (value w.digits) }, l) := by
  cases w with
  | none =>
    cases l with
    | nil => simp [widthText, scanWidth, ← hr]
    | cons c cs =>
      obtain ⟨hdigit, hstar⟩ := h c rfl
      simp [widthText, scanWidth, hdigit, hstar, ← hr]
  | some w =>
    have hread := skipAtoi_digits w.digits (fun c hc => (h c hc).1) 0
    have hdigit := (digitByte_facts w.first).1
    simp only [widthText, Width.digits, List.map_cons, List.cons_append, scanWidth, if_pos hdigit] at hread ⊢
    rw [show (0 : Int32) = Int32.ofNat 0 from rfl, hread]
    rfl

theorem scanPrecision_text (env : Env) (r : Spec) (hr : r.precision = -1) (p : Option Precision) {l : List UInt8}
    (h : Starts (fun c => Ends c ∧ c ≠ '.'.toUInt8) l) :
    scanPrecision env r (precisionText p ++ l) =
      ({ r with precision := p.elim (-1) fun p => Int32.ofNat (value p.digits) }, l) := by
  cases p with
  | none =>
    cases l with
    | nil => simp [precisionText, scanPrecision, ← hr]
    | cons c cs =>
      obtain ⟨-, hdot⟩ := h c rfl
      simp [precisionText, scanPrecision, hdot, ← hr]
  | some p =>
    obtain ⟨ds, hlt⟩ := p
    cases ds with
    | nil =>
      -- a `.` alone is read as precision 0
      have hscan : scanDigits env r l = (r, l) := by
        cases l with
        | nil => rfl
        | cons c cs =>
          obtain ⟨⟨hdigit, hstar⟩, -⟩ := h c rfl
          simp [scanDigits, hdigit, hstar]
      simp [precisionText, scanPrecision, hscan, hr, value]
    | cons d ds =>
      have hread := skipAtoi_digits (d :: ds) (fun c hc => (h c hc).1.1) 0
      have hdigit := (digitByte_facts d).1
      have hscan : scanDigits env r ((d :: ds).map digitByte ++ l) =
          ({ r with precision := Int32.ofNat (value (d :: ds)) }, l) := by
        simp only [List.map_cons, List.cons_append, scanDigits, if_pos hdigit] at hread ⊢
        rw [show (0 : Int32) = Int32.ofNat 0 from rfl, hread]
        rfl
      have hnonneg : ¬ Int32.ofNat (value (d :: ds)) < 0 := by
        rw [Int32.lt_iff_toInt_lt, Int32.toInt_ofNat_of_lt hlt, toInt_zero]
        omega
      simp only [precisionText, scanPrecision, List.cons_append, if_true, hscan, if_neg hnonneg]
      rfl

/-! ### What a text can start with -/

theorem ne_of_letter {c k : UInt8} (h : 64 < c) (hk : k ≤ 64) : c ≠ k := by
  rintro rfl
  exact UInt8.not_lt.2 hk h

theorem ends_of_letter {c : UInt8} (h : 64 < c) : Ends c := by
  have hnine : ¬ c ≤ '9'.toUInt8 := UInt8.not_le.2 (UInt8.lt_trans (by decide) h)
  exact ⟨by simp [isDigit, hnine], ne_of_letter h (by decide)⟩

theorem notFlag_of_letter {c : UInt8} (h : 64 < c) : NotFlag c := by
  intro k
  refine ne_of_letter h ?_
  cases k <;> decide

theorem Conv.char_letter (k : Conv) : 64 < k.char := by
  cases k with
  | c => decide
  | s => decide
  | num k => cases k <;> decide

theorem Qualifier.char_letter (q : Qualifier) : 64 < q.char := by
  cases q <;> decide

theorem starts_qualifier (q : Option Qualifier) {k : UInt8} (hk : 64 < k) (l : List UInt8) :
    Starts (64 < ·) (qualifierText q ++ k :: l) := by
  rintro c hc
  cases q with
  | none =>
    cases hc
    exact hk
  | some q =>
    cases hc
    exact q.char_letter

theorem starts_precision (p : Option Precision) {l : List UInt8} (h : Starts (64 < ·) l) :
    Starts (fun c => c = '.'.toUInt8 ∨ 64 < c) (precisionText p ++ l) := by
  intro c hc
  cases p with
  | none => exact .inr (h c hc)
  | some p =>
    cases hc
    exact .inl rfl

theorem ends_of_precision {c : UInt8} (h : c = '.'.toUInt8 ∨ 64 < c) : Ends c := by
  rcases h with rfl | h
  · exact ⟨by decide, by decide⟩
  · exact ends_of_letter h

theorem notFlag_dot : NotFlag '.'.toUInt8 := by
  intro k
  cases k <;> decide

/-- A width does not start with the flag `0`, and the other flags are smaller. -/
theorem notFlag_digit (d : Fin 10) (hd : 0 < d.val) : NotFlag (digitByte d) := by
  have hgt : '0'.toUInt8 < digitByte d := by
    rw [UInt8.lt_iff_toNat_lt, digitByte, UInt8.toNat_ofNat', show '0'.toUInt8.toNat = 48 from rfl]
    omega
  intro k hk
  have hle : k.char ≤ '0'.toUInt8 := by cases k <;> decide
  exact UInt8.not_lt.2 hle (hk ▸ hgt)

theorem starts_width (w : Option Width) {l : List UInt8} (h : Starts (fun c => c = '.'.toUInt8 ∨ 64 < c) l) :
    Starts NotFlag (widthText w ++ l) := by
  intro c hc
  cases w with
  | none =>
    rcases h c hc with rfl | hletter
    · exact notFlag_dot
    · exact notFlag_of_letter hletter
  | some w =>
    cases hc
    exact notFlag_digit w.first w.pos

/-- A letter that is not a qualifier. -/
structure ConvLetter (c : UInt8) : Prop where
  letter : 64 < c
  notQualifier : ¬ (c = 'h'.toUInt8 ∨ c = 'l'.toUInt8 ∨ c = 'L'.toUInt8)

theorem Conv.convLetter (k : Conv) : ConvLetter k.char := by
  refine ⟨k.char_letter, ?_⟩
  cases k with
  | c => decide
  | s => decide
  | num k => cases k <;> decide

theorem skipQualifier_text (q : Option Qualifier) {k : UInt8} (hk : ConvLetter k) (l : List UInt8) :
    skipQualifier (qualifierText q ++ k :: l) = k :: l := by
  cases q with
  | some q => cases q <;> rfl
  | none =>
    show skipQualifier (k :: l) = k :: l
    rw [skipQualifier, if_neg hk.notQualifier]

/-- The scanner finds the parts of a directive. -/
theorem directive_text (env : Env) (s : Vst) (fs : List FlagChar) (w : Option Width) (p : Option Precision) (q : Option Qualifier)
    {k : UInt8} (hk : ConvLetter k) (l : List UInt8) :
    directive env s (fs.map FlagChar.char ++ (widthText w ++ (precisionText p ++ (qualifierText q ++ k :: l)))) =
      convert env s ⟨fs.foldl FlagChar.set noFlags, w.elim (-1) fun w => Int32.ofNat (value w.digits),
        p.elim (-1) fun p => Int32.ofNat (value p.digits), s.pos⟩ (k :: l) := by
  have hq := starts_qualifier q hk.letter l
  have hp := starts_precision p hq
  have hw := starts_width w hp
  simp only [directive]
  rw [scanFlags_flags fs hw, scanWidth_text env _ rfl w fun c hc => ends_of_precision (hp c hc),
    scanPrecision_text env _ rfl p fun c hc => ⟨ends_of_letter (hq c hc), ne_of_letter (hq c hc) (by decide)⟩,
    skipQualifier_text q hk]

theorem directive_body (env : Env) (s : Vst) (d : Directive) (l : List UInt8) :
    directive env s (d.body ++ l) = convert env s (d.spec s.pos) (d.conv.char :: l) := by
  have htext : d.body ++ l = d.flags.map FlagChar.char ++ (widthText d.width ++ (precisionText d.precision ++
      (qualifierText d.qualifier ++ d.conv.char :: l))) := by
    simp [Directive.body]
  rw [htext, directive_text env s d.flags d.width d.precision d.qualifier d.conv.convLetter l]
  rfl

/-! ## Conversions -/

/-- The two loops of `%c`: the second writes nothing after the first. -/
theorem pre_pre {n : Int32} {w : Nat} (h : IntOf w n) (a : UInt8) :
    (pre a n).1 = List.replicate (w - 1) a ∧ (pre a (pre a n).2).1 = [] := by
  unfold IntOf at h
  by_cases hn : 1 < n.toInt
  · rw [pre_of_lt a hn]
    dsimp only
    rw [pre_of_le a (show ((0 : Int32) - 1).toInt ≤ 0 by decide), show n.toInt.toNat - 1 = w - 1 by omega]
    exact ⟨rfl, rfl⟩
  · have hpred : (n - 1).toInt = n.toInt - 1 := toInt_pred (by omega)
    have hpred' : (n - 1 - 1).toInt = (n - 1).toInt - 1 := toInt_pred (by omega)
    rw [pre_of_le a (by omega)]
    dsimp only
    rw [pre_of_le a (by omega), show w - 1 = 0 by omega]
    exact ⟨rfl, rfl⟩

/-- The two loops of `%s`. -/
theorem post_post {len n : Int32} {m w : Nat} (hlen : len.toInt = m) (h : IntOf w n) (a : UInt8) :
    (post len a n).1 = List.replicate (w - m) a ∧ (post len a (post len a n).2).1 = [] := by
  unfold IntOf at h
  by_cases hn : (m : Int) < n.toInt
  · have hpred : (len - 1).toInt = len.toInt - 1 := toInt_pred (by omega)
    rw [post_of_lt a (by omega)]
    dsimp only
    rw [post_of_le a (by omega), show (n.toInt - len.toInt).toNat = w - m by omega]
    exact ⟨rfl, rfl⟩
  · have hpred : (n - 1).toInt = n.toInt - 1 := toInt_pred (by omega)
    rw [post_of_le a (by omega)]
    dsimp only
    rw [post_of_le a (by omega), show w - m = 0 by omega]
    exact ⟨rfl, rfl⟩

theorem convChar_eq (env : Env) {r : Spec} {w : Nat} (h : IntOf w r.fieldWidth) :
    convChar env r = pad r.flags.left w [(env.arg r.pos).toUInt8] := by
  obtain ⟨hone, hnone⟩ := pre_pre h ' '.toUInt8
  unfold convChar pad
  cases r.flags.left with
  | true => simp [hone]
  | false => simp [hone, hnone]

/-- `len` of `%s`: the length of the string, or the precision if that is less. -/
theorem toInt_len (s : CStr) (p : Option Precision) :
    (let precision : Int32 := p.elim (-1) fun p => Int32.ofNat (value p.digits)
      let len := Int32.ofNat s.chars.length
      if precision < 0 then len else if precision < len then precision else len).toInt =
        (p.elim s.chars.length fun p => min (value p.digits) s.chars.length : Nat) := by
  have hlen : (Int32.ofNat s.chars.length).toInt = s.chars.length := Int32.toInt_ofNat_of_lt s.lt
  cases p with
  | none =>
    dsimp only [Option.elim_none]
    rw [if_pos (by decide), hlen]
  | some p =>
    have hp : (Int32.ofNat (value p.digits)).toInt = value p.digits := Int32.toInt_ofNat_of_lt p.lt
    have hnonneg : ¬ Int32.ofNat (value p.digits) < 0 := by
      rw [Int32.lt_iff_toInt_lt, hp, toInt_zero]
      omega
    dsimp only [Option.elim_some]
    rw [if_neg hnonneg]
    split
    · rename_i h
      rw [Int32.lt_iff_toInt_lt, hp, hlen] at h
      rw [hp]
      omega
    · rename_i h
      rw [Int32.lt_iff_toInt_lt, hp, hlen] at h
      rw [hlen]
      omega

theorem convStr_eq (env : Env) {r : Spec} {w : Nat} (h : IntOf w r.fieldWidth) (p : Option Precision)
    (hp : r.precision = p.elim (-1) fun p => Int32.ofNat (value p.digits)) :
    convStr env r =
      let s := (env.str (env.arg r.pos)).chars
      pad r.flags.left w (s.take (p.elim s.length fun p => min (value p.digits) s.length)) := by
  have hlen := toInt_len (env.str (env.arg r.pos)) p
  dsimp only at hlen ⊢
  rw [← hp] at hlen
  obtain ⟨hpad, hnone⟩ := post_post hlen h ' '.toUInt8
  have hbody : (p.elim (env.str (env.arg r.pos)).chars.length fun p =>
      min (value p.digits) (env.str (env.arg r.pos)).chars.length) ≤ (env.str (env.arg r.pos)).chars.length := by
    cases p with
    | none => exact Nat.le_refl _
    | some p => exact Nat.min_le_right _ _
  unfold convStr pad
  rw [List.length_take_of_le hbody]
  dsimp only
  rw [hlen, Int.toNat_natCast]
  cases r.flags.left with
  | true => simp [hpad]
  | false => simp [hpad, hnone]

/-! ### Numbers -/

theorem intOf_width (w : Option Width) :
    IntOf (w.elim 0 fun w => value w.digits) (w.elim (-1) fun w => Int32.ofNat (value w.digits)) := by
  cases w with
  | none => exact .inr ⟨rfl, rfl⟩
  | some w => exact .inl (Int32.toInt_ofNat_of_lt w.lt)

theorem intOf_precision (p : Option Precision) :
    IntOf (p.elim 0 fun p => value p.digits) (p.elim (-1) fun p => Int32.ofNat (value p.digits)) := by
  cases p with
  | none => exact .inr ⟨rfl, rfl⟩
  | some p => exact .inl (Int32.toInt_ofNat_of_lt p.lt)

theorem NumConv.base_ok (k : NumConv) : 2 ≤ k.base ∧ k.base ≤ 36 := by
  cases k <;> decide

/-- Which argument comes next does not matter to what a conversion adds. -/
theorem NumConv.adjust_pos (k : NumConv) (r : Spec) (pos : Nat) : k.adjust { r with pos := pos } = { k.adjust r with pos := pos } := by
  cases k with
  | p =>
    unfold NumConv.adjust
    dsimp only
    split <;> rfl
  | _ => rfl

theorem convert_num (env : Env) (s : Vst) (r : Spec) (k : NumConv) (l : List UInt8) :
    convert env s r ((Conv.num k).char :: l) = convNumber env s k.base (k.adjust r) l := by
  cases k with
  | p =>
    show (if r.fieldWidth = -1 then _ else _) = _
    unfold NumConv.adjust
    dsimp only
    split <;> rfl
  | _ => rfl

/-- The width of a number: a pointer without a width has 8 digits. -/
def Directive.numberWidth (d : Directive) (k : NumConv) : Nat :=
  if k = .p ∧ d.width.isNone then 8 else d.widthValue

/-- The flags of a number: with those that its conversion adds. -/
def Directive.numberFlags (d : Directive) (k : NumConv) : Flags := (k.adjust (d.spec 0)).flags

theorem Directive.intOf_numberWidth (d : Directive) (k : NumConv) :
    IntOf (d.numberWidth k) (k.adjust (d.spec 0)).fieldWidth := by
  have hwidth : IntOf d.widthValue (d.spec 0).fieldWidth := intOf_width d.width
  unfold Directive.numberWidth
  cases k with
  | p =>
    unfold NumConv.adjust
    cases hw : d.width with
    | none =>
      have hnone : (d.spec 0).fieldWidth = -1 := by simp [Directive.spec, hw]
      rw [if_pos ⟨rfl, rfl⟩]
      dsimp only
      rw [if_pos hnone]
      exact .inl rfl
    | some w =>
      -- a width is not -1
      have hsome : (d.spec 0).fieldWidth ≠ -1 := by
        intro heq
        have hspec : (d.spec 0).fieldWidth = Int32.ofNat (value w.digits) := by simp [Directive.spec, hw]
        have hint : (d.spec 0).fieldWidth.toInt = value w.digits := hspec ▸ Int32.toInt_ofNat_of_lt w.lt
        rw [heq, show (-1 : Int32).toInt = -1 from rfl] at hint
        omega
      rw [if_neg (by simp)]
      dsimp only
      rw [if_neg hsome]
      exact hwidth
  | _ =>
    rw [if_neg (by simp)]
    exact hwidth

theorem NumConv.adjust_precision (k : NumConv) (r : Spec) : (k.adjust r).precision = r.precision := by
  cases k with
  | p =>
    unfold NumConv.adjust
    dsimp only
    split <;> rfl
  | _ => rfl

/-- **The layout of a number**, if its precision leaves room for the sign and the prefix within `int`. -/
theorem Directive.numberText_layout (d : Directive) (k : NumConv) (num : UInt32) (hfit : d.precisionValue + 6 ≤ 2 ^ 31) :
    d.numberText k num = layout num k.base (d.numberWidth k) d.precisionValue (d.numberFlags k) := by
  have hprec : IntOf d.precisionValue (k.adjust (d.spec 0)).precision := by
    rw [k.adjust_precision]
    exact intOf_precision d.precision
  have hwidth := d.intOf_numberWidth k
  have hbody := bodyLength_le k.base_ok.1 num d.precisionValue (d.numberFlags k)
  have hroom : (bodyLength num k.base d.precisionValue (d.numberFlags k) + if (d.numberFlags k).left then 1 else 2 : Nat) ≤
      (k.adjust (d.spec 0)).fieldWidth.toInt + 2 ^ 31 := by
    unfold IntOf at hwidth
    split <;> omega
  have hlayout := number_layout k.base_ok num hwidth hprec (d.numberFlags k) hroom
  exact congrArg (Option.getD · []) hlayout

/-! ## Items -/

theorem foldl_set_left (fs : List FlagChar) (f : Flags) :
    (fs.foldl FlagChar.set f).left = (f.left || decide (.minus ∈ fs)) := by
  induction fs generalizing f with
  | nil => simp
  | cons k fs ih =>
    rw [List.foldl_cons, ih]
    cases k <;> simp [FlagChar.set]

theorem convert_conv (env : Env) (s : Vst) (d : Directive) (l : List UInt8) :
    convert env s (d.spec s.pos) (d.conv.char :: l) = some (s.putArg (d.render env s.pos), l) := by
  have hleft : (d.spec s.pos).flags.left = d.left := by simp [Directive.spec, foldl_set_left, noFlags, Directive.left]
  have hwidth : IntOf d.widthValue (d.spec s.pos).fieldWidth := intOf_width d.width
  unfold Directive.render
  cases d.conv with
  | c =>
    have hconv := convChar_eq env hwidth
    rw [hleft] at hconv
    show some (s.putArg (convChar env (d.spec s.pos)), l) = _
    rw [hconv]
    rfl
  | s =>
    have hconv := convStr_eq env hwidth d.precision rfl
    rw [hleft] at hconv
    show some (s.putArg (convStr env (d.spec s.pos)), l) = _
    rw [hconv]
    rfl
  | num k =>
    have hspec : k.adjust (d.spec s.pos) = { k.adjust (d.spec 0) with pos := s.pos } := k.adjust_pos (d.spec 0) s.pos
    obtain ⟨t, ht⟩ := Option.isSome_iff_exists.1 (number_isSome k.base_ok (env.arg s.pos)
      (k.adjust (d.spec 0)).fieldWidth (k.adjust (d.spec 0)).precision (k.adjust (d.spec 0)).flags)
    rw [convert_num, hspec]
    simp only [convNumber, Directive.numberText, ht, Option.map_some, Option.getD_some]

/-- One item: a round of the loop. -/
theorem vsprintfLoop_item (env : Env) (it : Item) (l : List UInt8) (n : Nat) (s : Vst) :
    vsprintfLoop env (n + 1) (it.text ++ l) s =
      vsprintfLoop env n l { s with text := s.text ++ it.render env s.pos, pos := s.pos + it.args } := by
  cases it with
  | lit c =>
    show vsprintfLoop env (n + 1) (c.char :: l) s = _
    rw [vsprintfLoop, if_pos c.notPercent]
    rfl
  | percent =>
    have hdir : directive env s ('%'.toUInt8 :: l) = some (s.put ['%'.toUInt8], l) := rfl
    show vsprintfLoop env (n + 1) ('%'.toUInt8 :: '%'.toUInt8 :: l) s = _
    rw [vsprintfLoop, if_neg (by simp), hdir]
    rfl
  | directive d =>
    show vsprintfLoop env (n + 1) ('%'.toUInt8 :: (d.body ++ l)) s = _
    rw [vsprintfLoop, if_neg (by simp), directive_body, convert_conv]
    rfl

theorem Item.text_length_pos (it : Item) : 0 < it.text.length := by
  cases it <;> simp [Item.text]

theorem vsprintfLoop_items (env : Env) (items : List Item) (n : Nat) (hn : (items.flatMap Item.text).length ≤ n) (s : Vst) :
    vsprintfLoop env n (items.flatMap Item.text) s =
      some { s with text := s.text ++ renderAll env s.pos items, pos := s.pos + (items.map Item.args).sum } := by
  induction items generalizing n s with
  | nil => simp [vsprintfLoop, renderAll]
  | cons it items ih =>
    rw [List.flatMap_cons, List.length_append] at hn
    have hpos := it.text_length_pos
    obtain ⟨m, rfl⟩ : ∃ m, n = m + 1 := ⟨n - 1, by omega⟩
    rw [List.flatMap_cons, vsprintfLoop_item, ih m (by omega)]
    simp [renderAll, Nat.add_assoc]

/-- A character that neither ends a format nor starts a directive. -/
def Plain (c : UInt8) : Prop := c ≠ 0 ∧ c ≠ '%'.toUInt8

theorem plain_of_letter {c : UInt8} (h : 64 < c) : Plain c := ⟨ne_of_letter h (by decide), ne_of_letter h (by decide)⟩

theorem plain_digit (d : Fin 10) : Plain (digitByte d) := by
  have hdigit := (digitByte_facts d).1
  refine ⟨fun h => ?_, fun h => ?_⟩
  · rw [h] at hdigit
    cases hdigit
  · rw [h] at hdigit
    cases hdigit

theorem plain_flags (fs : List FlagChar) : ∀ c ∈ fs.map FlagChar.char, Plain c := by
  intro c hc
  obtain ⟨k, -, rfl⟩ := List.mem_map.1 hc
  unfold Plain
  cases k <;> decide

theorem plain_digits (ds : List (Fin 10)) : ∀ c ∈ ds.map digitByte, Plain c := by
  intro c hc
  obtain ⟨d, -, rfl⟩ := List.mem_map.1 hc
  exact plain_digit d

theorem plain_width (w : Option Width) : ∀ c ∈ widthText w, Plain c := by
  cases w with
  | none => exact fun c hc => nomatch hc
  | some w => exact plain_digits w.digits

theorem plain_precision (p : Option Precision) : ∀ c ∈ precisionText p, Plain c := by
  cases p with
  | none => exact fun c hc => nomatch hc
  | some p =>
    intro c hc
    rcases List.mem_cons.1 hc with rfl | hc
    · exact ⟨by decide, by decide⟩
    · exact plain_digits p.digits c hc

theorem plain_qualifier (q : Option Qualifier) : ∀ c ∈ qualifierText q, Plain c := by
  cases q with
  | none => exact fun c hc => nomatch hc
  | some q =>
    intro c hc
    rw [List.mem_singleton.1 hc]
    exact plain_of_letter q.char_letter

/-- The text of a directive has no NUL. -/
theorem Directive.body_ne_zero (d : Directive) : ∀ c ∈ d.body, c ≠ 0 := by
  intro c hc
  simp only [Directive.body, List.mem_append, List.mem_singleton] at hc
  rcases hc with hc | hc | hc | hc | rfl
  · exact (plain_flags _ c hc).1
  · exact (plain_width _ c hc).1
  · exact (plain_precision _ c hc).1
  · exact (plain_qualifier _ c hc).1
  · exact (plain_of_letter d.conv.char_letter).1

theorem Item.text_ne_zero (it : Item) : ∀ c ∈ it.text, c ≠ 0 := by
  cases it with
  | lit l => simpa [Item.text] using l.notNul
  | percent =>
    have hpercent : '%'.toUInt8 ≠ 0 := by decide
    simp [Item.text, hpercent]
  | directive d =>
    intro c hc
    rcases List.mem_cons.1 hc with rfl | hc
    · decide
    · exact d.body_ne_zero c hc

theorem vsprintf_items (env : Env) (items : List Item) (pos : Nat) :
    vsprintf env (items.flatMap Item.text) pos = some ⟨renderAll env pos items ++ [0],
      Int32.ofNat (renderAll env pos items).length, pos + (items.map Item.args).sum, []⟩ := by
  have hloop := vsprintfLoop_items env items _ (Nat.le_refl _) ⟨[], pos, []⟩
  have hformat : (items.flatMap Item.text).takeWhile (· ≠ 0) = items.flatMap Item.text := by
    refine List.takeWhile_eq_self_iff.2 fun c hc => ?_
    obtain ⟨it, -, hit⟩ := List.mem_flatMap.1 hc
    simpa using it.text_ne_zero c hit
  simp only [vsprintf, hformat, hloop, Option.map_some]
  rfl

/-- **`vsprintf` renders its grammar.** For the text of any list of items it writes the renderings of the items and a NUL,
takes one argument for each directive, and returns the length of the text as an `int`. The renderings of numbers are
laid out as `layout` says. -/
theorem vsprintf_renders (env : Env) (items : List Item) (pos : Nat) :
    let text := renderAll env pos items
    (∃ r, vsprintf env (items.flatMap Item.text) pos = some r ∧ r.buff = text ++ [0] ∧
        r.pos = pos + (items.map Item.args).sum ∧ r.stores = [] ∧
        r.ret = Int32.ofNat text.length ∧ (text.length < 2 ^ 31 → r.ret.toInt = text.length)) ∧
      ∀ (d : Directive) (k : NumConv) (num : UInt32), d.precisionValue + 6 ≤ 2 ^ 31 →
        d.numberText k num = layout num k.base (d.numberWidth k) d.precisionValue (d.numberFlags k) := by
  intro text
  refine ⟨?_, fun d k num hfit => d.numberText_layout k num hfit⟩
  refine ⟨_, vsprintf_items env items pos, rfl, rfl, rfl, rfl, fun hlt => ?_⟩
  exact Int32.toInt_ofNat_of_lt hlt

end RedMagic.Printk
