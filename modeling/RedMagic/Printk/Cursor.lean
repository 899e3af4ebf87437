import Mathlib.Data.UInt
import RedMagic.Lib.Cursor
import RedMagic.Printk.Rounds

/-!
# The cursor of `vsprintf` (src/printk.c:57-68, :167-328)

`Printk/Basic.lean` has the format as a list that ends where its NUL is. Here `format` is what it is in the source, an
address that is moved and read through, up to the moves past a character and the one move back:

| here | there |
| --- | --- |
| `skipAtoiAt` | `skip_atoi` (`:57-68`) |
| `scanFlagsAt` | `repeat: ++format; switch (*format)` (`:187-205`) |
| `scanWidthAt`, `scanPrecisionAt`, `skipQualifierAt` | the field width, the precision and the qualifier (`:207-243`) |
| `convertAt` | the second `switch` (`:245-323`); at the NUL it moves back |
| `roundAt`, `vsprintfLoopAt`, `vsprintfAt` | the body of the `for` with its `++format`, the `for`, and `vsprintf` |

The results are compared with the list functions: on every string both do the same, and the cursor reads only the
characters of the string and its NUL (`vsprintf_stops`).
-/

namespace RedMagic.Printk

open Cursor CString

abbrev Scan := Reader UInt32

/-- `++format`. -/
def advance : Scan Unit := move (· + 1)

/-- `--format`. -/
def retreat : Scan Unit := move (· - 1)

section
variable (m : UInt32 → UInt8)

/-- With at most `n` rounds, as the other loops here. -/
def skipAtoiAt : Nat → Int32 → Scan Int32
  | 0, _ => never
  | n + 1, i => do
    let c ← peek m
    if isDigit c then do
      advance
      skipAtoiAt n (i * 10 + c.toInt8.toInt32 - 48)
    else pure i

def scanFlagsAt : Nat → Flags → Scan Flags
  | 0, _ => never
  | n + 1, f => do
    advance
    let c ← peek m
    if c = '-'.toUInt8 then scanFlagsAt n { f with left := true }
    else if c = '+'.toUInt8 then scanFlagsAt n { f with plus := true }
    else if c = ' '.toUInt8 then scanFlagsAt n { f with space := true }
    else if c = '#'.toUInt8 then scanFlagsAt n { f with special := true }
    else if c = '0'.toUInt8 then scanFlagsAt n { f with zeropad := true }
    else pure f

def scanWidthAt (env : Env) (n : Nat) (d : Spec) : Scan Spec := do
  let c ← peek m
  if isDigit c then do
    let width ← skipAtoiAt m n 0
    pure { d with fieldWidth := width }
  else if c = '*'.toUInt8 then
    let width := (env.arg d.pos).toInt32
    if width < 0 then
      pure { d with fieldWidth := -width, flags := { d.flags with left := true }, pos := d.pos + 1 }
    else pure { d with fieldWidth := width, pos := d.pos + 1 }
  else pure d

/-- What follows the `.`. -/
def scanDigitsAt (env : Env) (n : Nat) (d : Spec) : Scan Spec := do
  let c ← peek m
  if isDigit c then do
    let precision ← skipAtoiAt m n 0
    pure { d with precision := precision }
  else if c = '*'.toUInt8 then pure { d with precision := (env.arg d.pos).toInt32, pos := d.pos + 1 }
  else pure d

def scanPrecisionAt (env : Env) (n : Nat) (d : Spec) : Scan Spec := do
  let c ← peek m
  if c = '.'.toUInt8 then do
    advance
    let d ← scanDigitsAt m env n d
    pure (if d.precision < 0 then { d with precision := 0 } else d)
  else pure d

def skipQualifierAt : Scan Unit := do
  let c ← peek m
  if c = 'h'.toUInt8 ∨ c = 'l'.toUInt8 ∨ c = 'L'.toUInt8 then advance else pure ()

/-- A conversion writes what `convert` says for its character. -/
def convertAt (env : Env) (s : Vst) (d : Spec) : Scan Vst := do
  let c ← peek m
  if c = 0 then do
    retreat
    pure (s.put ['%'.toUInt8])
  else
    match convert env s d [c] with
    | some r => pure r.1
    | none => never

def directiveAt (env : Env) (n : Nat) (s : Vst) : Scan Vst := do
  let f ← scanFlagsAt m n noFlags
  let d ← scanWidthAt m env n ⟨f, -1, -1, s.pos⟩
  let d ← scanPrecisionAt m env n d
  skipQualifierAt m
  convertAt m env { s with pos := d.pos } d

/-- The body of the loop, at a character that is not the NUL, and `++format`. -/
def roundAt (env : Env) (n : Nat) (s : Vst) : Scan Vst := do
  let c ← peek m
  if c ≠ '%'.toUInt8 then do
    advance
    pure (s.put [c])
  else do
    let s ← directiveAt m env n s
    advance
    pure s

def vsprintfLoopAt (env : Env) (fuel : Nat) : Nat → Vst → Scan Vst
  | 0, _ => never
  | n + 1, s => do
    let c ← peek m
    if c = 0 then pure s
    else do
      let s ← roundAt m env fuel s
      vsprintfLoopAt env fuel n s

/-- `vsprintf`, and the addresses of the format that it has read; `none` = a loop does not end in `fuel` rounds. -/
def vsprintfAt (fuel : Nat) (env : Env) (format : UInt32) (pos : Nat) : Option (Result × List UInt32) :=
  (vsprintfLoopAt m env fuel fuel ⟨[], pos, []⟩ format).map fun r =>
    (⟨r.1.text ++ [0], Int32.ofNat r.1.text.length, r.1.pos, r.1.stores⟩, r.2.2)

end

/-! ## The parts of a directive -/

section
variable {m : UInt32 → UInt8} {t : Text (· + 1) m} {l cs : List UInt8} {n : Nat} {x : UInt8}

theorem runs_skipAtoiAt (hl : l <:+ t.chars) (hn : l.length < n) (i : Int32) :
    Runs t (skipAtoiAt m n i) l (skipAtoi l i).1 (skipAtoi l i).2 := by
  induction l generalizing n i with
  | nil =>
    obtain ⟨k, rfl⟩ := Nat.exists_eq_add_of_lt hn
    exact (Runs.peek hl).bind (Runs.pure i [])
  | cons c cs ih =>
    obtain ⟨k, rfl⟩ := Nat.exists_eq_add_of_lt hn
    refine (Runs.peek hl).bind ?_
    dsimp only [List.headD_cons, skipAtoi]
    split
    · exact (Runs.advance hl).bind (ih ((List.suffix_cons c cs).trans hl) (by rw [List.length_cons]; omega) _)
    · exact Runs.pure i _

theorem scanFlagsAt_succ (n : Nat) (f : Flags) : scanFlagsAt m (n + 1) f =
    advance >>= fun _ => peek m >>= fun c => (flagOf c).elim (pure f) fun g => scanFlagsAt m n (g f) := by
  rw [scanFlagsAt]
  refine congrArg (advance >>= ·) (funext fun _ => congrArg (peek m >>= ·) (funext fun c => ?_))
  unfold flagOf
  split_ifs <;> rfl

/-- The flags begin behind the cursor: at the `%`, or at the flag before. -/
theorem runs_scanFlagsAt (hl : x :: l <:+ t.chars) (hn : l.length < n) (f : Flags) :
    Runs t (scanFlagsAt m n f) (x :: l) (scanFlags l f).1 (scanFlags l f).2 := by
  induction l generalizing n x f with
  | nil =>
    obtain ⟨k, rfl⟩ := Nat.exists_eq_add_of_lt hn
    rw [scanFlagsAt_succ]
    exact (Runs.advance hl).bind ((Runs.peek List.nil_suffix).bind (Runs.pure f []))
  | cons c cs ih =>
    obtain ⟨k, rfl⟩ := Nat.exists_eq_add_of_lt hn
    have hcs : c :: cs <:+ t.chars := (List.suffix_cons x _).trans hl
    rw [scanFlagsAt_succ, scanFlags_cons]
    refine (Runs.advance hl).bind ((Runs.peek hcs).bind ?_)
    dsimp only [List.headD_cons]
    cases flagOf c with
    | none => exact Runs.pure f _
    | some g => exact ih hcs (by rw [List.length_cons]; omega) (g f)

/-- The form of both scanners of numbers. -/
def scanNumberAt {β : Type} (m : UInt32 → UInt8) (n : Nat) (number : Int32 → β) (other : UInt8 → β) : Scan β := do
  let c ← peek m
  if isDigit c then do
    let v ← skipAtoiAt m n 0
    pure (number v)
  else pure (other c)

theorem runs_scanNumberAt {β : Type} {number : Int32 → β} {other : UInt8 → β} {none : β} (hnone : other 0 = none)
    (hl : l <:+ t.chars) (hn : l.length < n) :
    Runs t (scanNumberAt m n number other) l (scanNumber number other none l).1 (scanNumber number other none l).2 := by
  cases l with
  | nil =>
    subst hnone
    exact (Runs.peek hl).bind (Runs.pure _ [])
  | cons c cs =>
    refine (Runs.peek hl).bind ?_
    dsimp only [List.headD_cons, scanNumber]
    split
    · exact (runs_skipAtoiAt hl hn 0).bind (Runs.pure _ _)
    · exact Runs.pure _ _

theorem scanWidthAt_eq (env : Env) (n : Nat) (d : Spec) :
    scanWidthAt m env n d = scanNumberAt m n (fun w => { d with fieldWidth := w })
      (fun c => if c = '*'.toUInt8 then starWidth env d else d) := by
  unfold scanWidthAt scanNumberAt starWidth
  refine congrArg (peek m >>= ·) (funext fun c => ?_)
  dsimp only
  split_ifs <;> rfl

theorem scanDigitsAt_eq (env : Env) (n : Nat) (d : Spec) :
    scanDigitsAt m env n d = scanNumberAt m n (fun p => { d with precision := p })
      (fun c => if c = '*'.toUInt8 then { d with precision := (env.arg d.pos).toInt32, pos := d.pos + 1 } else d) := by
  unfold scanDigitsAt scanNumberAt
  refine congrArg (peek m >>= ·) (funext fun c => ?_)
  dsimp only
  split_ifs <;> rfl

theorem runs_scanWidthAt (env : Env) (d : Spec) (hl : l <:+ t.chars) (hn : l.length < n) :
    Runs t (scanWidthAt m env n d) l (scanWidth env d l).1 (scanWidth env d l).2 := by
  rw [scanWidthAt_eq, scanWidth_eq]
  exact runs_scanNumberAt rfl hl hn

theorem runs_scanPrecisionAt (env : Env) (d : Spec) (hl : l <:+ t.chars) (hn : l.length < n) :
    Runs t (scanPrecisionAt m env n d) l (scanPrecision env d l).1 (scanPrecision env d l).2 := by
  cases l with
  | nil => exact (Runs.peek hl).bind (Runs.pure d [])
  | cons c cs =>
    rw [List.length_cons] at hn
    refine (Runs.peek hl).bind ?_
    dsimp only [List.headD_cons, scanPrecision]
    split
    · refine (Runs.advance hl).bind (Runs.bind (c := (scanDigits env d cs).1) (r := (scanDigits env d cs).2) ?_ (Runs.pure _ _))
      rw [scanDigitsAt_eq, scanDigits_eq]
      exact runs_scanNumberAt rfl ((List.suffix_cons c cs).trans hl) (by omega)
    · exact Runs.pure d _

theorem runs_skipQualifierAt (hl : l <:+ t.chars) : Runs t (skipQualifierAt m) l () (skipQualifier l) := by
  cases l with
  | nil => exact (Runs.peek hl).bind (Runs.pure () [])
  | cons c cs =>
    refine (Runs.peek hl).bind ?_
    dsimp only [List.headD_cons, skipQualifier]
    split
    · exact Runs.advance hl
    · exact Runs.pure () _

/-- A conversion leaves the cursor in front of what is left: on its character or, at the NUL, back on the last one. -/
theorem runs_convertAt (env : Env) (s : Vst) (d : Spec) (hl : l <:+ t.chars) (hne : t.chars ≠ []) {s' : Vst} {r : List UInt8}
    (h : convert env s d l = some (s', r)) :
    ∃ y, y :: r <:+ t.chars ∧ Runs t (convertAt m env s d) l s' (y :: r) := by
  cases l with
  | nil =>
    cases h
    have hlast : [t.chars.getLast hne] <:+ t.chars := ⟨t.chars.dropLast, List.dropLast_append_getLast hne⟩
    refine ⟨_, hlast, (Runs.peek hl).bind ?_⟩
    rw [List.headD_nil, if_pos rfl]
    exact (Runs.retreat (fun a => UInt32.add_sub_cancel a 1) hlast).bind (Runs.pure _ _)
  | cons c cs =>
    obtain ⟨s₁, hs₁, -, -⟩ := convert_spec env s d (c :: cs)
    rw [List.tail_cons] at hs₁
    rw [hs₁] at h
    cases h
    refine ⟨c, hl, (Runs.peek hl).bind ?_⟩
    rw [List.headD_cons, if_neg (Text.ne_zero hl), convert_local hs₁ []]
    exact Runs.pure _ _

theorem runs_directiveAt (env : Env) (s : Vst) (hl : x :: l <:+ t.chars) (hn : l.length < n) {s' : Vst} {r : List UInt8}
    (h : directive env s l = some (s', r)) :
    ∃ y, y :: r <:+ t.chars ∧ Runs t (directiveAt m env n s) (x :: l) s' (y :: r) := by
  have hcs : l <:+ t.chars := (List.suffix_cons x l).trans hl
  -- each part leaves a rest of what the part before has left
  have hflags : (scanFlags l noFlags).2 <:+ l := (peeks_scanFlags noFlags).suffix l
  have hwidth := ((peeks_scanWidth env ⟨(scanFlags l noFlags).1, -1, -1, s.pos⟩).suffix _).trans hflags
  have hprecision := ((peeks_scanPrecision env (scanWidth env ⟨(scanFlags l noFlags).1, -1, -1, s.pos⟩
    (scanFlags l noFlags).2).1).suffix _).trans hwidth
  have hconv := ((peeks_parse env s.pos).suffix l).trans hcs
  have hne : t.chars ≠ [] := List.ne_nil_of_mem (hl.subset List.mem_cons_self)
  obtain ⟨y, hy, hrun⟩ := runs_convertAt env _ _ hconv hne h
  refine ⟨y, hy, (runs_scanFlagsAt hl hn noFlags).bind ?_⟩
  refine (runs_scanWidthAt env _ (hflags.trans hcs) (hflags.length_le.trans_lt hn)).bind ?_
  refine (runs_scanPrecisionAt env _ (hwidth.trans hcs) (hwidth.length_le.trans_lt hn)).bind ?_
  exact (runs_skipQualifierAt (hprecision.trans hcs)).bind hrun

theorem runs_roundAt (env : Env) (s : Vst) (hl : l <:+ t.chars) (hn : l.length ≤ n) {s' : Vst} {r : List UInt8}
    (h : round env s l = some (s', r)) : Runs t (roundAt m env n s) l s' r := by
  cases l with
  | nil => cases h
  | cons c cs =>
    rw [round] at h
    refine (Runs.peek hl).bind ?_
    rw [List.headD_cons]
    split at h
    · rename_i hc
      cases h
      rw [if_pos hc]
      exact (Runs.advance hl).bind (Runs.pure _ _)
    · rename_i hc
      obtain ⟨y, hy, hrun⟩ := runs_directiveAt env s hl hn h
      rw [if_neg hc]
      exact hrun.bind ((Runs.advance hy).bind (Runs.pure _ _))

/-! ## The loop -/

theorem runs_vsprintfLoopAt {env : Env} {s s' : Vst} {r : List UInt8} (h : Reaches env s l s' r) (hr : r = [])
    (hl : l <:+ t.chars) {fuel : Nat} (hfuel : t.chars.length ≤ fuel) (hn : l.length < n) :
    Runs t (vsprintfLoopAt m env fuel n s) l s' [] := by
  induction h generalizing n with
  | refl s l =>
    subst hr
    obtain ⟨k, rfl⟩ := Nat.exists_eq_add_of_lt hn
    exact (Runs.peek hl).bind (Runs.pure s [])
  | @step s s₁ s' l l₁ r hround _ ih =>
    cases l with
    | nil => cases hround
    | cons c cs =>
      have hrest : l₁ <:+ cs := by
        rw [(round_some hround).1]
        exact roundRest_suffix c cs
      have hlen := hrest.length_le
      obtain ⟨k, rfl⟩ := Nat.exists_eq_add_of_lt hn
      refine (Runs.peek hl).bind ?_
      rw [List.headD_cons, if_neg (Text.ne_zero hl)]
      refine (runs_roundAt env s hl (hl.length_le.trans hfuel) hround).bind ?_
      exact ih hr ((hrest.trans (List.suffix_cons c cs)).trans hl) (by rw [List.length_cons]; omega)

theorem cell_eq (t : Text (· + 1) m) (i : Nat) : t.cell i = t.start + UInt32.ofNat i := by
  induction i with
  | zero => exact (UInt32.add_zero t.start).symm
  | succ i ih =>
    rw [Text.cell, Function.iterate_succ_apply']
    show t.cell i + 1 = _
    rw [ih, UInt32.ofNat_add, UInt32.add_assoc]
    rfl

end

/-- On every string `vsprintf` ends after at most one round more than the string has characters; it returns the number of
characters in front of the last NUL that it writes, and it reads the format from its first character to its NUL and nowhere
else. -/
theorem vsprintf_stops (m : UInt32 → UInt8) (env : Env) (format : UInt32) (pos : Nat) {s : List UInt8}
    (hs : StringAt (· + 1) m format s) :
    ∃ r, vsprintf env s pos = some r ∧
      (∃ text, r.buff = text ++ [0] ∧ r.ret = Int32.ofNat text.length ∧ (text.length < 2 ^ 31 → r.ret.toInt = text.length)) ∧
      ∀ fuel, s.length < fuel → ∃ log, vsprintfAt m fuel env format pos = some (r, log) ∧
        ∀ a ∈ log, ∃ i ≤ s.length, a = format + UInt32.ofNat i := by
  let t : Text (· + 1) m := ⟨format, s, hs⟩
  obtain ⟨s', hs'⟩ := Reaches.total env s ⟨[], pos, []⟩
  refine ⟨_, vsprintf_reaches (ne_zero_of_stringAt hs) hs', ⟨s'.text, rfl, rfl, fun hlt => ?_⟩, fun fuel hfuel => ?_⟩
  · exact Int32.toInt_ofNat_of_lt hlt
  · obtain ⟨log, hlog, hin⟩ := runs_vsprintfLoopAt (t := t) hs' rfl List.suffix_rfl hfuel.le hfuel
    have hstart : t.addr t.chars = format := by
      rw [Text.addr, Nat.sub_self]
      rfl
    rw [hstart] at hlog
    refine ⟨log, ?_, fun a ha => ?_⟩
    · rw [vsprintfAt, hlog]
      rfl
    · obtain ⟨i, hi, rfl⟩ := hin a ha
      exact ⟨i, hi, cell_eq t i⟩

/-- The format `%-.`, in the first cells of the memory. -/
def cutFormat (a : UInt32) : UInt8 := ['%'.toUInt8, '-'.toUInt8, '.'.toUInt8].getD a.toNat 0

theorem vsprintf_stops_cut : ∃ r log, vsprintfAt cutFormat 4 .zero 0 0 = some (r, log) ∧
    ∀ a ∈ log, ∃ i ≤ 3, a = 0 + UInt32.ofNat i := by
  have hs : StringAt (· + 1) cutFormat 0 ['%'.toUInt8, '-'.toUInt8, '.'.toUInt8] :=
    .cons rfl (by decide) (.cons rfl (by decide) (.cons rfl (by decide) (.nil rfl)))
  obtain ⟨r, -, -, hrun⟩ := vsprintf_stops cutFormat .zero 0 0 hs
  obtain ⟨log, hlog, hin⟩ := hrun 4 (by decide)
  exact ⟨r, log, hlog, hin⟩

end RedMagic.Printk
