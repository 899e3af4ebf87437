import RedMagic.Lib.Scanner
import RedMagic.Printk.Grammar

/-!
# The rounds of `vsprintf`

One round of the loop writes a character of the format or does a directive (`round`). For any format, well formed or
not: a round ends (`round_isSome`); it takes the same part of the format, and the same number of arguments, whatever the
arguments are (`round_rest`); what it does depends only on the characters it takes (`round_local`) and on the arguments it
takes (`round_congr`). So the loop ends for every format (`runs_total`).
-/

namespace RedMagic.Printk

open Countdown Scanner

variable {env env' : Env} {s s' : Vst} {d d' : Spec} {c : UInt8} {l r cs : List UInt8} {pos : Nat}

/-! ## Looking ahead -/

theorem peeks_skipAtoi (i : Int32) : Peeks (skipAtoi · i) := by
  intro l
  induction l generalizing i with
  | nil => exact fun r c cs h => nomatch h
  | cons x l ih =>
    intro r c cs h
    dsimp only [skipAtoi] at h
    split at h
    · rename_i hx
      obtain ⟨a, hl, hother⟩ := ih _ r c cs h
      refine ⟨x :: a, by rw [hl, List.cons_append], fun other => ?_⟩
      dsimp only [List.cons_append, skipAtoi]
      rw [if_pos hx]
      exact hother other
    · rename_i hx
      cases h
      refine ⟨[], rfl, fun other => ?_⟩
      dsimp only [List.nil_append, skipAtoi]
      rw [if_neg hx]

/-- The flag that a character sets. -/
def flagOf (c : UInt8) : Option (Flags → Flags) :=
  if c = '-'.toUInt8 then some fun f => { f with left := true }
  else if c = '+'.toUInt8 then some fun f => { f with plus := true }
  else if c = ' '.toUInt8 then some fun f => { f with space := true }
  else if c = '#'.toUInt8 then some fun f => { f with special := true }
  else if c = '0'.toUInt8 then some fun f => { f with zeropad := true }
  else none

theorem scanFlags_cons (c : UInt8) (cs : List UInt8) (f : Flags) :
    scanFlags (c :: cs) f = (flagOf c).elim (f, c :: cs) fun g => scanFlags cs (g f) := by
  unfold flagOf
  rw [scanFlags]
  split_ifs <;> rfl

theorem peeks_scanFlags (f : Flags) : Peeks (scanFlags · f) := by
  intro l
  induction l generalizing f with
  | nil => exact fun r c cs h => nomatch h
  | cons x l ih =>
    intro r c cs h
    dsimp only at h
    rw [scanFlags_cons] at h
    cases hx : flagOf x with
    | some g =>
      rw [hx] at h
      obtain ⟨a, hl, hother⟩ := ih (g f) r c cs h
      refine ⟨x :: a, by rw [hl, List.cons_append], fun other => ?_⟩
      dsimp only
      rw [List.cons_append, scanFlags_cons, hx]
      exact hother other
    | none =>
      rw [hx] at h
      cases h
      refine ⟨[], rfl, fun other => ?_⟩
      dsimp only
      rw [List.nil_append, scanFlags_cons, hx]
      rfl

/-- A number, or a character that is not passed: the form of both scanners below. -/
def scanNumber {β : Type} (number : Int32 → β) (other : UInt8 → β) (none : β) : List UInt8 → β × List UInt8
  | [] => (none, [])
  | c :: cs =>
    if isDigit c then (number (skipAtoi (c :: cs) 0).1, (skipAtoi (c :: cs) 0).2) else (other c, c :: cs)

theorem peeks_scanNumber {β : Type} (number : Int32 → β) (other : UInt8 → β) (none : β) :
    Peeks (scanNumber number other none) := by
  intro l r c cs h
  cases l with
  | nil => cases h
  | cons x l =>
    rw [scanNumber] at h
    split at h
    · rename_i hx
      obtain ⟨hr, hrest⟩ := Prod.mk.inj h
      obtain ⟨a, hl, hother⟩ := peeks_skipAtoi 0 (x :: l) (skipAtoi (x :: l) 0).1 c cs (Prod.ext rfl hrest)
      refine ⟨a, hl, fun text => ?_⟩
      have hread : skipAtoi (a ++ c :: text) 0 = ((skipAtoi (x :: l) 0).1, c :: text) := hother text
      -- the first character is the same one
      obtain ⟨y, hy⟩ : ∃ y, a ++ c :: text = x :: y := by
        cases a with
        | nil => exact ⟨text, by rw [(List.cons.inj hl).1, List.nil_append]⟩
        | cons z a => exact ⟨a ++ c :: text, by rw [(List.cons.inj hl).1, List.cons_append]⟩
      rw [hy] at hread ⊢
      rw [scanNumber, if_pos hx, hread, hr]
    · rename_i hx
      cases h
      refine ⟨[], rfl, fun text => ?_⟩
      rw [List.nil_append, scanNumber, if_neg hx]

/-- What a `*` does to the width. -/
def starWidth (env : Env) (d : Spec) : Spec :=
  let width := (env.arg d.pos).toInt32
  if width < 0 then { d with fieldWidth := -width, flags := { d.flags with left := true }, pos := d.pos + 1 }
  else { d with fieldWidth := width, pos := d.pos + 1 }

theorem scanWidth_eq (env : Env) (d : Spec) :
    scanWidth env d = scanNumber (fun w => { d with fieldWidth := w })
      (fun c => if c = '*'.toUInt8 then starWidth env d else d) d := by
  funext l
  cases l with
  | nil => rfl
  | cons c cs =>
    unfold scanWidth scanNumber starWidth
    dsimp only
    split_ifs <;> rfl

theorem scanDigits_eq (env : Env) (d : Spec) :
    scanDigits env d = scanNumber (fun p => { d with precision := p })
      (fun c => if c = '*'.toUInt8 then { d with precision := (env.arg d.pos).toInt32, pos := d.pos + 1 } else d) d := by
  funext l
  cases l with
  | nil => rfl
  | cons c cs =>
    unfold scanDigits scanNumber
    dsimp only
    split_ifs <;> rfl

theorem peeks_scanWidth (env : Env) (d : Spec) : Peeks (scanWidth env d) := by
  rw [scanWidth_eq]
  exact peeks_scanNumber _ _ _

theorem peeks_scanPrecision (env : Env) (d : Spec) : Peeks (scanPrecision env d) := by
  intro l r c cs h
  cases l with
  | nil => cases h
  | cons x l =>
    rw [scanPrecision] at h
    split at h
    · rename_i hx
      obtain ⟨hr, hrest⟩ := Prod.mk.inj h
      have hdigits : Peeks (scanDigits env d) := by
        rw [scanDigits_eq]
        exact peeks_scanNumber _ _ _
      obtain ⟨a, hl, hother⟩ := hdigits l (scanDigits env d l).1 c cs (Prod.ext rfl hrest)
      refine ⟨x :: a, by rw [hl, List.cons_append], fun other => ?_⟩
      rw [List.cons_append, scanPrecision, if_pos hx, hother]
      exact Prod.ext hr rfl
    · rename_i hx
      cases h
      refine ⟨[], rfl, fun other => ?_⟩
      rw [List.nil_append, scanPrecision, if_neg hx]

theorem peeks_skipQualifier (d : Spec) : Peeks fun l => (d, skipQualifier l) := by
  intro l r c cs h
  obtain ⟨hr, hrest⟩ := Prod.mk.inj h
  cases l with
  | nil => cases hrest
  | cons x l =>
    rw [skipQualifier] at hrest
    split at hrest
    · rename_i hx
      refine ⟨[x], by rw [hrest, List.singleton_append], fun other => ?_⟩
      dsimp only
      rw [List.singleton_append, skipQualifier, if_pos hx, hr]
    · rename_i hx
      cases hrest
      refine ⟨[], rfl, fun other => ?_⟩
      dsimp only
      rw [List.nil_append, skipQualifier, if_neg hx, hr]

/-- The parts of a directive in front of its conversion. -/
def parse (env : Env) (pos : Nat) : List UInt8 → Spec × List UInt8 :=
  next (next (next (scanFlags · noFlags) fun f => scanWidth env ⟨f, -1, -1, pos⟩) (scanPrecision env))
    fun d l => (d, skipQualifier l)

theorem directive_eq (env : Env) (s : Vst) (l : List UInt8) :
    directive env s l = convert env { s with pos := (parse env s.pos l).1.pos } (parse env s.pos l).1 (parse env s.pos l).2 := rfl

theorem peeks_parse (env : Env) (pos : Nat) : Peeks (parse env pos) :=
  (((peeks_scanFlags noFlags).next fun _ => peeks_scanWidth env _).next fun d => peeks_scanPrecision env d).next
    peeks_skipQualifier

/-! ## The arguments a directive takes -/

def starAt : List UInt8 → Nat
  | [] => 0
  | c :: _ => if c = '*'.toUInt8 then 1 else 0

def dotStarAt : List UInt8 → Nat
  | [] => 0
  | c :: cs => if c = '.'.toUInt8 then starAt cs else 0

/-- The format behind a width. -/
def afterWidth (l : List UInt8) : List UInt8 := (scanNumber (fun _ => ()) (fun _ => ()) () l).2

theorem scanNumber_rest {β : Type} (number : Int32 → β) (other : UInt8 → β) (none : β) (l : List UInt8) :
    (scanNumber number other none l).2 = afterWidth l := by
  unfold afterWidth
  cases l with
  | nil => rfl
  | cons c cs =>
    rw [scanNumber, scanNumber]
    split <;> rfl

theorem scanNumber_pos {number : Int32 → Spec} {other : UInt8 → Spec} {none : Spec} (hnone : none.pos = pos)
    (hnumber : ∀ v, (number v).pos = pos) (hstar : (other '*'.toUInt8).pos = pos + 1)
    (hother : ∀ c, c ≠ '*'.toUInt8 → (other c).pos = pos) (l : List UInt8) :
    (scanNumber number other none l).1.pos = pos + starAt l := by
  cases l with
  | nil => exact hnone
  | cons c cs =>
    rw [scanNumber, starAt]
    by_cases hc : c = '*'.toUInt8
    · subst hc
      exact hstar
    · rw [if_neg hc]
      split
      · exact hnumber _
      · exact hother c hc

theorem scanWidth_pos (env : Env) (d : Spec) (l : List UInt8) : (scanWidth env d l).1.pos = d.pos + starAt l := by
  rw [scanWidth_eq]
  refine scanNumber_pos rfl ?_ ?_ (fun c hc => ?_) l
  · exact fun _ => rfl
  · rw [if_pos rfl, starWidth]
    dsimp only
    split <;> rfl
  · rw [if_neg hc]

theorem scanDigits_pos (env : Env) (d : Spec) (l : List UInt8) : (scanDigits env d l).1.pos = d.pos + starAt l := by
  rw [scanDigits_eq]
  refine scanNumber_pos rfl ?_ ?_ (fun c hc => ?_) l
  · exact fun _ => rfl
  · rw [if_pos rfl]
  · rw [if_neg hc]

theorem scanPrecision_pos (env : Env) (d : Spec) (l : List UInt8) : (scanPrecision env d l).1.pos = d.pos + dotStarAt l := by
  cases l with
  | nil => rfl
  | cons c cs =>
    rw [scanPrecision, dotStarAt]
    split
    · rw [← scanDigits_pos env d cs]
      dsimp only
      split <;> rfl
    · rfl

theorem scanPrecision_rest (env env' : Env) (d d' : Spec) (l : List UInt8) :
    (scanPrecision env d l).2 = (scanPrecision env' d' l).2 := by
  cases l with
  | nil => rfl
  | cons c cs =>
    rw [scanPrecision, scanPrecision]
    split
    · dsimp only
      rw [scanDigits_eq, scanDigits_eq, scanNumber_rest, scanNumber_rest]
    · rfl

/-- The arguments that the width and the precision take. -/
def parseArgs (l : List UInt8) : Nat :=
  starAt (scanFlags l noFlags).2 + dotStarAt (afterWidth (scanFlags l noFlags).2)

theorem scanWidth_rest (env : Env) (d : Spec) (l : List UInt8) : (scanWidth env d l).2 = afterWidth l := by
  rw [scanWidth_eq, scanNumber_rest]

theorem parse_pos (env : Env) (pos : Nat) (l : List UInt8) : (parse env pos l).1.pos = pos + parseArgs l := by
  show (scanPrecision env _ _).1.pos = _
  rw [scanPrecision_pos]
  show (scanWidth env _ _).1.pos + dotStarAt (scanWidth env _ _).2 = _
  rw [scanWidth_pos, scanWidth_rest, parseArgs, Nat.add_assoc]

theorem parse_rest (env env' : Env) (pos pos' : Nat) (l : List UInt8) : (parse env pos l).2 = (parse env' pos' l).2 := by
  show skipQualifier (scanPrecision env _ (scanWidth env _ _).2).2 = skipQualifier (scanPrecision env' _ (scanWidth env' _ _).2).2
  rw [scanWidth_rest, scanWidth_rest, scanPrecision_rest]

/-! ### The arguments that matter -/

theorem scanNumber_congr {β : Type} {number : Int32 → β} {other other' : UInt8 → β} {none : β} {l : List UInt8}
    (hstar : starAt l = 0 ∨ other' '*'.toUInt8 = other '*'.toUInt8) (hother : ∀ c, c ≠ '*'.toUInt8 → other' c = other c) :
    scanNumber number other' none l = scanNumber number other none l := by
  cases l with
  | nil => rfl
  | cons c cs =>
    rw [scanNumber, scanNumber]
    split
    · rfl
    · by_cases hc : c = '*'.toUInt8
      · subst hc
        rcases hstar with hstar | hstar
        · cases hstar
        · rw [hstar]
      · rw [hother c hc]

theorem scanWidth_congr (h : starAt l = 0 ∨ env'.arg d.pos = env.arg d.pos) : scanWidth env' d l = scanWidth env d l := by
  rw [scanWidth_eq, scanWidth_eq]
  refine scanNumber_congr (h.imp id fun harg => ?_) fun c hc => ?_
  · simp only [starWidth, harg]
  · rw [if_neg hc, if_neg hc]

theorem scanDigits_congr (h : starAt l = 0 ∨ env'.arg d.pos = env.arg d.pos) : scanDigits env' d l = scanDigits env d l := by
  rw [scanDigits_eq, scanDigits_eq]
  refine scanNumber_congr (h.imp id fun harg => ?_) fun c hc => ?_
  · simp only [harg]
  · rw [if_neg hc, if_neg hc]

theorem scanPrecision_congr (h : dotStarAt l = 0 ∨ env'.arg d.pos = env.arg d.pos) :
    scanPrecision env' d l = scanPrecision env d l := by
  cases l with
  | nil => rfl
  | cons c cs =>
    rw [dotStarAt] at h
    rw [scanPrecision, scanPrecision]
    split
    · rename_i hc
      rw [if_pos hc] at h
      rw [scanDigits_congr h]
    · rfl

theorem parse_congr (h : ∀ i, pos ≤ i → i < pos + parseArgs l → env'.arg i = env.arg i) :
    parse env' pos l = parse env pos l := by
  unfold parseArgs at h
  have hwidth : scanWidth env' ⟨(scanFlags l noFlags).1, -1, -1, pos⟩ (scanFlags l noFlags).2 =
      scanWidth env ⟨(scanFlags l noFlags).1, -1, -1, pos⟩ (scanFlags l noFlags).2 := by
    refine scanWidth_congr ?_
    by_cases hstar : starAt (scanFlags l noFlags).2 = 0
    · exact .inl hstar
    · exact .inr (h pos (Nat.le_refl _) (by omega))
  have hprec : ∀ d : Spec, d.pos = pos + starAt (scanFlags l noFlags).2 →
      scanPrecision env' d (afterWidth (scanFlags l noFlags).2) = scanPrecision env d (afterWidth (scanFlags l noFlags).2) := by
    intro d hd
    refine scanPrecision_congr ?_
    by_cases hdot : dotStarAt (afterWidth (scanFlags l noFlags).2) = 0
    · exact .inl hdot
    · exact .inr (h d.pos (by omega) (by omega))
  simp only [parse, next, hwidth]
  rw [scanWidth_rest, hprec _ (scanWidth_pos _ _ _)]

/-! ## Conversions -/

/-- The conversions that take an argument. -/
def argConvs : List UInt8 := "csopxXdiubn".toList.map Char.toUInt8

def convArgs : List UInt8 → Nat
  | [] => 0
  | c :: _ => if c ∈ argConvs then 1 else 0

/-- What a conversion character can be. -/
inductive ConvKind (c : UInt8) : Prop
  | conv (k : Conv) (h : c = k.char)
  | store (h : c = 'n'.toUInt8)
  | percent (h : c = '%'.toUInt8)
  | other (h : c ∉ argConvs) (hp : c ≠ '%'.toUInt8)

theorem convKind (c : UInt8) : ConvKind c := by
  by_cases hc : c ∈ argConvs
  · obtain ⟨k, hk, rfl⟩ := List.mem_map.1 hc
    have hk' : k = 'c' ∨ k = 's' ∨ k = 'o' ∨ k = 'p' ∨ k = 'x' ∨ k = 'X' ∨ k = 'd' ∨ k = 'i' ∨ k = 'u' ∨ k = 'b' ∨ k = 'n' := by
      simpa using hk
    rcases hk' with rfl | rfl | rfl | rfl | rfl | rfl | rfl | rfl | rfl | rfl | rfl
    · exact .conv .c rfl
    · exact .conv .s rfl
    · exact .conv (.num .o) rfl
    · exact .conv (.num .p) rfl
    · exact .conv (.num .x) rfl
    · exact .conv (.num .X) rfl
    · exact .conv (.num .d) rfl
    · exact .conv (.num .i) rfl
    · exact .conv (.num .u) rfl
    · exact .conv (.num .b) rfl
    · exact .store rfl
  · by_cases hp : c = '%'.toUInt8
    · exact .percent hp
    · exact .other hc hp

theorem Conv.char_mem (k : Conv) : k.char ∈ argConvs := by
  cases k with
  | c => decide
  | s => decide
  | num k => cases k <;> decide

theorem convert_other (hc : c ∉ argConvs) (hp : c ≠ '%'.toUInt8) (env : Env) (s : Vst) (d : Spec) (cs : List UInt8) :
    convert env s d (c :: cs) = some (s.put ['%'.toUInt8, c], cs) := by
  have hne : ∀ x ∈ argConvs, c ≠ x := fun x hx heq => hc (heq ▸ hx)
  have hdi : ¬ (c = 'd'.toUInt8 ∨ c = 'i'.toUInt8) := by
    rintro (h | h)
    · exact hne _ (by decide) h
    · exact hne _ (by decide) h
  rw [convert, if_neg (hne _ (by decide)), if_neg (hne _ (by decide)), if_neg (hne _ (by decide)), if_neg (hne _ (by decide)),
    if_neg (hne _ (by decide)), if_neg (hne _ (by decide)), if_neg hdi, if_neg (hne _ (by decide)), if_neg (hne _ (by decide)),
    if_neg (hne _ (by decide)), if_neg hp]

theorem convert_percent (env : Env) (s : Vst) (d : Spec) (cs : List UInt8) :
    convert env s d ('%'.toUInt8 :: cs) = some (s.put ['%'.toUInt8], cs) := rfl

theorem convert_store (env : Env) (s : Vst) (d : Spec) (cs : List UInt8) :
    convert env s d ('n'.toUInt8 :: cs) =
      some ({ s with pos := s.pos + 1, stores := (env.arg d.pos, Int32.ofNat s.text.length) :: s.stores }, cs) := rfl

/-- The text of a conversion with an argument. -/
def Conv.text (env : Env) (d : Spec) : Conv → List UInt8
  | .c => convChar env d
  | .s => convStr env d
  | .num k => (number (env.arg d.pos) k.base (k.adjust d).fieldWidth (k.adjust d).precision (k.adjust d).flags).getD []

theorem convert_char (env : Env) (s : Vst) (d : Spec) (k : Conv) (cs : List UInt8) :
    convert env s d (k.char :: cs) = some (s.putArg (k.text env d), cs) := by
  cases k with
  | c => rfl
  | s => rfl
  | num k =>
    have hpos : (k.adjust d).pos = d.pos := by
      have h := congrArg Spec.pos (k.adjust_pos d d.pos)
      exact h
    obtain ⟨t, ht⟩ := Option.isSome_iff_exists.1 (number_isSome k.base_ok (env.arg d.pos)
      (k.adjust d).fieldWidth (k.adjust d).precision (k.adjust d).flags)
    rw [convert_num, convNumber, hpos, Conv.text, ht]
    rfl

/-- The text that a conversion adds. -/
def convText (env : Env) (d : Spec) (l : List UInt8) : List UInt8 :=
  (convert env ⟨[], d.pos, []⟩ d l).elim [] fun r => r.1.text

/-- What a conversion does: it passes one character, adds its text and takes its argument. -/
theorem convert_spec (env : Env) (s : Vst) (d : Spec) (l : List UInt8) :
    ∃ s', convert env s d l = some (s', l.tail) ∧ s'.text = s.text ++ convText env d l ∧ s'.pos = s.pos + convArgs l := by
  cases l with
  | nil => exact ⟨_, rfl, rfl, rfl⟩
  | cons c cs =>
    cases convKind c with
    | conv k h =>
      subst h
      refine ⟨_, convert_char env s d k cs, ?_, ?_⟩
      · rw [convText, convert_char]
        rfl
      · rw [convArgs, if_pos k.char_mem]
        rfl
    | store h =>
      subst h
      refine ⟨_, convert_store env s d cs, ?_, rfl⟩
      rw [convText, convert_store]
      exact (List.append_nil _).symm
    | percent h =>
      subst h
      refine ⟨_, convert_percent env s d cs, ?_, rfl⟩
      rw [convText, convert_percent]
      rfl
    | other h hp =>
      refine ⟨_, convert_other h hp env s d cs, ?_, ?_⟩
      · rw [convText, convert_other h hp]
        rfl
      · rw [convArgs, if_neg h]
        rfl

/-- What is behind the conversion character does not matter. -/
theorem convert_local (h : convert env s d (c :: cs) = some (s', cs)) (other : List UInt8) :
    convert env s d (c :: other) = some (s', other) := by
  cases convKind c with
  | conv k hc =>
    subst hc
    rw [convert_char] at h ⊢
    cases h
    rfl
  | store hc =>
    subst hc
    rw [convert_store] at h ⊢
    cases h
    rfl
  | percent hc =>
    subst hc
    rw [convert_percent] at h ⊢
    cases h
    rfl
  | other hc hp =>
    rw [convert_other hc hp] at h ⊢
    cases h
    rfl

theorem Conv.text_congr (h : env'.arg d.pos = env.arg d.pos) (hstr : env'.str = env.str) (k : Conv) :
    k.text env' d = k.text env d := by
  cases k with
  | c => rw [Conv.text, Conv.text, convChar, convChar, h]
  | s => rw [Conv.text, Conv.text, convStr, convStr, h, hstr]
  | num k => rw [Conv.text, Conv.text, h]

/-- A conversion looks at its own argument. -/
theorem convert_congr (h : convArgs l = 0 ∨ env'.arg d.pos = env.arg d.pos) (hstr : env'.str = env.str) :
    convert env' s d l = convert env s d l := by
  cases l with
  | nil => rfl
  | cons c cs =>
    have harg : c ∈ argConvs → env'.arg d.pos = env.arg d.pos := by
      intro hc
      refine h.resolve_left fun hno => ?_
      rw [convArgs, if_pos hc] at hno
      cases hno
    cases convKind c with
    | conv k hc =>
      subst hc
      rw [convert_char, convert_char, k.text_congr (harg k.char_mem) hstr]
    | store hc =>
      subst hc
      rw [convert_store, convert_store, harg (by decide)]
    | percent hc =>
      subst hc
      rw [convert_percent, convert_percent]
    | other hc hp => rw [convert_other hc hp, convert_other hc hp]

/-! ## Rounds -/

/-- One round of the loop. -/
def round (env : Env) (s : Vst) : List UInt8 → Option (Vst × List UInt8)
  | [] => none
  | c :: cs => if c ≠ '%'.toUInt8 then some (s.put [c], cs) else directive env s cs

theorem vsprintfLoop_round (env : Env) (n : Nat) (c : UInt8) (cs : List UInt8) (s : Vst) :
    vsprintfLoop env (n + 1) (c :: cs) s = (round env s (c :: cs)).bind fun r => vsprintfLoop env n r.2 r.1 := by
  rw [vsprintfLoop, round]
  split <;> rfl

/-- The call with no arguments to speak of: what is left of the format does not depend on them. -/
def Env.zero : Env := ⟨fun _ => 0, fun _ => ⟨[], by decide⟩⟩

/-- The format at the conversion character. -/
def atConv (l : List UInt8) : List UInt8 := (parse .zero 0 l).2

theorem atConv_suffix (l : List UInt8) : atConv l <:+ l := (peeks_parse .zero 0).suffix l

def roundRest : List UInt8 → List UInt8
  | [] => []
  | c :: cs => if c ≠ '%'.toUInt8 then cs else (atConv cs).tail

def roundArgs : List UInt8 → Nat
  | [] => 0
  | c :: cs => if c ≠ '%'.toUInt8 then 0 else parseArgs cs + convArgs (atConv cs)

/-- The text that a round adds. -/
def roundText (env : Env) (pos : Nat) : List UInt8 → List UInt8
  | [] => []
  | c :: cs => if c ≠ '%'.toUInt8 then [c] else convText env (parse env pos cs).1 (parse env pos cs).2

/-- Every round ends; it adds its text, and takes a part of the format and a number of arguments that the format determines. -/
theorem round_spec (env : Env) (s : Vst) (c : UInt8) (cs : List UInt8) :
    ∃ s', round env s (c :: cs) = some (s', roundRest (c :: cs)) ∧ s'.text = s.text ++ roundText env s.pos (c :: cs) ∧
      s'.pos = s.pos + roundArgs (c :: cs) := by
  rw [round, roundRest, roundText, roundArgs]
  split
  · exact ⟨_, rfl, rfl, rfl⟩
  · have hrest : (parse env s.pos cs).2 = atConv cs := parse_rest ..
    obtain ⟨s', hs', htext, hpos⟩ := convert_spec env { s with pos := (parse env s.pos cs).1.pos } (parse env s.pos cs).1
      (parse env s.pos cs).2
    rw [directive_eq, ← hrest]
    refine ⟨s', hs', htext, ?_⟩
    rw [hpos]
    show (parse env s.pos cs).1.pos + _ = _
    rw [parse_pos, Nat.add_assoc]

theorem round_some (h : round env s l = some (s', r)) :
    r = roundRest l ∧ s'.text = s.text ++ roundText env s.pos l ∧ s'.pos = s.pos + roundArgs l := by
  cases l with
  | nil => cases h
  | cons c cs =>
    obtain ⟨s₁, hs₁, htext, hpos⟩ := round_spec env s c cs
    rw [hs₁] at h
    cases h
    exact ⟨rfl, htext, hpos⟩

theorem roundRest_suffix (c : UInt8) (cs : List UInt8) : roundRest (c :: cs) <:+ cs := by
  rw [roundRest]
  split
  · exact List.suffix_rfl
  · exact (List.tail_suffix _).trans (atConv_suffix cs)

/-- A round that does not end the format looks at no character behind those it takes. -/
theorem round_local (h : round env s l = some (s', r)) (hr : r ≠ []) :
    ∃ u, l = u ++ r ∧ ∀ other, round env s (u ++ other) = some (s', other) := by
  cases l with
  | nil => cases h
  | cons c cs =>
    rw [round] at h
    split at h
    · rename_i hc
      cases h
      refine ⟨[c], rfl, fun other => ?_⟩
      rw [List.singleton_append, round, if_pos hc]
    · rename_i hc
      rw [directive_eq] at h
      obtain ⟨s₁, hs₁, -, -⟩ := convert_spec env { s with pos := (parse env s.pos cs).1.pos } (parse env s.pos cs).1
        (parse env s.pos cs).2
      have htail : r = (parse env s.pos cs).2.tail := by
        rw [hs₁] at h
        cases h
        rfl
      cases hp : (parse env s.pos cs).2 with
      | nil =>
        rw [hp] at htail
        exact absurd htail hr
      | cons x xs =>
        rw [hp, List.tail_cons] at htail
        subst htail
        rw [hp] at h
        obtain ⟨a, hcs, hother⟩ := peeks_parse env s.pos cs (parse env s.pos cs).1 x r (Prod.ext rfl hp)
        refine ⟨c :: (a ++ [x]), by simp [hcs], fun other => ?_⟩
        have htext : c :: (a ++ [x]) ++ other = c :: (a ++ x :: other) := by simp
        rw [htext, round, if_neg hc, directive_eq, hother]
        exact convert_local h other

/-- A round looks at no argument but those it takes. -/
theorem round_congr (h : round env s l = some (s', r))
    (harg : ∀ i, s.pos ≤ i → i < s'.pos → env'.arg i = env.arg i) (hstr : env'.str = env.str) :
    round env' s l = some (s', r) := by
  cases l with
  | nil => cases h
  | cons c cs =>
    have hpos := (round_some h).2.2
    rw [← h]
    rw [roundArgs] at hpos
    rw [round, round]
    split
    · rfl
    · rename_i hc
      rw [if_neg hc] at hpos
      have hparse : parse env' s.pos cs = parse env s.pos cs :=
        parse_congr fun i hlo hhi => harg i hlo (by omega)
      rw [directive_eq, directive_eq, hparse]
      refine convert_congr ?_ hstr
      have hrest : (parse env s.pos cs).2 = atConv cs := parse_rest ..
      rw [hrest, parse_pos]
      by_cases hconv : convArgs (atConv cs) = 0
      · exact .inl hconv
      · exact .inr (harg _ (by omega) (by omega))

/-! ## Runs -/

/-- Some rounds take the loop from `s`, with the format `l` to do, to `s'` with `r` to do. -/
inductive Reaches (env : Env) : Vst → List UInt8 → Vst → List UInt8 → Prop
  | refl (s : Vst) (l : List UInt8) : Reaches env s l s l
  | step {s s₁ s₂ : Vst} {l l₁ l₂ : List UInt8} (hround : round env s l = some (s₁, l₁))
    (hrest : Reaches env s₁ l₁ s₂ l₂) : Reaches env s l s₂ l₂

namespace Reaches

theorem trans {s₂ : Vst} {l₂ : List UInt8} (h : Reaches env s l s' r) (h' : Reaches env s' r s₂ l₂) :
    Reaches env s l s₂ l₂ := by
  induction h with
  | refl => exact h'
  | step hround _ ih => exact .step hround (ih h')

/-- What the rounds add does not depend on what was written before. -/
theorem frame (h : Reaches env s l s' r) {s₂ : Vst} (hpos : s₂.pos = s.pos) :
    ∃ t s₂', s'.text = s.text ++ t ∧ Reaches env s₂ l s₂' r ∧ s₂'.text = s₂.text ++ t := by
  induction h generalizing s₂ with
  | refl s l => exact ⟨[], s₂, by simp, .refl s₂ l, by simp⟩
  | @step s s₁ s' l l₁ r hround _ ih =>
    cases l with
    | nil => cases hround
    | cons c cs =>
      obtain ⟨hl₁, htext, hpos₁⟩ := round_some hround
      obtain ⟨s₃, hs₃, htext₃, hpos₃⟩ := round_spec env s₂ c cs
      have hpos' : s₃.pos = s₁.pos := by omega
      obtain ⟨t, s₄, ht, hs₄, ht₄⟩ := ih hpos'
      rw [← hl₁] at hs₃
      rw [hpos] at htext₃
      refine ⟨roundText env s.pos (c :: cs) ++ t, s₄, ?_, .step hs₃ hs₄, ?_⟩
      · rw [ht, htext, List.append_assoc]
      · rw [ht₄, htext₃, List.append_assoc]

theorem pos_le (h : Reaches env s l s' r) : s.pos ≤ s'.pos := by
  induction h with
  | refl => exact Nat.le_refl _
  | step hround _ ih =>
    have hpos := (round_some hround).2.2
    omega

theorem suffix (h : Reaches env s l s' r) : r <:+ l := by
  induction h with
  | refl => exact List.suffix_rfl
  | @step _ _ _ l _ _ hround _ ih =>
    cases l with
    | nil => cases hround
    | cons c cs =>
      rw [(round_some hround).1] at ih
      exact (ih.trans (roundRest_suffix c cs)).trans (List.suffix_cons c cs)

/-- The format alone decides where the rounds end and how many arguments they take. -/
theorem rerun (h : Reaches env s l s' r) (env' : Env) (s₂ : Vst) :
    ∃ s₂', Reaches env' s₂ l s₂' r ∧ s₂'.pos + s.pos = s'.pos + s₂.pos := by
  induction h generalizing s₂ with
  | refl s l => exact ⟨s₂, .refl s₂ l, Nat.add_comm ..⟩
  | @step s s₁ s' l l₁ r hround _ ih =>
    cases l with
    | nil => cases hround
    | cons c cs =>
      obtain ⟨hl₁, -, hpos⟩ := round_some hround
      obtain ⟨s₃, hs₃, -, hpos₃⟩ := round_spec env' s₂ c cs
      obtain ⟨s₄, hs₄, hpos₄⟩ := ih s₃
      rw [← hl₁] at hs₃
      exact ⟨s₄, .step hs₃ hs₄, by omega⟩

/-- Rounds that stop in front of `r` do the same in front of any other text. -/
theorem replace {front : List UInt8} (h : Reaches env s l s' r) (hl : l = front ++ r) (hr : r ≠ []) (other : List UInt8) :
    Reaches env s (front ++ other) s' other := by
  induction h generalizing front with
  | refl s l =>
    obtain rfl : front = [] := by simpa using hl
    exact .refl s other
  | @step s s₁ s' l l₁ r hround hrest ih =>
    obtain ⟨front', hl₁⟩ := hrest.suffix
    have hne : l₁ ≠ [] := by
      rintro rfl
      exact hr (List.append_eq_nil_iff.1 hl₁).2
    obtain ⟨u, hu, hlocal⟩ := round_local hround hne
    have hfront : front = u ++ front' := by
      rw [hu, ← hl₁, ← List.append_assoc] at hl
      exact (List.append_cancel_right hl).symm
    rw [hfront, List.append_assoc]
    exact .step (hlocal _) (ih hl₁.symm hr)

/-- Rounds look at no argument but those they take. -/
theorem congr (h : Reaches env s l s' r) (harg : ∀ i, s.pos ≤ i → i < s'.pos → env'.arg i = env.arg i)
    (hstr : env'.str = env.str) : Reaches env' s l s' r := by
  induction h with
  | refl s l => exact .refl s l
  | @step s s₁ s' l l₁ r hround hrest ih =>
    have hpos := (round_some hround).2.2
    have hle := hrest.pos_le
    refine .step (round_congr hround (fun i hlo hhi => harg i hlo (by omega)) hstr) (ih fun i hlo hhi => harg i (by omega) hhi)

/-- The loop ends for every format. -/
theorem total (env : Env) (l : List UInt8) (s : Vst) : ∃ s', Reaches env s l s' [] := by
  induction hn : l.length using Nat.strong_induction_on generalizing l s with
  | _ n ih =>
    cases l with
    | nil => exact ⟨s, .refl s []⟩
    | cons c cs =>
      obtain ⟨s₁, hs₁, -, -⟩ := round_spec env s c cs
      have hlen := (roundRest_suffix c cs).length_le
      rw [List.length_cons] at hn
      obtain ⟨s', hs'⟩ := ih _ (by omega) (roundRest (c :: cs)) s₁ rfl
      exact ⟨s', .step hs₁ hs'⟩

theorem loop (h : Reaches env s l s' r) (hr : r = []) {n : Nat} (hn : l.length ≤ n) :
    vsprintfLoop env n l s = some s' := by
  induction h generalizing n with
  | refl s l =>
    subst hr
    rw [vsprintfLoop]
  | @step s s₁ s' l l₁ r hround _ ih =>
    cases l with
    | nil => cases hround
    | cons c cs =>
      rw [List.length_cons] at hn
      obtain ⟨m, rfl⟩ : ∃ m, n = m + 1 := ⟨n - 1, by omega⟩
      have hlen := (roundRest_suffix c cs).length_le
      rw [← (round_some hround).1] at hlen
      rw [vsprintfLoop_round, hround]
      exact ih hr (by omega)

end Reaches

/-- What `vsprintf` writes, for a format without NUL. -/
theorem vsprintf_reaches (hnul : ∀ c ∈ l, c ≠ 0) (h : Reaches env ⟨[], pos, []⟩ l s' []) :
    vsprintf env l pos = some ⟨s'.text ++ [0], Int32.ofNat s'.text.length, s'.pos, s'.stores⟩ := by
  have hformat : l.takeWhile (· ≠ 0) = l := List.takeWhile_eq_self_iff.2 fun c hc => by simpa using hnul c hc
  simp only [vsprintf, hformat, h.loop rfl (Nat.le_refl _), Option.map_some]

end RedMagic.Printk
