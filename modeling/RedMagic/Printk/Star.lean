import RedMagic.Printk.Rendering
import RedMagic.Printk.Rounds

/-!
# A `*` in a directive

`vsprintf` takes the argument for a `*` but does not move the format past it. The `*` is then read as the conversion, which
is not known: `%*` is written, and the rest of the directive as plain text. A `Site` is a directive with a width or a precision
that can be a `*` instead; `star_differs`: wherever it stands, the two formats are not written the same way.
-/

namespace RedMagic.Printk

open Countdown

/-! ## Sites -/

/-- The width beside a precision that is replaced. -/
inductive WidthPart where
  | literal (w : Option Width)
  | star

inductive PrecisionPart where
  | literal (p : Option Precision)
  | star

def WidthPart.text : WidthPart → List UInt8
  | .literal w => widthText w
  | .star => ['*'.toUInt8]

def PrecisionPart.text : PrecisionPart → List UInt8
  | .literal p => precisionText p
  | .star => ['.'.toUInt8, '*'.toUInt8]

/-- The end of a directive: `%n` and letters that are no conversion are here as well. -/
structure Tail where
  qualifier : Option Qualifier
  conv : UInt8
  convLetter : ConvLetter conv

def Tail.text (t : Tail) : List UInt8 := qualifierText t.qualifier ++ [t.conv]

/-- A directive with a literal in the place of a `*`: a width, a width and the flag `-` in the place of a negative width, or a
precision. -/
inductive Site where
  | width (flags : List FlagChar) (w : Width) (p : PrecisionPart) (tail : Tail)
  | minus (before after : List FlagChar) (w : Width) (p : PrecisionPart) (tail : Tail)
  | precision (flags : List FlagChar) (w : WidthPart) (p : Precision) (tail : Tail)

namespace Site

def conv : Site → UInt8
  | .width _ _ _ t => t.conv
  | .minus _ _ _ _ t => t.conv
  | .precision _ _ _ t => t.conv

theorem convLetter (x : Site) : ConvLetter x.conv := by
  cases x with
  | width _ _ _ t => exact t.convLetter
  | minus _ _ _ _ t => exact t.convLetter
  | precision _ _ _ t => exact t.convLetter

/-- The directive with the literal, without its `%`. -/
def literal : Site → List UInt8
  | .width fs w p t => fs.map FlagChar.char ++ (widthText (some w) ++ (p.text ++ t.text))
  | .minus fs fs' w p t => (fs ++ .minus :: fs').map FlagChar.char ++ (widthText (some w) ++ (p.text ++ t.text))
  | .precision fs w p t => fs.map FlagChar.char ++ (w.text ++ (precisionText (some p) ++ t.text))

/-- What stands behind the first `*` of the directive with the `*`. -/
def remains : Site → List UInt8
  | .width _ _ p t => p.text ++ t.text
  | .minus _ _ _ p t => p.text ++ t.text
  | .precision _ (.literal _) _ t => t.text
  | .precision _ .star _ t => ['.'.toUInt8, '*'.toUInt8] ++ t.text

/-- The directive with the `*`. -/
def starred : Site → List UInt8
  | .width fs _ p t => fs.map FlagChar.char ++ (['*'.toUInt8] ++ (p.text ++ t.text))
  | .minus fs fs' _ p t => (fs ++ fs').map FlagChar.char ++ (['*'.toUInt8] ++ (p.text ++ t.text))
  | .precision fs w _ t => fs.map FlagChar.char ++ (w.text ++ (['.'.toUInt8, '*'.toUInt8] ++ t.text))

/-- The argument for the `*`. -/
def arg : Site → UInt32
  | .width _ w _ _ => (Int32.ofNat (value w.digits)).toUInt32
  | .minus _ _ w _ _ => (-Int32.ofNat (value w.digits)).toUInt32
  | .precision _ _ p _ => (Int32.ofNat (value p.digits)).toUInt32

/-- Its place among the arguments of the directive. -/
def place : Site → Nat
  | .precision _ .star _ _ => 1
  | _ => 0

end Site

/-- The arguments with `w` inserted in front of argument `k`. -/
def Env.insert (env : Env) (k : Nat) (w : UInt32) : Env where
  arg i := if i < k then env.arg i else if i = k then w else env.arg (i - 1)
  str := env.str

/-! ## The directive with the `*` -/

theorem star_not_conv : '*'.toUInt8 ∉ argConvs := by decide

theorem notFlag_star : NotFlag '*'.toUInt8 := by
  intro k
  cases k <;> decide

/-- A `*` for the width. -/
theorem directive_star (env : Env) (s : Vst) (fs : List FlagChar) (l : List UInt8) :
    directive env s (fs.map FlagChar.char ++ '*'.toUInt8 :: l) =
      some ({ s with text := s.text ++ ['%'.toUInt8, '*'.toUInt8], pos := s.pos + 1 }, l) := by
  have hflags := scanFlags_flags fs (l := '*'.toUInt8 :: l) (fun c hc => by cases hc; exact notFlag_star) noFlags
  have hwidth : ∀ d, scanWidth env d ('*'.toUInt8 :: l) = (starWidth env d, '*'.toUInt8 :: l) := by
    intro d
    rw [scanWidth_eq]
    rfl
  have hpos : ∀ d, (starWidth env d).pos = d.pos + 1 := by
    intro d
    rw [starWidth]
    dsimp only
    split <;> rfl
  have hprec : ∀ d, scanPrecision env d ('*'.toUInt8 :: l) = (d, '*'.toUInt8 :: l) := fun _ => rfl
  have hqual : skipQualifier ('*'.toUInt8 :: l) = '*'.toUInt8 :: l := rfl
  simp only [directive, hflags, hwidth, hprec, hqual, convert_other star_not_conv (by decide), hpos]
  rfl

/-- A `*` for the precision. -/
theorem directive_dotStar (env : Env) (s : Vst) (fs : List FlagChar) (w : Option Width) (l : List UInt8) :
    directive env s (fs.map FlagChar.char ++ (widthText w ++ '.'.toUInt8 :: '*'.toUInt8 :: l)) =
      some ({ s with text := s.text ++ ['%'.toUInt8, '*'.toUInt8], pos := s.pos + 1 }, l) := by
  have hstart : Starts (fun c => c = '.'.toUInt8 ∨ 64 < c) ('.'.toUInt8 :: '*'.toUInt8 :: l) :=
    fun c hc => by cases hc; exact .inl rfl
  have hflags := scanFlags_flags fs (starts_width w hstart) noFlags
  have hwidth := fun d hd => scanWidth_text env d hd w fun c hc => ends_of_precision (hstart c hc)
  have hpos : ∀ d, (scanPrecision env d ('.'.toUInt8 :: '*'.toUInt8 :: l)).1.pos = d.pos + 1 :=
    fun d => scanPrecision_pos env d _
  have hrest : ∀ d, (scanPrecision env d ('.'.toUInt8 :: '*'.toUInt8 :: l)).2 = '*'.toUInt8 :: l := fun _ => rfl
  have hqual : skipQualifier ('*'.toUInt8 :: l) = '*'.toUInt8 :: l := rfl
  simp only [directive, hflags]
  rw [hwidth _ rfl]
  simp only [hrest, hqual, convert_other star_not_conv (by decide), hpos]
  rfl

/-- Plain text is written as it is. -/
theorem Reaches.plain (env : Env) {t : List UInt8} (ht : ∀ c ∈ t, Plain c) (s : Vst) (l : List UInt8) :
    Reaches env s (t ++ l) (s.put t) l := by
  induction t generalizing s with
  | nil =>
    have hput : s.put [] = s := by simp [Vst.put]
    rw [hput]
    exact .refl s l
  | cons c t ih =>
    have hround : round env s (c :: (t ++ l)) = some (s.put [c], t ++ l) := by
      rw [round, if_pos (ht c (List.mem_cons_self ..)).2]
    have hput : (s.put [c]).put t = s.put (c :: t) := by simp [Vst.put]
    rw [List.cons_append, ← hput]
    exact .step hround (ih (fun c' hc' => ht c' (List.mem_cons_of_mem _ hc')) _)

theorem plain_append {u v : List UInt8} (hu : ∀ c ∈ u, Plain c) (hv : ∀ c ∈ v, Plain c) : ∀ c ∈ u ++ v, Plain c :=
  fun c hc => (List.mem_append.1 hc).elim (hu c) (hv c)

theorem Tail.plain (t : Tail) : ∀ c ∈ t.text, Plain c := by
  refine plain_append (plain_qualifier t.qualifier) fun c hc => ?_
  rw [List.mem_singleton.1 hc]
  exact plain_of_letter t.convLetter.letter

theorem plain_star : ∀ c ∈ ['*'.toUInt8], Plain c := by
  intro c hc
  rw [List.mem_singleton.1 hc]
  exact ⟨by decide, by decide⟩

theorem plain_dotStar : ∀ c ∈ ['.'.toUInt8, '*'.toUInt8], Plain c := by
  intro c hc
  rcases List.mem_cons.1 hc with rfl | hc
  · exact ⟨by decide, by decide⟩
  · exact plain_star c hc

theorem PrecisionPart.plain (p : PrecisionPart) : ∀ c ∈ p.text, Plain c := by
  cases p with
  | literal p => exact plain_precision p
  | star => exact plain_dotStar

theorem WidthPart.plain (w : WidthPart) : ∀ c ∈ w.text, Plain c := by
  cases w with
  | literal w => exact plain_width w
  | star => exact plain_star

namespace Site

theorem plain_literal (x : Site) : ∀ c ∈ x.literal, Plain c := by
  cases x with
  | width fs w p t =>
    exact plain_append (plain_flags fs) (plain_append (plain_width _) (plain_append p.plain t.plain))
  | minus fs fs' w p t =>
    exact plain_append (plain_flags _) (plain_append (plain_width _) (plain_append p.plain t.plain))
  | precision fs w p t =>
    exact plain_append (plain_flags fs) (plain_append w.plain (plain_append (plain_precision _) t.plain))

theorem plain_starred (x : Site) : ∀ c ∈ x.starred, Plain c := by
  cases x with
  | width fs w p t =>
    exact plain_append (plain_flags fs) (plain_append plain_star (plain_append p.plain t.plain))
  | minus fs fs' w p t =>
    exact plain_append (plain_flags _) (plain_append plain_star (plain_append p.plain t.plain))
  | precision fs w p t =>
    exact plain_append (plain_flags fs) (plain_append w.plain (plain_append plain_dotStar t.plain))

theorem plain_remains (x : Site) : ∀ c ∈ x.remains, Plain c := by
  cases x with
  | width fs w p t => exact plain_append p.plain t.plain
  | minus fs fs' w p t => exact plain_append p.plain t.plain
  | precision fs w p t =>
    cases w with
    | literal w => exact t.plain
    | star => exact plain_append plain_dotStar t.plain

end Site

/-- `%*`, and then plain text. -/
def Vst.putStar (s : Vst) (t : List UInt8) : Vst :=
  { s with text := s.text ++ (['%'.toUInt8, '*'.toUInt8] ++ t), pos := s.pos + 1 }

theorem Reaches.afterStar {env : Env} {s : Vst} {body t l : List UInt8}
    (h : directive env s body = some ({ s with text := s.text ++ ['%'.toUInt8, '*'.toUInt8], pos := s.pos + 1 }, t ++ l))
    (ht : ∀ c ∈ t, Plain c) : Reaches env s ('%'.toUInt8 :: body) (s.putStar t) l := by
  have hround : round env s ('%'.toUInt8 :: body) =
      some ({ s with text := s.text ++ ['%'.toUInt8, '*'.toUInt8], pos := s.pos + 1 }, t ++ l) := h
  refine .step hround ?_
  have hput : s.putStar t =
      Vst.put { s with text := s.text ++ ['%'.toUInt8, '*'.toUInt8], pos := s.pos + 1 } t := by
    simp [Vst.put, Vst.putStar]
  rw [hput]
  exact .plain env ht _ l

/-- The directive with the `*` is written as it stands, without its flags and what is in front of the `*`. -/
theorem Site.starred_run (x : Site) (env : Env) (s : Vst) (l : List UInt8) :
    Reaches env s ('%'.toUInt8 :: (x.starred ++ l)) (s.putStar x.remains) l := by
  refine .afterStar ?_ x.plain_remains
  cases x with
  | width fs w p t =>
    rw [← directive_star env s fs]
    simp [Site.starred, Site.remains]
  | minus fs fs' w p t =>
    rw [← directive_star env s (fs ++ fs')]
    simp [Site.starred, Site.remains]
  | precision fs w p t =>
    cases w with
    | literal w =>
      rw [← directive_dotStar env s fs w]
      simp [Site.starred, Site.remains, WidthPart.text]
    | star =>
      rw [← directive_star env s fs]
      simp [Site.starred, Site.remains, WidthPart.text]

/-! ## The directive with the literal -/

/-- Texts that differ, whatever follows them. -/
def Apart (u v : List UInt8) : Prop := ∀ x y, u ++ x ≠ v ++ y

theorem apart_head {a b : UInt8} (h : a ≠ b) (u v : List UInt8) : Apart (a :: u) (b :: v) :=
  fun _ _ heq => h (List.cons.inj heq).1

theorem Apart.cons {u v : List UInt8} (h : Apart u v) (a : UInt8) : Apart (a :: u) (a :: v) :=
  fun x y heq => h x y (List.cons.inj heq).2

theorem apart_of_starts {P : UInt8 → Prop} {u : List UInt8} (hne : u ≠ []) (h : Starts P u) {b : UInt8} (hb : ¬ P b)
    (v : List UInt8) : Apart u (b :: v) := by
  obtain ⟨a, u, rfl⟩ := List.exists_cons_of_ne_nil hne
  refine apart_head ?_ u v
  rintro rfl
  exact hb (h a rfl)

theorem Tail.starts (t : Tail) : Starts (64 < ·) t.text := starts_qualifier t.qualifier t.convLetter.letter []

theorem Tail.ne_nil (t : Tail) : t.text ≠ [] := by simp [Tail.text]

/-- With a `*` in its other field the directive goes wrong as well, in another way. -/
structure Site.Broken (x : Site) (t : List UInt8) : Prop where
  apart : Apart t x.remains
  run : ∀ env s l, Reaches env s ('%'.toUInt8 :: (x.literal ++ l)) (s.putStar t) l

theorem directive_tail (env : Env) (s : Vst) (fs : List FlagChar) (w : Option Width) (p : Option Precision) (t : Tail)
    (l : List UInt8) : ∃ d : Spec, d.pos = s.pos ∧
      directive env s (fs.map FlagChar.char ++ (widthText w ++ (precisionText p ++ t.text)) ++ l) = convert env s d (t.conv :: l) := by
  have htext : fs.map FlagChar.char ++ (widthText w ++ (precisionText p ++ t.text)) ++ l =
      fs.map FlagChar.char ++ (widthText w ++ (precisionText p ++ (qualifierText t.qualifier ++ t.conv :: l))) := by
    simp [Tail.text]
  rw [htext, directive_text env s fs w p t.qualifier t.convLetter l]
  exact ⟨_, rfl, rfl⟩

theorem Site.literal_cases (x : Site) :
    (x.place = 0 ∧
        ∀ env s l, ∃ d : Spec, d.pos = s.pos ∧ directive env s (x.literal ++ l) = convert env s d (x.conv :: l)) ∨
      ∃ t, x.Broken t := by
  have hbeside : ∀ t : Tail, Apart t.text ('.'.toUInt8 :: '*'.toUInt8 :: t.text) :=
    fun t => apart_of_starts t.ne_nil t.starts (by decide) _
  cases x with
  | width fs w p t =>
    cases p with
    | literal p => exact .inl ⟨rfl, fun env s l => directive_tail env s fs (some w) p t l⟩
    | star =>
      refine .inr ⟨t.text, hbeside t, fun env s l => .afterStar ?_ t.plain⟩
      rw [← directive_dotStar env s fs (some w)]
      simp [Site.literal, PrecisionPart.text]
  | minus fs fs' w p t =>
    cases p with
    | literal p => exact .inl ⟨rfl, fun env s l => directive_tail env s (fs ++ .minus :: fs') (some w) p t l⟩
    | star =>
      refine .inr ⟨t.text, hbeside t, fun env s l => .afterStar ?_ t.plain⟩
      rw [← directive_dotStar env s (fs ++ .minus :: fs') (some w)]
      simp [Site.literal, PrecisionPart.text]
  | precision fs w p t =>
    cases w with
    | literal w => exact .inl ⟨rfl, fun env s l => directive_tail env s fs w (some p) t l⟩
    | star =>
      refine .inr ⟨precisionText (some p) ++ t.text, ?_, fun env s l => .afterStar ?_ ?_⟩
      · -- both go on with a `.`; a digit or a letter, and a `*` follow
        have hstart : Starts (· ≠ '*'.toUInt8) (p.digits.map digitByte ++ t.text) := by
          intro c hc
          cases hds : p.digits with
          | nil =>
            rw [hds] at hc
            exact ne_of_letter (t.starts c hc) (by decide)
          | cons d ds =>
            rw [hds] at hc
            cases hc
            intro heq
            have hdigit := (digitByte_facts d).1
            rw [heq] at hdigit
            cases hdigit
        have hne : p.digits.map digitByte ++ t.text ≠ [] := fun h => t.ne_nil (List.append_eq_nil_iff.1 h).2
        exact (apart_of_starts hne hstart (fun h => h rfl) t.text).cons '.'.toUInt8
      · rw [← directive_star env s fs]
        simp [Site.literal, WidthPart.text]
      · exact plain_append (plain_precision _) t.plain

/-! ## The texts of conversions -/

theorem percent_not_mem_signOf (num : UInt32) (type : Flags) : '%'.toUInt8 ∉ signOf num type := by
  unfold signOf
  split
  · decide
  · split
    · decide
    · split
      · decide
      · exact List.not_mem_nil

theorem percent_not_mem_baseOf (base : Nat) (type : Flags) : '%'.toUInt8 ∉ baseOf base type := by
  unfold baseOf
  split
  · split
    · decide
    · split
      · cases type.small <;> decide
      · exact List.not_mem_nil
  · exact List.not_mem_nil

theorem digits_ne_percent (small : Bool) (d : Nat) : (digits small).getD d 0 ≠ '%'.toUInt8 := by
  by_cases hd : d < 36
  · cases small <;> (revert d; decide)
  · have hlen : (digits small).length ≤ d := by
      have h36 : (digits small).length = 36 := by cases small <;> rfl
      omega
    rw [List.getD_eq_default _ _ hlen]
    decide

theorem percent_not_mem_post {lo n : Int32} {a : UInt8} (ha : '%'.toUInt8 ≠ a) : '%'.toUInt8 ∉ (post lo a n).1 :=
  fun h => ha (mem_post h)

theorem percent_not_mem_place (tmp : List Nat) (num : UInt32) (base : Nat) (size precision : Int32) (type : Flags) :
    '%'.toUInt8 ∉ place tmp num base size precision type := by
  have hspace : '%'.toUInt8 ≠ ' '.toUInt8 := by decide
  have hfill : '%'.toUInt8 ≠ if type.zeropad then '0'.toUInt8 else ' '.toUInt8 := by split <;> decide
  intro h
  simp only [place, List.mem_append] at h
  rcases h with (((((h | h) | h) | h) | h) | h) | h
  · split at h
    · cases h
    · exact percent_not_mem_post hspace h
  · exact percent_not_mem_signOf _ _ h
  · exact percent_not_mem_baseOf _ _ h
  · split at h
    · cases h
    · exact percent_not_mem_post hfill h
  · exact percent_not_mem_post (by decide) h
  · obtain ⟨d, -, hd⟩ := List.mem_map.1 h
    exact digits_ne_percent type.small d hd
  · exact percent_not_mem_post hspace h

theorem place_ne_nil {tmp : List Nat} (htmp : tmp ≠ []) (num : UInt32) (base : Nat) (size precision : Int32) (type : Flags) :
    place tmp num base size precision type ≠ [] := by
  simp [place, htmp]

/-- A number is never empty, and has no `%` in it. -/
theorem number_text (k : NumConv) (env : Env) (d : Spec) :
    (Conv.num k).text env d ≠ [] ∧ '%'.toUInt8 ∉ (Conv.num k).text env d := by
  rw [Conv.text, number_eq k.base_ok]
  exact ⟨place_ne_nil (digitsOf_ne_nil _ _) _ _ _ _ _, percent_not_mem_place _ _ _ _ _ _⟩

/-- Arguments without a `%` in them. -/
def Env.plain : Env := ⟨fun _ => 65, fun _ => ⟨[65], by decide⟩⟩

theorem plain_text (k : Conv) (d : Spec) : '%'.toUInt8 ∉ k.text .plain d := by
  have hspace : '%'.toUInt8 ≠ ' '.toUInt8 := by decide
  have harg : '%'.toUInt8 ∉ ([65] : List UInt8) := by decide
  cases k with
  | c =>
    intro h
    simp only [Conv.text, convChar, List.mem_append] at h
    rcases h with (h | h) | h
    · split at h
      · cases h
      · exact hspace (mem_pre h)
    · exact harg h
    · exact hspace (mem_pre h)
  | s =>
    intro h
    simp only [Conv.text, convStr, List.mem_append] at h
    rcases h with (h | h) | h
    · split at h
      · cases h
      · exact percent_not_mem_post hspace h
    · exact harg (List.mem_of_mem_take h)
    · exact percent_not_mem_post hspace h
  | num k => exact (number_text k .plain d).2

/-! ## The two formats -/

/-- What is in the buffer after `vsprintf`. -/
def output (env : Env) (format : List UInt8) : Option (List UInt8) := (vsprintf env format 0).map Result.buff

/-- A round of `vsprintf` starts at `rest`, with `k` arguments taken before: `rest` is the place of a directive. -/
def StartsRound (format rest : List UInt8) (k : Nat) : Prop :=
  ∃ env s, Reaches env ⟨[], 0, []⟩ format s rest ∧ s.pos = k

theorem output_reaches {env : Env} {l : List UInt8} {s' : Vst} (hnul : ∀ c ∈ l, c ≠ 0)
    (h : Reaches env ⟨[], 0, []⟩ l s' []) : output env l = some (s'.text ++ [0]) := by
  rw [output, vsprintf_reaches hnul h]
  rfl

section
variable {x : Site} {front rest : List UInt8} {k : Nat}

theorem no_nul (hnul : ∀ c ∈ front ++ rest, c ≠ 0) {body : List UInt8} (hbody : ∀ c ∈ body, Plain c) :
    ∀ c ∈ front ++ '%'.toUInt8 :: (body ++ rest), c ≠ 0 := by
  intro c hc
  rcases List.mem_append.1 hc with hc | hc
  · exact hnul c (List.mem_append_left _ hc)
  · rcases List.mem_cons.1 hc with rfl | hc
    · decide
    · rcases List.mem_append.1 hc with hc | hc
      · exact (hbody c hc).1
      · exact hnul c (List.mem_append_right _ hc)

/-- Both calls come to the directive in the same state; then the second one writes it as plain text. -/
theorem Site.both (hreach : StartsRound (front ++ '%'.toUInt8 :: (x.literal ++ rest)) ('%'.toUInt8 :: (x.literal ++ rest)) k)
    (env : Env) : ∃ s : Vst, s.pos = k ∧
      Reaches env ⟨[], 0, []⟩ (front ++ '%'.toUInt8 :: (x.literal ++ rest)) s ('%'.toUInt8 :: (x.literal ++ rest)) ∧
      Reaches (env.insert (k + x.place) x.arg) ⟨[], 0, []⟩ (front ++ '%'.toUInt8 :: (x.starred ++ rest))
        (s.putStar x.remains) rest := by
  obtain ⟨env₀, s₀, h₀, hk⟩ := hreach
  obtain ⟨s, hs, hpos⟩ := h₀.rerun env ⟨[], 0, []⟩
  have hsk : s.pos = k := by
    dsimp only at hpos
    omega
  refine ⟨s, hsk, hs, ?_⟩
  have hfront := hs.replace rfl (List.cons_ne_nil _ _) ('%'.toUInt8 :: (x.starred ++ rest))
  have hsame : ∀ i, 0 ≤ i → i < s.pos → (env.insert (k + x.place) x.arg).arg i = env.arg i :=
    fun i _ hi => if_pos (by omega)
  exact (hfront.congr hsame rfl).trans (x.starred_run _ s rest)

/-- The outputs differ as soon as the texts written for the directive do. -/
theorem output_ne_of_apart (hnul : ∀ c ∈ front ++ rest, c ≠ 0) {env env' : Env} {s sL : Vst} {u : List UInt8}
    (hlit : Reaches env ⟨[], 0, []⟩ (front ++ '%'.toUInt8 :: (x.literal ++ rest)) sL rest) (hu : sL.text = s.text ++ u)
    (hstar : Reaches env' ⟨[], 0, []⟩ (front ++ '%'.toUInt8 :: (x.starred ++ rest)) (s.putStar x.remains) rest)
    (hapart : Apart u (['%'.toUInt8, '*'.toUInt8] ++ x.remains)) :
    output env (front ++ '%'.toUInt8 :: (x.literal ++ rest)) ≠ output env' (front ++ '%'.toUInt8 :: (x.starred ++ rest)) := by
  obtain ⟨fL, hfL⟩ := Reaches.total env rest sL
  obtain ⟨fS, hfS⟩ := Reaches.total env' rest (s.putStar x.remains)
  obtain ⟨tL, -, htL, -, -⟩ := hfL.frame rfl
  obtain ⟨tS, -, htS, -, -⟩ := hfS.frame rfl
  rw [output_reaches (no_nul hnul x.plain_literal) (hlit.trans hfL),
    output_reaches (no_nul hnul x.plain_starred) (hstar.trans hfS)]
  intro heq
  have htext : fL.text = fS.text := List.append_cancel_right (Option.some.inj heq)
  rw [htL, htS, hu, Vst.putStar, List.append_assoc, List.append_assoc] at htext
  exact hapart tL tS (List.append_cancel_left htext)

/-- A conversion that writes nothing: the rest of the format is written the same way in both, so the outputs have
different lengths. -/
theorem output_ne_of_nil (hnul : ∀ c ∈ front ++ rest, c ≠ 0) {s sL : Vst} (hplace : x.place = 0) (hsk : s.pos = k)
    (hlit : Reaches .plain ⟨[], 0, []⟩ (front ++ '%'.toUInt8 :: (x.literal ++ rest)) sL rest) (hu : sL.text = s.text)
    (hpos : sL.pos = k + 1)
    (hstar : Reaches (Env.insert .plain (k + x.place) x.arg) ⟨[], 0, []⟩ (front ++ '%'.toUInt8 :: (x.starred ++ rest))
      (s.putStar x.remains) rest) :
    output .plain (front ++ '%'.toUInt8 :: (x.literal ++ rest)) ≠
      output (Env.insert .plain (k + x.place) x.arg) (front ++ '%'.toUInt8 :: (x.starred ++ rest)) := by
  obtain ⟨fL, hfL⟩ := Reaches.total .plain rest sL
  have hposS : (s.putStar x.remains).pos = sL.pos := by rw [hpos, ← hsk]; rfl
  obtain ⟨t, fS, ht, hfS, htS⟩ := hfL.frame hposS
  have hfS' : Reaches (Env.insert .plain (k + x.place) x.arg) (s.putStar x.remains) rest fS [] := by
    refine hfS.congr (fun i hlo _ => ?_) rfl
    rw [hposS] at hlo
    show (if i < k + x.place then _ else if i = k + x.place then _ else _) = _
    rw [if_neg (by omega), if_neg (by omega)]
    rfl
  rw [output_reaches (no_nul hnul x.plain_literal) (hlit.trans hfL),
    output_reaches (no_nul hnul x.plain_starred) (hstar.trans hfS')]
  intro heq
  have htext : fL.text = fS.text := List.append_cancel_right (Option.some.inj heq)
  have hlen := congrArg List.length htext
  rw [ht, htS, hu, Vst.putStar] at hlen
  simp only [List.length_append, List.length_cons, List.length_nil] at hlen
  omega

theorem apart_percent {u : List UInt8} (hne : u ≠ []) (hu : '%'.toUInt8 ∉ u) (v : List UInt8) :
    Apart u (['%'.toUInt8, '*'.toUInt8] ++ v) := by
  obtain ⟨a, u, rfl⟩ := List.exists_cons_of_ne_nil hne
  refine apart_head ?_ u _
  rintro rfl
  exact hu (List.mem_cons_self ..)

theorem Reaches.converted {env : Env} {s₀ s s' : Vst} {l body : List UInt8}
    (h : Reaches env s₀ l s ('%'.toUInt8 :: body)) (hdir : directive env s body = some (s', rest)) :
    Reaches env s₀ l s' rest :=
  h.trans (.step (show round env s ('%'.toUInt8 :: body) = some (s', rest) from hdir) (.refl s' rest))

/-- **A `*` never stands for a literal.** For every format and every place of a directive with a width or a precision in it: if
the width or precision is replaced by a `*` and inserted in the arguments, there are arguments for which the output is another
one; and so it is for a width with the flag `-` and a `*` with the negated width. If the conversion is one to a number, the
output is another one for all arguments. -/
theorem star_differs (x : Site) (hnul : ∀ c ∈ front ++ rest, c ≠ 0)
    (hreach : StartsRound (front ++ '%'.toUInt8 :: (x.literal ++ rest)) ('%'.toUInt8 :: (x.literal ++ rest)) k) :
    (∃ env, output env (front ++ '%'.toUInt8 :: (x.literal ++ rest)) ≠
        output (env.insert (k + x.place) x.arg) (front ++ '%'.toUInt8 :: (x.starred ++ rest))) ∧
      ∀ n : NumConv, x.conv = (Conv.num n).char → ∀ env, output env (front ++ '%'.toUInt8 :: (x.literal ++ rest)) ≠
        output (env.insert (k + x.place) x.arg) (front ++ '%'.toUInt8 :: (x.starred ++ rest)) := by
  rcases x.literal_cases with ⟨hplace, hdir⟩ | ⟨t, hbroken⟩
  · refine ⟨⟨.plain, ?_⟩, fun n hn env => ?_⟩
    · obtain ⟨s, hsk, hlit, hstar⟩ := x.both hreach .plain
      obtain ⟨d, hd, hdir⟩ := hdir .plain s rest
      cases convKind x.conv with
      | conv m hc =>
        rw [hc, convert_char] at hdir
        by_cases hu : m.text .plain d = []
        · refine output_ne_of_nil hnul hplace hsk (hlit.converted hdir) ?_ (congrArg (· + 1) hsk) hstar
          simp [Vst.putArg, hu]
        · exact output_ne_of_apart hnul (hlit.converted hdir) rfl hstar (apart_percent hu (plain_text m d) _)
      | store hc =>
        rw [hc, convert_store] at hdir
        exact output_ne_of_nil hnul hplace hsk (hlit.converted hdir) rfl (congrArg (· + 1) hsk) hstar
      | percent hc => exact absurd hc (ne_of_letter x.convLetter.letter (by decide))
      | other hc hp =>
        rw [convert_other hc hp] at hdir
        refine output_ne_of_apart hnul (hlit.converted hdir) rfl hstar (Apart.cons ?_ _)
        exact apart_head (ne_of_letter x.convLetter.letter (by decide)) _ _
    · obtain ⟨s, hsk, hlit, hstar⟩ := x.both hreach env
      obtain ⟨d, hd, hdir⟩ := hdir env s rest
      rw [hn, convert_char] at hdir
      obtain ⟨hne, hno⟩ := number_text n env d
      exact output_ne_of_apart hnul (hlit.converted hdir) rfl hstar (apart_percent hne hno _)
  · have hall : ∀ env, output env (front ++ '%'.toUInt8 :: (x.literal ++ rest)) ≠
        output (env.insert (k + x.place) x.arg) (front ++ '%'.toUInt8 :: (x.starred ++ rest)) := by
      intro env
      obtain ⟨s, -, hlit, hstar⟩ := x.both hreach env
      exact output_ne_of_apart hnul (hlit.trans (hbroken.run env s rest)) rfl hstar ((hbroken.apart.cons _).cons _)
    exact ⟨⟨.plain, hall _⟩, fun _ _ env => hall env⟩

end

/-- `%5d`, or `%*d`. -/
def fiveD : Site := .width [] ⟨5, [], by decide, by decide⟩ (.literal none) ⟨none, 'd'.toUInt8, ⟨by decide, by decide⟩⟩

/-- Every argument is 42. -/
def fortyTwo : Env := { Env.zero with arg := fun _ => 42 }

/-- `a%5d` and `a%*d`. -/
theorem star_differs_five :
    output fortyTwo ("a%5d".toList.map Char.toUInt8) ≠ output (fortyTwo.insert 0 5) ("a%*d".toList.map Char.toUInt8) := by
  have hreach : StartsRound (['a'.toUInt8] ++ '%'.toUInt8 :: (fiveD.literal ++ [])) ('%'.toUInt8 :: (fiveD.literal ++ [])) 0 :=
    ⟨.zero, _, .step rfl (.refl _ _), rfl⟩
  have hnul : ∀ c ∈ ['a'.toUInt8] ++ [], c ≠ 0 := by
    intro c hc
    rw [List.mem_singleton.1 hc]
    decide
  exact (star_differs fiveD hnul hreach).2 .d rfl fortyTwo

/-- `%5d` for 42 gives a field of five characters, `%*d` for 5 and 42 the text of the directive. -/
theorem star_written_out :
    output fortyTwo ("%5d".toList.map Char.toUInt8) = some ("   42\x00".toList.map Char.toUInt8) ∧
      output (fortyTwo.insert 0 5) ("%*d".toList.map Char.toUInt8) = some ("%*d\x00".toList.map Char.toUInt8) := by
  let d : Directive := ⟨[], some ⟨5, [], by decide, by decide⟩, none, none, .num .d⟩
  have hformat : "%5d".toList.map Char.toUInt8 = [Item.directive d].flatMap Item.text := by decide
  have htext : renderAll fortyTwo 0 [.directive d] = layout 42 10 5 0 (d.numberFlags .d) :=
    (List.append_nil _).trans (d.numberText_layout .d 42 (by decide))
  refine ⟨?_, by decide⟩
  rw [hformat, output, vsprintf_items, Option.map_some, htext]
  decide

end RedMagic.Printk
