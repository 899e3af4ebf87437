import Mathlib.Data.List.Basic
import Mathlib.Data.UInt
import RedMagic.Lib.CString
import RedMagic.Lib.Loop
import RedMagic.Mm.Basic

/-!
# Looking up a device by its name (src/string.c:67-80, src/device.c:48-57)

| here | there |
| --- | --- |
| `cmpRound`, `afterCmp`, `strcmp` | `strcmp` (`string.c:67-80`): its loop, what follows it, and the whole |
| `getDevByName` | `get_dev_by_name` (`device.c:48-57`), the index into `devices` |

The loop of `strcmp` moves both pointers on with the comparison that ends it, so the first difference is never looked
at again: what decides is whether the strings end right behind it. Two strings of one length that differ in the last
character are equal to `strcmp` (`compare_eq_zero`).
-/

namespace RedMagic.Dev

open Mm Loop CString

/-- The address behind another one. -/
def nextByte (p : Nat) : Nat := u32 (p + 1)

/-- `while (*str1 && *str2 && (*str1++ == *str2++))`, one round. -/
def cmpRound (m : Nat → UInt8) (c : Nat × Nat) : (Nat × Nat) ⊕ (Nat × Nat) :=
  if m c.1 ≠ 0 ∧ m c.2 ≠ 0 then
    if m c.1 = m c.2 then .inl (nextByte c.1, nextByte c.2) else .inr (nextByte c.1, nextByte c.2)
  else .inr c

def afterCmp (m : Nat → UInt8) (c : Nat × Nat) : Int :=
  if m c.1 = 0 ∧ m c.2 = 0 then 0 else if m c.1 = 0 then -1 else 1

/-- `strcmp`, with at most `fuel` rounds of its loop. -/
def strcmp (fuel : Nat) (m : Nat → UInt8) (str1 str2 : Nat) : Option Int :=
  (loop (cmpRound m) fuel (str1, str2)).map (afterCmp m)

/-- The loop of `get_dev_by_name` from index `i` on; `names` are the `name` pointers from there on. -/
def getDevFrom (fuel : Nat) (m : Nat → UInt8) (name : Nat) : Nat → List Nat → Option (Option Nat)
  | _, [] => some none
  | i, d :: devices =>
    (strcmp fuel m d name).bind fun r => if r = 0 then some (some i) else getDevFrom fuel m name (i + 1) devices

/-- The index of the device, or `none` for NULL. -/
def getDevByName (fuel : Nat) (m : Nat → UInt8) (devices : List Nat) (name : Nat) : Option (Option Nat) :=
  getDevFrom fuel m name 0 devices

/-! ## `strcmp` on strings -/

/-- What the end of `strcmp` makes of the rests of two strings. -/
def restCompare : List UInt8 → List UInt8 → Int
  | [], [] => 0
  | [], _ :: _ => -1
  | _ :: _, _ => 1

/-- `strcmp` on the strings themselves. -/
def compare : List UInt8 → List UInt8 → Int
  | a :: s, b :: t => if a = b then compare s t else restCompare s t
  | s, t => restCompare s t

/-- Two strings of one length that differ in the last character, and there only. -/
def LastDiffers (s t : List UInt8) : Prop := s ≠ t ∧ s.length = t.length ∧ s.dropLast = t.dropLast

instance (s t : List UInt8) : Decidable (LastDiffers s t) :=
  inferInstanceAs (Decidable (s ≠ t ∧ s.length = t.length ∧ s.dropLast = t.dropLast))

section
variable {m : Nat → UInt8} {p q : Nat} {s t : List UInt8}

theorem afterCmp_eq (hs : StringAt nextByte m p s) (ht : StringAt nextByte m q t) : afterCmp m (p, q) = restCompare s t := by
  cases hs with
  | nil hp =>
    cases ht with
    | nil hq => simp [afterCmp, restCompare, hp, hq]
    | cons hq hne _ => simp [afterCmp, restCompare, hp, hq, hne]
  | cons hp hne _ => simp [afterCmp, restCompare, hp, hne]

/-- With a round for each character of the first string, and one more, the loop ends. -/
theorem strcmp_eq {fuel : Nat} (hs : StringAt nextByte m p s) (ht : StringAt nextByte m q t) (hfuel : s.length < fuel) :
    strcmp fuel m p q = some (compare s t) := by
  induction hs generalizing q t fuel with
  | @nil p hp =>
    obtain ⟨n, rfl⟩ : ∃ n, fuel = n + 1 := ⟨fuel - 1, by simp only [List.length_nil] at hfuel; omega⟩
    have hend : cmpRound m (p, q) = .inr (p, q) := if_neg (by simp [hp])
    have hafter := afterCmp_eq (.nil hp) ht
    simp only [strcmp, loop, hend, Option.map_some, hafter]
    cases t <;> rfl
  | @cons p a s hp hne hs ih =>
    obtain ⟨n, rfl⟩ : ∃ n, fuel = n + 1 := ⟨fuel - 1, by omega⟩
    cases ht with
    | nil hq =>
      have hend : cmpRound m (p, q) = .inr (p, q) := if_neg (by simp [hq])
      have hafter := afterCmp_eq (.cons hp hne hs) (.nil hq)
      simp only [strcmp, loop, hend, Option.map_some, hafter]
      rfl
    | @cons _ b t hq hne' ht =>
      have hboth : m p ≠ 0 ∧ m q ≠ 0 := ⟨hp ▸ hne, hq ▸ hne'⟩
      by_cases hab : a = b
      · have hround : cmpRound m (p, q) = .inl (nextByte p, nextByte q) := by
          rw [cmpRound, if_pos hboth, if_pos (hp.trans (hab.trans hq.symm))]
        have hrest := ih ht (Nat.lt_of_succ_lt_succ hfuel)
        simp only [strcmp, loop, hround, compare, if_pos hab]
        exact hrest
      · -- both pointers are behind the difference
        have hround : cmpRound m (p, q) = .inr (nextByte p, nextByte q) := by
          rw [cmpRound, if_pos hboth, if_neg fun h => hab (hp.symm.trans (h.trans hq))]
        have hafter := afterCmp_eq hs ht
        simp only [strcmp, loop, hround, Option.map_some, hafter, compare, if_neg hab]

end

theorem restCompare_eq_zero {s t : List UInt8} : restCompare s t = 0 ↔ s = [] ∧ t = [] := by
  cases s with
  | nil => cases t <;> simp [restCompare]
  | cons a s => simp [restCompare]

theorem lastDiffers_cons {a : UInt8} {s t : List UInt8} : LastDiffers (a :: s) (a :: t) ↔ LastDiffers s t := by
  unfold LastDiffers
  cases s with
  | nil =>
    cases t with
    | nil => simp
    | cons b t => simp
  | cons b s =>
    cases t with
    | nil => simp
    | cons c t => simp

/-- Strings that begin differently: only single characters differ in the last one alone. -/
theorem lastDiffers_of_ne {a b : UInt8} (hab : a ≠ b) {s t : List UInt8} :
    LastDiffers (a :: s) (b :: t) ↔ s = [] ∧ t = [] := by
  unfold LastDiffers
  cases s with
  | nil =>
    cases t with
    | nil => simp [hab]
    | cons c t => simp
  | cons c s =>
    cases t with
    | nil => simp
    | cons d t => simp [hab]

theorem compare_eq_zero (s t : List UInt8) : compare s t = 0 ↔ s = t ∨ LastDiffers s t := by
  fun_induction compare s t with
  | case1 a s t ih =>
    rw [ih, lastDiffers_cons, List.cons_inj_right]
  | case2 a s b t hab =>
    rw [restCompare_eq_zero, lastDiffers_of_ne hab]
    simp [hab]
  | case3 s t h =>
    rw [restCompare_eq_zero]
    cases s with
    | nil =>
      cases t with
      | nil => simp
      | cons b t => simp [LastDiffers]
    | cons a s =>
      cases t with
      | nil => simp [LastDiffers]
      | cons b t => exact absurd rfl (h a s b t rfl)

/-! ## The table -/

/-- A name that the search stops at. -/
def Stops (s x : List UInt8) : Prop := x = s ∨ LastDiffers x s

instance (s x : List UInt8) : Decidable (Stops s x) := inferInstanceAs (Decidable (x = s ∨ LastDiffers x s))

section
variable {m : Nat → UInt8} {name : Nat} {s : List UInt8}

/-- The search returns the first device whose name it stops at. -/
theorem getDevFrom_eq {fuel : Nat} (hs : StringAt nextByte m name s) {devices : List Nat} {names : List (List UInt8)}
    (hnames : List.Forall₂ (StringAt nextByte m) devices names) (hfuel : ∀ x ∈ names, x.length < fuel) (i : Nat) :
    getDevFrom fuel m name i devices = some ((names.findIdx? fun x => Stops s x).map (i + ·)) := by
  induction hnames generalizing i with
  | nil => rfl
  | @cons d x devices names hd _ ih =>
    have hcmp := strcmp_eq hd hs (hfuel x List.mem_cons_self)
    rw [getDevFrom, hcmp, Option.bind_some, List.findIdx?_cons]
    by_cases hstop : Stops s x
    · rw [if_pos ((compare_eq_zero x s).2 hstop)]
      simp [hstop]
    · rw [if_neg fun h => hstop ((compare_eq_zero x s).1 h), ih fun y hy => hfuel y (List.mem_cons_of_mem _ hy)]
      simp [hstop, Function.comp_def, Nat.add_assoc, Nat.add_comm 1]

theorem getDevByName_eq {fuel : Nat} (hs : StringAt nextByte m name s) {devices : List Nat} {names : List (List UInt8)}
    (hnames : List.Forall₂ (StringAt nextByte m) devices names) (hfuel : ∀ x ∈ names, x.length < fuel) :
    getDevByName fuel m devices name = some (names.findIdx? fun x => Stops s x) := by
  have hfrom := getDevFrom_eq hs hnames hfuel 0
  simpa [getDevByName] using hfrom

end

/-- The answer that a lookup should give: the device of exactly that name, or none. -/
def Exact (names : List (List UInt8)) (s : List UInt8) (r : Option Nat) : Prop := ∀ i, r = some i ↔ names[i]? = some s

/-- No name that differs from the one asked for in the last character alone stands before it. -/
def Unshadowed (names : List (List UInt8)) (s : List UInt8) : Prop :=
  ∀ (i : Nat) (x : List UInt8), names[i]? = some x → LastDiffers x s → ∃ j < i, names[j]? = some s

theorem exact_iff {names : List (List UInt8)} (hnodup : names.Nodup) (s : List UInt8) :
    Exact names s (names.findIdx? fun x => Stops s x) ↔ Unshadowed names s := by
  constructor
  · intro hexact i x hx hdiff
    obtain ⟨k, hk⟩ : ∃ k, (names.findIdx? fun x => Stops s x) = some k := by
      refine Option.isSome_iff_exists.1 (List.findIdx?_isSome.trans (List.any_eq_true.2 ⟨x, ?_, ?_⟩))
      · exact List.mem_of_getElem? hx
      · exact decide_eq_true (.inr hdiff)
    have hname := (hexact k).1 hk
    have hle : k ≤ i := by
      by_contra hlt
      obtain ⟨_, _, hbefore⟩ := List.findIdx?_eq_some_iff_getElem.1 hk
      have hnot := hbefore i (by omega)
      rw [(List.getElem?_eq_some_iff.1 hx).2] at hnot
      exact hnot (decide_eq_true (.inr hdiff))
    refine ⟨k, Nat.lt_of_le_of_ne hle fun hki => ?_, hname⟩
    rw [hki, hx] at hname
    exact hdiff.1 (Option.some.inj hname)
  · intro hfirst i
    cases hk : names.findIdx? fun x => Stops s x with
    | none =>
      have hnone := List.findIdx?_eq_none_iff.1 hk
      constructor
      · rintro ⟨⟩
      · intro hname
        exact absurd (hnone s (List.mem_of_getElem? hname)) (by simp [Stops])
    | some k =>
      obtain ⟨hlt, hstop, hbefore⟩ := List.findIdx?_eq_some_iff_getElem.1 hk
      have hget : names[k]? = some names[k] := List.getElem?_eq_getElem hlt
      have hname : names[k]? = some s := by
        rcases of_decide_eq_true hstop with heq | hdiff
        · rw [hget, heq]
        · -- the name asked for would stand before, and the search would have stopped there
          obtain ⟨j, hjk, hj⟩ := hfirst k _ hget hdiff
          refine absurd ?_ (hbefore j hjk)
          rw [(List.getElem?_eq_some_iff.1 hj).2]
          exact decide_eq_true (.inl rfl)
      constructor
      · rintro ⟨⟩
        exact hname
      · intro hi
        exact congrArg some ((List.getElem?_inj hlt hnodup).1 (hname.trans hi.symm))

/-- `strcmp` tells two strings apart exactly when they do not differ in the last character alone, and the lookup is exact
exactly when no such neighbour of the name stands before it in the table. -/
theorem name_lookup_exact (m : Nat → UInt8) :
    (∀ p q s t, StringAt nextByte m p s → StringAt nextByte m q t →
      ∃ r, (∀ fuel, s.length < fuel → strcmp fuel m p q = some r) ∧ ((r = 0 ↔ s = t) ↔ ¬ LastDiffers s t)) ∧
    ∀ devices names name s, List.Forall₂ (StringAt nextByte m) devices names → names.Nodup →
      StringAt nextByte m name s →
      ∃ r, (∀ fuel, (∀ x ∈ names, x.length < fuel) → getDevByName fuel m devices name = some r) ∧
        (Exact names s r ↔ Unshadowed names s) := by
  refine ⟨fun p q s t hs ht => ?_, fun devices names name s hnames hnodup hs => ?_⟩
  · refine ⟨compare s t, fun fuel hfuel => strcmp_eq hs ht hfuel, ?_⟩
    rw [compare_eq_zero]
    have hne : LastDiffers s t → s ≠ t := And.left
    tauto
  · exact ⟨_, fun fuel hfuel => getDevByName_eq hs hnames hfuel, exact_iff hnodup s⟩

/-- The names of the kernel's own table and the name of a second disk, one behind the other. -/
def diskNames (a : Nat) : UInt8 :=
  [0x72, 0x61, 0x6d, 0x66, 0x73, 0, 0x68, 0x64, 0x61, 0, 0x68, 0x64, 0x62, 0].getD (a - 0x1000) 0

def ramfsName : List UInt8 := [0x72, 0x61, 0x6d, 0x66, 0x73]
def hdaName : List UInt8 := [0x68, 0x64, 0x61]
def hdbName : List UInt8 := [0x68, 0x64, 0x62]

theorem diskNames_strings : List.Forall₂ (StringAt nextByte diskNames) [0x1000, 0x1006] [ramfsName, hdaName] ∧
    StringAt nextByte diskNames 0x100a hdbName :=
  ⟨.cons (stringAt_of_read (n := 6) (by decide)) (.cons (stringAt_of_read (n := 4) (by decide)) .nil),
    stringAt_of_read (n := 4) (by decide)⟩

/-- Asking for `hda` by its own name. -/
theorem name_lookup_exact_hda :
    (∃ r, (∀ fuel, 5 < fuel → strcmp fuel diskNames 0x1000 0x1006 = some r) ∧
      ((r = 0 ↔ ramfsName = hdaName) ↔ ¬ LastDiffers ramfsName hdaName)) ∧
    ∃ r, (∀ fuel, (∀ x ∈ [ramfsName, hdaName], x.length < fuel) →
        getDevByName fuel diskNames [0x1000, 0x1006] 0x1006 = some r) ∧
      (Exact [ramfsName, hdaName] hdaName r ↔ Unshadowed [ramfsName, hdaName] hdaName) := by
  have hramfs : StringAt nextByte diskNames 0x1000 ramfsName := stringAt_of_read (n := 6) (by decide)
  have hhda : StringAt nextByte diskNames 0x1006 hdaName := stringAt_of_read (n := 4) (by decide)
  exact ⟨(name_lookup_exact diskNames).1 _ _ _ _ hramfs hhda,
    (name_lookup_exact diskNames).2 _ _ _ _ diskNames_strings.1 (by decide) hhda⟩

/-- `get_dev_by_name("hdb")` is the device `hda`. -/
theorem name_lookup_finds_neighbour : strcmp 4 diskNames 0x1006 0x100a = some 0 ∧ hdaName ≠ hdbName ∧
    getDevByName 6 diskNames [0x1000, 0x1006] 0x100a = some (some 1) ∧ [ramfsName, hdaName][1]? ≠ some hdbName ∧
    List.Forall₂ (StringAt nextByte diskNames) [0x1000, 0x1006] [ramfsName, hdaName] ∧
    StringAt nextByte diskNames 0x100a hdbName :=
  ⟨by decide, by decide, by decide, by decide, diskNames_strings⟩

end RedMagic.Dev
