import Mathlib.Data.List.Basic
import RedMagic.Mp.Basic

/-!
# The scan of the configuration table (src/mproc.c:128-176)

The table as a format: after its header stand entries of five types, each where the one before it ends.
`IsTable m e p es` says that the bytes from `p` up to `e` are the entries `es`. The loop of `init_mp` is sound
and complete for it: it ends exactly on tables, with the entries taken one after the other (`Scan.take`).
-/

namespace RedMagic.Mp

open Mm Loop

/-! ## The format -/

inductive MpEntry where
  | proc (apicid flags : Nat)
  | bus
  | ioapic (apicno : Nat)
  | iointr
  | lintr
deriving DecidableEq, Repr

def MpEntry.type : MpEntry → EntryType
  | .proc _ _ => .proc
  | .bus => .bus
  | .ioapic _ => .ioapic
  | .iointr => .iointr
  | .lintr => .lintr

def MpEntry.size (x : MpEntry) : Nat := x.type.size

/-- The id and the flags of a processor entry. -/
def MpEntry.proc? : MpEntry → Option (Nat × Nat)
  | .proc apicid flags => some (apicid, flags)
  | _ => none

def procs (es : List MpEntry) : List (Nat × Nat) := es.filterMap MpEntry.proc?

def readEntry (m : Image) (p : Nat) : EntryType → MpEntry
  | .proc => .proc (byteAt m (p + 1)) (byteAt m (p + 3))
  | .bus => .bus
  | .ioapic => .ioapic (byteAt m (p + 1))
  | .iointr => .iointr
  | .lintr => .lintr

/-- The entry at `p`, if its type is known. -/
def entryAt (m : Image) (p : Nat) : Option MpEntry := (entryType (byteAt m p)).map (readEntry m p)

/-- The entries `es` lead from `p` to `q`, all of them beginning before `e`. -/
inductive Walk (m : Image) (e : Nat) : Nat → List MpEntry → Nat → Prop
  | refl (p : Nat) : Walk m e p [] p
  | cons {p q : Nat} {x : MpEntry} {es : List MpEntry} (hp : p < e) (hx : entryAt m p = some x)
      (h : Walk m e (u32 (p + x.size)) es q) : Walk m e p (x :: es) q

def IsTable (m : Image) (e p : Nat) (es : List MpEntry) : Prop := ∃ q, Walk m e p es q ∧ ¬ q < e

variable {m : Image} {e p q : Nat} {s t : Scan} {x : MpEntry} {es : List MpEntry}

@[simp] theorem procs_nil : procs [] = [] := rfl

theorem procs_cons (x : MpEntry) (es : List MpEntry) : procs (x :: es) = x.proc?.toList ++ procs es := by
  cases x <;> rfl

theorem IsTable.nil (hp : ¬ p < e) : IsTable m e p [] := ⟨p, .refl p, hp⟩

theorem IsTable.cons (hp : p < e) (hx : entryAt m p = some x) (h : IsTable m e (u32 (p + x.size)) es) :
    IsTable m e p (x :: es) := by
  obtain ⟨q, hw, hq⟩ := h
  exact ⟨q, .cons hp hx hw, hq⟩

/-- The entries from a position are determined by the bytes. -/
theorem IsTable.unique {es' : List MpEntry} (h : IsTable m e p es) (h' : IsTable m e p es') : es = es' := by
  obtain ⟨q, hw, hq⟩ := h
  obtain ⟨q', hw', hq'⟩ := h'
  induction hw generalizing es' with
  | refl p =>
    cases hw' with
    | refl => rfl
    | cons hp => exact absurd hp hq
  | cons hp hx _ ih =>
    cases hw' with
    | refl => exact absurd hp hq'
    | cons _ hx' hw' =>
      rw [hx] at hx'
      cases hx'
      rw [ih hq hw']

/-- A walk inside a table can be continued to its end. -/
theorem Walk.split {es₁ : List MpEntry} (h₁ : Walk m e p es₁ q) (h : IsTable m e p es) :
    ∃ es₂, es = es₁ ++ es₂ ∧ IsTable m e q es₂ := by
  induction h₁ generalizing es with
  | refl p => exact ⟨es, rfl, h⟩
  | cons hp hx _ ih =>
    obtain ⟨q', hw, hq'⟩ := h
    cases hw with
    | refl => exact absurd hp hq'
    | cons _ hx' hw =>
      rw [hx] at hx'
      cases hx'
      obtain ⟨es₂, rfl, h₂⟩ := ih ⟨q', hw, hq'⟩
      exact ⟨es₂, rfl, h₂⟩

/-! ## One round -/

/-- What the loop does with one entry. -/
def Scan.take (s : Scan) : MpEntry → Scan
  | .proc apicid flags =>
    { p := u32 (s.p + EntryType.proc.size), ncpu := s.ncpu + 1, ismp := if s.ncpu ≠ apicid then 0 else s.ismp,
      g := { s.g with
        cpuset := Function.update s.g.cpuset s.ncpu (procRecord (s.g.cpuset s.ncpu) apicid flags) } }
  | .ioapic apicno => { s with p := u32 (s.p + EntryType.ioapic.size), g := { s.g with ioapicId := apicno } }
  | x => { s with p := u32 (s.p + x.size) }

theorem Scan.take_p (s : Scan) (x : MpEntry) : (s.take x).p = u32 (s.p + x.size) := by
  cases x <;> rfl

theorem Scan.take_ncpu (s : Scan) (x : MpEntry) : (s.take x).ncpu = s.ncpu + x.proc?.toList.length := by
  cases x <;> rfl

theorem scanRound_end (h : ¬ s.p < e) : scanRound m e s = .inr s := by
  rw [scanRound, if_neg h]

theorem scanRound_unknown (h : s.p < e) (hx : entryAt m s.p = none) : scanRound m e s = .inl { s with ismp := 0 } := by
  have hty : entryType (byteAt m s.p) = none := by
    simpa [entryAt] using hx
  rw [scanRound, if_pos h, hty]

theorem scanRound_entry (h : s.p < e) (hx : entryAt m s.p = some x) : scanRound m e s = .inl (s.take x) := by
  obtain ⟨ty, hty, rfl⟩ := Option.map_eq_some_iff.1 hx
  rw [scanRound, if_pos h, hty]
  cases ty <;> rfl

/-! ## The loop is complete and sound for the format -/

theorem scan_complete (h : IsTable m e s.p es) : Ends (scanRound m e) s (es.foldl Scan.take s) := by
  induction es generalizing s with
  | nil =>
    obtain ⟨q, hw, hq⟩ := h
    cases hw
    exact .done (scanRound_end hq)
  | cons x es ih =>
    obtain ⟨q, hw, hq⟩ := h
    cases hw with
    | cons hp hx hw =>
      refine .again (scanRound_entry hp hx) (ih ?_)
      rw [Scan.take_p]
      exact ⟨q, hw, hq⟩

/-- The loop ends on tables only: an entry of another type keeps it where it is. -/
theorem scan_sound (h : Ends (scanRound m e) s t) : ∃ es, IsTable m e s.p es := by
  induction h with
  | @done s t h =>
    by_cases hp : s.p < e
    · cases hx : entryAt m s.p with
      | none =>
        rw [scanRound_unknown hp hx] at h
        cases h
      | some x =>
        rw [scanRound_entry hp hx] at h
        cases h
    · exact ⟨[], .nil hp⟩
  | @again s s' t h _ ih =>
    by_cases hp : s.p < e
    · cases hx : entryAt m s.p with
      | none =>
        -- the cursor stays, so the rest of the run would start at an unknown type again
        rw [scanRound_unknown hp hx] at h
        cases h
        exact ih
      | some x =>
        rw [scanRound_entry hp hx] at h
        cases h
        rw [Scan.take_p] at ih
        obtain ⟨es, htab⟩ := ih
        exact ⟨x :: es, .cons hp hx htab⟩
    · rw [scanRound_end hp] at h
      cases h

/-! ## What the entries leave in the variables -/

theorem take_all_ncpu (es : List MpEntry) (s : Scan) : (es.foldl Scan.take s).ncpu = s.ncpu + (procs es).length := by
  induction es generalizing s with
  | nil => rfl
  | cons x es ih => simp only [List.foldl_cons, ih, Scan.take_ncpu, procs_cons, List.length_append, Nat.add_assoc]

theorem take_all_lapicRegp (es : List MpEntry) (s : Scan) :
    (es.foldl Scan.take s).g.lapicRegp = s.g.lapicRegp := by
  induction es generalizing s with
  | nil => rfl
  | cons x es ih =>
    rw [List.foldl_cons, ih]
    cases x <;> rfl

/-- The processor entries carry the ids `n`, `n + 1`, … in this order. -/
def NumberedFrom (n : Nat) (es : List MpEntry) : Prop := (procs es).map (·.1) = List.range' n (procs es).length

instance (n : Nat) (es : List MpEntry) : Decidable (NumberedFrom n es) :=
  inferInstanceAs (Decidable ((procs es).map (·.1) = List.range' n (procs es).length))

theorem take_all_ismp (es : List MpEntry) (s : Scan) :
    (es.foldl Scan.take s).ismp ≠ 0 ↔ s.ismp ≠ 0 ∧ NumberedFrom s.ncpu es := by
  induction es generalizing s with
  | nil => simp [NumberedFrom]
  | cons x es ih =>
    rw [List.foldl_cons, ih]
    cases x with
    | proc apicid flags =>
      by_cases heq : s.ncpu = apicid
      · simp [Scan.take, heq, NumberedFrom, procs_cons, MpEntry.proc?, List.range'_succ]
      · simp [Scan.take, heq, NumberedFrom, procs_cons, MpEntry.proc?, List.range'_succ, Ne.symm heq]
    | _ => simp [Scan.take, NumberedFrom, procs_cons, MpEntry.proc?]

/-! ## The results of `init_mp` -/

variable {inb : Nat → Nat} {g : Globals} {mp conf : Nat}

/-- The variables after the scan of the table. -/
def scanned (m : Image) (conf : Nat) (g : Globals) (es : List MpEntry) : Scan := es.foldl Scan.take (scanStart m conf g)

/-- The entries of the configuration table. -/
def TableEntries (m : Image) (conf : Nat) (es : List MpEntry) : Prop :=
  IsTable m (tableEnd m conf) (tableStart conf) es

/-- `init_mp` returns exactly on tables. -/
theorem initMp_returns (h : mpconfig m = some (mp, conf)) {r : Int × Globals} :
    (∃ fuel, initMp fuel m inb g = some r) ↔
      ∃ es, TableEntries m conf es ∧ afterScan m inb mp (scanned m conf g es) = r := by
  have hinit : ∀ fuel, initMp fuel m inb g =
      (loop (scanRound m (tableEnd m conf)) fuel (scanStart m conf g)).map (afterScan m inb mp) := by
    intro fuel
    rw [initMp, h]
  constructor
  · rintro ⟨fuel, hf⟩
    rw [hinit, Option.map_eq_some_iff] at hf
    obtain ⟨t, hloop, hr⟩ := hf
    have hends : Ends (scanRound m (tableEnd m conf)) (scanStart m conf g) t := ends_iff.2 ⟨fuel, hloop⟩
    obtain ⟨es, htab⟩ := scan_sound hends
    rw [hends.unique (scan_complete htab)] at hr
    exact ⟨es, htab, hr⟩
  · rintro ⟨es, htab, hr⟩
    obtain ⟨fuel, hloop⟩ := ends_iff.1 (scan_complete (s := scanStart m conf g) htab)
    refine ⟨fuel, ?_⟩
    rw [hinit, hloop, ← hr]
    rfl

/-! ## Unknown types and misnumbered processors -/

/-- The entries lead to one whose type is not known. -/
def UnknownType (m : Image) (conf : Nat) : Prop :=
  ∃ es q, Walk m (tableEnd m conf) (tableStart conf) es q ∧ q < tableEnd m conf ∧ entryAt m q = none

/-- The entries lead to a processor whose id is not its index. -/
def WrongApicid (m : Image) (conf : Nat) : Prop :=
  ∃ es q apicid flags, Walk m (tableEnd m conf) (tableStart conf) es q ∧ q < tableEnd m conf ∧
    entryAt m q = some (.proc apicid flags) ∧ apicid ≠ (procs es).length

/-- The fallback to one processor. -/
structure FellBack (r : Int × Globals) : Prop where
  ap : r.1 = 0
  ncpu : r.2.ncpu = 1
  ismp : r.2.ismp = 0
  lapicRegp : r.2.lapicRegp = 0
  ioapicId : r.2.ioapicId = 0

theorem afterScan_fellBack (h : t.ismp = 0) : FellBack (afterScan m inb mp t) := by
  rw [afterScan, if_pos h]
  exact ⟨rfl, rfl, rfl, rfl, rfl⟩

theorem TableEntries.not_unknown (h : TableEntries m conf es) : ¬ UnknownType m conf := by
  rintro ⟨es₁, q, hw, hq, hx⟩
  obtain ⟨es₂, -, q', hw₂, hq'⟩ := hw.split h
  cases hw₂ with
  | refl => exact hq' hq
  | cons _ hx' =>
    rw [hx] at hx'
    cases hx'

theorem TableEntries.misnumbered (h : TableEntries m conf es) (hw : WrongApicid m conf) : ¬ NumberedFrom 0 es := by
  obtain ⟨es₁, q, apicid, flags, hw, hq, hx, hne⟩ := hw
  obtain ⟨es₂, rfl, q', hw₂, hq'⟩ := hw.split h
  cases hw₂ with
  | refl => exact absurd hq hq'
  | @cons _ _ x es₃ _ hx' _ =>
    rw [hx] at hx'
    cases hx'
    intro hnum
    have hprocs : procs (es₁ ++ .proc apicid flags :: es₃) = procs es₁ ++ (apicid, flags) :: procs es₃ := by
      simp [procs, MpEntry.proc?]
    rw [NumberedFrom, hprocs] at hnum
    have hget := congrArg (fun l => l[(procs es₁).length]?) hnum
    simp only [List.map_append, List.map_cons] at hget
    rw [List.getElem?_append_right (by simp)] at hget
    simp only [List.length_map, Nat.sub_self, List.getElem?_cons_zero, List.length_append, List.length_cons] at hget
    rw [List.getElem?_range' (by omega)] at hget
    exact hne (by simpa using hget)

/-- What the scan of an accepted table should do: end, and fall back to one processor if it meets an
unknown type or a misnumbered processor. -/
def Scans (m : Image) (inb : Nat → Nat) (g : Globals) (conf : Nat) : Prop :=
  ∃ fuel r, initMp fuel m inb g = some r ∧ (UnknownType m conf ∨ WrongApicid m conf → FellBack r)

/-- **The scan of an accepted table ends exactly if the table is one**: entries of the five known types up
to its end, each where the one before it ends. -/
theorem mp_table_scans (m : Image) (inb : Nat → Nat) (g : Globals) {mp conf : Nat} (h : mpconfig m = some (mp, conf)) :
    Scans m inb g conf ↔ ∃ es, TableEntries m conf es := by
  constructor
  · rintro ⟨fuel, r, hr, -⟩
    obtain ⟨es, htab, -⟩ := (initMp_returns h).1 ⟨fuel, hr⟩
    exact ⟨es, htab⟩
  · rintro ⟨es, htab⟩
    have hreturns : ∃ fuel, initMp fuel m inb g = some (afterScan m inb mp (scanned m conf g es)) :=
      (initMp_returns h).2 ⟨es, htab, rfl⟩
    obtain ⟨fuel, hf⟩ := hreturns
    refine ⟨fuel, _, hf, ?_⟩
    rintro (hunknown | hwrong)
    · exact absurd hunknown htab.not_unknown
    · apply afterScan_fellBack
      have hnum := htab.misnumbered hwrong
      by_contra hismp
      exact hnum ((take_all_ismp es _).1 hismp).2

/-- The bytes placed at an address of an image. -/
def Image.put (m : Image) (a : Nat) (bytes : List UInt8) : Image :=
  fun b => if a ≤ b ∧ b < a + bytes.length then bytes.getD (b - a) 0 else m b

/-- The header of a table of length `len`, with the local APIC at its usual address. -/
def header (len sum : UInt8) : List UInt8 :=
  mpconfSignature ++ [len, 0, 4, sum] ++ List.replicate 28 0 ++ [0, 0, 0xE0, 0xFE] ++ [0, 0, 0, 0]

/-- An image whose floating pointer stands in the EBDA, at 0x9FC00, and its table at 0x9FD00; `sum` is the
table's checksum byte. -/
def firmware (sum : UInt8) (entries : List UInt8) : Image :=
  let blank : Image := fun _ => 0
  let bda := blank.put 0x40E [0xC0, 0x9F]
  let mpfp := bda.put 0x9FC00 (mpfpSignature ++ [0, 0xFD, 9, 0, 1, 4, 0x9A, 0, 0, 0, 0, 0])
  mpfp.put 0x9FD00 (header (44 + UInt8.ofNat entries.length) sum ++ entries)

/-- The bytes of a processor entry. -/
def procBytes (apicid flags : UInt8) : List UInt8 := [0, apicid, 0, flags] ++ List.replicate 16 0

/-- Two processors, of which the first is the boot processor, and a bus. -/
def twoProcs : Image := firmware 0x8C (procBytes 0 3 ++ procBytes 1 1 ++ [1, 0, 0, 0, 0, 0, 0, 0])

theorem twoProcs_config : mpconfig twoProcs = some (0x9FC00, 0x9FD00) := by decide +kernel

theorem twoProcs_entries : TableEntries twoProcs 0x9FD00 [.proc 0 3, .proc 1 1, .bus] := by
  refine .cons (by decide +kernel) (by decide +kernel) (.cons (by decide +kernel) (by decide +kernel) ?_)
  exact .cons (by decide +kernel) (by decide +kernel) (.nil (by decide +kernel))

theorem mp_table_scans_two_procs :
    mpconfig twoProcs = some (0x9FC00, 0x9FD00) ∧ Scans twoProcs (fun _ => 0) bss 0x9FD00 :=
  ⟨twoProcs_config,
    (mp_table_scans twoProcs (fun _ => 0) bss twoProcs_config).2 ⟨_, twoProcs_entries⟩⟩

/-- A table whose only byte after the header is 5. -/
def unknownEntry : Image := firmware 0xBC [5]

/-- `mpconfig` accepts the table; the loop stays at its first entry. -/
theorem mp_table_scan_stays :
    mpconfig unknownEntry = some (0x9FC00, 0x9FD00) ∧ UnknownType unknownEntry 0x9FD00 ∧
      (∀ fuel, initMp fuel unknownEntry (fun _ => 0) bss = none) ∧
      ¬ Scans unknownEntry (fun _ => 0) bss 0x9FD00 := by
  have hconf : mpconfig unknownEntry = some (0x9FC00, 0x9FD00) := by decide +kernel
  have hstart : tableStart 0x9FD00 < tableEnd unknownEntry 0x9FD00 := by decide +kernel
  have hnone : entryAt unknownEntry (tableStart 0x9FD00) = none := by decide +kernel
  have hloop : ∀ fuel, loop (scanRound unknownEntry (tableEnd unknownEntry 0x9FD00)) fuel
      (scanStart unknownEntry 0x9FD00 bss) = none := by
    intro fuel
    rw [Option.eq_none_iff_forall_ne_some]
    intro r hr
    refine not_ends (I := fun u => u.p = tableStart 0x9FD00) rfl ?_ (ends_iff.2 ⟨fuel, hr⟩)
    intro u hu
    exact ⟨{ u with ismp := 0 }, scanRound_unknown (hu ▸ hstart) (hu ▸ hnone), hu⟩
  have hinit : ∀ fuel, initMp fuel unknownEntry (fun _ => 0) bss = none := by
    intro fuel
    rw [initMp, hconf]
    dsimp only
    rw [hloop]
    rfl
  refine ⟨hconf, ⟨[], _, .refl _, hstart, hnone⟩, hinit, ?_⟩
  rintro ⟨fuel, r, hr, -⟩
  rw [hinit] at hr
  cases hr

end RedMagic.Mp
