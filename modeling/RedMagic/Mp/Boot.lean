import Mathlib.Data.List.Range
import RedMagic.Mp.Table

/-!
# The record of the boot processor (src/cpu.c:22-65)

`init_bootstrap_processor` leaves `mpinfo`, `lapic_regp` and `cpuset` in one of three ways: without a table
`ncpu` is 0, after the fallback `ncpu` is 1 and `lapic_regp` is `NULL`, and a table that the scan likes gives
the records of its processors. Only in the last case can `get_processor` find the boot processor.
-/

namespace RedMagic.Mp

open Mm

variable {m : Image} {inb : Nat → Nat} {g : Globals} {mp conf idReg : Nat} {es : List MpEntry}

/-! ## The records of the table -/

/-- The record a processor entry leaves. -/
structure RecordOf (c : CpuState) (apicid flags : Nat) : Prop where
  procId : c.procId = apicid
  flagBsp : c.flagBsp = if flags &&& mpboot ≠ 0 then 1 else 0

theorem procRecord_recordOf (c : CpuState) (apicid flags : Nat) : RecordOf (procRecord c apicid flags) apicid flags := by
  constructor
  · rfl
  · unfold procRecord
    split <;> rfl

/-- The records of the processor entries stand from `n` on. -/
def Records (g : Globals) (n : Nat) (ps : List (Nat × Nat)) : Prop :=
  ∀ i x, ps[i]? = some x → RecordOf (g.cpuset (n + i)) x.1 x.2

theorem take_all_below (es : List MpEntry) (s : Scan) {n : Nat} (hn : n < s.ncpu) :
    (es.foldl Scan.take s).g.cpuset n = s.g.cpuset n := by
  induction es generalizing s with
  | nil => rfl
  | cons x es ih =>
    rw [List.foldl_cons, ih]
    · cases x with
      | proc apicid flags => exact Function.update_of_ne (Nat.ne_of_lt hn) _ _
      | _ => rfl
    · rw [Scan.take_ncpu]
      omega

theorem take_all_records (es : List MpEntry) (s : Scan) : Records (es.foldl Scan.take s).g s.ncpu (procs es) := by
  induction es generalizing s with
  | nil =>
    intro i x hx
    simp at hx
  | cons y es ih =>
    intro i x hx
    have hrest := ih (s.take y)
    rw [List.foldl_cons]
    cases y with
    | proc apicid flags =>
      cases i with
      | zero =>
        cases hx
        rw [Nat.add_zero, take_all_below es _ (Nat.lt_succ_self s.ncpu)]
        show RecordOf (Function.update s.g.cpuset s.ncpu _ s.ncpu) apicid flags
        rw [Function.update_self]
        exact procRecord_recordOf _ _ _
      | succ i =>
        have hi : s.ncpu + (i + 1) = (s.take (.proc apicid flags)).ncpu + i := by
          rw [Scan.take_ncpu, Nat.add_assoc]
          exact congrArg _ (Nat.add_comm i 1)
        rw [hi]
        exact hrest i x hx
    | _ => exact hrest i x hx

/-! ## Looking through the records -/

/-- A search by index finds what the search through the list finds. -/
theorem find?_range_eq_findIdx? {α : Type} (l : List α) {f : α → Bool} {q : Nat → Bool}
    (h : ∀ i x, l[i]? = some x → q i = f x) : (List.range l.length).find? q = l.findIdx? f := by
  induction l generalizing q with
  | nil => rfl
  | cons x l ih =>
    have h0 : q 0 = f x := h 0 x rfl
    have hrest := ih (q := q ∘ Nat.succ) fun i y hy => h (i + 1) y hy
    rw [List.length_cons, List.range_succ_eq_map, List.find?_cons, List.findIdx?_cons, h0, List.find?_map, hrest]
    cases f x <;> rfl

/-- In a list numbered from `n` the number of an element says where it is. -/
theorem find?_of_numbered {l : List (Nat × Nat)} {n : Nat} {f : Nat × Nat → Bool}
    (h : l.map (·.1) = List.range' n l.length) : (l.find? f).map (·.1) = (l.findIdx? f).map (n + ·) := by
  induction l generalizing n with
  | nil => rfl
  | cons x l ih =>
    rw [List.map_cons, List.length_cons, List.range'_succ] at h
    obtain ⟨h0, hrest⟩ := List.cons.inj h
    rw [List.find?_cons, List.findIdx?_cons]
    cases f x with
    | true => simp [h0]
    | false =>
      dsimp only
      rw [ih hrest]
      cases l.findIdx? f with
      | none => rfl
      | some i => simp [Nat.add_assoc, Nat.add_comm 1 i]

/-- The id of the first processor entry that carries `MPBOOT`. -/
def firstBoot (es : List MpEntry) : Option Nat := ((procs es).find? fun x => x.2 &&& mpboot != 0).map (·.1)

/-- The variables after `init_bootstrap_processor` hold the processors of the table. -/
structure Filled (g : Globals) (es : List MpEntry) : Prop where
  numbered : NumberedFrom 0 es
  ncpu : g.ncpu = (procs es).length
  records : Records g 0 (procs es)

theorem Filled.getBoot (h : Filled g es) : getBootProcessor g = firstBoot es := by
  have hfind : getBootProcessor g = (procs es).findIdx? fun x => x.2 &&& mpboot != 0 := by
    rw [getBootProcessor, h.ncpu]
    apply find?_range_eq_findIdx?
    intro i x hx
    rw [← Nat.zero_add i, (h.records i x hx).flagBsp]
    by_cases hb : x.2 &&& mpboot = 0 <;> simp [hb]
  rw [hfind, firstBoot, find?_of_numbered h.numbered]
  simp

theorem Filled.getProc (h : Filled g es) : getProcessor idReg g =
    ((procs es).find? fun x => x.1 == (lapicGetId idReg g % 2 ^ 32).toNat).map (·.1) := by
  have hfind : getProcessor idReg g = (procs es).findIdx? fun x => x.1 == (lapicGetId idReg g % 2 ^ 32).toNat := by
    rw [getProcessor, h.ncpu]
    apply find?_range_eq_findIdx?
    intro i x hx
    rw [← Nat.zero_add i, (h.records i x hx).procId]
  rw [hfind, find?_of_numbered h.numbered]
  simp

/-! ## The outcomes -/

/-- The boot processor has one record, and both functions find it. -/
def HasBootRecord (idReg : Nat) (g : Globals) : Prop :=
  ∃ n, getBootProcessor g = some n ∧ (g.cpuset n).flagBsp = 1 ∧ getProcessor idReg g = some n

/-- The boot processor's entry carries `MPBOOT`. -/
def BootEntry (idReg : Nat) (es : List MpEntry) : Prop :=
  ∃ flags, .proc (idReg >>> 24) flags ∈ es ∧ flags &&& mpboot ≠ 0

/-- The ways `init_bootstrap_processor` returns. -/
inductive Outcome (m : Image) (idReg : Nat) (g : Globals) : Prop
  | noTable (hconf : mpconfig m = none) (hncpu : g.ncpu = 0)
  | fallback (mp conf : Nat) (es : List MpEntry) (hconf : mpconfig m = some (mp, conf))
      (hes : TableEntries m conf es) (hnum : ¬ NumberedFrom 0 es) (hncpu : g.ncpu = 1) (hlapic : g.lapicRegp = 0)
      (hzero : (g.cpuset 0).procId = 0)
  | table (mp conf : Nat) (es : List MpEntry) (hconf : mpconfig m = some (mp, conf))
      (hes : TableEntries m conf es) (hlapic : g.lapicRegp = lapicaddr m conf)
      (hboot : BootEntry idReg es) (hfilled : Filled g es)

/-- With one processor the record is written over; it stays the one of the entry. -/
theorem filled_one (hnum : NumberedFrom 0 es) (hlen : (procs es).length = 1) (hboot : BootEntry idReg es)
    (hncpu : g.ncpu = 1) (hid : (g.cpuset 0).procId = 0) (hbsp : (g.cpuset 0).flagBsp = 1) : Filled g es := by
  obtain ⟨x, hx⟩ := List.length_eq_one_iff.1 hlen
  refine ⟨hnum, hncpu.trans hlen.symm, ?_⟩
  have hx1 : x.1 = 0 := by
    rw [NumberedFrom, hx] at hnum
    simpa using hnum
  have hx2 : x.2 &&& mpboot ≠ 0 := by
    obtain ⟨flags, hmem, hflags⟩ := hboot
    have : (idReg >>> 24, flags) ∈ procs es := List.mem_filterMap.2 ⟨_, hmem, rfl⟩
    rw [hx, List.mem_singleton] at this
    rw [← this]
    exact hflags
  intro i y hy
  rw [hx] at hy
  cases i with
  | succ i => simp at hy
  | zero =>
    cases hy
    refine ⟨hid.trans hx1.symm, ?_⟩
    rw [hbsp, if_pos hx2]

theorem afterScan_keeps (m : Image) (inb : Nat → Nat) (mp : Nat) {s : Scan} (h : s.ismp ≠ 0) :
    (afterScan m inb mp s).1 = (s.ncpu : Int) - 1 ∧ (afterScan m inb mp s).2.ncpu = s.ncpu ∧
      (afterScan m inb mp s).2.lapicRegp = s.g.lapicRegp ∧ (afterScan m inb mp s).2.cpuset = s.g.cpuset := by
  rw [afterScan, if_neg h]
  dsimp only
  split <;> exact ⟨rfl, rfl, rfl, rfl⟩

theorem bootstrap_outcome {fuel : Nat} (h : initBootstrapProcessor fuel m inb bss = some (.ok g))
    (hboot : ∀ mp conf es, mpconfig m = some (mp, conf) → TableEntries m conf es → NumberedFrom 0 es → BootEntry idReg es) :
    Outcome m idReg g := by
  rw [initBootstrapProcessor, Option.map_eq_some_iff] at h
  obtain ⟨r, hinit, hr⟩ := h
  cases hconf : mpconfig m with
  | none =>
    have hr0 : r = (0, { bss with cpuset := fun _ => zeroCpu }) := by
      rw [initMp, hconf] at hinit
      cases hinit
      rfl
    subst hr0
    cases hr
    exact .noTable hconf rfl
  | some q =>
    obtain ⟨mp, conf⟩ := q
    obtain ⟨es, hes, rfl⟩ := (initMp_returns hconf).1 ⟨fuel, hinit⟩
    set s := scanned m conf { bss with cpuset := fun _ => zeroCpu } es with hs
    by_cases hismp : s.ismp = 0
    · have hnum : ¬ NumberedFrom 0 es := by
        intro hnum
        exact (take_all_ismp es _).2 ⟨Nat.one_ne_zero, hnum⟩ hismp
      rw [afterScan, if_pos hismp] at hr
      cases hr
      exact .fallback mp conf es hconf hes hnum rfl rfl (by simp [Function.update_self])
    · obtain ⟨-, hnum⟩ := (take_all_ismp es _).1 hismp
      have hb := hboot mp conf es hconf hes hnum
      have hncpu : s.ncpu = (procs es).length := (take_all_ncpu es _).trans (Nat.zero_add _)
      have hlapic : s.g.lapicRegp = lapicaddr m conf := take_all_lapicRegp es _
      have hrec : Records s.g 0 (procs es) := take_all_records es _
      obtain ⟨hap, hn, hl, hc⟩ := afterScan_keeps m inb mp hismp
      rw [finishBootstrap, hap, hncpu] at hr
      split at hr
      · cases hr
      · rename_i hneg
        split at hr
        · -- several processors: the records of the scan stay
          rw [initLocalApic] at hr
          split at hr
          · cases hr
            refine .table mp conf es hconf hes (hl.trans hlapic) hb ⟨hnum, hn.trans hncpu, ?_⟩
            intro i x hx
            rw [hc]
            exact hrec i x hx
          · cases hr
        · rename_i hpos
          have hone : (procs es).length = 1 := by omega
          cases hr
          refine .table mp conf es hconf hes (hl.trans hlapic) hb ?_
          refine filled_one hnum hone hb (hn.trans (hncpu.trans hone)) ?_ ?_
          · simp [Function.update_self]
          · simp [Function.update_self]

theorem Filled.flagBsp_one {n : Nat} (h : Filled g es) (hn : getBootProcessor g = some n) : (g.cpuset n).flagBsp = 1 := by
  have hbsp : (g.cpuset n).flagBsp ≠ 0 := by
    simpa using List.find?_some hn
  have hlt : n < (procs es).length := by
    have hmem := List.mem_of_find?_eq_some hn
    rwa [List.mem_range, h.ncpu] at hmem
  have hrec := (h.records n _ (List.getElem?_eq_getElem hlt)).flagBsp
  rw [Nat.zero_add] at hrec
  split at hrec
  · exact hrec
  · exact absurd hrec hbsp

/-- The ids are bytes. -/
theorem IsTable.procs_lt {e p : Nat} (h : IsTable m e p es) {x : Nat × Nat} (hx : x ∈ procs es) : x.1 < 256 := by
  obtain ⟨q, hw, -⟩ := h
  induction hw with
  | refl => cases hx
  | @cons p q y es _ hy _ ih =>
    rw [procs_cons, List.mem_append] at hx
    rcases hx with hx | hx
    · obtain ⟨ty, -, rfl⟩ := Option.map_eq_some_iff.1 hy
      cases ty with
      | proc =>
        obtain rfl : x = (_, _) := by simpa [readEntry, MpEntry.proc?] using hx
        exact byteAt_lt m (p + 1)
      | _ => cases hx
    · exact ih hx

/-- With `lapic_regp` set, the boot processor finds the record of its own id. -/
theorem Filled.getProc_self (h : Filled g es) (hes : TableEntries m conf es) (hboot : BootEntry idReg es)
    (hlapic : g.lapicRegp ≠ 0) : getProcessor idReg g = some (idReg >>> 24) := by
  obtain ⟨flags, hmem, -⟩ := hboot
  have hx : (idReg >>> 24, flags) ∈ procs es := List.mem_filterMap.2 ⟨_, hmem, rfl⟩
  have hlt : idReg >>> 24 < 256 := IsTable.procs_lt hes hx
  have hid : (lapicGetId idReg g % 2 ^ 32).toNat = idReg >>> 24 := by
    rw [lapicGetId, if_pos hlapic]
    omega
  rw [h.getProc, hid]
  cases hfind : (procs es).find? fun x => x.1 == idReg >>> 24 with
  | none => simpa using List.find?_eq_none.1 hfind _ hx
  | some y =>
    have := List.find?_some hfind
    simpa using this

/-- Without `lapic_regp` no id is the one looked for. -/
theorem Filled.getProc_null (h : Filled g es) (hes : TableEntries m conf es) (hlapic : g.lapicRegp = 0) :
    getProcessor idReg g = none := by
  have hid : (lapicGetId idReg g % 2 ^ 32).toNat = 2 ^ 32 - 1 := by
    rw [lapicGetId, if_neg (not_not.2 hlapic)]
    rfl
  rw [h.getProc, hid, Option.map_eq_none_iff, List.find?_eq_none]
  intro x hx
  have hlt : x.1 < 256 := IsTable.procs_lt hes hx
  simp only [beq_iff_eq]
  omega

/-- A table of which both functions find the same processor. -/
def NamesBootCpu (m : Image) (idReg : Nat) : Prop :=
  ∃ mp conf es, mpconfig m = some (mp, conf) ∧ TableEntries m conf es ∧ NumberedFrom 0 es ∧ lapicaddr m conf ≠ 0 ∧
    firstBoot es = some (idReg >>> 24)

theorem not_hasBootRecord {idReg : Nat} {g : Globals} (h : getProcessor idReg g = none) : ¬ HasBootRecord idReg g := by
  rintro ⟨n, -, -, hn⟩
  rw [h] at hn
  cases hn

/-- A table has one list of entries, so that they decide what it names. -/
theorem namesBootCpu_iff {m : Image} {idReg mp conf : Nat} {es : List MpEntry} (hconf : mpconfig m = some (mp, conf))
    (hes : TableEntries m conf es) :
    NamesBootCpu m idReg ↔ NumberedFrom 0 es ∧ lapicaddr m conf ≠ 0 ∧ firstBoot es = some (idReg >>> 24) := by
  constructor
  · rintro ⟨mp', conf', es', hc, hes', hnames⟩
    rw [hconf] at hc
    cases hc
    rw [hes.unique hes']
    exact hnames
  · intro hnames
    exact ⟨mp, conf, es, hconf, hes, hnames⟩

/-- **The boot processor has a record exactly if the table names it**: for every image, if
`init_bootstrap_processor` returns, and the boot processor's entry carries `MPBOOT` in a table that does not
lead to the fallback, then `get_boot_processor` and `get_processor` find the same record if and only if
there is such a table, its `lapicaddr` is not `NULL` and the first entry with `MPBOOT` is the boot
processor's. -/
theorem boot_record_found (m : Image) (inb : Nat → Nat) (idReg fuel : Nat) (g : Globals)
    (hret : initBootstrapProcessor fuel m inb bss = some (.ok g))
    (hboot : ∀ mp conf es, mpconfig m = some (mp, conf) → TableEntries m conf es → NumberedFrom 0 es →
      BootEntry idReg es) :
    HasBootRecord idReg g ↔ NamesBootCpu m idReg := by
  cases bootstrap_outcome hret hboot with
  | noTable hconf hncpu =>
    have hnone : getBootProcessor g = none := by
      rw [getBootProcessor, hncpu]
      rfl
    constructor
    · rintro ⟨n, hn, -⟩
      rw [hnone] at hn
      cases hn
    · rintro ⟨mp, conf, es, hc, -⟩
      rw [hconf] at hc
      cases hc
  | fallback mp conf es hconf hes hnum hncpu hlapic hzero =>
    have hnone : getProcessor idReg g = none := by
      rw [getProcessor, hncpu, lapicGetId, if_neg (not_not.2 hlapic)]
      simp [List.range_succ, hzero]
    rw [namesBootCpu_iff hconf hes]
    exact iff_of_false (not_hasBootRecord hnone) fun hnames => hnum hnames.1
  | table mp conf es hconf hes hlapic hb hfilled =>
    rw [namesBootCpu_iff hconf hes, ← hlapic]
    by_cases hnull : g.lapicRegp = 0
    · have hnone : getProcessor idReg g = none := hfilled.getProc_null hes hnull
      exact iff_of_false (not_hasBootRecord hnone) fun hnames => hnames.2.1 hnull
    · have hproc := hfilled.getProc_self hes hb hnull
      constructor
      · rintro ⟨n, hn, -, hn'⟩
        rw [hproc] at hn'
        cases hn'
        exact ⟨hfilled.numbered, hnull, hfilled.getBoot ▸ hn⟩
      · rintro ⟨-, -, hfirst⟩
        rw [← hfilled.getBoot] at hfirst
        exact ⟨idReg >>> 24, hfirst, hfilled.flagBsp_one hfirst, hproc⟩

/-- The form in which a concrete run is evaluated. -/
theorem exists_bootstrap (fuel : Nat) (m : Image) (P : Globals → Bool)
    (h : ((initBootstrapProcessor fuel m (fun _ => 0) bss).any fun r => r.toOption.any P) = true) :
    ∃ g, initBootstrapProcessor fuel m (fun _ => 0) bss = some (.ok g) ∧ P g = true := by
  cases hr : initBootstrapProcessor fuel m (fun _ => 0) bss with
  | none => simp [hr] at h
  | some r =>
    cases r with
    | error e => simp [hr, Except.toOption] at h
    | ok g => exact ⟨g, rfl, by simpa [hr, Except.toOption] using h⟩

/-- Two processors: the first one boots. -/
theorem boot_record_found_two_procs :
    ∃ g, initBootstrapProcessor 4 twoProcs (fun _ => 0) bss = some (.ok g) ∧ HasBootRecord 0 g := by
  have hboot : ∀ mp conf es, mpconfig twoProcs = some (mp, conf) → TableEntries twoProcs conf es →
      NumberedFrom 0 es → BootEntry 0 es := by
    intro mp conf es hconf hes _
    rw [twoProcs_config] at hconf
    cases hconf
    rw [← twoProcs_entries.unique hes]
    exact ⟨3, by decide⟩
  obtain ⟨g, hg, -⟩ := exists_bootstrap 4 twoProcs (fun _ => true) (by decide +kernel)
  refine ⟨g, hg, (boot_record_found twoProcs (fun _ => 0) 0 4 g hg hboot).2 ?_⟩
  exact ⟨_, _, _, twoProcs_config, twoProcs_entries, by decide, by decide +kernel, by decide⟩

/-- A table whose only processor has the id 1. -/
def misnumbered : Image := firmware 0xAA (procBytes 1 3)

/-- Without a floating pointer `get_boot_processor` finds nothing; after the fallback `get_processor` finds
nothing. -/
theorem boot_record_missing :
    (∃ g, initBootstrapProcessor 4 (fun _ => 0) (fun _ => 0) bss = some (.ok g) ∧ getBootProcessor g = none ∧
        ¬ HasBootRecord 0 g) ∧
      ∃ g, initBootstrapProcessor 4 misnumbered (fun _ => 0) bss = some (.ok g) ∧ getBootProcessor g = some 0 ∧
        getProcessor (1 <<< 24) g = none ∧ ¬ HasBootRecord (1 <<< 24) g := by
  constructor
  · obtain ⟨g, hg, hP⟩ := exists_bootstrap 4 (fun _ => 0) (fun g => decide (getBootProcessor g = none))
      (by decide +kernel)
    have hnone := of_decide_eq_true hP
    refine ⟨g, hg, hnone, ?_⟩
    rintro ⟨n, hn, -⟩
    rw [hnone] at hn
    cases hn
  · obtain ⟨g, hg, hP⟩ := exists_bootstrap 4 misnumbered
      (fun g => decide (getBootProcessor g = some 0 ∧ getProcessor (1 <<< 24) g = none)) (by decide +kernel)
    obtain ⟨hsome, hnone⟩ := of_decide_eq_true hP
    refine ⟨g, hg, hsome, hnone, ?_⟩
    rintro ⟨n, -, -, hn⟩
    rw [hnone] at hn
    cases hn

end RedMagic.Mp
