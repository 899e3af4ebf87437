import RedMagic.Mp.Table

/-!
# What the scan of the configuration table touches (src/mproc.c:128-176)

`traceRound` is the body of the loop of `init_mp` that also logs the bytes it reads and the records of `cpuset` it writes;
without the log it is `scanRound` (`trace_erases`).

The loop tests where an entry begins and not where it ends, and does not test `ncpu` at all. So it stays inside the table
exactly if the last entry is not cut off before the bytes that are read of it, and inside `cpuset` exactly if the table
has at most `MAX_CPUS` processors (`mp_table_bounds`).
-/

namespace RedMagic.Mp

open Mm Loop

inductive Access where
  /-- A byte of the table, by its address. -/
  | read (a : Nat)
  /-- A record of `cpuset`, by its index. -/
  | cpu (i : Nat)
deriving DecidableEq, Repr

/-- The bytes of an entry that are read: its type, and the id and the flags of a processor or the id of an I/O APIC. -/
def MpEntry.reads : MpEntry → List Nat
  | .proc _ _ => [0, 1, 3]
  | .ioapic _ => [0, 1]
  | .bus | .iointr | .lintr => [0]

/-- The last one of them. -/
def MpEntry.reach : MpEntry → Nat
  | .proc _ _ => 3
  | .ioapic _ => 1
  | .bus | .iointr | .lintr => 0

/-- What the entry at `p` makes the loop touch when `ncpu` processors have been found. -/
def MpEntry.accesses (x : MpEntry) (p ncpu : Nat) : List Access :=
  x.reads.map (fun j => .read (u32 (p + j))) ++ x.proc?.toList.map fun _ => .cpu ncpu

structure Traced where
  scan : Scan
  log : List Access

def Traced.take (s : Traced) (x : MpEntry) : Traced := ⟨s.scan.take x, s.log ++ x.accesses s.scan.p s.scan.ncpu⟩

def traceRound (m : Image) (endp : Nat) (s : Traced) : Traced ⊕ Traced :=
  if s.scan.p < endp then
    match entryAt m s.scan.p with
    | some x => .inl (s.take x)
    | none => .inl ⟨{ s.scan with ismp := 0 }, s.log ++ [.read (u32 s.scan.p)]⟩
  else .inr s

def traceStart (m : Image) (conf : Nat) (g : Globals) : Traced := ⟨scanStart m conf g, []⟩

/-! ## The loop -/

section
variable {m : Image} {e p : Nat} {s t : Traced} {x : MpEntry} {es : List MpEntry}

/-- From a table the loop takes the entries one after the other. -/
theorem trace_complete (h : IsTable m e s.scan.p es) : Ends (traceRound m e) s (es.foldl Traced.take s) := by
  induction es generalizing s with
  | nil =>
    obtain ⟨q, hw, hq⟩ := h
    cases hw
    exact .done (if_neg hq)
  | cons x es ih =>
    obtain ⟨q, hw, hq⟩ := h
    cases hw with
    | cons hp hx hw =>
      have hround : traceRound m e s = .inl (s.take x) := by rw [traceRound, if_pos hp, hx]
      refine .again hround (ih ⟨q, ?_, hq⟩)
      rw [Traced.take, Scan.take_p]
      exact hw

/-- Without its log a round is one of `scanRound`. -/
theorem scanRound_erases (s : Traced) : scanRound m e s.scan = (traceRound m e s).map Traced.scan Traced.scan := by
  by_cases hp : s.scan.p < e
  · rw [traceRound, if_pos hp]
    cases hx : entryAt m s.scan.p with
    | none => exact scanRound_unknown hp hx
    | some x => exact scanRound_entry hp hx
  · rw [traceRound, if_neg hp]
    exact scanRound_end hp

/-- **The log is that of the scan**: the variables are the same. -/
theorem trace_erases (h : Ends (traceRound m e) s t) : Ends (scanRound m e) s.scan t.scan :=
  h.project scanRound_erases

theorem trace_sound (h : Ends (traceRound m e) s t) : ∃ es, IsTable m e s.scan.p es := scan_sound (trace_erases h)

theorem foldl_take_scan (es : List MpEntry) (s : Traced) : (es.foldl Traced.take s).scan = es.foldl Scan.take s.scan := by
  induction es generalizing s with
  | nil => rfl
  | cons x es ih => rw [List.foldl_cons, ih, List.foldl_cons, Traced.take]

/-- The entries from `p` on, if they lead to `e` in fewer than `n` steps. -/
def readTable (m : Image) (e : Nat) : Nat → Nat → Option (List MpEntry)
  | 0, _ => none
  | n + 1, p =>
    if p < e then (entryAt m p).bind fun x => (readTable m e n (u32 (p + x.size))).map (x :: ·)
    else some []

theorem isTable_of_readTable {n : Nat} (h : readTable m e n p = some es) : IsTable m e p es := by
  induction n generalizing p es with
  | zero => cases h
  | succ n ih =>
    rw [readTable] at h
    split at h
    · rename_i hp
      obtain ⟨x, hx, hrest⟩ := Option.bind_eq_some_iff.1 h
      obtain ⟨es', hes', rfl⟩ := Option.map_eq_some_iff.1 hrest
      exact (ih hes').cons hp hx
    · rename_i hp
      cases h
      exact .nil hp

/-- What the entries from `p` on make the loop touch. -/
def accessesFrom : Nat → Nat → List MpEntry → List Access
  | _, _, [] => []
  | p, ncpu, x :: es => x.accesses p ncpu ++ accessesFrom (u32 (p + x.size)) (ncpu + x.proc?.toList.length) es

theorem foldl_take_log (es : List MpEntry) (s : Traced) :
    (es.foldl Traced.take s).log = s.log ++ accessesFrom s.scan.p s.scan.ncpu es := by
  induction es generalizing s with
  | nil => simp [accessesFrom]
  | cons x es ih =>
    rw [List.foldl_cons, ih, Traced.take, Scan.take_p, Scan.take_ncpu, List.append_assoc]
    rfl

end

/-! ## The bounds -/

/-- Inside the `len` bytes at `conf`, or inside `cpuset`. -/
def Access.Ok (conf len : Nat) : Access → Prop
  | .read a => u32 (a + (2 ^ 32 - conf)) < len
  | .cpu i => i < maxCpus

/-- The entries that begin at offset `off` end, as far as they are read, before offset `len`. -/
def InsideFrom (len : Nat) : Nat → List MpEntry → Prop
  | _, [] => True
  | off, x :: es => off + x.reach < len ∧ InsideFrom len (off + x.size) es

instance decidableInsideFrom (len : Nat) : ∀ off es, Decidable (InsideFrom len off es)
  | _, [] => inferInstanceAs (Decidable True)
  | off, x :: es =>
    have := decidableInsideFrom len (off + x.size) es
    inferInstanceAs (Decidable (off + x.reach < len ∧ InsideFrom len (off + x.size) es))

/-- No entry of the table is cut off before the bytes that are read of it. -/
def Inside (m : Image) (conf : Nat) (es : List MpEntry) : Prop := InsideFrom (confLength m conf) mpconfSize es

instance (m : Image) (conf : Nat) (es : List MpEntry) : Decidable (Inside m conf es) :=
  inferInstanceAs (Decidable (InsideFrom (confLength m conf) mpconfSize es))

section
variable {conf len off ncpu : Nat}

theorem read_ok_iff (hconf : conf < 2 ^ 32) {j : Nat} (hoff : off + j < 2 ^ 32) :
    (Access.read (u32 (u32 (conf + off) + j))).Ok conf len ↔ off + j < len := by
  have haddr : u32 (u32 (u32 (conf + off) + j) + (2 ^ 32 - conf)) = off + j := by
    unfold u32
    omega
  rw [Access.Ok, haddr]

theorem MpEntry.le_of_mem_reads {x : MpEntry} {j : Nat} (h : j ∈ x.reads) : j ≤ 3 := by
  cases x <;> simp only [MpEntry.reads, List.mem_cons, List.not_mem_nil, or_false] at h <;> omega

theorem MpEntry.reads_inside_iff (x : MpEntry) : (∀ j ∈ x.reads, off + j < len) ↔ off + x.reach < len := by
  cases x <;> simp only [MpEntry.reads, MpEntry.reach, List.mem_cons, List.not_mem_nil, or_false, forall_eq_or_imp,
    forall_eq] <;> omega

theorem cpu_ok_iff (hncpu : ncpu ≤ maxCpus) (x : MpEntry) :
    (∀ a ∈ x.proc?.toList.map fun _ => Access.cpu ncpu, a.Ok conf len) ↔ ncpu + x.proc?.toList.length ≤ maxCpus := by
  cases x with
  | proc =>
    simp only [MpEntry.proc?, Option.toList_some, List.map_cons, List.map_nil, List.forall_mem_singleton]
    exact Nat.lt_iff_add_one_le
  | _ => simpa [MpEntry.proc?] using hncpu

theorem entry_ok_iff (hconf : conf < 2 ^ 32) (hoff : off + 3 < 2 ^ 32) (hncpu : ncpu ≤ maxCpus) (x : MpEntry) :
    (∀ a ∈ x.accesses (u32 (conf + off)) ncpu, a.Ok conf len) ↔
      off + x.reach < len ∧ ncpu + x.proc?.toList.length ≤ maxCpus := by
  rw [MpEntry.accesses, List.forall_mem_append, List.forall_mem_map, cpu_ok_iff hncpu, ← x.reads_inside_iff]
  refine and_congr_left' (forall₂_congr fun j hj => ?_)
  have hle := MpEntry.le_of_mem_reads hj
  exact read_ok_iff hconf (by omega)

theorem MpEntry.size_le (x : MpEntry) : x.size ≤ 20 := by
  rw [MpEntry.size]
  cases x.type <;> decide

/-- **Everything the entries touch is in bounds** exactly if there are not too many processors and none of the entries is
cut off. -/
theorem accessesFrom_ok_iff (hconf : conf < 2 ^ 32) (hlen : len < 2 ^ 16) (hoff : off < 2 ^ 17) (hncpu : ncpu ≤ maxCpus)
    (es : List MpEntry) :
    (∀ a ∈ accessesFrom (u32 (conf + off)) ncpu es, a.Ok conf len) ↔
      ncpu + (procs es).length ≤ maxCpus ∧ InsideFrom len off es := by
  induction es generalizing off ncpu with
  | nil => simpa [accessesFrom, InsideFrom] using hncpu
  | cons x es ih =>
    have hnext : u32 (u32 (conf + off) + x.size) = u32 (conf + (off + x.size)) := by
      unfold u32
      omega
    have hcount : ncpu + (procs (x :: es)).length = ncpu + x.proc?.toList.length + (procs es).length := by
      rw [procs_cons, List.length_append, Nat.add_assoc]
    rw [accessesFrom, List.forall_mem_append, entry_ok_iff hconf (by omega) hncpu, hnext, hcount, InsideFrom]
    constructor
    · rintro ⟨⟨hreach, hroom⟩, hrest⟩
      have hsize := x.size_le
      have hes := (ih (by omega) hroom).1 hrest
      exact ⟨hes.1, hreach, hes.2⟩
    · rintro ⟨hroom, hreach, hrest⟩
      have hsize := x.size_le
      have hroom' : ncpu + x.proc?.toList.length ≤ maxCpus := by omega
      exact ⟨⟨hreach, hroom'⟩, (ih (by omega) hroom').2 ⟨hroom, hrest⟩⟩

end

theorem u16At_lt (m : Image) (a : Nat) : u16At m a < 2 ^ 16 := by
  have h0 := byteAt_lt m a
  have h1 := byteAt_lt m (a + 1)
  unfold u16At
  omega

theorem mpconfig_lt {m : Image} {mp conf : Nat} (h : mpconfig m = some (mp, conf)) : conf < 2 ^ 32 := by
  have hword : ∀ a, u32At m a < 2 ^ 32 := by
    intro a
    have h0 := u16At_lt m a
    have h2 := u16At_lt m (a + 2)
    unfold u32At
    omega
  unfold mpconfig at h
  split at h
  · cases h
  · simp only [Option.ite_none_left_eq_some, Option.some.injEq, Prod.mk.injEq] at h
    obtain ⟨-, -, -, -, -, hconf⟩ := h
    rw [← hconf]
    exact hword _

/-- What the scan of an accepted table should leave alone. -/
structure Bounded (m : Image) (conf : Nat) (log : List Access) (r : Int × Globals) : Prop where
  cpuset : ∀ i, .cpu i ∈ log → i < maxCpus
  reads : ∀ a, .read a ∈ log → u32 (a + (2 ^ 32 - conf)) < confLength m conf
  ncpu : r.2.ncpu ≤ maxCpus

theorem afterScan_ncpu_le {m : Image} {inb : Nat → Nat} {mp : Nat} {t : Scan} (h : t.ncpu ≤ maxCpus) :
    (afterScan m inb mp t).2.ncpu ≤ maxCpus := by
  rw [afterScan]
  split
  · show 1 ≤ maxCpus
    decide
  · exact h

/-- **The scan of an accepted table stays in bounds** exactly if the table has at most `MAX_CPUS` processors and no entry is
cut off before the bytes that are read of it. -/
theorem mp_table_bounds (m : Image) (inb : Nat → Nat) (g : Globals) {mp conf : Nat} (h : mpconfig m = some (mp, conf))
    {t : Traced} (hends : Ends (traceRound m (tableEnd m conf)) (traceStart m conf g) t) :
    ∃ es, TableEntries m conf es ∧
      (Bounded m conf t.log (afterScan m inb mp t.scan) ↔ (procs es).length ≤ maxCpus ∧ Inside m conf es) := by
  obtain ⟨es, htab⟩ := trace_sound hends
  refine ⟨es, htab, ?_⟩
  have ht := hends.unique (trace_complete htab)
  have hlog : t.log = accessesFrom (u32 (conf + mpconfSize)) 0 es := by
    rw [ht, foldl_take_log]
    rfl
  have hncpu : t.scan.ncpu = (procs es).length := by
    rw [ht, foldl_take_scan, take_all_ncpu]
    exact Nat.zero_add _
  have hok := accessesFrom_ok_iff (mpconfig_lt h) (u16At_lt m (conf + 4)) (show mpconfSize < 2 ^ 17 by decide)
    (Nat.zero_le maxCpus) es
  rw [Nat.zero_add, ← hlog] at hok
  rw [Inside, confLength, ← hok]
  constructor
  · intro hb a ha
    cases a with
    | read a => exact hb.reads a ha
    | cpu i => exact hb.cpuset i ha
  · intro hall
    refine ⟨fun i hi => hall _ hi, fun a ha => hall _ ha, afterScan_ncpu_le ?_⟩
    rw [hncpu]
    exact (hok.1 hall).1

theorem mp_table_bounds_two_procs :
    ∃ t, Ends (traceRound twoProcs (tableEnd twoProcs 0x9FD00)) (traceStart twoProcs 0x9FD00 bss) t ∧
      ∃ es, TableEntries twoProcs 0x9FD00 es ∧
        (Bounded twoProcs 0x9FD00 t.log (afterScan twoProcs (fun _ => 0) 0x9FC00 t.scan) ↔
          (procs es).length ≤ maxCpus ∧ Inside twoProcs 0x9FD00 es) := by
  have hends := trace_complete (s := traceStart twoProcs 0x9FD00 bss) twoProcs_entries
  exact ⟨_, hends, mp_table_bounds twoProcs (fun _ => 0) bss twoProcs_config hends⟩

/-- A table of 33 processors: its length is 704, and all bytes behind the header are 0. -/
def zeroProcs : Image :=
  (firmware 0 []).put 0x9FD00
    (mpconfSignature ++ [0xC0, 2, 4, 0x2C] ++ List.replicate 28 0 ++ [0, 0, 0xE0, 0xFE] ++ [0, 0, 0, 0])

/-- A table whose only entry is a processor of which only the first byte is there. -/
def cutProc : Image := firmware 0xC1 [0]

/-- The record of the last of 33 processors is behind `cpuset`; the flags of a processor that is cut off are behind the
table. -/
theorem mp_table_overrun :
    (mpconfig zeroProcs = some (0x9FC00, 0x9FD00) ∧
      ∃ t, Ends (traceRound zeroProcs (tableEnd zeroProcs 0x9FD00)) (traceStart zeroProcs 0x9FD00 bss) t ∧
        Access.cpu 32 ∈ t.log ∧ ¬ Bounded zeroProcs 0x9FD00 t.log (afterScan zeroProcs (fun _ => 0) 0x9FC00 t.scan)) ∧
    mpconfig cutProc = some (0x9FC00, 0x9FD00) ∧
      ∃ t, Ends (traceRound cutProc (tableEnd cutProc 0x9FD00)) (traceStart cutProc 0x9FD00 bss) t ∧
        Access.read (0x9FD00 + 47) ∈ t.log ∧ confLength cutProc 0x9FD00 = 45 := by
  have hprocs : IsTable zeroProcs (tableEnd zeroProcs 0x9FD00) (tableStart 0x9FD00) (List.replicate 33 (.proc 0 0)) :=
    isTable_of_readTable (n := 34) (by decide +kernel)
  have hcut : IsTable cutProc (tableEnd cutProc 0x9FD00) (tableStart 0x9FD00) [.proc 0 0] :=
    isTable_of_readTable (n := 2) (by decide +kernel)
  have hlast : Access.cpu 32 ∈ ((List.replicate 33 (.proc 0 0)).foldl Traced.take (traceStart zeroProcs 0x9FD00 bss)).log := by
    rw [foldl_take_log]
    decide +kernel
  have hflags : Access.read (0x9FD00 + 47) ∈ ([.proc 0 0].foldl Traced.take (traceStart cutProc 0x9FD00 bss)).log := by
    rw [foldl_take_log]
    decide +kernel
  refine ⟨⟨by decide +kernel, _, trace_complete hprocs, hlast, fun hb => ?_⟩, by decide +kernel, _, trace_complete hcut,
    hflags, by decide +kernel⟩
  exact absurd (hb.cpuset 32 hlast) (by decide)

end RedMagic.Mp
