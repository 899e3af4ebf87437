import RedMagic.Paging.Map

/-!
# Page faults (src/mm.c:348-374)

| here | there |
| --- | --- |
| `FaultSt`          | memory with `mm_pgtbls`, and `mm_phys` |
| `pageFaultHandler` | `page_fault_handler`; `.error` = an assertion or a `PANIC` |

An address below `0xfee00000` gets a page of `mm_phys`, whose physical address is page-aligned whatever the address is. An
address from there on is mapped to itself, with its offset: the offset ends up in the flags of the entry. The entry is
what it should be exactly if the offset lies within the three flags that are set anyway (`page_fault_repairs`).
-/

namespace RedMagic.Paging

open Mm Blocks Lts

structure FaultSt where
  pg : PgSt
  phys : Mmc

/-- The addresses of the local APIC and the I/O APIC. -/
def apicStart : Nat := 0xfee00000

/-- `highMemStart` is `get_high_mem_start()`. -/
def pageFaultHandler (kPdir highMemStart cr2 : Nat) (s : FaultSt) : Except String FaultSt :=
  if cr2 < highMemStart ∨ cr2 ≥ apicStart then
    if cr2 ≥ apicStart then
      match pageMap kPdir cr2 cr2 s.pg.fresh with
      | .error e => .error e
      | .ok (_, pg) => .ok ⟨pg, s.phys⟩
    else
      match allocFrame s.phys with
      | .error e => .error e
      | .ok (none, _) => .error "No more phisical memory pages"
      | .ok (some freep, phys) =>
        match pageMap kPdir cr2 (virtToPhys kPdir s.pg.ram freep) s.pg.fresh with
        | .error e => .error e
        | .ok (_, pg) => .ok ⟨pg, phys⟩
  else .error "ASSERTION-FAILED: cr2 < get_high_mem_start() || cr2 >= 0xfee00000"

/-- Sound page tables in frames above the directory, and a sound `mm_phys`, whose pages are mapped (`mm.c:255-286`). -/
structure Kernel (pdir : Nat) (m mp : Mmc) (s : FaultSt) : Prop where
  layout : Layout m
  below : pdir + pageSize ≤ m.frameBase
  base : 0 < m.metaBase
  tables : Tables pdir m s.pg
  physLayout : Layout mp
  physBase : 0 < mp.metaBase
  phys : ∃ t k bs, s.phys = mp.upd t k ∧ TableInv mp t k bs
  mapped : ∀ i < mp.nframes, lookup pdir s.pg.ram (frameAddr mp i / pageSize) ≠ none

/-- What a page fault should leave behind: a clean entry, and the translations of all other pages. -/
structure Repaired (pdir cr2 : Nat) (s s' : FaultSt) : Prop where
  entry : ∃ frame, frame % pageSize = 0 ∧
    pte pdir s'.pg.ram (pdeIndex cr2) (pteIndex cr2) = frame + (pagePresent + pageWrite + pageUser) ∧
    (apicStart ≤ cr2 → frame = cr2 / pageSize * pageSize) ∧
    (cr2 < apicStart → ∃ i < s.phys.nframes, pgColor (s.phys.word i) = pgWhite ∧ pgColor (s'.phys.word i) ≠ pgWhite ∧
      lookup pdir s.pg.ram (frameAddr s.phys i / pageSize) = some frame)
  others : ∀ x < 2 ^ 32, x / pageSize ≠ cr2 / pageSize → translate pdir s'.pg.ram x = translate pdir s.pg.ram x

/-! ## The entry -/

/-- The low bits of an address that is mapped as it is. -/
theorem entryOf_eq_add (a : Nat) : entryOf a = a / pageSize * pageSize + (a % pageSize ||| 7) := by
  have hpage : a / pageSize * pageSize % pageSize = 0 := Nat.mul_mod_left _ _
  have hlow : a % pageSize ||| 7 < pageSize := Nat.or_lt_two_pow (n := 12) (Nat.mod_lt _ (by decide)) (by decide)
  have hsplit : a = a / pageSize * pageSize ||| a % pageSize := by
    rw [or_color hpage (Nat.mod_lt _ (by decide)), Nat.div_add_mod']
  have hflags : entryOf a = a ||| 7 := by
    simp only [entryOf, pagePresent, pageWrite, pageUser, Nat.or_assoc]
    rfl
  calc entryOf a = (a / pageSize * pageSize ||| a % pageSize) ||| 7 := by rw [hflags, ← hsplit]
    _ = a / pageSize * pageSize ||| (a % pageSize ||| 7) := Nat.or_assoc ..
    _ = a / pageSize * pageSize + (a % pageSize ||| 7) := or_color hpage hlow

theorem or_seven_iff (a : Nat) : a ||| 7 = 7 ↔ a < 8 := by
  have hsmall : ∀ b < 8, b ||| 7 = 7 := by decide
  constructor
  · intro h
    have hle : a ≤ a ||| 7 := Nat.left_le_or
    omega
  · intro h
    exact hsmall a h

/-- A page that is mapped: the walk gives its physical page. -/
theorem virtToPhys_page {pdir pa va : Nat} {r : Ram} (hva : va < 2 ^ 32) (hmod : va % pageSize = 0)
    (h : lookup pdir r (va / pageSize) = some pa) : virtToPhys pdir r va = pa := by
  rw [virtToPhys_of_lookup hva h, hmod, Nat.add_zero]

section
variable {pdir cr2 : Nat} {m mp : Mmc} {s : FaultSt} (highMemStart : Nat)

/-- The call of `page_map` that ends both paths. -/
theorem Kernel.map (K : Kernel pdir m mp s) (hcr2 : cr2 < 2 ^ 32) (pa : Nat) (hserved : Served pdir s.pg (.map cr2 pa)) :
    ∃ pg, pageMap pdir cr2 pa s.pg.fresh = .ok (0, pg) ∧ Tables pdir m pg ∧
      pte pdir pg.ram (pdeIndex cr2) (pteIndex cr2) = entryOf pa ∧
      (∀ x < 2 ^ 32, x / pageSize ≠ cr2 / pageSize → translate pdir pg.ram x = translate pdir s.pg.ram x) ∧
      ∀ i < mp.nframes, lookup pdir pg.ram (frameAddr mp i / pageSize) ≠ none := by
  obtain ⟨pg, hcall, htables, -, heff⟩ := K.tables.call K.layout K.below K.base hserved
  have hpage : ∀ x < 2 ^ 32, x / pageSize < 2 ^ 20 := by
    intro x hx
    unfold pageSize
    omega
  have hlookup : ∀ x < 2 ^ 32, lookup pdir pg.ram (x / pageSize) =
      if x / pageSize = cr2 / pageSize then some (entryOf pa &&& pageMask) else lookup pdir s.pg.ram (x / pageSize) := by
    intro x hx
    obtain ⟨h1, h2⟩ := page_index hcr2
    have hne : entryOf pa ≠ 0 := by
      rw [entryOf_eq_add]
      have hflags : 7 ≤ pa % pageSize ||| 7 := Nat.right_le_or
      omega
    rw [heff.lookup_eq (pteIndex_lt _) (hpage x hx), PageOp.va, h1, h2, page_split, PageOp.value, if_neg hne]
  refine ⟨pg, hcall, htables, heff.entry, fun x hx hne => ?_, fun i hi => ?_⟩
  · rw [translate_eq pdir pg.ram hx, translate_eq pdir s.pg.ram hx, hlookup x hx, if_neg hne]
  · have hlt := K.physLayout.frameAddr_lt hi
    rw [hlookup _ (by omega)]
    split
    · exact Option.some_ne_none _
    · exact K.mapped i hi

theorem Kernel.takePage (K : Kernel pdir m mp s) (hframe : ∃ i < s.phys.nframes, pgColor (s.phys.word i) = pgWhite) :
    ∃ i < s.phys.nframes, ∃ phys, allocFrame s.phys = .ok (some (frameAddr s.phys i), phys) ∧
      (frameAddr s.phys i < 2 ^ 32 ∧ frameAddr s.phys i % pageSize = 0) ∧
      lookup pdir s.pg.ram (frameAddr s.phys i / pageSize) ≠ none ∧
      pgColor (s.phys.word i) = pgWhite ∧ pgColor (phys.word i) ≠ pgWhite ∧ ∃ t k bs, phys = mp.upd t k ∧ TableInv mp t k bs := by
  obtain ⟨t, k, bs, hphys, hinv⟩ := K.phys
  obtain ⟨i, hi, hwhite⟩ := hframe
  rw [hphys] at hi hwhite ⊢
  rcases allocFrame_spec K.physLayout hinv with hnone | ⟨n, t', k', bs', hn, he, hinv', hw, hc, -⟩
  · exact absurd hnone (allocFrame_ne_none K.physLayout K.physBase hinv hi hwhite)
  · have hlt := K.physLayout.frameAddr_lt hn
    exact ⟨n, hn, _, he, ⟨show frameAddr mp n < 2 ^ 32 by omega, K.physLayout.frameAddr_mod n⟩, K.mapped n hn, hw, hc, t', k', bs', rfl,
      hinv'⟩

/-- The path of the APIC addresses. -/
theorem Kernel.apicFault (K : Kernel pdir m mp s) (hcr2 : cr2 < 2 ^ 32) (hapic : apicStart ≤ cr2)
    (htable : Served pdir s.pg (.map cr2 cr2)) :
    ∃ s', pageFaultHandler pdir highMemStart cr2 s = .ok s' ∧ Kernel pdir m mp s' ∧
      (Repaired pdir cr2 s s' ↔ cr2 % pageSize < 8) := by
  obtain ⟨pg, hcall, htables, hentry, hothers, hmapped⟩ := K.map hcr2 cr2 htable
  refine ⟨⟨pg, s.phys⟩, ?_, { K with tables := htables, mapped := hmapped }, ?_⟩
  · rw [pageFaultHandler, if_pos (.inr hapic), if_pos hapic, hcall]
  · have hflags : pagePresent + pageWrite + pageUser = 7 := rfl
    rw [entryOf_eq_add] at hentry
    rw [← or_seven_iff]
    constructor
    · rintro ⟨⟨frame, -, hframe, hown, -⟩, -⟩
      rw [hown hapic, hflags] at hframe
      exact Nat.add_left_cancel (hentry.symm.trans hframe)
    · intro hoff
      refine ⟨⟨cr2 / pageSize * pageSize, Nat.mul_mod_left _ _, ?_, fun _ => rfl, fun hlow => ?_⟩, hothers⟩
      · rw [hentry, hoff, hflags]
      · omega

/-- The path of the other addresses. -/
theorem Kernel.lowFault {highMemStart : Nat} (K : Kernel pdir m mp s) (hcr2 : cr2 < 2 ^ 32) (hassert : cr2 < highMemStart)
    (hlow : cr2 < apicStart) (htable : Served pdir s.pg (.map cr2 0))
    (hframe : ∃ i < s.phys.nframes, pgColor (s.phys.word i) = pgWhite) :
    ∃ s', pageFaultHandler pdir highMemStart cr2 s = .ok s' ∧ Kernel pdir m mp s' ∧ Repaired pdir cr2 s s' := by
  obtain ⟨i, hi, phys, halloc, ⟨hlt, hmod⟩, hsome, hwhite, hcolored, hphys⟩ := K.takePage hframe
  obtain ⟨frame, hlookup⟩ := Option.ne_none_iff_exists'.1 hsome
  obtain ⟨pg, hcall, htables, hentry, hothers, hmapped⟩ := K.map hcr2 frame htable
  have haligned := lookup_mod hlookup
  refine ⟨⟨pg, phys⟩, ?_, { K with tables := htables, phys := hphys, mapped := hmapped }, ?_, hothers⟩
  · rw [pageFaultHandler, if_pos (.inl hassert), if_neg (Nat.not_le.2 hlow), halloc]
    dsimp only
    rw [virtToPhys_page hlt hmod hlookup, hcall]
  · refine ⟨frame, haligned, hentry.trans (entryOf_eq haligned), fun hapic => ?_, fun _ => ?_⟩
    · omega
    · exact ⟨i, hi, hwhite, hcolored, hlookup⟩

/-- **A page fault is repaired** exactly if the address is below those of the APICs or its offset lies within the flags of an
entry. -/
theorem page_fault_repairs (K : Kernel pdir m mp s) (hcr2 : cr2 < 2 ^ 32) (hassert : cr2 < highMemStart ∨ apicStart ≤ cr2)
    (htable : s.pg.ram.word (pdeAddr pdir cr2) ≠ 0 ∨ ∃ i < s.pg.mmc.nframes, pgColor (s.pg.mmc.word i) = pgWhite)
    (hframe : cr2 < apicStart → ∃ i < s.phys.nframes, pgColor (s.phys.word i) = pgWhite) :
    ∃ s', pageFaultHandler pdir highMemStart cr2 s = .ok s' ∧ Kernel pdir m mp s' ∧
      (Repaired pdir cr2 s s' ↔ cr2 < apicStart ∨ cr2 % pageSize < 8) := by
  by_cases hapic : apicStart ≤ cr2
  · obtain ⟨s', hs', hK, hiff⟩ := K.apicFault highMemStart hcr2 hapic htable
    refine ⟨s', hs', hK, hiff.trans ?_⟩
    rw [or_iff_right (Nat.not_lt.2 hapic)]
  · have hlow : cr2 < apicStart := Nat.not_le.1 hapic
    obtain ⟨s', hs', hK, hrepaired⟩ := K.lowFault hcr2 (hassert.resolve_right hapic) hlow htable (hframe hlow)
    exact ⟨s', hs', hK, iff_of_true hrepaired (.inl hlow)⟩

end

/-- A zeroed directory with `mm_pgtbls` above it, calls of `page_map`, and `mm_phys` on pages that these have mapped. -/
theorem kernel_start {pdir base length base' length' : Nat} {m mp : Mmc} {ram : Ram} (hdir : pdir + pageSize ≤ base)
    (ha : base % pageSize = 0) (hw : base + length < 2 ^ 32) (hm : mmPageTable base length = .ok (some m))
    (hpos : 0 < base') (ha' : base' % pageSize = 0) (hw' : base' + length' < 2 ^ 32)
    (hmp : mmPageTable base' length' = .ok (some mp)) (hzero : ∀ i < 1024, pde pdir ram i = 0) {ops : List PageOp} {pg : PgSt}
    (hr : execOk (pageStep pdir) (MapsOk pdir) ⟨ram, m⟩ ops = some pg)
    (hmapped : ∀ i < mp.nframes, mappings ops (frameAddr mp i / pageSize) ≠ none) : Kernel pdir m mp ⟨pg, mp⟩ := by
  obtain ⟨L, hd, h0, hinv⟩ := mmPageTable_place hdir ha hw hm
  obtain ⟨L', hinv'⟩ := mmPageTable_spec ha' hw' hmp
  have hbase : mp.metaBase = base' := by
    obtain ⟨mpg, npg, -, -, rfl⟩ := mmPageTable_eq ha' hw' hmp
    rfl
  obtain ⟨T, hlook⟩ := holds_run L hd h0 hinv hzero hr
  refine ⟨L, hd, h0, T, L', hbase ▸ hpos, ⟨mp.table, mp.nfree, [], rfl, hinv'⟩, fun i hi => ?_⟩
  have hlt := L'.frameAddr_lt hi
  rw [hlook _ (by unfold pageSize at *; omega)]
  exact hmapped i hi

/-- The calls of `page_map` for three pages of memory, of which the last two are not where the first one ends. -/
def threePages : List PageOp := [.map 0x1000000 0x1000000, .map 0x1001000 0x1400000, .map 0x1002000 0x1401000]

/-- The three pages are mapped, and a frame is left for another table; `mm_phys` has two free pages. -/
theorem exists_booted : ∃ pg, execOk (pageStep pgdBase) (MapsOk pgdBase) ⟨dirtyRam, pgtblsMmc 3⟩ threePages = some pg ∧
    Kernel pgdBase (pgtblsMmc 3) (freshMmc 0x1000000 0x3000 1 2) ⟨pg, freshMmc 0x1000000 0x3000 1 2⟩ ∧
    (∃ i < pg.mmc.nframes, pgColor (pg.mmc.word i) = pgWhite) ∧
    ∃ i < (freshMmc 0x1000000 0x3000 1 2).nframes, pgColor ((freshMmc 0x1000000 0x3000 1 2).word i) = pgWhite := by
  have hsome : (execOk (pageStep pgdBase) (MapsOk pgdBase) ⟨dirtyRam, pgtblsMmc 3⟩ threePages).any
      (fun pg => decide (∃ i < pg.mmc.nframes, pgColor (pg.mmc.word i) = pgWhite)) = true := by decide +kernel
  obtain ⟨pg, hr, hleft⟩ := (Option.any_eq_true ..).1 hsome
  refine ⟨pg, hr, ?_, of_decide_eq_true hleft, 0, by decide, by decide +kernel⟩
  have hmapped : ∀ i < 2, mappings threePages (frameAddr (freshMmc 0x1000000 0x3000 1 2) i / pageSize) ≠ none := by decide
  exact kernel_start (show pgdBase + pageSize ≤ 0x105000 by decide) (by decide) (show 0x105000 + 0x3000 < 2 ^ 32 by decide) rfl
    (show 0 < 0x1000000 by decide) (by decide) (show 0x1000000 + 0x3000 < 2 ^ 32 by decide) rfl dirtyRam_dir hr hmapped

/-- The page at `0x1001000` is taken, which is memory at `0x1400000`. -/
theorem page_fault_repairs_low :
    ∃ s s', s.phys = freshMmc 0x1000000 0x3000 1 2 ∧ lookup pgdBase s.pg.ram 0x1001 = some 0x1400000 ∧
      pageFaultHandler pgdBase 0x2000000 0x1800123 s = .ok s' ∧ Repaired pgdBase 0x1800123 s s' := by
  obtain ⟨pg, hr, K, htable, hframe⟩ := exists_booted
  have hlook : (execOk (pageStep pgdBase) (MapsOk pgdBase) ⟨dirtyRam, pgtblsMmc 3⟩ threePages).map
      (fun pg => lookup pgdBase pg.ram 0x1001) = some (some 0x1400000) := by decide +kernel
  rw [hr] at hlook
  obtain ⟨s', hs', -, hiff⟩ := page_fault_repairs 0x2000000 K (show 0x1800123 < 2 ^ 32 by decide) (by decide) (.inr htable)
    fun _ => hframe
  exact ⟨⟨pg, freshMmc 0x1000000 0x3000 1 2⟩, s', rfl, Option.some.inj hlook, hs', hiff.2 (by decide)⟩

/-- The id register of the local APIC: its entry has bit 5 of the address for a flag. -/
theorem page_fault_leaks_offset :
    ∃ m mp s s', Kernel pgdBase m mp s ∧ pageFaultHandler pgdBase 0x2000000 0xfee00020 s = .ok s' ∧
      pte pgdBase s'.pg.ram (pdeIndex 0xfee00020) (pteIndex 0xfee00020) = 0xfee00027 ∧
      ¬ Repaired pgdBase 0xfee00020 s s' := by
  obtain ⟨pg, hr, K, htable, -⟩ := exists_booted
  obtain ⟨s', hs', -, hiff⟩ := K.apicFault 0x2000000 (show 0xfee00020 < 2 ^ 32 by decide) (by decide) (.inr htable)
  have hpte : (execOk (pageStep pgdBase) (MapsOk pgdBase) ⟨dirtyRam, pgtblsMmc 3⟩ threePages).map (fun pg =>
      (pageFaultHandler pgdBase 0x2000000 0xfee00020 ⟨pg, freshMmc 0x1000000 0x3000 1 2⟩).toOption.map
        fun s' => pte pgdBase s'.pg.ram (pdeIndex 0xfee00020) (pteIndex 0xfee00020)) = some (some 0xfee00027) := by
    decide +kernel
  rw [hr, Option.map_some, hs'] at hpte
  exact ⟨_, _, _, s', K, hs', Option.some.inj (Option.some.inj hpte), fun h => absurd (hiff.1 h) (by decide)⟩

end RedMagic.Paging
