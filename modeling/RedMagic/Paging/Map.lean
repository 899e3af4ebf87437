import RedMagic.Paging.Basic

/-!
# The page tables as a finite map

`lookup` reads the map from page numbers to physical pages off a directory. `Tables` says that every
present directory entry points to a frame of its own; `Effect` is what one call does to the entries, and
from it follow that a call changes one page of the map (`Effect.lookup`) and keeps to the words it may
write (`pageMap_confined`).
-/

namespace RedMagic.Paging

open Mm Blocks Lts

/-! ## Reading a directory -/

/-- `pdir->tables[i]`. -/
def pde (pdir : Nat) (r : Ram) (i : Nat) : Nat := r.word (pdir + 4 * i)

/-- `pages[k]` of the table that `pdir->tables[i]` points to. -/
def pte (pdir : Nat) (r : Ram) (i k : Nat) : Nat := r.word ((pde pdir r i &&& pageMask) + 4 * k)

/-- The physical page of page `p`. -/
def lookup (pdir : Nat) (r : Ram) (p : Nat) : Option Nat :=
  if pde pdir r (p / 1024) = 0 ∨ pte pdir r (p / 1024) (p % 1024) = 0 then none
  else some (pte pdir r (p / 1024) (p % 1024) &&& pageMask)

/-- The translation of an address, where there is one. -/
def translate (pdir : Nat) (r : Ram) (x : Nat) : Option Nat :=
  if pde pdir r (pdeIndex x) = 0 ∨ pte pdir r (pdeIndex x) (pteIndex x) = 0 then none
  else some (virtToPhys pdir r x)

theorem page_index {x : Nat} (hx : x < 2 ^ 32) :
    pdeIndex x = x / pageSize / 1024 ∧ pteIndex x = x / pageSize % 1024 := by
  rw [pdeIndex_eq, pteIndex_eq]
  unfold pageSize
  omega

theorem page_split (x : Nat) : 1024 * (x / pageSize / 1024) + x / pageSize % 1024 = x / pageSize :=
  Nat.div_add_mod _ _

theorem translate_eq (pdir : Nat) (r : Ram) {x : Nat} (hx : x < 2 ^ 32) :
    translate pdir r x = (lookup pdir r (x / pageSize)).map (· ||| (x &&& 0xFFF)) := by
  obtain ⟨h1, h2⟩ := page_index hx
  unfold translate lookup
  rw [h1, h2]
  split
  · rfl
  · simp only [virtToPhys, pdeAddr, pteAddr, Option.map_some, h1, h2]
    rfl

theorem land_pageMask_mod (w : Nat) : (w &&& pageMask) % pageSize = 0 := by
  rw [show pageSize = 2 ^ 12 by decide, Nat.and_mod_two_pow, show pageMask % 2 ^ 12 = 0 by decide]
  simp

/-- A physical page begins at a page boundary. -/
theorem lookup_mod {pdir pa p : Nat} {r : Ram} (h : lookup pdir r p = some pa) : pa % pageSize = 0 := by
  unfold lookup at h
  split at h
  · cases h
  · cases h
    exact land_pageMask_mod _

theorem virtToPhys_of_lookup {pdir : Nat} {r : Ram} {x pa : Nat} (hx : x < 2 ^ 32)
    (h : lookup pdir r (x / pageSize) = some pa) : virtToPhys pdir r x = pa + x % pageSize := by
  have ht := translate_eq pdir r hx
  rw [h, Option.map_some, offset_eq, or_color (lookup_mod h) (Nat.mod_lt _ (by decide))] at ht
  unfold translate at ht
  split at ht
  · cases ht
  · exact Option.some.inj ht

/-! ## What one call does -/

/-- The entry `(i, k)` gets the value `v`; a table that was not there is there now, its other entries 0;
nothing else changes. -/
structure Effect (pdir : Nat) (r r' : Ram) (i k v : Nat) : Prop where
  here : pde pdir r' i ≠ 0
  kept : ∀ j < 1024, pde pdir r j ≠ 0 → pde pdir r' j = pde pdir r j
  absent : ∀ j < 1024, j ≠ i → pde pdir r j = 0 → pde pdir r' j = 0
  entry : pte pdir r' i k = v
  others : ∀ j < 1024, ∀ l < 1024, j ≠ i ∨ l ≠ k → pde pdir r j ≠ 0 → pte pdir r' j l = pte pdir r j l
  fresh : pde pdir r i = 0 → ∀ l < 1024, l ≠ k → pte pdir r' i l = 0

/-- A call changes one page of the map. -/
theorem Effect.lookup_eq {pdir : Nat} {r r' : Ram} {i k v : Nat} (h : Effect pdir r r' i k v)
    (hk : k < 1024) {p : Nat} (hp : p < 2 ^ 20) :
    lookup pdir r' p = if p = 1024 * i + k then (if v = 0 then none else some (v &&& pageMask))
      else lookup pdir r p := by
  have hj : p / 1024 < 1024 := by omega
  have hl : p % 1024 < 1024 := by omega
  split
  · rename_i hpe
    have h1 : p / 1024 = i := by omega
    have h2 : p % 1024 = k := by omega
    have hhere := h.here
    rw [lookup, h1, h2, h.entry]
    simp only [hhere, false_or]
  · rename_i hpe
    have hne : p / 1024 ≠ i ∨ p % 1024 ≠ k := by omega
    unfold lookup
    by_cases hold : pde pdir r (p / 1024) = 0
    · rw [if_pos (Or.inl hold)]
      rcases eq_or_ne (p / 1024) i with hi | hi
      · have hzero : pte pdir r' (p / 1024) (p % 1024) = 0 := by
          rw [hi] at hold ⊢
          exact h.fresh hold _ hl (by omega)
        rw [if_pos (Or.inr hzero)]
      · rw [if_pos (Or.inl (h.absent _ hj hi hold))]
    · rw [h.kept _ hj hold, h.others _ hj _ hl hne hold]

/-! ## The directory's tables -/

/-- Every present entry points to an allocated frame that no other entry points to. -/
structure Tables (pdir : Nat) (m : Mmc) (s : PgSt) : Prop where
  alloc : ∃ t k bs, s.mmc = m.upd t k ∧ TableInv m t k bs
  dir : ∀ i < 1024, pde pdir s.ram i ≠ 0 →
    ∃ n < m.nframes, pde pdir s.ram i = frameAddr m n + 7 ∧ pgColor (s.mmc.word n) ≠ pgWhite
  inj : ∀ i < 1024, ∀ j < 1024, pde pdir s.ram i ≠ 0 → pde pdir s.ram i = pde pdir s.ram j → i = j

section
variable {pdir : Nat} {m : Mmc} {s : PgSt}

theorem frame_entry_page (L : Layout m) {n : Nat} (hn : n < m.nframes) :
    frameAddr m n + 7 &&& pageMask = frameAddr m n := by
  have := L.frameAddr_lt hn
  exact entry_page (L.frameAddr_mod n) (by omega)

/-- Entries of different frames, and different entries of one frame, are different words. -/
theorem frame_word_ne {n n' k l : Nat} (hk : k < 1024) (hl : l < 1024) (h : n ≠ n' ∨ k ≠ l) :
    frameAddr m n + 4 * k ≠ frameAddr m n' + 4 * l := by
  unfold frameAddr pageSize
  omega

/-- The directory lies below the frames. -/
theorem dir_word_lt (hd : pdir + pageSize ≤ m.frameBase) {i : Nat} (hi : i < 1024) (n : Nat) :
    pdir + 4 * i < frameAddr m n := by
  unfold frameAddr
  unfold pageSize at *
  omega

theorem Tables.table (L : Layout m) (T : Tables pdir m s) {i : Nat} (hi : i < 1024)
    (hp : pde pdir s.ram i ≠ 0) :
    ∃ n < m.nframes, pde pdir s.ram i &&& pageMask = frameAddr m n ∧ pgColor (s.mmc.word n) ≠ pgWhite := by
  obtain ⟨n, hn, he, hc⟩ := T.dir i hi hp
  exact ⟨n, hn, by rw [he, frame_entry_page L hn], hc⟩

/-- Different present entries point to different frames. -/
theorem Tables.table_ne (L : Layout m) (T : Tables pdir m s) {i j : Nat} (hi : i < 1024) (hj : j < 1024)
    (hne : i ≠ j) (hpi : pde pdir s.ram i ≠ 0) (hpj : pde pdir s.ram j ≠ 0) :
    pde pdir s.ram i &&& pageMask ≠ pde pdir s.ram j &&& pageMask := by
  obtain ⟨n, hn, he, -⟩ := T.dir i hi hpi
  obtain ⟨n', hn', he', -⟩ := T.dir j hj hpj
  intro heq
  rw [he, he', frame_entry_page L hn, frame_entry_page L hn'] at heq
  refine hne (T.inj i hi j hj hpi ?_)
  rw [he, he', heq]

/-! ### A store into a table that is there -/

theorem pde_store_frame (hd : pdir + pageSize ≤ m.frameBase) (r : Ram) (n k v : Nat) {j : Nat} (hj : j < 1024) :
    pde pdir (r.store (frameAddr m n + 4 * k) v) j = pde pdir r j := by
  have := dir_word_lt hd hj n
  exact Ram.store_word_ne r v (by omega)

theorem Tables.storeEntry (L : Layout m) (hd : pdir + pageSize ≤ m.frameBase) (T : Tables pdir m s) {i k : Nat}
    (hi : i < 1024) (hk : k < 1024) (hp : pde pdir s.ram i ≠ 0) (v : Nat) :
    Effect pdir s.ram (s.ram.store ((pde pdir s.ram i &&& pageMask) + 4 * k) v) i k v ∧
    Tables pdir m ⟨s.ram.store ((pde pdir s.ram i &&& pageMask) + 4 * k) v, s.mmc⟩ := by
  obtain ⟨n, hn, htab, hc⟩ := T.table L hi hp
  rw [htab]
  have hpde : ∀ j < 1024, pde pdir (s.ram.store (frameAddr m n + 4 * k) v) j = pde pdir s.ram j :=
    fun j hj => pde_store_frame hd s.ram n k v hj
  refine ⟨⟨?_, ?_, ?_, ?_, ?_, ?_⟩, ⟨T.alloc, ?_, ?_⟩⟩
  · rw [hpde i hi]
    exact hp
  · intro j hj _
    exact hpde j hj
  · intro j hj _ hz
    rw [hpde j hj]
    exact hz
  · rw [pte, hpde i hi, htab]
    exact Ram.store_word_self ..
  · intro j hj l hl hne hpj
    obtain ⟨n', hn', htab', -⟩ := T.table L hj hpj
    rw [pte, pte, hpde j hj, htab']
    refine Ram.store_word_ne _ _ (frame_word_ne hl hk ?_)
    rcases eq_or_ne j i with rfl | hji
    · exact .inr (hne.resolve_left (fun h => h rfl))
    · left
      rintro rfl
      exact T.table_ne L hj hi hji hpj hp (htab'.trans htab.symm)
  · intro hz
    exact absurd hz hp
  · intro j hj hpj
    rw [hpde j hj] at hpj ⊢
    exact T.dir j hj hpj
  · intro j hj j' hj' hpj heq
    rw [hpde j hj] at hpj heq
    rw [hpde j' hj'] at heq
    exact T.inj j hj j' hj' hpj heq

/-! ### A new table -/

/-- The stores of `__page_map` for a new table at `f`. -/
def newTable (pdir : Nat) (r : Ram) (f i k v : Nat) : Ram :=
  ((r.bzero f).store (pdir + 4 * i) (entryOf f)).store (f + 4 * k) v

theorem newTable_dir (hd : pdir + pageSize ≤ m.frameBase) (r : Ram) {n i j : Nat} (k v : Nat) (hj : j < 1024) :
    pde pdir (newTable pdir r (frameAddr m n) i k v) j
      = if j = i then entryOf (frameAddr m n) else pde pdir r j := by
  have hlt := dir_word_lt hd hj n
  unfold newTable pde
  rw [Ram.store_word_ne _ _ (by omega)]
  split
  · rename_i hji
    rw [hji, Ram.store_word_self]
  · rw [Ram.store_word_ne _ _ (by omega), Ram.bzero_word_out _ (by omega)]

theorem newTable_frame (hd : pdir + pageSize ≤ m.frameBase) (r : Ram) {n n' i k l : Nat} (v : Nat)
    (hi : i < 1024) (hk : k < 1024) (hl : l < 1024) :
    (newTable pdir r (frameAddr m n) i k v).word (frameAddr m n' + 4 * l)
      = if n' = n then (if l = k then v else 0) else r.word (frameAddr m n' + 4 * l) := by
  have hlt := dir_word_lt hd hi n'
  unfold newTable
  split
  · rename_i hn
    subst hn
    split
    · rename_i hlk
      rw [hlk, Ram.store_word_self]
    · rename_i hlk
      rw [Ram.store_word_ne _ _ (by omega), Ram.store_word_ne _ _ (by omega),
        Ram.bzero_word_in _ (by omega) (by unfold pageSize; omega)]
  · rename_i hn
    have hne := frame_word_ne (m := m) hl hk (.inl hn)
    rw [Ram.store_word_ne _ _ hne, Ram.store_word_ne _ _ (by omega), Ram.bzero_word_out]
    unfold frameAddr pageSize
    omega

theorem Tables.addTable (L : Layout m) (hd : pdir + pageSize ≤ m.frameBase) (T : Tables pdir m s) {i k n k' : Nat}
    {t' : List Nat} {bs' : List Block} (hi : i < 1024) (hk : k < 1024) (hp : pde pdir s.ram i = 0)
    (hn : n < m.nframes) (hwhite : pgColor (s.mmc.word n) = pgWhite) (hinv : TableInv m t' k' bs')
    (hcol : pgColor (t'.getD n 0) ≠ pgWhite)
    (hkept : ∀ j < m.nframes, pgColor (s.mmc.word j) ≠ pgWhite → pgColor (t'.getD j 0) ≠ pgWhite) (v : Nat) :
    Effect pdir s.ram (newTable pdir s.ram (frameAddr m n) i k v) i k v ∧
    Tables pdir m ⟨newTable pdir s.ram (frameAddr m n) i k v, m.upd t' k'⟩ := by
  have hpde : ∀ j < 1024, pde pdir (newTable pdir s.ram (frameAddr m n) i k v) j
      = if j = i then frameAddr m n + 7 else pde pdir s.ram j := by
    intro j hj
    rw [newTable_dir hd s.ram k v hj, entryOf_eq (L.frameAddr_mod n)]
  have hpde_i : pde pdir (newTable pdir s.ram (frameAddr m n) i k v) i = frameAddr m n + 7 := by
    rw [hpde i hi, if_pos rfl]
  have hpte_i : ∀ l < 1024, pte pdir (newTable pdir s.ram (frameAddr m n) i k v) i l = if l = k then v else 0 := by
    intro l hl
    rw [pte, hpde_i, frame_entry_page L hn, newTable_frame hd s.ram v hi hk hl, if_pos rfl]
  have hold : ∀ j < 1024, pde pdir s.ram j ≠ 0 →
      pde pdir (newTable pdir s.ram (frameAddr m n) i k v) j = pde pdir s.ram j := by
    intro j hj hpj
    rw [hpde j hj, if_neg]
    rintro rfl
    exact hpj hp
  -- a frame the directory already uses is coloured, so it is not the new one
  have hother : ∀ n', pgColor (s.mmc.word n') ≠ pgWhite → n' ≠ n := by
    rintro n' hc rfl
    exact hc hwhite
  refine ⟨⟨?_, hold, ?_, ?_, ?_, ?_⟩, ⟨⟨t', k', bs', rfl, hinv⟩, ?_, ?_⟩⟩
  · rw [hpde_i]
    omega
  · intro j hj hji hz
    rw [hpde j hj, if_neg hji]
    exact hz
  · rw [hpte_i k hk, if_pos rfl]
  · intro j hj l hl _ hpj
    obtain ⟨n', hn', htab', hc'⟩ := T.table L hj hpj
    rw [pte, pte, hold j hj hpj, htab', newTable_frame hd s.ram v hi hk hl, if_neg (hother n' hc')]
  · intro _ l hl hlk
    rw [hpte_i l hl, if_neg hlk]
  · intro j hj hpj
    simp only [hpde j hj] at hpj ⊢
    split at hpj
    · rename_i hji
      rw [if_pos hji]
      exact ⟨n, hn, rfl, hcol⟩
    · rename_i hji
      rw [if_neg hji]
      obtain ⟨n', hn', he', hc'⟩ := T.dir j hj hpj
      exact ⟨n', hn', he', hkept n' hn' hc'⟩
  · intro j hj j' hj' hpj heq
    simp only [hpde j hj, hpde j' hj'] at hpj heq
    have hnew : ∀ l < 1024, frameAddr m n + 7 ≠ pde pdir s.ram l := by
      intro l hl he
      obtain ⟨n', -, he', hc'⟩ := T.dir l hl (by omega)
      refine hother n' hc' ?_
      have : frameAddr m n = frameAddr m n' := by omega
      unfold frameAddr pageSize at this
      omega
    split at heq
    · rename_i hji
      split at heq
      · rename_i hji'
        rw [hji, hji']
      · exact absurd heq (hnew j' hj')
    · rename_i hji
      rw [if_neg hji] at hpj
      split at heq
      · exact absurd heq.symm (hnew j hj)
      · exact T.inj j hj j' hj' hpj heq

end

/-! ## The calls -/

inductive PageOp where
  | map (va pa : Nat)
  | unmap (va : Nat)
deriving DecidableEq, Repr

def PageOp.va : PageOp → Nat
  | .map va _ => va
  | .unmap va => va

/-- The call, with its status. -/
def PageOp.call (pdir : Nat) : PageOp → PgSt → Except String (Nat × PgSt)
  | .map va pa, s => pageMap pdir va pa s
  | .unmap va, s => .ok (pageUnmap pdir va s)

/-- The directory entry of the address is present, or a page table can be allocated for it. -/
def Served (pdir : Nat) (s : PgSt) : PageOp → Prop
  | .map va _ => s.ram.word (pdeAddr pdir va) ≠ 0 ∨ ∃ i < s.mmc.nframes, pgColor (s.mmc.word i) = pgWhite
  | .unmap va => s.ram.word (pdeAddr pdir va) ≠ 0

instance (pdir : Nat) (s : PgSt) (op : PageOp) : Decidable (Served pdir s op) :=
  match op with
  | .map va _ => inferInstanceAs (Decidable
      (s.ram.word (pdeAddr pdir va) ≠ 0 ∨ ∃ i < s.mmc.nframes, pgColor (s.mmc.word i) = pgWhite))
  | .unmap va => inferInstanceAs (Decidable (s.ram.word (pdeAddr pdir va) ≠ 0))

/-- A word of a page table: an entry of a frame that is allocated from the `mmc_t` and that a present
entry of the directory points to. -/
def TableWord (pdir : Nat) (s : PgSt) (a : Nat) : Prop :=
  ∃ i < 1024, ∃ n < s.mmc.nframes, ∃ k < 1024, pde pdir s.ram i ≠ 0 ∧
    pde pdir s.ram i &&& pageMask = frameAddr s.mmc n ∧ pgColor (s.mmc.word n) ≠ pgWhite ∧
    a = frameAddr s.mmc n + 4 * k

/-- The call from `s` to `s'` writes the directory entry of its address, words of page tables and the
bookkeeping of an allocation; if it cannot be served it fails and changes nothing. -/
structure Confined (pdir : Nat) (s : PgSt) (op : PageOp) (status : Nat) (s' : PgSt) : Prop where
  words : ∀ a ∈ s'.ram.written, a = pdeAddr pdir op.va ∨ TableWord pdir s' a
  mmc : s'.mmc = s.mmc ∨ ∃ p, allocFrame s.mmc = .ok (some p, s'.mmc)
  refused : ¬ Served pdir s op → status ≠ 0 ∧ s'.ram.word = s.ram.word ∧ s'.mmc = s.mmc

/-- A state before a call: nothing written yet. -/
def PgSt.fresh (s : PgSt) : PgSt := ⟨⟨s.ram.word, []⟩, s.mmc⟩

def pageStep (pdir : Nat) (s : PgSt) (op : PageOp) : Option PgSt :=
  match op.call pdir s.fresh with
  | .ok (_, s') => some s'
  | .error _ => none

/-- The value a call puts into the page entry. -/
def PageOp.value : PageOp → Nat
  | .map _ pa => entryOf pa
  | .unmap _ => 0

section
variable {pdir : Nat} {m : Mmc} {s : PgSt}

theorem Tables.fresh (T : Tables pdir m s) : Tables pdir m s.fresh := ⟨T.alloc, T.dir, T.inj⟩

/-- The table word a store into a present table writes. -/
theorem Tables.tableWord (L : Layout m) (T : Tables pdir m s) {i k : Nat} (hi : i < 1024) (hk : k < 1024)
    (hp : pde pdir s.ram i ≠ 0) : TableWord pdir s ((pde pdir s.ram i &&& pageMask) + 4 * k) := by
  obtain ⟨n, hn, htab, hc⟩ := T.table L hi hp
  obtain ⟨t, k', bs, hm, -⟩ := T.alloc
  rw [htab]
  refine ⟨i, hi, n, ?_, k, hk, hp, ?_, hc, ?_⟩
  · rw [hm]
    exact hn
  · rw [hm]
    exact htab
  · rw [hm]
    rfl

/-- What a store into a present table leaves behind, for both calls. -/
theorem Tables.storePresent (L : Layout m) (hd : pdir + pageSize ≤ m.frameBase) (T : Tables pdir m s) {op : PageOp}
    (hp : s.ram.word (pdeAddr pdir op.va) ≠ 0)
    (hcall : op.call pdir s.fresh
      = .ok (0, ⟨s.fresh.ram.store (pteAddr (s.ram.word (pdeAddr pdir op.va) &&& pageMask) op.va) op.value, s.mmc⟩)) :
    ∃ s', op.call pdir s.fresh = .ok (0, s') ∧ Tables pdir m s' ∧ Confined pdir s op 0 s' ∧
      Effect pdir s.ram s'.ram (pdeIndex op.va) (pteIndex op.va) op.value := by
  have hi := pdeIndex_lt op.va
  have hk := pteIndex_lt op.va
  obtain ⟨heff, htab⟩ := T.fresh.storeEntry L hd hi hk hp op.value
  refine ⟨_, hcall, htab, ⟨?_, .inl rfl, ?_⟩, ⟨heff.here, heff.kept, heff.absent, heff.entry, heff.others, heff.fresh⟩⟩
  · intro a ha
    right
    have hsame : pde pdir s.ram (pdeIndex op.va)
        = pde pdir (s.fresh.ram.store ((pde pdir s.fresh.ram (pdeIndex op.va) &&& pageMask) + 4 * pteIndex op.va)
          op.value) (pdeIndex op.va) := (heff.kept _ hi hp).symm
    have ha' : a = (pde pdir s.ram (pdeIndex op.va) &&& pageMask) + 4 * pteIndex op.va := by
      simpa [PgSt.fresh, pteAddr, pdeAddr, pde] using ha
    rw [ha', hsame]
    exact htab.tableWord L hi hk heff.here
  · intro hns
    exfalso
    refine hns ?_
    cases op with
    | map va pa => exact .inl hp
    | unmap va => exact hp

/-- **`page_map` and `page_unmap`**, on a directory whose tables are sound, when the call can be served:
it returns 0, writes what it may write and sets one entry. -/
theorem Tables.call (L : Layout m) (hd : pdir + pageSize ≤ m.frameBase) (h0 : 0 < m.metaBase)
    (T : Tables pdir m s) {op : PageOp} (hs : Served pdir s op) :
    ∃ s', op.call pdir s.fresh = .ok (0, s') ∧ Tables pdir m s' ∧ Confined pdir s op 0 s' ∧
      Effect pdir s.ram s'.ram (pdeIndex op.va) (pteIndex op.va) op.value := by
  cases op with
  | unmap va => exact T.storePresent L hd hs rfl
  | map va pa =>
    by_cases hp : s.ram.word (pdeAddr pdir va) = 0
    · have hi := pdeIndex_lt va
      have hk := pteIndex_lt va
      obtain ⟨t, k, bs, hm, hinv⟩ := T.alloc
      obtain ⟨i, hin, hwhite⟩ : ∃ i < s.mmc.nframes, pgColor (s.mmc.word i) = pgWhite :=
        hs.resolve_left fun h => h hp
      rw [hm] at hin hwhite
      rcases allocFrame_spec L hinv with hnone | ⟨n, t', k', bs', hn, he, hinv', hw, hc, hkept⟩
      · exact absurd hnone (allocFrame_ne_none L h0 hinv hin hwhite)
      · have hword : ∀ j, s.mmc.word j = t.getD j 0 := fun j => by rw [hm]; rfl
        obtain ⟨heff, htab⟩ := T.fresh.addTable L hd hi hk hp hn ((congrArg _ (hword n)).trans hw) hinv' hc
          (fun j hj hcj => hkept j hj (by rw [← hword j]; exact hcj)) (entryOf pa)
        have hcall : pageMap pdir va pa s.fresh
            = .ok (0, ⟨newTable pdir s.fresh.ram (frameAddr m n) (pdeIndex va) (pteIndex va) (entryOf pa),
                m.upd t' k'⟩) := by
          have hp' : s.fresh.ram.word (pdeAddr pdir va) = 0 := hp
          have he' : allocFrame s.fresh.mmc = .ok (some (frameAddr m n), m.upd t' k') := by
            rw [← he, ← hm]
            rfl
          simp only [pageMap, hp', he', if_true, Option.getD_some]
          rfl
        refine ⟨_, hcall, htab, ⟨?_, .inr ⟨frameAddr m n, ?_⟩, fun hns => absurd hs hns⟩, ?_⟩
        · intro a ha
          have hframe : ∀ l < 1024, TableWord pdir
              ⟨newTable pdir s.fresh.ram (frameAddr m n) (pdeIndex va) (pteIndex va) (entryOf pa), m.upd t' k'⟩
              (frameAddr m n + 4 * l) := by
            intro l hl
            have := htab.tableWord L hi hl heff.here
            rw [newTable_dir hd s.fresh.ram _ _ hi, if_pos rfl, entryOf_eq (L.frameAddr_mod n),
              frame_entry_page L hn] at this
            exact this
          simp only [newTable, PgSt.fresh, Ram.mem_written_store, Ram.mem_written_bzero, List.not_mem_nil,
            false_or] at ha
          rcases ha with (⟨l, hl, rfl⟩ | rfl) | rfl
          · exact .inr (hframe l hl)
          · exact .inl rfl
          · exact .inr (hframe _ hk)
        · rw [hm]
          exact he
        · exact ⟨heff.here, heff.kept, heff.absent, heff.entry, heff.others, heff.fresh⟩
    · refine T.storePresent L hd hp ?_
      have hp' : s.fresh.ram.word (pdeAddr pdir va) ≠ 0 := hp
      simp only [PageOp.call, pageMap, hp', if_false]
      rfl

theorem Tables.step (L : Layout m) (hd : pdir + pageSize ≤ m.frameBase) (h0 : 0 < m.metaBase)
    (T : Tables pdir m s) {op : PageOp} {s' : PgSt} (hs : Served pdir s op) (h : pageStep pdir s op = some s') :
    Tables pdir m s' ∧ Effect pdir s.ram s'.ram (pdeIndex op.va) (pteIndex op.va) op.value := by
  obtain ⟨u, hc, hT, -, heff⟩ := T.call L hd h0 hs
  rw [pageStep, hc] at h
  cases h
  exact ⟨hT, heff⟩

end

/-! ## The start -/

/-- The page allocator of a directory: a page-aligned region above the directory, set up by
`MM_PAGE_TABLE`. -/
theorem mmPageTable_place {pdir base length : Nat} {m : Mmc} (hdir : pdir + pageSize ≤ base)
    (ha : base % pageSize = 0) (hw : base + length < 2 ^ 32) (h0 : mmPageTable base length = .ok (some m)) :
    Layout m ∧ pdir + pageSize ≤ m.frameBase ∧ 0 < m.metaBase ∧ TableInv m m.table m.nfree [] := by
  obtain ⟨L, hinv⟩ := mmPageTable_spec ha hw h0
  obtain ⟨mpg, npg, -, -, rfl⟩ := mmPageTable_eq ha hw h0
  refine ⟨L, ?_, ?_, hinv⟩
  · show pdir + pageSize ≤ base + mpg * pageSize
    omega
  · show 0 < base
    unfold pageSize at hdir
    omega

theorem tables_start {pdir : Nat} {m : Mmc} {ram : Ram} (hinv : TableInv m m.table m.nfree [])
    (hzero : ∀ i < 1024, pde pdir ram i = 0) : Tables pdir m ⟨ram, m⟩ where
  alloc := ⟨m.table, m.nfree, [], rfl, hinv⟩
  dir := fun i hi hp => absurd (hzero i hi) hp
  inj := fun i hi _ _ hp => absurd (hzero i hi) hp

/-! ## A finite map -/

/-- What a call does to the map from pages to physical pages. -/
def PageOp.apply (M : Nat → Option Nat) : PageOp → Nat → Option Nat
  | .map va pa => Function.update M (va / pageSize) (some pa)
  | .unmap va => Function.update M (va / pageSize) none

/-- The physical page of the last `page_map` of each page, if it has not been unmapped since. -/
def mappings (ops : List PageOp) : Nat → Option Nat := ops.foldl PageOp.apply fun _ => none

/-- 32-bit addresses, and a page-aligned physical one. -/
def PageOp.Aligned : PageOp → Prop
  | .map va pa => va < 2 ^ 32 ∧ pa < 2 ^ 32 ∧ pa % pageSize = 0
  | .unmap va => va < 2 ^ 32

instance (op : PageOp) : Decidable op.Aligned :=
  match op with
  | .map va pa => inferInstanceAs (Decidable (va < 2 ^ 32 ∧ pa < 2 ^ 32 ∧ pa % pageSize = 0))
  | .unmap va => inferInstanceAs (Decidable (va < 2 ^ 32))

def MapsOk (pdir : Nat) (s : PgSt) (op : PageOp) : Prop := op.Aligned ∧ Served pdir s op

instance (pdir : Nat) (s : PgSt) (op : PageOp) : Decidable (MapsOk pdir s op) :=
  inferInstanceAs (Decidable (op.Aligned ∧ Served pdir s op))

/-- The page tables of `s` are sound and hold the map `M`. -/
def Holds (pdir : Nat) (m : Mmc) (s : PgSt) (M : Nat → Option Nat) : Prop :=
  Tables pdir m s ∧ ∀ p < 2 ^ 20, lookup pdir s.ram p = M p

theorem PageOp.Aligned.va_lt {op : PageOp} (h : op.Aligned) : op.va < 2 ^ 32 := by
  cases op with
  | map va pa => exact h.1
  | unmap va => exact h

/-- The entry a call sets, read back. -/
theorem PageOp.Aligned.value {op : PageOp} (h : op.Aligned) (M : Nat → Option Nat) :
    op.apply M (op.va / pageSize) = if op.value = 0 then none else some (op.value &&& pageMask) := by
  cases op with
  | map va pa =>
    obtain ⟨-, hpa, hmod⟩ := h
    have hne : pa + 7 ≠ 0 := by omega
    simp only [PageOp.apply, PageOp.va, PageOp.value, Function.update_self, entryOf_eq hmod, hne, if_false,
      entry_page hmod hpa]
  | unmap va => simp [PageOp.apply, PageOp.va, PageOp.value]

theorem PageOp.apply_ne (M : Nat → Option Nat) (op : PageOp) {p : Nat} (h : p ≠ op.va / pageSize) :
    op.apply M p = M p := by
  cases op with
  | map va pa => exact Function.update_of_ne h ..
  | unmap va => exact Function.update_of_ne h ..

section
variable {pdir : Nat} {m : Mmc} (L : Layout m) (hd : pdir + pageSize ≤ m.frameBase) (h0 : 0 < m.metaBase)
include L hd h0

/-- One call sets or clears the page of its address and leaves the other pages alone. -/
theorem Tables.step_lookup {s s' : PgSt} (T : Tables pdir m s) {op : PageOp} (hok : MapsOk pdir s op)
    (h : pageStep pdir s op = some s') {p : Nat} (hp : p < 2 ^ 20) :
    lookup pdir s'.ram p = op.apply (lookup pdir s.ram) p := by
  obtain ⟨-, heff⟩ := T.step L hd h0 hok.2 h
  obtain ⟨h1, h2⟩ := page_index hok.1.va_lt
  rw [heff.lookup_eq (pteIndex_lt _) hp, h1, h2, page_split]
  split
  · rename_i hpe
    rw [hpe, hok.1.value]
  · rename_i hpe
    exact (op.apply_ne _ hpe).symm

theorem Holds.step {s s' : PgSt} {M : Nat → Option Nat} (hh : Holds pdir m s M) {op : PageOp}
    (hok : MapsOk pdir s op) (h : pageStep pdir s op = some s') : Holds pdir m s' (op.apply M) := by
  refine ⟨(hh.1.step L hd h0 hok.2 h).1, ?_⟩
  intro p hp
  rw [hh.1.step_lookup L hd h0 hok h hp]
  cases op with
  | map va pa => simp only [PageOp.apply, Function.update_apply, hh.2 p hp]
  | unmap va => simp only [PageOp.apply, Function.update_apply, hh.2 p hp]

/-- From a zeroed directory the page tables hold what has been mapped. -/
theorem holds_run {ram : Ram} {ops : List PageOp} {s : PgSt} (hinv : TableInv m m.table m.nfree [])
    (hzero : ∀ i < 1024, pde pdir ram i = 0) (hr : execOk (pageStep pdir) (MapsOk pdir) ⟨ram, m⟩ ops = some s) :
    Holds pdir m s (mappings ops) := by
  have hstart : Holds pdir m ⟨ram, m⟩ fun _ => none := by
    refine ⟨tables_start hinv hzero, ?_⟩
    intro p hp
    exact if_pos (.inl (hzero _ (by omega)))
  exact execOk_refines (R := Holds pdir m) (pageStep pdir) (MapsOk pdir) PageOp.apply
    (fun u op v M hu hok hs => Holds.step L hd h0 hu hok hs) ops hstart hr

end

/-- **Page tables implement a finite map.** From a zeroed directory and a fresh page allocator above it,
after any sequence of `page_map` with page-aligned physical addresses and `page_unmap`, each with the
directory entry present or, for `page_map`, a white frame left: `__virt_to_phys` gives the last mapping of
every mapped page; an unmapped page has no directory entry or a zero page entry; a further call returns and
changes no other page's translation; present directory entries point to different frames. -/
theorem page_tables_map (pdir base length : Nat) (m : Mmc) (ram : Ram) (hdir : pdir + pageSize ≤ base)
    (ha : base % pageSize = 0) (hw : base + length < 2 ^ 32) (h0 : mmPageTable base length = .ok (some m))
    (hzero : ∀ i < 1024, pde pdir ram i = 0) (ops : List PageOp) (s : PgSt)
    (hr : execOk (pageStep pdir) (MapsOk pdir) ⟨ram, m⟩ ops = some s) :
    (∀ x < 2 ^ 32, ∀ pa, mappings ops (x / pageSize) = some pa → virtToPhys pdir s.ram x = pa + x % pageSize) ∧
    (∀ x < 2 ^ 32, mappings ops (x / pageSize) = none →
      pde pdir s.ram (pdeIndex x) = 0 ∨ pte pdir s.ram (pdeIndex x) (pteIndex x) = 0) ∧
    (∀ op, MapsOk pdir s op → ∃ s', pageStep pdir s op = some s' ∧
      ∀ x < 2 ^ 32, x / pageSize ≠ op.va / pageSize → translate pdir s'.ram x = translate pdir s.ram x) ∧
    (∀ i < 1024, ∀ j < 1024, i ≠ j → pde pdir s.ram i ≠ 0 → pde pdir s.ram j ≠ 0 →
      pde pdir s.ram i &&& pageMask ≠ pde pdir s.ram j &&& pageMask) := by
  obtain ⟨L, hd, hm, hinv⟩ := mmPageTable_place hdir ha hw h0
  obtain ⟨T, hlook⟩ := holds_run L hd hm hinv hzero hr
  have hpage : ∀ x < 2 ^ 32, x / pageSize < 2 ^ 20 := by
    intro x hx
    unfold pageSize
    omega
  refine ⟨?_, ?_, ?_, ?_⟩
  · intro x hx pa hpa
    exact virtToPhys_of_lookup hx ((hlook _ (hpage x hx)).trans hpa)
  · intro x hx hnone
    have hl := (hlook _ (hpage x hx)).trans hnone
    obtain ⟨h1, h2⟩ := page_index hx
    rw [h1, h2]
    by_contra hne
    rw [lookup, if_neg hne] at hl
    cases hl
  · intro op hok
    obtain ⟨u, hc, -⟩ := T.call L hd hm hok.2
    have hs : pageStep pdir s op = some u := by rw [pageStep, hc]
    refine ⟨u, hs, ?_⟩
    intro x hx hne
    rw [translate_eq pdir u.ram hx, translate_eq pdir s.ram hx, T.step_lookup L hd hm hok hs (hpage x hx),
      op.apply_ne _ hne]
  · intro i hi j hj hne hpi hpj
    exact T.table_ne L hi hj hne hpi hpj

/-- Memory at the start: the kernel's directory is zero, everything else is not. -/
def dirtyRam : Ram := ⟨fun a => if pgdBase ≤ a ∧ a < pgdBase + pageSize then 0 else 0xCCCCCCCC, []⟩

theorem dirtyRam_dir (i : Nat) (hi : i < 1024) : pde pgdBase dirtyRam i = 0 := by
  refine if_pos ⟨by omega, ?_⟩
  unfold pageSize
  omega

/-- The `mmc_t` over `pages` pages behind the page directories: one page for the table, the others frames. -/
def pgtblsMmc (pages : Nat) : Mmc :=
  freshMmc (pgdBase + pgdMax * pageSize) (pages * pageSize) 1 (pages - 1)

/-- Two pages of one table are mapped and the first is unmapped again. -/
theorem page_tables_map_three_calls :
    ∃ s, execOk (pageStep pgdBase) (MapsOk pgdBase) ⟨dirtyRam, pgtblsMmc 3⟩
        [.map 0x400123 0x7000, .map 0x401000 0x9000, .unmap 0x400000] = some s ∧
      virtToPhys pgdBase s.ram 0x401abc = 0x9abc ∧
      (pde pgdBase s.ram 1 = 0 ∨ pte pgdBase s.ram 1 0 = 0) := by
  have hsome : (execOk (pageStep pgdBase) (MapsOk pgdBase) ⟨dirtyRam, pgtblsMmc 3⟩
      [.map 0x400123 0x7000, .map 0x401000 0x9000, .unmap 0x400000]).isSome = true := by decide +kernel
  obtain ⟨s, hs⟩ := Option.isSome_iff_exists.1 hsome
  obtain ⟨hmap, hfree, -, -⟩ := page_tables_map pgdBase 0x105000 0x3000 (pgtblsMmc 3) dirtyRam (by decide)
    (by decide) (by decide) rfl dirtyRam_dir _ s hs
  exact ⟨s, hs, hmap 0x401abc (by decide) 0x9000 (by decide), hfree 0x400000 (by decide) (by decide)⟩

/-- **Calls keep to their words.** From a zeroed directory and a fresh page allocator above it, in every
state that served calls lead to: the next call, whatever its addresses, writes only the directory entry of
its address, words of the directory's page tables and the bookkeeping of an allocation, and fails without
an effect if it cannot be served, exactly when it can be served. -/
theorem paging_confined (pdir base length : Nat) (m : Mmc) (ram : Ram) (hdir : pdir + pageSize ≤ base)
    (ha : base % pageSize = 0) (hw : base + length < 2 ^ 32) (h0 : mmPageTable base length = .ok (some m))
    (hzero : ∀ i < 1024, pde pdir ram i = 0) (s : PgSt)
    (hr : Reaches (pageStep pdir) (Served pdir) ⟨ram, m⟩ s) (op : PageOp) :
    (∃ status s', op.call pdir s.fresh = .ok (status, s') ∧ Confined pdir s op status s') ↔ Served pdir s op := by
  obtain ⟨L, hd, hm, hinv⟩ := mmPageTable_place hdir ha hw h0
  have T : Tables pdir m s := hr.invariant (tables_start hinv hzero)
    (fun u op v hu hok hs => (hu.step L hd hm hok hs).1)
  constructor
  · rintro ⟨status, s', hc, hconf⟩
    by_contra hns
    -- no call ever returns anything but 0
    have hzero : status = 0 := by
      cases op with
      | unmap va =>
        cases hc
        rfl
      | map va pa =>
        simp only [PageOp.call, pageMap] at hc
        split at hc
        · split at hc
          · cases hc
          · cases hc
            rfl
        · cases hc
          rfl
    exact (hconf.refused hns).1 hzero
  · intro hs
    obtain ⟨u, hc, -, hconf, -⟩ := T.call L hd hm hs
    exact ⟨0, u, hc, hconf⟩

/-- The first `page_map` with a frame to take. -/
theorem paging_confined_first_map :
    ∃ status s', (PageOp.map 0 0x8000).call pgdBase (PgSt.fresh ⟨dirtyRam, pgtblsMmc 2⟩) = .ok (status, s') ∧
      Confined pgdBase ⟨dirtyRam, pgtblsMmc 2⟩ (.map 0 0x8000) status s' :=
  (paging_confined pgdBase 0x105000 0x2000 (pgtblsMmc 2) dirtyRam (by decide) (by decide) (by decide) rfl
    dirtyRam_dir _ (Reaches.refl _) (.map 0 0x8000)).2 (by decide +kernel)

/-- One frame, two tables: the second `page_map` gets NULL for a table, returns 0 and has cleared page 0. -/
theorem paging_null_table :
    ∃ s, Reaches (pageStep pgdBase) (Served pgdBase) ⟨dirtyRam, pgtblsMmc 2⟩ s ∧
      ∃ r, (PageOp.map 0x400000 0x9000).call pgdBase s.fresh = .ok r ∧ r.1 = 0 ∧ 0 ∈ r.2.ram.written ∧
        ¬ Confined pgdBase s (.map 0x400000 0x9000) r.1 r.2 := by
  obtain ⟨s, hr, hs⟩ := exists_reaches (pageStep pgdBase) (Served pgdBase) ⟨dirtyRam, pgtblsMmc 2⟩ [.map 0 0x8000]
    (fun s => decide (¬ Served pgdBase s (.map 0x400000 0x9000)) &&
      ((PageOp.map 0x400000 0x9000).call pgdBase s.fresh).toOption.any
        fun r : Nat × PgSt => decide (r.1 = 0) && r.2.ram.written.contains 0) (by decide +kernel)
  rw [Bool.and_eq_true] at hs
  obtain ⟨hdec, hany⟩ := hs
  have hns : ¬ Served pgdBase s (.map 0x400000 0x9000) := of_decide_eq_true hdec
  obtain ⟨r, hc, hr0⟩ := (Option.any_eq_true _ _).1 hany
  obtain ⟨hzero, hmem⟩ : r.1 = 0 ∧ 0 ∈ r.2.ram.written := by simpa using hr0
  refine ⟨s, hr, r, ?_, hzero, hmem, fun hconf => (hconf.refused hns).1 hzero⟩
  revert hc
  cases (PageOp.map 0x400000 0x9000).call pgdBase s.fresh with
  | error e => simp [Except.toOption]
  | ok r' => simp [Except.toOption]

end RedMagic.Paging
