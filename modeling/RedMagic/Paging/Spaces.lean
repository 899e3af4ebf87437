import RedMagic.Paging.Map

/-!
# Several directories (src/mm.c:309-346, :388-396, src/task.c:131-140)

`create_task` gives a task a directory of its own and fills it by `copy_page_directory_from(k_pdir, …)`. What is copied are the
entries of the directory, so that the two share the page tables that were there at that time.

`Spaces` is what this amounts to: each directory has a table, or none, for each of its 1024 entries, and the tables are shared.
`Rep` says that the memory holds it, with the frame `f n` for the table `n`.
-/

namespace RedMagic.Paging

open Mm Blocks Lts

/-- `copy_page_directory_from`, by words. -/
def copyPageDirectoryFrom (src dst : Nat) (r : Ram) : Ram :=
  let aSrc := src &&& pageMask
  let aDst := dst &&& pageMask
  ⟨fun b => if aDst ≤ b ∧ b < aDst + pageSize then r.word (aSrc + (b - aDst)) else r.word b,
    r.written ++ (List.range (pageSize / 4)).map fun i => aDst + 4 * i⟩

/-! ## Shared tables -/

structure Spaces where
  /-- The directories in use. -/
  live : List Nat
  /-- The table for an entry of a directory. -/
  dir : Nat → Nat → Option Nat
  /-- The physical pages of a table. -/
  tbl : Nat → Option (Nat → Option Nat)
  /-- No table has this number or a larger one. -/
  next : Nat

namespace Spaces

def look (A : Spaces) (d p : Nat) : Option Nat := do
  let n ← A.dir d (p / 1024)
  let T ← A.tbl n
  T (p % 1024)

/-- An entry of the table `n` is set. -/
def set (A : Spaces) (n k : Nat) (v : Option Nat) : Spaces :=
  match A.tbl n with
  | some T => { A with tbl := Function.update A.tbl n (some (Function.update T k v)) }
  | none => A

def map (A : Spaces) (d p pa : Nat) : Spaces :=
  match A.dir d (p / 1024) with
  | some n => A.set n (p % 1024) (some pa)
  | none =>
    { A with
      dir := Function.update A.dir d (Function.update (A.dir d) (p / 1024) (some A.next))
      tbl := Function.update A.tbl A.next (some (Function.update (fun _ => none) (p % 1024) (some pa)))
      next := A.next + 1 }

def unmap (A : Spaces) (d p : Nat) : Spaces :=
  match A.dir d (p / 1024) with
  | some n => A.set n (p % 1024) none
  | none => A

def copy (A : Spaces) (src dst : Nat) : Spaces :=
  { A with live := dst :: A.live, dir := Function.update A.dir dst (A.dir src) }

section
variable (A : Spaces) (n k : Nat) (v : Option Nat)

@[simp] theorem set_live : (A.set n k v).live = A.live := by
  rw [set]
  split <;> rfl

@[simp] theorem set_dir : (A.set n k v).dir = A.dir := by
  rw [set]
  split <;> rfl

@[simp] theorem set_next : (A.set n k v).next = A.next := by
  rw [set]
  split <;> rfl

end

/-- The tables after one entry is set. -/
theorem set_tbl {A : Spaces} {n : Nat} {T : Nat → Option Nat} (h : A.tbl n = some T) (k : Nat) (v : Option Nat) :
    (A.set n k v).tbl = Function.update A.tbl n (some (Function.update T k v)) := by
  rw [set, h]

end Spaces

theorem update_eq_some {α β : Type} [DecidableEq α] {g : α → Option β} {a b : α} {x y : β} :
    Function.update g a (some x) b = some y ↔ (b = a ∧ x = y) ∨ (b ≠ a ∧ g b = some y) := by
  by_cases hb : b = a
  · subst hb
    simp
  · simp [hb]

/-! ## The calls -/

inductive SpaceOp where
  | map (d va pa : Nat)
  | unmap (d va : Nat)
  | copy (src dst : Nat)
deriving DecidableEq, Repr

def SpaceOp.call (s : PgSt) : SpaceOp → Option PgSt
  | .map d va pa => (pageMap d va pa s).toOption.map (·.2)
  | .unmap d va => some (pageUnmap d va s).2
  | .copy src dst => some ⟨copyPageDirectoryFrom src dst s.ram, s.mmc⟩

def SpaceOp.apply (A : Spaces) : SpaceOp → Spaces
  | .map d va pa => A.map d (va / pageSize) pa
  | .unmap d va => A.unmap d (va / pageSize)
  | .copy src dst => A.copy (src &&& pageMask) (dst &&& pageMask)

/-- A page that is not one of the frames that page tables are taken from, nor one with the words that say which of them are
free. -/
structure Outside (m : Mmc) (d : Nat) : Prop where
  aligned : d % pageSize = 0
  apart : d + pageSize ≤ m.frameBase ∨ m.frameBase + pageSize * m.nframes ≤ d
  apartMeta : d + pageSize ≤ m.metaBase ∨ m.metaBase + pageSize * m.mframes ≤ d

/-- `page_map` and `page_unmap` get a directory that is in use. There is a table for the address, or one can be allocated;
`page_unmap` does not make one. -/
def SpaceOp.Ok (m : Mmc) (s : PgSt) (A : Spaces) : SpaceOp → Prop
  | .map d va pa => d ∈ A.live ∧ va < 2 ^ 32 ∧ pa < 2 ^ 32 ∧ pa % pageSize = 0 ∧ Served d s (.map va pa)
  | .unmap d va => d ∈ A.live ∧ va < 2 ^ 32 ∧ Served d s (.unmap va)
  | .copy src dst => src &&& pageMask ∈ A.live ∧ Outside m (dst &&& pageMask)

instance (m : Mmc) (d : Nat) : Decidable (Outside m d) :=
  decidable_of_iff (d % pageSize = 0 ∧ (d + pageSize ≤ m.frameBase ∨ m.frameBase + pageSize * m.nframes ≤ d) ∧
      (d + pageSize ≤ m.metaBase ∨ m.metaBase + pageSize * m.mframes ≤ d))
    ⟨fun h => ⟨h.1, h.2.1, h.2.2⟩, fun h => ⟨h.1, h.2, h.3⟩⟩

instance (m : Mmc) (s : PgSt) (A : Spaces) (op : SpaceOp) : Decidable (op.Ok m s A) :=
  match op with
  | .map d va pa => inferInstanceAs (Decidable
      (d ∈ A.live ∧ va < 2 ^ 32 ∧ pa < 2 ^ 32 ∧ pa % pageSize = 0 ∧ Served d s (.map va pa)))
  | .unmap d va => inferInstanceAs (Decidable (d ∈ A.live ∧ va < 2 ^ 32 ∧ Served d s (.unmap va)))
  | .copy src dst => inferInstanceAs (Decidable (src &&& pageMask ∈ A.live ∧ Outside m (dst &&& pageMask)))

/-! ## The memory holds the tables -/

/-- What a page entry says. -/
def entryPage (w : Nat) : Option Nat := if w = 0 then none else some (w &&& pageMask)

structure Rep (m : Mmc) (s : PgSt) (A : Spaces) (f : Nat → Nat) : Prop where
  alloc : ∃ t k bs, s.mmc = m.upd t k ∧ TableInv m t k bs
  outside : ∀ d ∈ A.live, Outside m d
  bound : ∀ n T, A.tbl n = some T → n < A.next
  frame : ∀ n T, A.tbl n = some T → f n < m.nframes ∧ pgColor (s.mmc.word (f n)) ≠ pgWhite
  entries : ∀ n T, A.tbl n = some T → ∀ k < 1024, T k = entryPage (s.ram.word (frameAddr m (f n) + 4 * k))
  inj : ∀ n T n' T', A.tbl n = some T → A.tbl n' = some T' → f n = f n' → n = n'
  dir : ∀ d ∈ A.live, ∀ i < 1024, (A.dir d i = none ∧ pde d s.ram i = 0) ∨
    ∃ n T, A.dir d i = some n ∧ A.tbl n = some T ∧ pde d s.ram i = frameAddr m (f n) + 7

section
variable {m : Mmc} {s : PgSt} {A : Spaces} {f : Nat → Nat} {d : Nat}

/-- Reading a page through the memory and through the tables. -/
theorem Rep.lookup_eq (L : Layout m) (h : Rep m s A f) (hd : d ∈ A.live) {p : Nat} (hp : p < 2 ^ 20) :
    lookup d s.ram p = A.look d p := by
  have hi : p / 1024 < 1024 := by omega
  have hk : p % 1024 < 1024 := by omega
  rcases h.dir d hd _ hi with ⟨hnone, hz⟩ | ⟨n, T, hdir, htbl, hpde⟩
  · simp [lookup, Spaces.look, hnone, hz]
  · have hpage : pde d s.ram (p / 1024) &&& pageMask = frameAddr m (f n) := by
      rw [hpde]
      exact frame_entry_page L (h.frame n T htbl).1
    have hlook : A.look d p = entryPage (pte d s.ram (p / 1024) (p % 1024)) := by
      rw [pte, hpage, ← h.entries n T htbl _ hk]
      simp [Spaces.look, hdir, htbl]
    have hne : pde d s.ram (p / 1024) ≠ 0 := by omega
    rw [hlook, lookup, entryPage]
    simp [hne]

/-- A directory has no word in a frame. -/
theorem Outside.word_ne (h : Outside m d) {n i k : Nat} (hn : n < m.nframes) (hi : i < 1024) (hk : k < 1024) :
    d + 4 * i ≠ frameAddr m n + 4 * k := by
  have hap := h.apart
  unfold frameAddr
  unfold pageSize at *
  omega

/-- Two directories have no word in common. -/
theorem Outside.dir_ne (h : Outside m d) {d' : Nat} (h' : Outside m d') (hne : d ≠ d') {i j : Nat} (hi : i < 1024) (hj : j < 1024) :
    d + 4 * i ≠ d' + 4 * j := by
  have ha := h.aligned
  have ha' := h'.aligned
  unfold pageSize at *
  omega

theorem Outside.bzero_word (h : Outside m d) (r : Ram) {n i : Nat} (hn : n < m.nframes) (hi : i < 1024) :
    (r.bzero (frameAddr m n)).word (d + 4 * i) = r.word (d + 4 * i) := by
  have hap := h.apart
  refine Ram.bzero_word_out _ ?_
  unfold frameAddr
  unfold pageSize at *
  omega

/-- The words of the frames after a table is made at the frame `n` … -/
theorem Outside.newTable_frame (h : Outside m d) (r : Ram) {n n' i k l v : Nat} (hn' : n' < m.nframes)
    (hi : i < 1024) (hk : k < 1024) (hl : l < 1024) :
    (newTable d r (frameAddr m n) i k v).word (frameAddr m n' + 4 * l) =
      if n' = n then (if l = k then v else 0) else r.word (frameAddr m n' + 4 * l) := by
  have hdir : frameAddr m n' + 4 * l ≠ d + 4 * i := (h.word_ne hn' hi hl).symm
  unfold newTable
  by_cases hnn : n' = n
  · subst hnn
    rw [if_pos rfl]
    by_cases hlk : l = k
    · subst hlk
      rw [if_pos rfl, Ram.store_word_self]
    · rw [if_neg hlk, Ram.store_word_ne _ _ (frame_word_ne hl hk (.inr hlk)), Ram.store_word_ne _ _ hdir,
        Ram.bzero_word_in _ (by omega) (by unfold pageSize; omega)]
  · rw [if_neg hnn, Ram.store_word_ne _ _ (frame_word_ne hl hk (.inl hnn)), Ram.store_word_ne _ _ hdir, Ram.bzero_word_out]
    unfold frameAddr pageSize
    omega

/-- … and those of the directories. -/
theorem Outside.newTable_dir (h : Outside m d) {d' : Nat} (h' : Outside m d') (L : Layout m) (r : Ram) {n i j k v : Nat}
    (hn : n < m.nframes) (hi : i < 1024) (hj : j < 1024) (hk : k < 1024) :
    pde d' (newTable d r (frameAddr m n) i k v) j = if d' = d ∧ j = i then frameAddr m n + 7 else pde d' r j := by
  unfold newTable pde
  rw [Ram.store_word_ne _ _ (h'.word_ne hn hj hk)]
  by_cases hnew : d' = d ∧ j = i
  · obtain ⟨rfl, rfl⟩ := hnew
    rw [Ram.store_word_self, if_pos ⟨rfl, rfl⟩, entryOf_eq (L.frameAddr_mod n)]
  · have hne : d' + 4 * j ≠ d + 4 * i := by
      by_cases hdd : d' = d
      · subst hdd
        have hji : j ≠ i := fun he => hnew ⟨rfl, he⟩
        omega
      · exact h'.dir_ne h hdd hj hi
    rw [if_neg hnew, Ram.store_word_ne _ _ hne, h'.bzero_word r hn hj]

/-- A store into an entry of a table. -/
theorem Rep.set (h : Rep m s A f) {n k v : Nat} {T : Nat → Option Nat} (htbl : A.tbl n = some T) (hk : k < 1024) :
    Rep m ⟨s.ram.store (frameAddr m (f n) + 4 * k) v, s.mmc⟩ (A.set n k (entryPage v)) f := by
  have hold : ∀ n' T', (A.set n k (entryPage v)).tbl n' = some T' → ∃ T₀, A.tbl n' = some T₀ := by
    intro n' T' hT'
    rw [Spaces.set_tbl htbl] at hT'
    rcases update_eq_some.1 hT' with ⟨rfl, -⟩ | ⟨-, hT'⟩
    · exact ⟨T, htbl⟩
    · exact ⟨T', hT'⟩
  refine ⟨h.alloc, by simpa using h.outside, ?_, ?_, ?_, ?_, ?_⟩
  · intro n' T' hT'
    obtain ⟨T₀, h₀⟩ := hold n' T' hT'
    rw [Spaces.set_next]
    exact h.bound n' T₀ h₀
  · intro n' T' hT'
    obtain ⟨T₀, h₀⟩ := hold n' T' hT'
    exact h.frame n' T₀ h₀
  · intro n' T' hT' l hl
    rw [Spaces.set_tbl htbl] at hT'
    rcases update_eq_some.1 hT' with ⟨rfl, rfl⟩ | ⟨hnn, hT⟩
    · by_cases hlk : l = k
      · subst hlk
        rw [Function.update_self, Ram.store_word_self]
      · rw [Function.update_of_ne hlk, Ram.store_word_ne _ _ (frame_word_ne hl hk (.inr hlk))]
        exact h.entries n' T htbl l hl
    · have hff : f n' ≠ f n := fun he => hnn (h.inj n' T' n T hT htbl he)
      rw [Ram.store_word_ne _ _ (frame_word_ne hl hk (.inl hff))]
      exact h.entries n' T' hT l hl
  · intro n' T' n'' T'' hT' hT''
    obtain ⟨T₀, h₀⟩ := hold n' T' hT'
    obtain ⟨T₁, h₁⟩ := hold n'' T'' hT''
    exact h.inj n' T₀ n'' T₁ h₀ h₁
  · intro d hd i hi
    rw [Spaces.set_live] at hd
    have hpde : pde d (s.ram.store (frameAddr m (f n) + 4 * k) v) i = pde d s.ram i :=
      Ram.store_word_ne _ _ ((h.outside d hd).word_ne (h.frame n T htbl).1 hi hk)
    rw [Spaces.set_dir, Spaces.set_tbl htbl, hpde]
    rcases h.dir d hd i hi with hnone | ⟨n', T', hdir, hT', hp⟩
    · exact .inl hnone
    · by_cases hnn : n' = n
      · subst hnn
        exact .inr ⟨n', _, hdir, Function.update_self .., hp⟩
      · exact .inr ⟨n', T', hdir, (Function.update_of_ne hnn _ _).trans hT', hp⟩

/-- A new table, at the frame `n`. -/
theorem Rep.add (L : Layout m) (h : Rep m s A f) (hd : d ∈ A.live) {i k n pa k' : Nat} {t' : List Nat} {bs' : List Block}
    (hi : i < 1024) (hk : k < 1024) (hdir : A.dir d i = none) (hn : n < m.nframes) (hwhite : pgColor (s.mmc.word n) = pgWhite)
    (hinv : TableInv m t' k' bs') (hcol : pgColor (t'.getD n 0) ≠ pgWhite)
    (hkept : ∀ j < m.nframes, pgColor (s.mmc.word j) ≠ pgWhite → pgColor (t'.getD j 0) ≠ pgWhite)
    (hmod : pa % pageSize = 0) (hpa : pa < 2 ^ 32) :
    Rep m ⟨newTable d s.ram (frameAddr m n) i k (entryOf pa), m.upd t' k'⟩
      { A with
        dir := Function.update A.dir d (Function.update (A.dir d) i (some A.next))
        tbl := Function.update A.tbl A.next (some (Function.update (fun _ => none) k (some pa)))
        next := A.next + 1 }
      (Function.update f A.next n) := by
  -- the tables that are there keep their frames, which are not the new one
  have hf : ∀ n' T', A.tbl n' = some T' → Function.update f A.next n n' = f n' ∧ f n' ≠ n := by
    intro n' T' hT'
    have hlt := h.bound n' T' hT'
    refine ⟨Function.update_of_ne (by omega) _ _, ?_⟩
    rintro rfl
    exact (h.frame n' T' hT').2 hwhite
  have hfnew : Function.update f A.next n A.next = n := Function.update_self ..
  have hpa' : entryPage (entryOf pa) = some pa := by
    rw [entryOf_eq hmod, entryPage, if_neg (by omega), entry_page hmod hpa]
  have hout := h.outside d hd
  refine ⟨⟨t', k', bs', rfl, hinv⟩, h.outside, ?_, ?_, ?_, ?_, ?_⟩
  · intro n' T' hT'
    rcases update_eq_some.1 hT' with ⟨rfl, -⟩ | ⟨-, hT⟩
    · exact Nat.lt_succ_self _
    · exact Nat.lt_succ_of_lt (h.bound n' T' hT)
  · intro n' T' hT'
    rcases update_eq_some.1 hT' with ⟨rfl, -⟩ | ⟨-, hT⟩
    · rw [hfnew]
      exact ⟨hn, hcol⟩
    · rw [(hf n' T' hT).1]
      obtain ⟨hlt, hc⟩ := h.frame n' T' hT
      exact ⟨hlt, hkept _ hlt hc⟩
  · intro n' T' hT' l hl
    rcases update_eq_some.1 hT' with ⟨rfl, rfl⟩ | ⟨-, hT⟩
    · rw [hfnew, hout.newTable_frame s.ram hn hi hk hl, if_pos rfl]
      by_cases hlk : l = k
      · subst hlk
        rw [Function.update_self, if_pos rfl, hpa']
      · rw [Function.update_of_ne hlk, if_neg hlk]
        rfl
    · obtain ⟨hfn, hne⟩ := hf n' T' hT
      rw [hfn, hout.newTable_frame s.ram (h.frame n' T' hT).1 hi hk hl, if_neg hne]
      exact h.entries n' T' hT l hl
  · intro n' T' n'' T'' hT' hT'' he
    rcases update_eq_some.1 hT' with ⟨rfl, -⟩ | ⟨-, hT⟩
    · rcases update_eq_some.1 hT'' with ⟨rfl, -⟩ | ⟨-, hTT⟩
      · rfl
      · obtain ⟨hfn, hne⟩ := hf n'' T'' hTT
        rw [hfnew, hfn] at he
        exact absurd he.symm hne
    · obtain ⟨hfn, hne⟩ := hf n' T' hT
      rcases update_eq_some.1 hT'' with ⟨rfl, -⟩ | ⟨-, hTT⟩
      · rw [hfnew, hfn] at he
        exact absurd he hne
      · rw [hfn, (hf n'' T'' hTT).1] at he
        exact h.inj n' T' n'' T'' hT hTT he
  · intro d' hd' j hj
    rw [hout.newTable_dir (h.outside d' hd') L s.ram hn hi hj hk]
    by_cases hnew : d' = d ∧ j = i
    · obtain ⟨rfl, rfl⟩ := hnew
      exact .inr ⟨A.next, _, by simp, Function.update_self .., by simp⟩
    · rw [if_neg hnew]
      have hsame : Function.update A.dir d (Function.update (A.dir d) i (some A.next)) d' j = A.dir d' j := by
        by_cases hdd : d' = d
        · subst hdd
          rw [Function.update_self, Function.update_of_ne fun hji => hnew ⟨rfl, hji⟩]
        · rw [Function.update_of_ne hdd]
      show (Function.update A.dir d (Function.update (A.dir d) i (some A.next)) d' j = none ∧ _) ∨ ∃ n T,
        Function.update A.dir d (Function.update (A.dir d) i (some A.next)) d' j = some n ∧ _ ∧ _
      rw [hsame]
      rcases h.dir d' hd' j hj with hnone | ⟨n', T', hdir', hT', hp⟩
      · exact .inl hnone
      · have hlt := h.bound n' T' hT'
        refine .inr ⟨n', T', hdir', (Function.update_of_ne (by omega) _ _).trans hT', ?_⟩
        rw [(hf n' T' hT').1]
        exact hp

/-- A directory is copied. -/
theorem Rep.copy (h : Rep m s A f) {src dst : Nat} (hsrc : src &&& pageMask ∈ A.live) (hdst : Outside m (dst &&& pageMask)) :
    Rep m ⟨copyPageDirectoryFrom src dst s.ram, s.mmc⟩ (A.copy (src &&& pageMask) (dst &&& pageMask)) f := by
  have hin : ∀ i < 1024, (copyPageDirectoryFrom src dst s.ram).word ((dst &&& pageMask) + 4 * i) =
      s.ram.word ((src &&& pageMask) + 4 * i) := by
    intro i hi
    simp only [copyPageDirectoryFrom]
    rw [if_pos ⟨by omega, by unfold pageSize; omega⟩, Nat.add_sub_cancel_left]
  have hout : ∀ a, ¬ ((dst &&& pageMask) ≤ a ∧ a < (dst &&& pageMask) + pageSize) →
      (copyPageDirectoryFrom src dst s.ram).word a = s.ram.word a := fun a ha => if_neg ha
  refine ⟨h.alloc, ?_, h.bound, h.frame, fun n T hT k hk => ?_, h.inj, fun d hd i hi => ?_⟩
  · intro d hd
    rcases List.mem_cons.1 hd with rfl | hd
    · exact hdst
    · exact h.outside d hd
  · have hfr := (h.frame n T hT).1
    rw [hout _ ?_]
    · exact h.entries n T hT k hk
    · have hap := hdst.apart
      unfold frameAddr
      unfold pageSize at *
      omega
  · by_cases hdd : d = dst &&& pageMask
    · subst hdd
      have hpde : pde (dst &&& pageMask) (copyPageDirectoryFrom src dst s.ram) i = pde (src &&& pageMask) s.ram i := hin i hi
      have hdir : (A.copy (src &&& pageMask) (dst &&& pageMask)).dir (dst &&& pageMask) i = A.dir (src &&& pageMask) i := by
        simp [Spaces.copy]
      rw [hpde, hdir]
      exact h.dir _ hsrc i hi
    · have hlive : d ∈ A.live := (List.mem_cons.1 hd).resolve_left hdd
      have hpde : pde d (copyPageDirectoryFrom src dst s.ram) i = pde d s.ram i := by
        refine hout _ ?_
        have ha := (h.outside d hlive).aligned
        have ha' := hdst.aligned
        unfold pageSize at *
        omega
      have hdir : (A.copy (src &&& pageMask) (dst &&& pageMask)).dir d i = A.dir d i := by
        simp [Spaces.copy, hdd]
      rw [hpde, hdir]
      exact h.dir d hlive i hi

theorem Rep.served_some (h : Rep m s A f) (hd : d ∈ A.live) {i : Nat} (hi : i < 1024) (hp : pde d s.ram i ≠ 0) :
    ∃ n T, A.dir d i = some n ∧ A.tbl n = some T ∧ pde d s.ram i = frameAddr m (f n) + 7 :=
  (h.dir d hd i hi).resolve_left fun hnone => hp hnone.2

/-- One call, on both levels. -/
theorem Rep.call (L : Layout m) (h0 : 0 < m.metaBase) (h : Rep m s A f) {op : SpaceOp} (hok : op.Ok m s A) :
    ∃ s' f', op.call s = some s' ∧ Rep m s' (op.apply A) f' := by
  cases op with
  | copy src dst => exact ⟨_, f, rfl, h.copy hok.1 hok.2⟩
  | unmap d va =>
    obtain ⟨hd, hva, hs⟩ := hok
    obtain ⟨hi, hk⟩ := page_index hva
    have hpi := pdeIndex_lt va
    have hpk := pteIndex_lt va
    obtain ⟨n, T, hdir, htbl, hpde⟩ := h.served_some hd hpi hs
    have hpage : s.ram.word (pdeAddr d va) &&& pageMask = frameAddr m (f n) := by
      rw [show s.ram.word (pdeAddr d va) = frameAddr m (f n) + 7 from hpde]
      exact frame_entry_page L (h.frame n T htbl).1
    refine ⟨_, f, rfl, ?_⟩
    have hset := h.set (v := 0) htbl hpk
    rw [hi] at hdir
    rw [SpaceOp.apply, Spaces.unmap, hdir]
    simp only [pageUnmap, hpage, pteAddr]
    rw [hk] at hset ⊢
    exact hset
  | map d va pa =>
    obtain ⟨hd, hva, hpa, hmod, hs⟩ := hok
    obtain ⟨hi, hk⟩ := page_index hva
    have hpi := pdeIndex_lt va
    have hpk := pteIndex_lt va
    by_cases hp : s.ram.word (pdeAddr d va) = 0
    · have hnone : A.dir d (pdeIndex va) = none := by
        rcases h.dir d hd _ hpi with hnone | ⟨n, T, -, -, hpde⟩
        · exact hnone.1
        · have : s.ram.word (pdeAddr d va) = frameAddr m (f n) + 7 := hpde
          omega
      obtain ⟨t, k, bs, hm, hinv⟩ := h.alloc
      obtain ⟨i, hin, hwhite⟩ := hs.resolve_left fun hne => hne hp
      rw [hm] at hin hwhite
      rcases allocFrame_spec L hinv with he | ⟨n, t', k', bs', hn, he, hinv', hw, hc, hkept⟩
      · exact absurd he (allocFrame_ne_none L h0 hinv hin hwhite)
      · have hword : ∀ j, s.mmc.word j = t.getD j 0 := fun j => by rw [hm]; rfl
        refine ⟨⟨newTable d s.ram (frameAddr m n) (pdeIndex va) (pteIndex va) (entryOf pa), m.upd t' k'⟩,
          Function.update f A.next n, ?_, ?_⟩
        · have he' : allocFrame s.mmc = .ok (some (frameAddr m n), m.upd t' k') := by rw [hm, he]
          simp only [SpaceOp.call, pageMap, hp, he', if_true, Option.getD_some]
          rfl
        · have hadd := h.add L hd hpi hpk hnone hn ((congrArg _ (hword n)).trans hw) hinv' hc
            (fun j hj hcj => hkept j hj (by rw [← hword j]; exact hcj)) hmod hpa
          rw [hi] at hnone
          rw [SpaceOp.apply, Spaces.map, hnone]
          rw [hi, hk] at hadd ⊢
          exact hadd
    · obtain ⟨n, T, hdir, htbl, hpde⟩ := h.served_some hd hpi hp
      have hpage : s.ram.word (pdeAddr d va) &&& pageMask = frameAddr m (f n) := by
        rw [show s.ram.word (pdeAddr d va) = frameAddr m (f n) + 7 from hpde]
        exact frame_entry_page L (h.frame n T htbl).1
      refine ⟨⟨s.ram.store (frameAddr m (f n) + 4 * pteIndex va) (entryOf pa), s.mmc⟩, f, ?_, ?_⟩
      · simp only [SpaceOp.call, pageMap, hp, if_false, hpage, pteAddr]
        rfl
      · have hset := h.set (v := entryOf pa) htbl hpk
        have hv : entryPage (entryOf pa) = some pa := by
          rw [entryOf_eq hmod, entryPage, if_neg (by omega), entry_page hmod hpa]
        rw [hi] at hdir
        rw [hv, hk] at hset
        rw [SpaceOp.apply, Spaces.map, hdir, hk]
        exact hset

end

/-! ## Runs -/

/-- One directory, as it is. -/
def Spaces.ofDir (k : Nat) (s : PgSt) : Spaces where
  live := [k]
  dir _ i := if pde k s.ram i = 0 then none else some i
  tbl n := if n < 1024 ∧ pde k s.ram n ≠ 0 then some fun l => entryPage (pte k s.ram n l) else none
  next := 1024

section
variable {m : Mmc} {k : Nat} {s : PgSt}

theorem rep_ofDir (L : Layout m) (hk : Outside m k) (T : Tables k m s) : ∃ f, Rep m s (.ofDir k s) f := by
  have hnum : ∀ n < 1024, pde k s.ram n ≠ 0 → ∃ j < m.nframes, (pde k s.ram n - 7 - m.frameBase) / pageSize = j ∧
      pde k s.ram n = frameAddr m j + 7 ∧ pgColor (s.mmc.word j) ≠ pgWhite := by
    intro n hn hp
    obtain ⟨j, hj, he, hc⟩ := T.dir n hn hp
    refine ⟨j, hj, ?_, he, hc⟩
    rw [he]
    unfold frameAddr pageSize
    omega
  have htbl : ∀ n T', (Spaces.ofDir k s).tbl n = some T' →
      (n < 1024 ∧ pde k s.ram n ≠ 0) ∧ T' = fun l => entryPage (pte k s.ram n l) := by
    intro n T' h
    simp only [Spaces.ofDir] at h
    split at h
    · rename_i hn
      cases h
      exact ⟨hn, rfl⟩
    · cases h
  refine ⟨fun n => (pde k s.ram n - 7 - m.frameBase) / pageSize, T.alloc, ?_, ?_, ?_, ?_, ?_, ?_⟩
  · intro d hd
    obtain rfl := List.mem_singleton.1 hd
    exact hk
  · intro n T' h
    exact (htbl n T' h).1.1
  · intro n T' h
    obtain ⟨⟨hn, hp⟩, -⟩ := htbl n T' h
    obtain ⟨j, hj, hnumj, -, hc⟩ := hnum n hn hp
    rw [hnumj]
    exact ⟨hj, hc⟩
  · intro n T' h l _
    obtain ⟨⟨hn, hp⟩, rfl⟩ := htbl n T' h
    obtain ⟨j, hj, hnumj, he, -⟩ := hnum n hn hp
    show entryPage (pte k s.ram n l) = _
    rw [hnumj, pte, he, frame_entry_page L hj]
  · intro n T' n' T'' h h' he
    obtain ⟨⟨hn, hp⟩, -⟩ := htbl n T' h
    obtain ⟨⟨hn', hp'⟩, -⟩ := htbl n' T'' h'
    obtain ⟨j, -, hnumj, hej, -⟩ := hnum n hn hp
    obtain ⟨j', -, hnumj', hej', -⟩ := hnum n' hn' hp'
    rw [hnumj, hnumj'] at he
    refine T.inj n hn n' hn' hp ?_
    rw [hej, hej', he]
  · intro d hd i hi
    obtain rfl := List.mem_singleton.1 hd
    by_cases hp : pde d s.ram i = 0
    · exact .inl ⟨if_pos hp, hp⟩
    · obtain ⟨j, -, hnumj, he, -⟩ := hnum i hi hp
      exact .inr ⟨i, _, if_neg hp, if_pos ⟨hi, hp⟩, by rw [hnumj]; exact he⟩

/-- A call on the memory and on the tables. -/
def spaceStep (st : PgSt × Spaces) (op : SpaceOp) : Option (PgSt × Spaces) := (op.call st.1).map fun s => (s, op.apply st.2)

def SpaceOk (m : Mmc) (st : PgSt × Spaces) (op : SpaceOp) : Prop := op.Ok m st.1 st.2

instance (m : Mmc) (st : PgSt × Spaces) (op : SpaceOp) : Decidable (SpaceOk m st op) :=
  inferInstanceAs (Decidable (op.Ok m st.1 st.2))

theorem reaches_rep (L : Layout m) (h0 : 0 < m.metaBase) {st st' : PgSt × Spaces} (h : ∃ f, Rep m st.1 st.2 f)
    (hrun : Reaches spaceStep (SpaceOk m) st st') : ∃ f, Rep m st'.1 st'.2 f := by
  refine hrun.invariant (I := fun u => ∃ f, Rep m u.1 u.2 f) h ?_
  rintro u op v ⟨f, hf⟩ hok hs
  obtain ⟨s', f', hcall, hrep⟩ := hf.call L h0 hok
  simp only [spaceStep, hcall, Option.map_some] at hs
  cases hs
  exact ⟨f', hrep⟩

/-- **The directories refine shared tables.** From a directory with sound tables, after any calls of `page_map`, `page_unmap` and
`copy_page_directory_from` on any directories in use: a page is translated by each directory as the shared tables say, and the
next such call succeeds. -/
theorem spaces_refine (L : Layout m) (h0 : 0 < m.metaBase) (hk : Outside m k) (T : Tables k m s) {s' : PgSt} {A : Spaces}
    (hrun : Reaches spaceStep (SpaceOk m) (s, .ofDir k s) (s', A)) :
    (∀ d ∈ A.live, ∀ p < 2 ^ 20, lookup d s'.ram p = A.look d p) ∧ ∀ op : SpaceOp, op.Ok m s' A → (op.call s').isSome := by
  obtain ⟨f, h⟩ := reaches_rep L h0 (rep_ofDir L hk T) hrun
  refine ⟨fun d hd p hp => h.lookup_eq L hd hp, fun op hok => ?_⟩
  obtain ⟨s'', f', hcall, -⟩ := h.call L h0 hok
  rw [hcall]
  rfl

end

/-- The directory of the kernel with nothing mapped, and two frames for page tables. -/
theorem start_three : Layout (pgtblsMmc 3) ∧ 0 < (pgtblsMmc 3).metaBase ∧ Tables pgdBase (pgtblsMmc 3) ⟨dirtyRam, pgtblsMmc 3⟩ := by
  have hdir : pgdBase + pageSize ≤ 0x105000 := by decide
  have h0 : mmPageTable 0x105000 0x3000 = .ok (some (pgtblsMmc 3)) := rfl
  obtain ⟨L, -, hm, hinv⟩ := mmPageTable_place hdir (by decide) (by decide) h0
  exact ⟨L, hm, tables_start hinv dirtyRam_dir⟩

/-- A page is mapped for the kernel, a directory is copied, and another page of the same table is mapped through the copy. -/
theorem spaces_refine_three_calls :
    ∃ s A, Reaches spaceStep (SpaceOk (pgtblsMmc 3))
        (⟨dirtyRam, pgtblsMmc 3⟩, .ofDir pgdBase ⟨dirtyRam, pgtblsMmc 3⟩) (s, A) ∧
      A.live = [0x200000, pgdBase] ∧ lookup pgdBase s.ram 0x401 = A.look pgdBase 0x401 ∧ A.look pgdBase 0x401 = some 0x9000 := by
  obtain ⟨L, hm, T⟩ := start_three
  obtain ⟨⟨s, A⟩, hrun, hst⟩ := exists_reaches spaceStep (SpaceOk (pgtblsMmc 3))
    (⟨dirtyRam, pgtblsMmc 3⟩, .ofDir pgdBase ⟨dirtyRam, pgtblsMmc 3⟩)
    [.map pgdBase 0x400000 0x7000, .copy pgdBase 0x200000, .map 0x200000 0x401000 0x9000]
    (fun st => st.2.live == [0x200000, pgdBase] && st.2.look pgdBase 0x401 == some 0x9000) (by decide +kernel)
  obtain ⟨hlive, hlook⟩ : A.live = [0x200000, pgdBase] ∧ A.look pgdBase 0x401 = some 0x9000 := by simpa using hst
  refine ⟨s, A, hrun, hlive, ?_, hlook⟩
  exact (spaces_refine L hm (by decide) T hrun).1 pgdBase (by simp [hlive]) 0x401 (by decide)

/-! ## A task and the kernel -/

section
variable {m : Mmc} {k : Nat} {s : PgSt}

/-- After the directory `d` of a task is made, the kernel maps and unmaps pages in its own directory `k`, and makes directories
for other tasks. -/
def SpaceOp.Kernel (k d : Nat) : SpaceOp → Prop
  | .map e _ _ => e = k
  | .unmap e _ => e = k
  | .copy _ e => e &&& pageMask ≠ k ∧ e &&& pageMask ≠ d

instance (k d : Nat) (op : SpaceOp) : Decidable (op.Kernel k d) :=
  match op with
  | .map e _ _ => inferInstanceAs (Decidable (e = k))
  | .unmap e _ => inferInstanceAs (Decidable (e = k))
  | .copy _ e => inferInstanceAs (Decidable (e &&& pageMask ≠ k ∧ e &&& pageMask ≠ d))

/-- The directory `d` has the tables of the kernel for the entries in `P`, and no others. -/
structure Follows (k d : Nat) (P : Nat → Prop) (A : Spaces) : Prop where
  live : k ∈ A.live ∧ d ∈ A.live
  same : ∀ i, P i → A.dir k i ≠ none ∧ A.dir d i = A.dir k i
  none : ∀ i, ¬ P i → A.dir d i = none

theorem Follows.apply {d : Nat} (hkd : d ≠ k) {P : Nat → Prop} {A : Spaces} (h : Follows k d P A) {op : SpaceOp}
    (hop : op.Kernel k d) : Follows k d P (op.apply A) := by
  have hset : ∀ n j v, Follows k d P (A.set n j v) := fun n j v =>
    ⟨by simpa using h.live, by simpa using h.same, by simpa using h.none⟩
  cases op with
  | map e va pa =>
    obtain rfl : e = k := hop
    rw [SpaceOp.apply, Spaces.map]
    split
    · exact hset ..
    · rename_i hnone
      -- the entry is not one of those that are shared
      have hP : ∀ i, P i → i ≠ va / pageSize / 1024 := by
        rintro i hi rfl
        exact (h.same _ hi).1 hnone
      refine ⟨h.live, fun i hi => ?_, fun i hi => ?_⟩
      · simp only [Function.update_self, Function.update_of_ne hkd, Function.update_of_ne (hP i hi)]
        exact h.same i hi
      · simp only [Function.update_of_ne hkd]
        exact h.none i hi
  | unmap e va =>
    rw [SpaceOp.apply, Spaces.unmap]
    split
    · exact hset ..
    · exact h
  | copy src dst =>
    obtain ⟨hk, hd⟩ := hop
    refine ⟨⟨List.mem_cons_of_mem _ h.live.1, List.mem_cons_of_mem _ h.live.2⟩, fun i hi => ?_, fun i hi => ?_⟩
    · simp only [SpaceOp.apply, Spaces.copy, Function.update_of_ne hk.symm, Function.update_of_ne hd.symm]
      exact h.same i hi
    · simp only [SpaceOp.apply, Spaces.copy, Function.update_of_ne hd.symm]
      exact h.none i hi

theorem live_apply {A : Spaces} (op : SpaceOp) {d : Nat} (hd : d ∈ A.live) : d ∈ (op.apply A).live := by
  cases op with
  | map e va pa =>
    rw [SpaceOp.apply, Spaces.map]
    split
    · rw [Spaces.set_live]
      exact hd
    · exact hd
  | unmap e va =>
    rw [SpaceOp.apply, Spaces.unmap]
    split
    · rw [Spaces.set_live]
      exact hd
    · exact hd
  | copy src dst => exact List.mem_cons_of_mem _ hd

/-- **What a task sees of the kernel.** A task's directory is made as a copy of the kernel's, at any time in any run. From then on,
whatever the kernel maps and unmaps in its own directory: a page in a part of 4 MB for which the kernel had a page table at that
time is translated for the task as it is for the kernel now; any other page is not mapped for the task, even when the kernel has
mapped it since. -/
theorem task_follows_kernel (L : Layout m) (h0 : 0 < m.metaBase) (hk : Outside m k) (T : Tables k m s) {s₁ s₂ s₃ : PgSt}
    {A₁ A₂ A₃ : Spaces} {src dst : Nat} (hrun : Reaches spaceStep (SpaceOk m) (s, .ofDir k s) (s₁, A₁))
    (hsrc : src &&& pageMask = k) (hout : Outside m (dst &&& pageMask)) (hdst : dst &&& pageMask ≠ k)
    (hcopy : spaceStep (s₁, A₁) (.copy src dst) = some (s₂, A₂))
    (hrun' : Reaches spaceStep (fun st op => SpaceOk m st op ∧ op.Kernel k (dst &&& pageMask)) (s₂, A₂) (s₃, A₃)) :
    ∀ p < 2 ^ 20, lookup (dst &&& pageMask) s₃.ram p = if pde k s₁.ram (p / 1024) = 0 then none else lookup k s₃.ram p := by
  obtain ⟨f₁, h₁⟩ := reaches_rep L h0 (rep_ofDir L hk T) hrun
  have hlive : k ∈ A₁.live := by
    refine hrun.invariant (I := fun st => k ∈ st.2.live) List.mem_cons_self ?_
    intro u op v hu _ hs
    obtain ⟨_, -, rfl⟩ := Option.map_eq_some_iff.1 hs
    exact live_apply op hu
  cases hcopy
  have hsrc' : src &&& pageMask ∈ A₁.live := hsrc ▸ hlive
  have h₂ := h₁.copy hsrc' hout
  have hfollows : Follows k (dst &&& pageMask) (fun i => A₁.dir k i ≠ none) (A₁.copy k (dst &&& pageMask)) := by
    refine ⟨⟨List.mem_cons_of_mem _ hlive, List.mem_cons_self⟩, fun i hi => ?_, fun i hi => ?_⟩
    · simp only [Spaces.copy, Function.update_self, Function.update_of_ne hdst.symm]
      exact ⟨hi, trivial⟩
    · simp only [Spaces.copy, Function.update_self]
      exact not_not.1 hi
  rw [hsrc] at h₂
  simp only [SpaceOp.apply, hsrc] at hrun'
  obtain ⟨⟨f₃, h₃⟩, hfol⟩ := hrun'.invariant
    (I := fun st => (∃ f, Rep m st.1 st.2 f) ∧ Follows k (dst &&& pageMask) (fun i => A₁.dir k i ≠ none) st.2)
    ⟨⟨f₁, h₂⟩, hfollows⟩ (by
      rintro u op v ⟨⟨f, hf⟩, hu⟩ ⟨hok, hker⟩ hs
      obtain ⟨s', f', hcall, hrep⟩ := hf.call L h0 hok
      simp only [spaceStep, hcall, Option.map_some] at hs
      cases hs
      exact ⟨⟨f', hrep⟩, hu.apply hdst hker⟩)
  intro p hp
  rw [h₃.lookup_eq L hfol.live.2 hp, h₃.lookup_eq L hfol.live.1 hp]
  have hi : p / 1024 < 1024 := by omega
  rcases h₁.dir k hlive _ hi with ⟨hnone, hz⟩ | ⟨n, T', hdir, -, hpde⟩
  · rw [if_pos hz, Spaces.look, hfol.none _ (not_not.2 hnone)]
    rfl
  · have hne : A₁.dir k (p / 1024) ≠ none := by
      rw [hdir]
      exact Option.some_ne_none _
    have hpde' : pde k s₁.ram (p / 1024) = frameAddr m (f₁ n) + 7 := hpde
    rw [if_neg (by omega), Spaces.look, Spaces.look, (hfol.same _ hne).2]

end

/-- After the copy the kernel maps a page of the table that is shared and a page of a new one. -/
theorem task_follows_kernel_two_pages :
    ∃ st₁ st₂ st₃ : PgSt × Spaces,
      Reaches spaceStep (SpaceOk (pgtblsMmc 3)) (⟨dirtyRam, pgtblsMmc 3⟩, .ofDir pgdBase ⟨dirtyRam, pgtblsMmc 3⟩) st₁ ∧
      spaceStep st₁ (.copy pgdBase 0x200000) = some st₂ ∧
      Reaches spaceStep (fun st op => SpaceOk (pgtblsMmc 3) st op ∧ op.Kernel pgdBase 0x200000) st₂ st₃ ∧
      lookup 0x200000 st₃.1.ram 0x401 = some 0x9000 ∧ lookup 0x200000 st₃.1.ram 0x800 = none ∧
      lookup pgdBase st₃.1.ram 0x800 = some 0xA000 := by
  obtain ⟨L, hm, T⟩ := start_three
  obtain ⟨⟨s₁, A₁⟩, hrun, hst⟩ := exists_reaches spaceStep (SpaceOk (pgtblsMmc 3))
    (⟨dirtyRam, pgtblsMmc 3⟩, .ofDir pgdBase ⟨dirtyRam, pgtblsMmc 3⟩) [.map pgdBase 0x400000 0x7000]
    (fun st₁ => decide (pde pgdBase st₁.1.ram 1 ≠ 0) && decide (pde pgdBase st₁.1.ram 2 = 0) &&
      (spaceStep st₁ (.copy pgdBase 0x200000)).any fun st₂ =>
        (execOk spaceStep (fun st op => SpaceOk (pgtblsMmc 3) st op ∧ op.Kernel pgdBase 0x200000) st₂
          [.map pgdBase 0x401000 0x9000, .map pgdBase 0x800000 0xA000]).any fun st₃ =>
            lookup pgdBase st₃.1.ram 0x401 == some 0x9000 && lookup pgdBase st₃.1.ram 0x800 == some 0xA000) (by decide +kernel)
  simp only [Bool.and_eq_true, decide_eq_true_eq] at hst
  obtain ⟨⟨hp1, hp2⟩, hst⟩ := hst
  obtain ⟨⟨s₂, A₂⟩, hcopy, hst⟩ := (Option.any_eq_true _ _).1 hst
  obtain ⟨⟨s₃, A₃⟩, hrun', hst⟩ := exists_reaches _ _ (s₂, A₂) _ _ hst
  obtain ⟨h401, h800⟩ : lookup pgdBase s₃.ram 0x401 = some 0x9000 ∧ lookup pgdBase s₃.ram 0x800 = some 0xA000 := by
    simpa using hst
  have hall := task_follows_kernel L hm (by decide) T hrun (by decide) (by decide) (by decide) hcopy hrun'
  refine ⟨(s₁, A₁), (s₂, A₂), (s₃, A₃), hrun, hcopy, hrun', ?_, ?_, h800⟩
  · exact (hall 0x401 (by decide)).trans ((if_neg hp1).trans h401)
  · exact (hall 0x800 (by decide)).trans (if_pos hp2)

end RedMagic.Paging
