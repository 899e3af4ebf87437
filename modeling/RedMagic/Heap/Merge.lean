import RedMagic.Heap.Partition

/-!
# `__kfree` keeps the partition

The merge loop grows `found` to the left by at most one free block and to the right by at most one
(`mergeLoop_spec`). A block to absorb is a move of its node to `avail` and a wider `found` (`absorb`),
so the call is a release followed by at most two such steps.
-/

namespace RedMagic.Heap

open Mm Blocks

/-! ## The merge loop -/

/-- What the loop knows of the left side after the blocks `seen`: `b` is where the merged block starts. -/
def LeftDone (blk : Nat → Blk) (s : Nat) (seen : List Nat) : Option Nat → Nat → Prop
  | none, b => b = s ∧ ∀ n ∈ seen, endOf blk n ≠ s
  | some l, b => l ∈ seen ∧ endOf blk l = s ∧ b = (blk l).base

/-- The same for the right side; `t` is where the merged block ends. -/
def RightDone (blk : Nat → Blk) (e : Nat) (seen : List Nat) : Option Nat → Nat → Prop
  | none, t => t = e ∧ ∀ n ∈ seen, (blk n).base ≠ e
  | some r, t => r ∈ seen ∧ (blk r).base = e ∧ t = endOf blk r

section
variable {blk : Nat → Blk} {s e b t n : Nat} {seen more : List Nat} {o : Option Nat}

theorem LeftDone.le (h : LeftDone blk s seen o b) : b ≤ s := by
  cases o with
  | none => exact h.1.le
  | some l =>
    obtain ⟨-, hl, rfl⟩ := h
    exact hl ▸ Nat.le_add_right _ _

theorem RightDone.le (h : RightDone blk e seen o t) : e ≤ t := by
  cases o with
  | none => exact h.1.ge
  | some r =>
    obtain ⟨-, hr, rfl⟩ := h
    exact hr ▸ Nat.le_add_right _ _

/-- A block that does not end at `s` leaves the left side as it was. -/
theorem LeftDone.skip (h : LeftDone blk s seen o b) (hn : o = none → endOf blk n ≠ s) :
    LeftDone blk s (seen ++ [n]) o b := by
  cases o with
  | none =>
    exact ⟨h.1, List.forall_mem_append.2 ⟨h.2, List.forall_mem_singleton.2 (hn rfl)⟩⟩
  | some l => exact ⟨List.mem_append_left _ h.1, h.2⟩

theorem RightDone.skip (h : RightDone blk e seen o t) (hn : o = none → (blk n).base ≠ e) :
    RightDone blk e (seen ++ [n]) o t := by
  cases o with
  | none =>
    exact ⟨h.1, List.forall_mem_append.2 ⟨h.2, List.forall_mem_singleton.2 (hn rfl)⟩⟩
  | some r => exact ⟨List.mem_append_left _ h.1, h.2⟩

/-- Once a neighbour is found, the blocks not looked at do not matter. -/
theorem LeftDone.break (h : LeftDone blk s seen o b) (ho : o.isSome) : LeftDone blk s (seen ++ more) o b := by
  cases o with
  | none => cases ho
  | some l => exact ⟨List.mem_append_left _ h.1, h.2⟩

theorem RightDone.break (h : RightDone blk e seen o t) (ho : o.isSome) :
    RightDone blk e (seen ++ more) o t := by
  cases o with
  | none => cases ho
  | some r => exact ⟨List.mem_append_left _ h.1, h.2⟩

end

/-- What the loop needs of the free list `free` that `found`, with the block `[s, e)`, was moved to. -/
structure MergePre (blk : Nat → Blk) (found s e : Nat) (free : List Nat) : Prop where
  fresh : found ∉ free
  lt : s < e
  fits : e < 2 ^ 32
  ends : ∀ n ∈ free, endOf blk n < 2 ^ 32
  gaps : ∀ n ∈ free, ∀ m ∈ free, endOf blk n ≠ (blk m).base

/-- The loop, started after `seen`: the block of `found` is what lies between the two ends. -/
theorem mergeLoop_spec {blk : Nat → Blk} {found s e : Nat} {free : List Nat}
    (hpre : MergePre blk found s e free) :
    ∀ (rest seen : List Nat) (lp rp : Option Nat) (b t : Nat), seen ++ rest = free →
      LeftDone blk s seen lp b → RightDone blk e seen rp t → t < 2 ^ 32 →
      ∃ lp' rp' b' t', mergeLoop found rest (Function.update blk found ⟨b, t - b⟩) lp rp
          = (Function.update blk found ⟨b', t' - b'⟩, lp', rp') ∧
        LeftDone blk s free lp' b' ∧ RightDone blk e free rp' t'
  | [], seen, lp, rp, b, t, hsplit, hl, hr, _ => by
    rw [List.append_nil] at hsplit
    subst hsplit
    exact ⟨lp, rp, b, t, rfl, hl, hr⟩
  | n :: rest, seen, lp, rp, b, t, hsplit, hl, hr, ht => by
    have hn : n ∈ free := by simp [← hsplit]
    have hseen : ∀ m ∈ seen, m ∈ free := fun m hm => by simp [← hsplit, hm]
    have hne : n ≠ found := fun h => hpre.fresh (h ▸ hn)
    have hend : u32 ((blk n).base + (blk n).size) = endOf blk n := u32_of_lt (hpre.ends n hn)
    have hbs := hl.le
    have het := hr.le
    have hlt := hpre.lt
    have hft : u32 (b + (t - b)) = t := by
      rw [u32_of_lt (by omega)]
      omega
    have hsplit' : (seen ++ [n]) ++ rest = free := by simpa using hsplit
    -- the state after this block: a new left end, a new right end, or no change
    have hgo : ∀ (lp' rp' : Option Nat) (b' t' : Nat),
        LeftDone blk s (seen ++ [n]) lp' b' → RightDone blk e (seen ++ [n]) rp' t' → t' < 2 ^ 32 →
        ∃ lp'' rp'' b'' t'',
          (if lp'.isSome && rp'.isSome then (Function.update blk found ⟨b', t' - b'⟩, lp', rp')
            else mergeLoop found rest (Function.update blk found ⟨b', t' - b'⟩) lp' rp')
            = (Function.update blk found ⟨b'', t'' - b''⟩, lp'', rp'') ∧
          LeftDone blk s free lp'' b'' ∧ RightDone blk e free rp'' t'' := by
      intro lp' rp' b' t' hl' hr' ht'
      split
      · rename_i hboth
        rw [Bool.and_eq_true] at hboth
        exact ⟨lp', rp', b', t', rfl, hsplit' ▸ hl'.break hboth.1, hsplit' ▸ hr'.break hboth.2⟩
      · exact mergeLoop_spec hpre rest _ lp' rp' b' t' hsplit' hl' hr' ht'
    rw [mergeLoop]
    simp only [Function.update_of_ne hne, Function.update_self, hend, hft, Function.update_idem]
    by_cases hleft : endOf blk n = b
    · -- `[free][found]`
      have hnone : lp = none := by
        cases lp with
        | none => rfl
        | some l => exact absurd (hleft.trans hl.2.2) (hpre.gaps n hn l (hseen l hl.1))
      subst hnone
      have hs : endOf blk n = s := hleft.trans hl.1
      have hsize : u32 (t - b + (blk n).size) = t - (blk n).base := by
        unfold endOf at hleft
        rw [u32_of_lt (by omega)]
        omega
      have hbase : (blk n).base ≠ e := by
        unfold endOf at hs
        omega
      simp only [if_pos hleft, hsize]
      exact hgo (some n) rp _ t ⟨by simp, hs, rfl⟩ (hr.skip fun _ => hbase) ht
    · by_cases hright : (blk n).base = t
      · -- `[found][free]`
        have hnone : rp = none := by
          cases rp with
          | none => rfl
          | some r => exact absurd (hr.2.2.symm.trans hright.symm) (hpre.gaps r (hseen r hr.1) n hn)
        subst hnone
        have hfit := hpre.ends n hn
        have hsize : u32 (t - b + (blk n).size) = endOf blk n - b := by
          unfold endOf at hfit ⊢
          rw [u32_of_lt (by omega)]
          omega
        simp only [if_neg hleft, if_pos hright, hsize]
        refine hgo lp (some n) b _ (hl.skip ?_) ⟨by simp, hright.trans hr.1, rfl⟩ hfit
        rintro rfl
        exact hl.1 ▸ hleft
      · simp only [if_neg hleft, if_neg hright]
        refine hgo lp rp b t (hl.skip ?_) (hr.skip ?_) ht
        · rintro rfl
          exact hl.1 ▸ hleft
        · rintro rfl
          exact hr.1 ▸ hright

/-- The loop as `__kfree` starts it: `found` itself comes first and is passed over. -/
theorem mergeLoop_found {blk : Nat → Blk} {found s e : Nat} {free : List Nat}
    (hpre : MergePre blk found s e free) (hblk : blk found = ⟨s, e - s⟩) :
    ∃ lp rp b t, mergeLoop found (found :: free) blk none none
        = (Function.update blk found ⟨b, t - b⟩, lp, rp) ∧
      LeftDone blk s free lp b ∧ RightDone blk e free rp t := by
  have hlt := hpre.lt
  have hfit := hpre.fits
  have hend : u32 (s + (e - s)) = e := by
    rw [u32_of_lt (by omega)]
    omega
  have hself : Function.update blk found ⟨s, e - s⟩ = blk := by rw [← hblk, Function.update_eq_self]
  have h := mergeLoop_spec hpre free [] none none s e rfl ⟨rfl, by simp⟩ ⟨rfl, by simp⟩ hfit
  rw [hself] at h
  rw [mergeLoop]
  simp only [hblk, hend, if_neg hlt.ne, if_neg hlt.ne', Option.isSome_none, Bool.and_self]
  exact h

/-! ## Absorbing a neighbour -/

/-- The node `gone` goes to `avail` and `keep` covers its block too. -/
def absorb (h : HeapDesc) (keep gone b : Nat) : HeapDesc :=
  { h with
    blk := Function.update h.blk keep ⟨b, (h.blk keep).size + (h.blk gone).size⟩,
    free := h.free.erase gone, avail := gone :: h.avail }

theorem absorb_partition {h : HeapDesc} (hp : Partition h) {keep gone b : Nat} (hk : keep ∈ h.free)
    (hg : gone ∈ h.free) (hne : gone ≠ keep)
    (hb : (endOf h.blk gone = (h.blk keep).base ∧ b = (h.blk gone).base) ∨
      (endOf h.blk keep = (h.blk gone).base ∧ b = (h.blk keep).base)) :
    Partition (absorb h keep gone b) := by
  have hku : keep ∈ h.free ++ h.res := List.mem_append_left _ hk
  have hgu : gone ∈ (h.free ++ h.res).erase keep := (List.mem_erase_of_ne hne).2 (List.mem_append_left _ hg)
  refine ⟨hp.fits, ?_, (perm_free_avail hg).trans hp.nodes, hp.pages⟩
  -- the used nodes: `keep`, `gone`, and the rest, whose blocks do not change
  obtain ⟨rest, hrest⟩ : ∃ rest, rest = ((h.free ++ h.res).erase keep).erase gone := ⟨_, rfl⟩
  have hperm : ((h.free ++ h.res).erase keep).Perm (gone :: rest) := hrest ▸ List.perm_cons_erase hgu
  have hold : rest.map (blockOf (absorb h keep gone b).blk) = rest.map (blockOf h.blk) := by
    refine map_blockOf_congr fun n hn => Function.update_of_ne ?_ _ _
    rintro rfl
    exact hp.used_nodup.not_mem_erase (hperm.mem_iff.2 (List.mem_cons_of_mem _ hn))
  have hused : (h.free.erase gone ++ h.res).Perm (keep :: rest) := by
    have h1 : (h.free.erase gone ++ h.res).Perm ((h.free ++ h.res).erase gone) := by
      rw [List.erase_append_left _ hg]
    refine h1.trans ?_
    have h2 := ((List.perm_cons_erase hku).trans (hperm.cons keep)).erase gone
    rw [List.erase_cons_tail (by simpa using hne.symm), List.erase_cons_head] at h2
    exact h2
  have htiles := (hp.front hku).perm ((hperm.map (blockOf h.blk)).cons _)
  rw [List.map_cons] at htiles
  have hjoined : Tiles h.start h.endAddr
      (⟨b, (h.blk keep).size + (h.blk gone).size⟩ :: rest.map (blockOf h.blk)) := by
    rcases hb with ⟨htouch, rfl⟩ | ⟨htouch, rfl⟩
    · have := htiles.perm (List.Perm.swap _ _ _)
      rw [← htouch, blockOf] at this
      rw [Nat.add_comm]
      exact this.join
    · rw [blockOf, ← htouch] at htiles
      exact htiles.join
  refine hjoined.perm (List.Perm.symm ?_)
  have hmap := hused.map (blockOf (absorb h keep gone b).blk)
  rw [List.map_cons, hold] at hmap
  simpa only [absorb, blockOf, Function.update_self] using hmap

/-! ## `__kfree` -/

/-- The block of `found` released, before anything is merged. -/
def release (h : HeapDesc) (found : Nat) : HeapDesc :=
  { h with res := h.res.erase found, free := found :: h.free }

theorem release_partition {h : HeapDesc} (hp : Partition h) {found : Nat} (hf : found ∈ h.res) :
    Partition (release h found) := by
  refine ⟨hp.fits, hp.tiles.perm ?_, (perm_res_free hf).trans hp.nodes, hp.pages⟩
  have hperm : (h.free ++ h.res).Perm (found :: h.free ++ h.res.erase found) := by
    simpa using (perm_res_free (l := h.free) (t := []) hf).symm
  exact hperm.map _

/-- The heap with the left neighbour of `found`, if there is one, merged into it. -/
def absorbLeft (h : HeapDesc) (found : Nat) : Option Nat → HeapDesc
  | none => h
  | some l => absorb h found l (h.blk l).base

def absorbRight (h : HeapDesc) (found : Nat) : Option Nat → HeapDesc
  | none => h
  | some r => absorb h found r (h.blk found).base

/-- What `__kfree` leaves once the loop has found the neighbours `lp` and `rp`. -/
def merged (h : HeapDesc) (found : Nat) (lp rp : Option Nat) (b t : Nat) : HeapDesc :=
  toAvail (toAvail { release h found with blk := Function.update h.blk found ⟨b, t - b⟩ } lp) rp

section
variable {h : HeapDesc} {found s e b t : Nat} {lp rp : Option Nat}

theorem merged_eq_absorb (hblk : h.blk found = ⟨s, e - s⟩) (hlt : s < e) (hnf : found ∉ h.free)
    (hl : LeftDone h.blk s h.free lp b) (hr : RightDone h.blk e h.free rp t) :
    merged h found lp rp b t = absorbRight (absorbLeft (release h found) found lp) found rp := by
  cases lp with
  | none =>
    obtain rfl := hl.1
    cases rp with
    | none =>
      obtain rfl := hr.1
      simp only [merged, toAvail, absorbLeft, absorbRight, release, ← hblk, Function.update_eq_self]
    | some r =>
      obtain ⟨hmem, hbase, rfl⟩ := hr
      have hsize : endOf h.blk r - b = e - b + (h.blk r).size := by
        rw [endOf, hbase]
        omega
      simp only [merged, toAvail, absorbLeft, absorbRight, absorb, release, hblk, hsize]
  | some l =>
    obtain ⟨hmem, hend, rfl⟩ := hl
    have hsize : e - (h.blk l).base = e - s + (h.blk l).size := by
      rw [← hend, endOf] at hlt ⊢
      omega
    cases rp with
    | none =>
      obtain rfl := hr.1
      simp only [merged, toAvail, absorbLeft, absorbRight, absorb, release, hblk, hsize]
    | some r =>
      obtain ⟨hmem', hbase, rfl⟩ := hr
      have hrf : r ≠ found := fun hc => hnf (hc ▸ hmem')
      have hsize' : endOf h.blk r - (h.blk l).base = e - s + (h.blk l).size + (h.blk r).size := by
        rw [endOf, hbase]
        omega
      simp only [merged, toAvail, absorbLeft, absorbRight, absorb, release, hblk, hsize',
        Function.update_self, Function.update_of_ne hrf, Function.update_idem]

theorem absorbLeft_partition (hp : Partition (release h found)) (hblk : h.blk found = ⟨s, e - s⟩)
    (hnf : found ∉ h.free) (hl : LeftDone h.blk s h.free lp b) :
    Partition (absorbLeft (release h found) found lp) := by
  cases lp with
  | none => exact hp
  | some l =>
    obtain ⟨hmem, hend, -⟩ := hl
    have hne : l ≠ found := fun hc => hnf (hc ▸ hmem)
    refine absorb_partition hp List.mem_cons_self (List.mem_cons_of_mem _ hmem) hne (.inl ⟨?_, rfl⟩)
    exact hend.trans (congrArg Blk.base hblk).symm

theorem absorbRight_partition (hp : Partition (absorbLeft (release h found) found lp))
    (hblk : h.blk found = ⟨s, e - s⟩) (hlt : s < e) (hnf : found ∉ h.free)
    (hl : LeftDone h.blk s h.free lp b) (hr : RightDone h.blk e h.free rp t) :
    Partition (absorbRight (absorbLeft (release h found) found lp) found rp) := by
  cases rp with
  | none => exact hp
  | some r =>
    obtain ⟨hmem, hbase, -⟩ := hr
    have hne : r ≠ found := fun hc => hnf (hc ▸ hmem)
    cases lp with
    | none =>
      refine absorb_partition hp List.mem_cons_self (List.mem_cons_of_mem _ hmem) hne (.inr ⟨?_, rfl⟩)
      show (h.blk found).base + (h.blk found).size = (h.blk r).base
      rw [hblk, hbase]
      dsimp only
      omega
    | some l =>
      obtain ⟨hlmem, hend, -⟩ := hl
      have hlf : l ≠ found := fun hc => hnf (hc ▸ hlmem)
      -- the left and the right neighbour are two nodes: one ends where the released block starts
      have hrl : r ≠ l := by
        rintro rfl
        rw [endOf, hbase] at hend
        omega
      have hk : found ∈ (found :: h.free).erase l := (List.mem_erase_of_ne hlf.symm).2 List.mem_cons_self
      have hg : r ∈ (found :: h.free).erase l :=
        (List.mem_erase_of_ne hrl).2 (List.mem_cons_of_mem _ hmem)
      refine absorb_partition hp hk hg hne (.inr ⟨?_, rfl⟩)
      simp only [absorbLeft, absorb, release, endOf, Function.update_self, Function.update_of_ne hne, hblk, hbase]
      rw [endOf] at hend
      omega

/-- No free block touches the merged one. -/
theorem merged_gaps (hlt : b < t) (hgaps : ∀ n ∈ h.free, ∀ m ∈ h.free, endOf h.blk n ≠ (h.blk m).base)
    (hl : LeftDone h.blk s h.free lp b) (hr : RightDone h.blk e h.free rp t) (hnf : found ∉ h.free) :
    ∀ n ∈ found :: h.free, ∀ m ∈ found :: h.free,
      endOf (Function.update h.blk found ⟨b, t - b⟩) n ≠ (Function.update h.blk found ⟨b, t - b⟩ m).base := by
  have hold : ∀ n ∈ h.free, Function.update h.blk found ⟨b, t - b⟩ n = h.blk n := by
    intro n hn
    refine Function.update_of_ne ?_ _ _
    rintro rfl
    exact hnf hn
  intro n hn m hm
  rcases List.mem_cons.1 hn with hnf' | hn'
  · rcases List.mem_cons.1 hm with hmf | hm'
    · rw [hnf', hmf, endOf, Function.update_self]
      dsimp only
      omega
    · rw [hnf', endOf, Function.update_self, hold m hm']
      have ht : b + (t - b) = t := by omega
      rw [ht]
      cases rp with
      | none => exact hr.1 ▸ (hr.2 m hm').symm
      | some r => exact hr.2.2 ▸ hgaps r hr.1 m hm'
  · rcases List.mem_cons.1 hm with hmf | hm'
    · rw [hmf, endOf, Function.update_self, hold n hn']
      cases lp with
      | none => exact hl.1 ▸ hl.2 n hn'
      | some l => exact hl.2.2 ▸ hgaps n hn' l hl.1
    · rw [endOf, hold n hn', hold m hm']
      exact hgaps n hn' m hm'

end

theorem toAvail_free_subset {h : HeapDesc} {o : Option Nat} {n : Nat} (hn : n ∈ (toAvail h o).free) :
    n ∈ h.free := by
  cases o with
  | none => exact hn
  | some m => exact List.mem_of_mem_erase hn

@[simp] theorem toAvail_blk (h : HeapDesc) (o : Option Nat) : (toAvail h o).blk = h.blk := by
  cases o <;> rfl

@[simp] theorem toAvail_res (h : HeapDesc) (o : Option Nat) : (toAvail h o).res = h.res := by
  cases o <;> rfl

@[simp] theorem toAvail_start (h : HeapDesc) (o : Option Nat) : (toAvail h o).start = h.start := by
  cases o <;> rfl

@[simp] theorem toAvail_endAddr (h : HeapDesc) (o : Option Nat) : (toAvail h o).endAddr = h.endAddr := by
  cases o <;> rfl

@[simp] theorem toAvail_pages (h : HeapDesc) (o : Option Nat) : (toAvail h o).pages = h.pages := by
  cases o <;> rfl

/-- What a call of `__kfree` does: it fails and changes nothing, or it takes the one reserved block
with base `p` off the reserved list. -/
structure Freed (h h' : HeapDesc) (p found : Nat) : Prop where
  inv : HeapInv h'
  start : h'.start = h.start
  endAddr : h'.endAddr = h.endAddr
  pages : h'.pages = h.pages
  mem : found ∈ h.res
  base : (h.blk found).base = p
  res : h'.res = h.res.erase found
  blk : ∀ n ∈ h'.res, h'.blk n = h.blk n

theorem kfree_spec {h : HeapDesc} (hi : HeapInv h) (p : Nat) :
    (kfree p h = (1, h) ∧ ∀ n ∈ h.res, (h.blk n).base ≠ p) ∨
      ∃ h' found, kfree p h = (0, h') ∧ Freed h h' p found := by
  cases hfind : h.res.find? fun n => (h.blk n).base == p with
  | none =>
    refine .inl ⟨by simp only [kfree, hfind], fun n hn => ?_⟩
    simpa using List.find?_eq_none.1 hfind n hn
  | some found =>
    have hmem : found ∈ h.res := List.mem_of_find?_eq_some hfind
    have hbase : (h.blk found).base = p := by simpa using List.find?_some hfind
    have hused : found ∈ h.free ++ h.res := List.mem_append_right _ hmem
    have hnf := hi.not_free_of_res hmem
    have hpos := hi.pos hused
    have hin := hi.inside hused
    have hfit := hi.fits
    have hblk : h.blk found = ⟨(h.blk found).base, endOf h.blk found - (h.blk found).base⟩ := by
      rw [endOf, Nat.add_sub_cancel_left]
    have hlt : (h.blk found).base < endOf h.blk found := Nat.lt_add_of_pos_right hpos
    have hpre : MergePre h.blk found (h.blk found).base (endOf h.blk found) h.free := by
      refine ⟨hnf, hlt, by omega, fun n hn => ?_, hi.gaps⟩
      have := hi.inside (List.mem_append_left _ hn)
      omega
    obtain ⟨lp, rp, b, t, hloop, hl, hr⟩ := mergeLoop_found hpre hblk
    have hbt : b < t := lt_of_le_of_lt hl.le (lt_of_lt_of_le hlt hr.le)
    have hk : kfree p h = (0, merged h found lp rp b t) := by
      simp only [kfree, hfind, hloop, merged, release]
    refine .inr ⟨_, found, hk, ?_, ?_, ?_, ?_, hmem, hbase, ?_, ?_⟩
    · have hp := absorbRight_partition (absorbLeft_partition (release_partition hi.toPartition hmem) hblk hnf hl)
        hblk hlt hnf hl hr
      rw [← merged_eq_absorb hblk hlt hnf hl hr] at hp
      refine ⟨hp, fun n hn m hm => ?_⟩
      have hgaps := merged_gaps hbt hi.gaps hl hr hnf n (toAvail_free_subset (toAvail_free_subset hn))
        m (toAvail_free_subset (toAvail_free_subset hm))
      simpa only [merged, toAvail_blk] using hgaps
    · simp [merged, release]
    · simp [merged, release]
    · simp [merged, release]
    · simp [merged, release]
    · intro n hn
      simp only [merged, toAvail_res, release, toAvail_blk] at hn ⊢
      refine Function.update_of_ne ?_ _ _
      rintro rfl
      exact (List.nodup_append.1 hi.used_nodup).2.1.not_mem_erase hn

end RedMagic.Heap
