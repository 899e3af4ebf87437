import Mathlib.Data.List.Chain
import RedMagic.Lib.Ring

/-!
# Cutting and gluing rings

A ring is a chain of links from its first node round to it again (`isRing_iff`). A chain reads `next` of all its nodes but the
last and `prev` of all but the first (`chain_congr`), so an edit that writes at the ends of chains only can be checked piece
by piece: the chains it cuts the rings into stay, and the links it makes join them.

`Rings m L` is about all rings of a memory at once: `L r` is the list of the ring with head `r`, if it has one, and no node is
on two of them. `Rings.edit` is the frame rule: an edit inside some of the rings leaves the others alone.
-/

namespace Ring

variable {α : Type}

/-- `a` and `b` are neighbours. -/
def Linked (m : Links α) (a b : α) : Prop := m.next a = b ∧ m.prev b = a

theorem chain_iff {m : Links α} {a b : α} {ys : List α} : List.IsChain (Linked m) (a :: (ys ++ [b])) ↔
    (a :: ys).map m.next = ys ++ [b] ∧ (ys ++ [b]).map m.prev = a :: ys := by
  induction ys generalizing a with
  | nil => simp [Linked]
  | cons y ys ih =>
    rw [List.cons_append, List.isChain_cons_cons, ih]
    simp only [Linked, List.map_cons, List.cons.injEq]
    tauto

section
variable {m m' : Links α} {r e : α} {ys as bs : List α}

theorem isRing_iff : IsRing m r ys ↔ (r :: ys).Nodup ∧ List.IsChain (Linked m) (r :: (ys ++ [r])) :=
  ⟨fun h => ⟨h.nodup, chain_iff.2 ⟨h.next, h.prev⟩⟩, fun h => ⟨h.1, (chain_iff.1 h.2).1, (chain_iff.1 h.2).2⟩⟩

theorem chain_congr {l : List α} (h : List.IsChain (Linked m) l) (hnext : ∀ a ∈ l.dropLast, m'.next a = m.next a)
    (hprev : ∀ a ∈ l.tail, m'.prev a = m.prev a) : List.IsChain (Linked m') l := by
  induction l with
  | nil => exact .nil
  | cons a l ih =>
    cases l with
    | nil => exact .singleton a
    | cons b l =>
      obtain ⟨⟨hab, hba⟩, hl⟩ := List.isChain_cons_cons.1 h
      refine List.isChain_cons_cons.2 ⟨⟨?_, ?_⟩, ih hl (fun x hx => hnext x ?_) fun x hx => hprev x ?_⟩
      · rw [hnext a (by simp), hab]
      · rw [hprev b (by simp), hba]
      · rw [List.dropLast_cons_cons]
        exact List.mem_cons_of_mem _ hx
      · exact List.mem_of_mem_tail hx

/-- Any node of a ring is its head. -/
theorem IsRing.rotate (h : IsRing m r (as ++ e :: bs)) : IsRing m e (bs ++ r :: as) := by
  obtain ⟨hnd, hc⟩ := isRing_iff.1 h
  have hsplit := List.isChain_split.1 (show List.IsChain (Linked m) (r :: as ++ e :: (bs ++ [r])) by simpa using hc)
  refine isRing_iff.2 ⟨?_, ?_⟩
  · have hperm : (e :: (bs ++ r :: as)).Perm (r :: (as ++ e :: bs)) := by
      rw [← List.cons_append, ← List.cons_append]
      exact List.perm_append_comm
    exact hperm.nodup_iff.2 hnd
  · have hjoin : List.IsChain (Linked m) (e :: bs ++ r :: (as ++ [e])) := List.isChain_split.2 ⟨hsplit.2, hsplit.1⟩
    simpa using hjoin

/-- A ring is two chains and the link between them. -/
theorem isRing_cut {a b : α} {init tl : List α} (ha : r :: as = init ++ [a]) (hb : bs ++ [r] = b :: tl) :
    IsRing m r (as ++ bs) ↔ (r :: (as ++ bs)).Nodup ∧ List.IsChain (Linked m) (init ++ [a]) ∧ Linked m a b ∧
      List.IsChain (Linked m) (b :: tl) := by
  have hlist : r :: (as ++ bs ++ [r]) = init ++ a :: b :: tl := by
    rw [List.append_assoc, hb, ← List.cons_append, ha, List.append_assoc]
    rfl
  rw [isRing_iff, hlist, List.isChain_append_cons_cons]

theorem exists_ends (r : α) (as bs : List α) :
    ∃ init a b tl, r :: as = init ++ [a] ∧ bs ++ [r] = b :: tl := by
  obtain ⟨b, tl, hb⟩ : ∃ b tl, bs ++ [r] = b :: tl := List.exists_cons_of_ne_nil (by simp)
  exact ⟨_, _, b, tl, (List.dropLast_append_getLast (by simp)).symm, hb⟩

end

/-! ## Edits -/

/-- `m'` is `m` but for `next` at the nodes `ns` and `prev` at the nodes `ps`. -/
structure Writes (m m' : Links α) (ns ps : List α) : Prop where
  next : ∀ x ∉ ns, m'.next x = m.next x
  prev : ∀ x ∉ ps, m'.prev x = m.prev x

section
variable {m m' : Links α} {r e a b : α} {as bs init tl ns ps : List α}

theorem IsRing.of_writes (h : IsRing m r as) (hw : Writes m m' ns ps) (hns : ∀ x ∈ ns, x ∉ r :: as)
    (hps : ∀ x ∈ ps, x ∉ r :: as) : IsRing m' r as :=
  h.congr (fun x hx => hw.next x fun hmem => hns x hmem hx) fun x hx => hw.prev x fun hmem => hps x hmem hx

/-- An edit leaves a chain if it writes no link inside it. -/
theorem chain_of_writes {l : List α} (h : List.IsChain (Linked m) l) (hnd : l.Nodup) (hlast : l = init ++ [a])
    (hfirst : l = b :: tl) (hw : Writes m m' ns ps) (hns : ∀ x ∈ ns, x ∈ l → x = a) (hps : ∀ x ∈ ps, x ∈ l → x = b) :
    List.IsChain (Linked m') l := by
  refine chain_congr h (fun x hx => hw.next x fun hmem => ?_) fun x hx => hw.prev x fun hmem => ?_
  · obtain rfl := hns x hmem (List.dropLast_subset _ hx)
    rw [hlast, List.dropLast_concat] at hx
    rw [hlast] at hnd
    exact (List.nodup_append.1 hnd).2.2 x hx x (by simp) rfl
  · obtain rfl := hps x hmem (List.mem_of_mem_tail hx)
    rw [hfirst, List.tail_cons] at hx
    rw [hfirst] at hnd
    exact (List.nodup_cons.1 hnd).1 hx

/-- An edit at the cut leaves the two chains. -/
theorem IsRing.pieces (h : IsRing m r (as ++ bs)) (ha : r :: as = init ++ [a]) (hb : bs ++ [r] = b :: tl)
    (hw : Writes m m' ns ps) (hns : ∀ x ∈ ns, x ∈ r :: (as ++ bs) → x = a) (hps : ∀ x ∈ ps, x ∈ r :: (as ++ bs) → x = b) :
    List.IsChain (Linked m') (init ++ [a]) ∧ List.IsChain (Linked m') (b :: tl) := by
  obtain ⟨hnd, hc1, -, hc2⟩ := (isRing_cut ha hb).1 h
  have hain : a ∈ r :: as := by simp [ha]
  have hbin : b ∈ bs ++ [r] := by simp [hb]
  have hapart := List.nodup_append.1 (show (r :: as ++ bs).Nodup from hnd)
  constructor
  · refine chain_of_writes hc1 (ha ▸ hapart.1) rfl ha.symm hw (fun x hx hin => hns x hx ?_) fun x hx hin => ?_
    · exact List.mem_append_left bs (ha ▸ hin)
    · rw [← ha] at hin
      obtain rfl := hps x hx (List.mem_append_left bs hin)
      rcases List.mem_append.1 hbin with hbs | hr
      · exact absurd rfl (hapart.2.2 x hin x hbs)
      · exact List.mem_singleton.1 hr
  · have hnd2 : (bs ++ [r]).Nodup := by
      rw [(List.perm_append_singleton r bs).nodup_iff]
      exact List.nodup_cons.2 ⟨fun hmem => hapart.2.2 r List.mem_cons_self r hmem rfl, hapart.2.1⟩
    refine chain_of_writes hc2 (hb ▸ hnd2) hb.symm rfl hw (fun x hx hin => ?_) fun x hx hin => hps x hx ?_
    · rw [← hb] at hin
      rcases List.mem_append.1 hin with hbs | hr
      · obtain rfl := hns x hx (List.mem_cons_of_mem _ (List.mem_append_right _ hbs))
        exact absurd rfl (hapart.2.2 x hain x hbs)
      · exact List.mem_singleton.1 hr
    · rw [← hb] at hin
      simp only [List.mem_append, List.mem_cons] at hin ⊢
      tauto

theorem IsRing.next_mem (h : IsRing m r ys) (ha : a ∈ r :: ys) : m.next a ∈ r :: ys := by
  have : m.next a ∈ (r :: ys).map m.next := List.mem_map_of_mem ha
  rw [h.next] at this
  simpa [or_comm] using this

theorem IsRing.prev_mem (h : IsRing m r ys) (ha : a ∈ r :: ys) : m.prev a ∈ r :: ys := by
  rw [← h.prev]
  exact List.mem_map_of_mem (by simpa [or_comm] using ha)

/-- The neighbours of a node. -/
theorem IsRing.neighbours (h : IsRing m r (as ++ e :: bs)) (ha : r :: as = init ++ [a]) (hb : bs ++ [r] = b :: tl) :
    m.prev e = a ∧ m.next e = b := by
  obtain ⟨-, -, hl1, hc⟩ := (isRing_cut ha (show e :: bs ++ [r] = e :: b :: tl by rw [List.cons_append, hb])).1 h
  exact ⟨hl1.2, (List.isChain_cons_cons.1 hc).1.1⟩

/-- The neighbours of the head. -/
theorem IsRing.head_next (h : IsRing m r ys) (hb : ys ++ [r] = b :: tl) : m.next r = b := by
  have hc := (isRing_iff.1 h).2
  rw [hb] at hc
  exact (List.isChain_cons_cons.1 hc).1.1

theorem IsRing.head_prev (h : IsRing m r ys) (ha : r :: ys = init ++ [a]) : m.prev r = a := by
  have h' : IsRing m r (ys ++ []) := by rwa [List.append_nil]
  exact ((isRing_cut ha (show [] ++ [r] = r :: [] from rfl)).1 h').2.2.1.2

theorem IsRing.next_nil (h : IsRing m r []) : m.next r = r := h.head_next (show [] ++ [r] = r :: [] from rfl)

theorem IsRing.next_cons (h : IsRing m r (e :: as)) : m.next r = e := h.head_next (show e :: as ++ [r] = e :: (as ++ [r]) from rfl)

/-- A node that is on no ring is put between two neighbours. -/
theorem IsRing.insert (h : IsRing m r (as ++ bs)) (ha : r :: as = init ++ [a]) (hb : bs ++ [r] = b :: tl)
    (he : e ∉ r :: (as ++ bs)) (hw : Writes m m' [a, e] [b, e]) (hae : Linked m' a e) (heb : Linked m' e b) :
    IsRing m' r (as ++ e :: bs) := by
  obtain ⟨hc1, hc2⟩ := h.pieces ha hb hw (by grind) (by grind)
  refine (isRing_cut ha (by rw [List.cons_append, hb])).2 ⟨?_, hc1, hae, List.isChain_cons_cons.2 ⟨heb, hc2⟩⟩
  rw [← List.cons_append, List.perm_middle.nodup_iff]
  exact List.nodup_cons.2 ⟨he, h.nodup⟩

/-- The neighbours of a node become neighbours, whatever is written into the node. -/
theorem IsRing.remove [DecidableEq α] (h : IsRing m r (as ++ e :: bs)) (hw : Writes m m' [m.prev e, e] [m.next e, e])
    (hl : Linked m' (m.prev e) (m.next e)) : IsRing m' r (as ++ bs) := by
  have hout : e ∉ r :: (as ++ bs) := by
    have hnd := h.nodup
    rw [← List.cons_append, List.perm_middle.nodup_iff] at hnd
    exact (List.nodup_cons.1 hnd).1
  refine h.unlink.congr (fun x hx => ?_) fun x hx => ?_
  · have hne : x ≠ e := fun heq => hout (heq ▸ hx)
    by_cases hx' : x = m.prev e
    · rw [hx', hl.1]
      simp [Links.join]
    · rw [hw.next x (by simp [hx', hne])]
      simp [Links.join, hx']
  · have hne : x ≠ e := fun heq => hout (heq ▸ hx)
    by_cases hx' : x = m.next e
    · rw [hx', hl.2]
      simp [Links.join]
    · rw [hw.prev x (by simp [hx', hne])]
      simp [Links.join, hx']

/-- A node that is on no ring takes the place of another. -/
theorem IsRing.replace [DecidableEq α] {new : α} (h : IsRing m r (as ++ e :: bs)) (hnew : new ∉ r :: (as ++ e :: bs))
    (hw : Writes m m' [m.prev e, new] [m.next e, new]) (hae : Linked m' (m.prev e) new) (heb : Linked m' new (m.next e)) :
    IsRing m' r (as ++ new :: bs) := by
  obtain ⟨init, a, b, tl, ha, hb⟩ := exists_ends r as bs
  obtain ⟨hprev, hnext⟩ := h.neighbours ha hb
  have hnew' : new ∉ r :: (as ++ bs) := by
    intro hmem
    simp only [List.mem_cons, List.mem_append] at hmem hnew
    tauto
  rw [hprev, hnext] at hw
  refine h.unlink.insert ha hb hnew' ⟨fun x hx => ?_, fun x hx => ?_⟩ (hprev ▸ hae) (hnext ▸ heb)
  · rw [hw.next x hx]
    have hxa : x ≠ a := fun heq => hx (by simp [heq])
    simp [Links.join, hprev, hxa]
  · rw [hw.prev x hx]
    have hxb : x ≠ b := fun heq => hx (by simp [heq])
    simp [Links.join, hnext, hxb]

/-- The nodes of another ring, which has them without its head, are put between two neighbours. -/
theorem IsRing.splice {x y h₁ : α} {xs ini : List α} (h : IsRing m r (as ++ bs)) (hxs : IsRing m h₁ (x :: xs))
    (hy : x :: xs = ini ++ [y]) (hapart : ∀ z ∈ x :: xs, z ∉ r :: (as ++ bs)) (ha : r :: as = init ++ [a])
    (hb : bs ++ [r] = b :: tl) (hw : Writes m m' [a, y] [x, b]) (hax : Linked m' a x) (hyb : Linked m' y b) :
    IsRing m' r (as ++ x :: xs ++ bs) := by
  have hyin : y ∈ x :: xs := by simp [hy]
  obtain ⟨hc1, hc2⟩ := h.pieces ha hb hw
    (fun z hz hin => (List.mem_pair.1 hz).resolve_right fun heq => hapart y hyin (heq ▸ hin))
    (fun z hz hin => (List.mem_pair.1 hz).resolve_left fun heq => hapart x List.mem_cons_self (heq ▸ hin))
  have ha' : a ∉ x :: xs := fun hmem => hapart a hmem (by
    rw [← List.cons_append, ha]
    simp)
  have hb' : b ∉ x :: xs := fun hmem => hapart b hmem (by
    have : b ∈ bs ++ [r] := by simp [hb]
    simp only [List.mem_append, List.mem_cons] at this ⊢
    tauto)
  have hnd := (List.nodup_cons.1 hxs.nodup).2
  have hmid : List.IsChain (Linked m') (x :: xs) := by
    have hc := (isRing_iff.1 hxs).2.tail
    rw [List.tail_cons] at hc
    refine chain_of_writes hc.left_of_append hnd hy rfl hw (fun z hz hin => ?_) fun z hz hin => ?_
    · exact (List.mem_pair.1 hz).resolve_left fun heq => ha' (heq ▸ hin)
    · exact (List.mem_pair.1 hz).resolve_right fun heq => hb' (heq ▸ hin)
  have hright : List.IsChain (Linked m') (x :: xs ++ b :: tl) := by
    rw [hy, List.append_assoc]
    rw [hy] at hmid
    exact List.isChain_append_cons_cons.2 ⟨hmid, hyb, hc2⟩
  rw [List.append_assoc]
  refine (isRing_cut ha (show x :: xs ++ bs ++ [r] = x :: (xs ++ b :: tl) by rw [List.append_assoc, hb]; rfl)).2 ⟨?_, hc1, hax, hright⟩
  have hperm : (r :: (as ++ (x :: xs ++ bs))).Perm (x :: xs ++ (r :: (as ++ bs))) := by
    rw [← List.append_assoc, ← List.cons_append, ← List.cons_append, ← List.cons_append, ← List.append_assoc (x :: xs)]
    exact List.Perm.append_right bs List.perm_append_comm
  exact hperm.nodup_iff.2 (List.nodup_append.2 ⟨hnd, h.nodup, fun z hz w hw heq => hapart z hz (heq ▸ hw)⟩)

/-- The nodes of a ring up to one of them go to a ring of their own. -/
theorem IsRing.cut {l x : α} {xs : List α} (h : IsRing m r (x :: xs ++ bs)) (hl : l ∉ r :: (x :: xs ++ bs))
    (he : x :: xs = init ++ [e]) (hb : bs ++ [r] = b :: tl) (hw : Writes m m' [l, e, r] [x, l, b]) (hlx : Linked m' l x)
    (hel : Linked m' e l) (hrb : Linked m' r b) : IsRing m' l (x :: xs) ∧ IsRing m' r bs := by
  obtain ⟨hnd, hc⟩ := isRing_iff.1 h
  have hc := hc.tail
  rw [List.tail_cons, List.append_assoc] at hc
  have hr := (List.nodup_cons.1 hnd).1
  obtain ⟨hnd1, hnd2, hapart⟩ := List.nodup_append.1 (List.nodup_cons.1 hnd).2
  have hnd3 : (bs ++ [r]).Nodup := by
    rw [(List.perm_append_singleton r bs).nodup_iff]
    exact List.nodup_cons.2 ⟨fun hmem => hr (List.mem_append_right _ hmem), hnd2⟩
  have hein : e ∈ x :: xs := by simp [he]
  have hbin : b ∈ bs ++ [r] := by simp [hb]
  have hleft : List.IsChain (Linked m') (x :: xs) :=
    chain_of_writes hc.left_of_append hnd1 he rfl hw (by grind) (by grind)
  have hright : List.IsChain (Linked m') (bs ++ [r]) :=
    chain_of_writes hc.right_of_append hnd3 rfl hb hw (by grind) (by grind)
  constructor
  · refine isRing_iff.2 ⟨List.nodup_cons.2 ⟨by grind, hnd1⟩, List.isChain_cons_cons.2 ⟨hlx, ?_⟩⟩
    rw [he] at hleft
    have := List.isChain_append_cons_cons.2 ⟨hleft, hel, .singleton l⟩
    rwa [List.append_cons, ← he] at this
  · refine isRing_iff.2 ⟨List.nodup_cons.2 ⟨fun hmem => hr (List.mem_append_right _ hmem), hnd2⟩, ?_⟩
    rw [hb] at hright ⊢
    exact List.isChain_cons_cons.2 ⟨hrb, hright⟩

end

/-! ## All rings of a memory -/

structure Rings (m : Links α) (L : α → Option (List α)) : Prop where
  ring : ∀ r ys, L r = some ys → IsRing m r ys
  apart : ∀ r r' ys ys', L r = some ys → L r' = some ys' → r ≠ r' → ∀ a ∈ r :: ys, a ∉ r' :: ys'

/-- The node is on no ring. -/
def Free (L : α → Option (List α)) (e : α) : Prop := ∀ r ys, L r = some ys → e ∉ r :: ys

/-- The node is one of `E` or on a ring with its head in `H`. -/
def Touched (L : α → Option (List α)) (H E : List α) (a : α) : Prop := a ∈ E ∨ ∃ r ∈ H, ∃ ys, L r = some ys ∧ a ∈ r :: ys

section
variable {m m' : Links α} {L L' : α → Option (List α)} {H E : List α} {r e a b : α} {ys as bs init tl ns ps : List α}

theorem Rings.touched_head (h : Rings m L) (hE : ∀ e ∈ E, Free L e) (hr : L r = some ys) (ha : a ∈ r :: ys)
    (ht : Touched L H E a) : Touched L H E r := by
  rcases ht with he | ⟨r', hr', ys', hL, ha'⟩
  · exact absurd ha (hE a he r ys hr)
  · by_cases heq : r = r'
    · exact .inr ⟨r, heq ▸ hr', ys, hr, List.mem_cons_self⟩
    · exact absurd ha' (h.apart r r' ys ys' hr hL heq a ha)

/-- **The frame rule.** An edit of the rings with heads in `H` and of the nodes `E`, which are on no ring, leaves the others. -/
theorem Rings.edit (h : Rings m L) (hE : ∀ e ∈ E, Free L e) (hw : Writes m m' ns ps) (hns : ∀ x ∈ ns, Touched L H E x)
    (hps : ∀ x ∈ ps, Touched L H E x) (hsame : ∀ r, ¬ Touched L H E r → L' r = L r)
    (hnew : ∀ r ys, Touched L H E r → L' r = some ys → IsRing m' r ys ∧ ∀ a ∈ ys, Touched L H E a)
    (hapart : ∀ r r' ys ys', Touched L H E r → Touched L H E r' → L' r = some ys → L' r' = some ys' → r ≠ r' →
      ∀ a ∈ r :: ys, a ∉ r' :: ys') : Rings m' L' := by
  -- a ring of `L'` lies in the touched part or is a ring of `L` outside it
  have hside : ∀ r ys, L' r = some ys → (Touched L H E r ∧ ∀ a ∈ r :: ys, Touched L H E a) ∨
      (L r = some ys ∧ ¬ Touched L H E r ∧ ∀ a ∈ r :: ys, ¬ Touched L H E a) := by
    intro r ys hr
    by_cases ht : Touched L H E r
    · refine .inl ⟨ht, fun a ha => ?_⟩
      rcases List.mem_cons.1 ha with rfl | ha
      · exact ht
      · exact (hnew r ys ht hr).2 a ha
    · rw [hsame r ht] at hr
      exact .inr ⟨hr, ht, fun a ha hta => ht (h.touched_head hE hr ha hta)⟩
  constructor
  · intro r ys hr
    rcases hside r ys hr with ⟨ht, -⟩ | ⟨hL, -, hout⟩
    · exact (hnew r ys ht hr).1
    · exact (h.ring r ys hL).of_writes hw (fun x hx hin => hout x hin (hns x hx)) fun x hx hin => hout x hin (hps x hx)
  · intro r r' ys ys' hr hr' hne a ha ha'
    rcases hside r ys hr with ⟨ht, hin⟩ | ⟨hL, -, hout⟩
    · rcases hside r' ys' hr' with ⟨ht', -⟩ | ⟨-, -, hout'⟩
      · exact hapart r r' ys ys' ht ht' hr hr' hne a ha ha'
      · exact hout' a ha' (hin a ha)
    · rcases hside r' ys' hr' with ⟨-, hin'⟩ | ⟨hL', -, -⟩
      · exact hout a ha (hin' a ha')
      · exact h.apart r r' ys ys' hL hL' hne a ha ha'

/-- An edit after which the touched part is one ring. -/
theorem Rings.edit_one (h : Rings m L) (hE : ∀ e ∈ E, Free L e) (hw : Writes m m' ns ps) (hns : ∀ x ∈ ns, Touched L H E x)
    (hps : ∀ x ∈ ps, Touched L H E x) (hsame : ∀ r, ¬ Touched L H E r → L' r = L r) (hr : L' r = some ys)
    (hring : IsRing m' r ys) (hin : ∀ a ∈ ys, Touched L H E a) (hnone : ∀ r', Touched L H E r' → r' ≠ r → L' r' = none) :
    Rings m' L' := by
  have hone : ∀ r' ys', Touched L H E r' → L' r' = some ys' → r' = r := by
    intro r' ys' ht hr'
    by_contra hne
    rw [hnone r' ht hne] at hr'
    cases hr'
  refine h.edit hE hw hns hps hsame (fun r' ys' ht hr' => ?_) fun r₁ r₂ ys₁ ys₂ ht₁ ht₂ h₁ h₂ hne => ?_
  · obtain rfl := hone r' ys' ht hr'
    obtain rfl : ys = ys' := Option.some.inj (hr.symm.trans hr')
    exact ⟨hring, hin⟩
  · exact absurd ((hone r₁ ys₁ ht₁ h₁).trans (hone r₂ ys₂ ht₂ h₂).symm) hne

theorem Rings.congr (h : Rings m L) (hnext : ∀ a, ¬ Free L a → m'.next a = m.next a)
    (hprev : ∀ a, ¬ Free L a → m'.prev a = m.prev a) : Rings m' L := by
  have hon : ∀ r ys, L r = some ys → ∀ a ∈ r :: ys, ¬ Free L a := fun r ys hr a ha hfree => hfree r ys hr ha
  exact ⟨fun r ys hr => (h.ring r ys hr).congr (fun a ha => hnext a (hon r ys hr a ha)) fun a ha => hprev a (hon r ys hr a ha),
    h.apart⟩

/-- The other nodes of a ring are no heads. -/
theorem Rings.not_head (h : Rings m L) (hr : L r = some ys) (ha : a ∈ ys) : L a = none := by
  by_contra hne
  obtain ⟨zs, hzs⟩ := Option.ne_none_iff_exists'.1 hne
  by_cases heq : r = a
  · subst heq
    exact (List.nodup_cons.1 (h.ring r ys hr).nodup).1 ha
  · exact h.apart r a ys zs hr hzs heq a (List.mem_cons_of_mem _ ha) List.mem_cons_self

theorem Free.not_head (h : Free L e) : L e = none := by
  by_contra hne
  obtain ⟨zs, hzs⟩ := Option.ne_none_iff_exists'.1 hne
  exact h e zs hzs List.mem_cons_self

theorem touched_one (hr : L r = some ys) : Touched L [r] E a ↔ a ∈ E ∨ a ∈ r :: ys := by
  constructor
  · rintro (he | ⟨r', hr', ys', hL, ha⟩)
    · exact .inl he
    · obtain rfl := List.mem_singleton.1 hr'
      obtain rfl : ys = ys' := Option.some.inj (hr.symm.trans hL)
      exact .inr ha
  · rintro (he | ha)
    · exact .inl he
    · exact .inr ⟨r, List.mem_singleton_self r, ys, hr, ha⟩

theorem touched_two {s : α} {xs : List α} (hr : L r = some ys) (hs : L s = some xs) :
    Touched L [s, r] [] a ↔ a ∈ s :: xs ∨ a ∈ r :: ys := by
  constructor
  · rintro (hnil | ⟨r', hr', ys', hL, ha⟩)
    · cases hnil
    · rcases List.mem_pair.1 hr' with rfl | rfl
      · obtain rfl : xs = ys' := Option.some.inj (hs.symm.trans hL)
        exact .inl ha
      · obtain rfl : ys = ys' := Option.some.inj (hr.symm.trans hL)
        exact .inr ha
  · rintro (ha | ha)
    · exact .inr ⟨s, by simp, xs, hs, ha⟩
    · exact .inr ⟨r, by simp, ys, hr, ha⟩

variable [DecidableEq α]

/-- An edit of one ring and of nodes that are on no ring. -/
theorem Rings.edit_ring {zs : List α} (h : Rings m L) (hr : L r = some ys) (hE : ∀ e ∈ E, Free L e)
    (hw : Writes m m' ns ps) (hns : ∀ x ∈ ns, x ∈ E ∨ x ∈ r :: ys) (hps : ∀ x ∈ ps, x ∈ E ∨ x ∈ r :: ys)
    (hring : IsRing m' r zs) (hin : ∀ a ∈ zs, a ∈ E ∨ a ∈ r :: ys) : Rings m' (Function.update L r (some zs)) := by
  refine h.edit_one (H := [r]) hE hw (fun x hx => (touched_one hr).2 (hns x hx)) (fun x hx => (touched_one hr).2 (hps x hx))
    (fun r' ht => Function.update_of_ne ?_ _ _) (Function.update_self ..) hring (fun a ha => (touched_one hr).2 (hin a ha))
    fun r' ht hne => ?_
  · rintro rfl
    exact ht ((touched_one hr).2 (.inr List.mem_cons_self))
  · rw [Function.update_of_ne hne]
    rcases (touched_one hr).1 ht with he | ha
    · exact (hE r' he).not_head
    · exact h.not_head hr ((List.mem_cons.1 ha).resolve_left hne)

theorem Rings.insert (h : Rings m L) (hr : L r = some (as ++ bs)) (he : Free L e) (ha : r :: as = init ++ [a])
    (hb : bs ++ [r] = b :: tl) (hw : Writes m m' [a, e] [b, e]) (hae : Linked m' a e) (heb : Linked m' e b) :
    Rings m' (Function.update L r (some (as ++ e :: bs))) := by
  have hain : a ∈ r :: as := by simp [ha]
  have hbin : b ∈ bs ++ [r] := by simp [hb]
  refine h.edit_ring hr (E := [e]) (by simpa using he) hw (by grind) (by grind)
    ((h.ring r _ hr).insert ha hb (he r _ hr) hw hae heb) (by grind)

theorem Rings.remove (h : Rings m L) (hr : L r = some (as ++ e :: bs)) (hw : Writes m m' [m.prev e, e] [m.next e, e])
    (hl : Linked m' (m.prev e) (m.next e)) : Rings m' (Function.update L r (some (as ++ bs))) := by
  have hring := h.ring r _ hr
  have hein : e ∈ r :: (as ++ e :: bs) := by simp
  have hprev := hring.prev_mem hein
  have hnext := hring.next_mem hein
  exact h.edit_ring hr (E := []) nofun hw (by grind) (by grind) (hring.remove hw hl) (by grind)

theorem Rings.free_of_remove (h : Rings m L) (hr : L r = some (as ++ e :: bs)) :
    Free (Function.update L r (some (as ++ bs))) e := by
  intro r' ys hr' hmem
  by_cases heq : r' = r
  · subst heq
    rw [Function.update_self] at hr'
    obtain rfl := Option.some.inj hr'
    have hnd := (h.ring r' _ hr).nodup
    rw [← List.cons_append, List.perm_middle.nodup_iff] at hnd
    exact (List.nodup_cons.1 hnd).1 hmem
  · rw [Function.update_of_ne heq] at hr'
    exact h.apart r r' _ ys hr hr' (Ne.symm heq) e (by simp) hmem

theorem Rings.forget (h : Rings m L) (r : α) : Rings m (Function.update L r none) := by
  have hsome : ∀ r' ys, Function.update L r none r' = some ys → L r' = some ys := by
    intro r' ys hr'
    by_cases heq : r' = r
    · subst heq
      simp at hr'
    · rwa [Function.update_of_ne heq] at hr'
  exact ⟨fun r' ys hr' => h.ring r' ys (hsome r' ys hr'),
    fun r₁ r₂ ys₁ ys₂ h₁ h₂ => h.apart r₁ r₂ ys₁ ys₂ (hsome r₁ ys₁ h₁) (hsome r₂ ys₂ h₂)⟩

/-- A node that is not on the list of another becomes the head of an empty ring; what was on its own list is on no ring. -/
theorem Rings.clear (h : Rings m L) (hr : ∀ r' ys, L r' = some ys → r ∉ ys) (hw : Writes m m' [r] [r]) (hl : Linked m' r r) :
    Rings m' (Function.update L r (some [])) := by
  have hfree : Free (Function.update L r none) r := by
    intro r' ys hr' hmem
    by_cases heq : r' = r
    · subst heq
      simp at hr'
    · rw [Function.update_of_ne heq] at hr'
      exact (List.mem_cons.1 hmem).elim (fun h' => heq h'.symm) (hr r' ys hr')
  refine (h.forget r).edit_one (H := []) (E := [r]) (by simpa using hfree) hw (fun x hx => .inl hx) (fun x hx => .inl hx)
    (fun r' ht => ?_) (Function.update_self ..) (isRing_iff.2 ⟨by simp, by simpa using hl⟩) nofun fun r' ht hne => ?_
  · have hne : r' ≠ r := fun heq => ht (.inl (heq ▸ List.mem_singleton_self r))
    rw [Function.update_of_ne hne, Function.update_of_ne hne]
  · rcases ht with he | ⟨_, hnil, -⟩
    · exact absurd (List.mem_singleton.1 he) hne
    · cases hnil

theorem Rings.replace {new : α} (h : Rings m L) (hr : L r = some (as ++ e :: bs)) (hnew : Free L new)
    (hw : Writes m m' [m.prev e, new] [m.next e, new]) (hae : Linked m' (m.prev e) new) (heb : Linked m' new (m.next e)) :
    Rings m' (Function.update L r (some (as ++ new :: bs))) := by
  have hring := h.ring r _ hr
  have hein : e ∈ r :: (as ++ e :: bs) := by simp
  have hprev := hring.prev_mem hein
  have hnext := hring.next_mem hein
  exact h.edit_ring hr (E := [new]) (by simpa using hnew) hw (by grind) (by grind)
    (hring.replace (hnew r _ hr) hw hae heb) (by grind)

/-- A node that is on no ring takes the place of the head of a ring that is not empty. -/
theorem Rings.replace_head {y new : α} (h : Rings m L) (hr : L r = some (y :: ys)) (hnew : Free L new)
    (hw : Writes m m' [m.prev r, new] [m.next r, new]) (hae : Linked m' (m.prev r) new) (heb : Linked m' new (m.next r)) :
    Rings m' (Function.update (Function.update L r none) new (some (y :: ys))) := by
  have hring := h.ring r _ hr
  have hprev := hring.prev_mem List.mem_cons_self
  have hnext := hring.next_mem List.mem_cons_self
  have hout := hnew r _ hr
  have hring' : IsRing m' new (y :: ys) := by
    have hrot : IsRing m y (ys ++ r :: []) := IsRing.rotate (show IsRing m r ([] ++ y :: ys) from hring)
    have hrep : IsRing m' y (ys ++ new :: []) := hrot.replace (by grind) hw hae heb
    simpa using hrep.rotate
  refine h.edit_one (H := [r]) (E := [new]) (by simpa using hnew) hw (fun x hx => (touched_one hr).2 (by grind))
    (fun x hx => (touched_one hr).2 (by grind)) (fun r' ht => ?_) (Function.update_self ..) hring'
    (fun a ha => (touched_one hr).2 (.inr (List.mem_cons_of_mem _ ha))) fun r' ht hne => ?_
  · rw [touched_one hr] at ht
    rw [Function.update_of_ne (by grind), Function.update_of_ne (by grind)]
  · rw [Function.update_of_ne hne]
    by_cases heq : r' = r
    · rw [heq, Function.update_self]
    · rw [Function.update_of_ne heq]
      refine h.not_head hr ?_
      have := (touched_one hr).1 ht
      grind

theorem Rings.splice {s x y : α} {xs ini : List α} (h : Rings m L) (hr : L r = some (as ++ bs)) (hs : L s = some (x :: xs))
    (hne : s ≠ r) (hy : x :: xs = ini ++ [y]) (ha : r :: as = init ++ [a]) (hb : bs ++ [r] = b :: tl)
    (hw : Writes m m' [a, y] [x, b]) (hax : Linked m' a x) (hyb : Linked m' y b) :
    Rings m' (Function.update (Function.update L s none) r (some (as ++ x :: xs ++ bs))) := by
  have hapart := h.apart s r _ _ hs hr hne
  have hain : a ∈ r :: as := by simp [ha]
  have hbin : b ∈ bs ++ [r] := by simp [hb]
  have hyin : y ∈ x :: xs := by simp [hy]
  have hring := (h.ring r _ hr).splice (h.ring s _ hs) hy (fun z hz => hapart z (List.mem_cons_of_mem _ hz)) ha hb hw hax hyb
  refine h.edit_one (H := [s, r]) (E := []) nofun hw (fun z hz => (touched_two hr hs).2 (by grind))
    (fun z hz => (touched_two hr hs).2 (by grind)) (fun r' ht => ?_) (Function.update_self ..) hring
    (fun z hz => (touched_two hr hs).2 (by grind)) fun r' ht hne' => ?_
  · rw [touched_two hr hs] at ht
    rw [Function.update_of_ne (by grind), Function.update_of_ne (by grind)]
  · rw [Function.update_of_ne hne']
    by_cases heq : r' = s
    · rw [heq, Function.update_self]
    · rw [Function.update_of_ne heq]
      rcases (touched_two hr hs).1 ht with hz | hz
      · exact h.not_head hs ((List.mem_cons.1 hz).resolve_left heq)
      · exact h.not_head hr ((List.mem_cons.1 hz).resolve_left hne')

theorem Rings.cut {l x : α} {xs : List α} (h : Rings m L) (hr : L r = some (x :: xs ++ bs)) (hl : Free L l)
    (he : x :: xs = init ++ [e]) (hb : bs ++ [r] = b :: tl) (hw : Writes m m' [l, e, r] [x, l, b]) (hlx : Linked m' l x)
    (hel : Linked m' e l) (hrb : Linked m' r b) :
    Rings m' (Function.update (Function.update L l (some (x :: xs))) r (some bs)) := by
  have hring := h.ring r _ hr
  have hout := hl r _ hr
  have hlr : l ≠ r := fun heq => hout (heq ▸ List.mem_cons_self)
  have hein : e ∈ x :: xs := by simp [he]
  have hbin : b ∈ bs ++ [r] := by simp [hb]
  have hnd := hring.nodup
  obtain ⟨hring1, hring2⟩ := hring.cut hout he hb hw hlx hel hrb
  have ht : ∀ z, Touched L [r] [l] z ↔ z = l ∨ z ∈ r :: (x :: xs ++ bs) := fun z => by
    rw [touched_one hr, List.mem_singleton]
  have hL : ∀ r' ys', Touched L [r] [l] r' →
      Function.update (Function.update L l (some (x :: xs))) r (some bs) r' = some ys' →
      (r' = r ∧ ys' = bs) ∨ (r' = l ∧ ys' = x :: xs) := by
    intro r' ys' hin hsome
    by_cases h1 : r' = r
    · rw [h1, Function.update_self] at hsome
      exact .inl ⟨h1, (Option.some.inj hsome).symm⟩
    · rw [Function.update_of_ne h1] at hsome
      by_cases h2 : r' = l
      · rw [h2, Function.update_self] at hsome
        exact .inr ⟨h2, (Option.some.inj hsome).symm⟩
      · rw [Function.update_of_ne h2, h.not_head hr (((List.mem_cons.1 (((ht r').1 hin).resolve_left h2))).resolve_left h1)]
          at hsome
        cases hsome
  refine h.edit (H := [r]) (E := [l]) (by simpa using hl) hw (fun z hz => (ht z).2 (by grind)) (fun z hz => (ht z).2 (by grind))
    (fun r' hout => ?_) (fun r' ys' hin hsome => ?_) fun r₁ r₂ ys₁ ys₂ hin₁ hin₂ h₁ h₂ hne z hz₁ hz₂ => ?_
  · rw [ht] at hout
    rw [Function.update_of_ne (by grind), Function.update_of_ne (by grind)]
  · rcases hL r' ys' hin hsome with ⟨rfl, rfl⟩ | ⟨rfl, rfl⟩
    · exact ⟨hring2, fun z hz => (ht z).2 (by grind)⟩
    · exact ⟨hring1, fun z hz => (ht z).2 (by grind)⟩
  · rcases hL r₁ ys₁ hin₁ h₁ with ⟨rfl, rfl⟩ | ⟨rfl, rfl⟩ <;> rcases hL r₂ ys₂ hin₂ h₂ with ⟨rfl, rfl⟩ | ⟨rfl, rfl⟩
    · exact hne rfl
    · grind
    · grind
    · exact hne rfl

end

/-! ## Rings by number -/

section
variable {ι : Type} {head : ι → α} {xs : ι → List α} {m : Links α}

open Classical in
/-- The lists `xs i` at the heads `head i`. -/
noncomputable def family (head : ι → α) (xs : ι → List α) : α → Option (List α) := fun r =>
  if h : ∃ i, head i = r then some (xs h.choose) else none

theorem family_head (hinj : Function.Injective head) (xs : ι → List α) (i : ι) : family head xs (head i) = some (xs i) := by
  have h : ∃ j, head j = head i := ⟨i, rfl⟩
  rw [family, dif_pos h, hinj h.choose_spec]

theorem family_eq_some (hinj : Function.Injective head) {r : α} {ys : List α} (h : family head xs r = some ys) :
    ∃ i, r = head i ∧ ys = xs i := by
  unfold family at h
  split at h
  · rename_i hr
    obtain ⟨i, rfl⟩ := hr
    have hi : ∃ j, head j = head i := ⟨i, rfl⟩
    rw [hinj hi.choose_spec] at h
    exact ⟨i, rfl, (Option.some.inj h).symm⟩
  · cases h

theorem update_family [DecidableEq α] [DecidableEq ι] (hinj : Function.Injective head) (i : ι) (ys : List α) :
    Function.update (family head xs) (head i) (some ys) = family head (Function.update xs i ys) := by
  funext r
  by_cases hr : ∃ j, head j = r
  · obtain ⟨j, rfl⟩ := hr
    rw [family_head hinj]
    by_cases hij : j = i
    · rw [hij, Function.update_self, Function.update_self]
    · rw [Function.update_of_ne (fun h => hij (hinj h)), Function.update_of_ne hij, family_head hinj]
  · have hne : r ≠ head i := fun h => hr ⟨i, h.symm⟩
    rw [Function.update_of_ne hne, family, family, dif_neg hr, dif_neg hr]

end

/-! ## Stores -/

section
variable [DecidableEq α] {m : Links α} {r e a b : α} {as bs init tl : List α}

def Links.setNext (m : Links α) (a b : α) : Links α := { m with next := Function.update m.next a b }
def Links.setPrev (m : Links α) (a b : α) : Links α := { m with prev := Function.update m.prev a b }

@[simp] theorem next_setNext (m : Links α) (a b x : α) : (m.setNext a b).next x = if x = a then b else m.next x := by
  simp [Links.setNext, Function.update_apply]

@[simp] theorem prev_setNext (m : Links α) (a b x : α) : (m.setNext a b).prev x = m.prev x := rfl

@[simp] theorem prev_setPrev (m : Links α) (a b x : α) : (m.setPrev a b).prev x = if x = a then b else m.prev x := by
  simp [Links.setPrev, Function.update_apply]

@[simp] theorem next_setPrev (m : Links α) (a b x : α) : (m.setPrev a b).next x = m.next x := rfl

end

end Ring
