import RedMagic.ListHead.Basic

/-!
# The lists of `list.h` are lists

Each call does on the links what it is for (`Op.Does.rings`), whatever other lists there are in the memory, so a memory
that calls have been made on holds the lists that the calls say, and every loop and test reads them from it (`lists_refine`).
-/

namespace RedMagic.ListHead

open Loop Mm Ring Sched Function

section
variable {m : Links Nat} {L : ByHead} {h new head list entry old : Nat} {ys as bs : List Nat}

/-! ## One call -/

theorem rings_rawListAdd {a b : Nat} {init tl : List Nat} (hm : Rings m L) (hh : L h = some (as ++ bs)) (hnew : Free L new)
    (ha : h :: as = init ++ [a]) (hb : bs ++ [h] = b :: tl) :
    Rings (rawListAdd m new a b) (update L h (some (as ++ new :: bs))) := by
  have hout := hnew h _ hh
  have hain : a ∈ h :: as := by simp [ha]
  have hbin : b ∈ bs ++ [h] := by simp [hb]
  have hna : new ≠ a := by grind
  have hnb : new ≠ b := by grind
  refine hm.insert hh hnew ha hb ⟨fun x hx => ?_, fun x hx => ?_⟩ ⟨?_, ?_⟩ ⟨?_, ?_⟩
  · simp only [List.mem_cons, List.not_mem_nil, or_false, not_or] at hx
    simp [rawListAdd, hx]
  · simp only [List.mem_cons, List.not_mem_nil, or_false, not_or] at hx
    simp [rawListAdd, hx]
  · simp [rawListAdd]
  · simp [rawListAdd]
  · simp [rawListAdd, hna]
  · simp [rawListAdd, hnb.symm]

theorem rings_listAdd (hm : Rings m L) (hh : L head = some ys) (hnew : Free L new) :
    Rings (listAdd m new head) (update L head (some (new :: ys))) := by
  obtain ⟨init, a, b, tl, -, hb⟩ := exists_ends head [] ys
  rw [listAdd, (hm.ring head ys hh).head_next hb]
  exact rings_rawListAdd hm (show L head = some ([] ++ ys) from hh) hnew (show [head] = [] ++ [head] from rfl) hb

theorem rings_listAddTail (hm : Rings m L) (hh : L head = some ys) (hnew : Free L new) :
    Rings (listAddTail m new head) (update L head (some (ys ++ [new]))) := by
  obtain ⟨init, a, b, tl, ha, -⟩ := exists_ends head ys []
  rw [listAddTail, (hm.ring head ys hh).head_prev ha]
  exact rings_rawListAdd hm (show L head = some (ys ++ []) by rwa [List.append_nil]) hnew ha (show [] ++ [head] = head :: [] from rfl)

/-- `__list_del_entry`, and what may be written into the entry after it. -/
theorem rings_listDelEntry (hm : Rings m L) (hh : L h = some (as ++ entry :: bs)) {m' : Links Nat}
    (hnext : ∀ x, x ≠ entry → m'.next x = (listDelEntry m entry).next x)
    (hprev : ∀ x, x ≠ entry → m'.prev x = (listDelEntry m entry).prev x) : Rings m' (update L h (some (as ++ bs))) := by
  have hring := hm.ring h _ hh
  obtain ⟨init, a, b, tl, ha, hb⟩ := exists_ends h as bs
  obtain ⟨hpe, hne⟩ := hring.neighbours ha hb
  have hnd := hring.nodup
  have hain : a ∈ h :: as := by simp [ha]
  have hbin : b ∈ bs ++ [h] := by simp [hb]
  have hae : a ≠ entry := by grind
  have hbe : b ≠ entry := by grind
  refine hm.remove hh ⟨fun x hx => ?_, fun x hx => ?_⟩ ⟨?_, ?_⟩
  · simp only [List.mem_cons, List.not_mem_nil, or_false, not_or] at hx
    simp [hnext x hx.2, listDelEntry, rawListDel, hx]
  · simp only [List.mem_cons, List.not_mem_nil, or_false, not_or] at hx
    simp [hprev x hx.2, listDelEntry, rawListDel, hx]
  · rw [hpe, hnext a hae]
    simp [listDelEntry, rawListDel, hpe]
  · rw [hne, hprev b hbe]
    simp [listDelEntry, rawListDel, hne]

theorem rings_initListHead (hm : Rings m L) (hlist : NoEntry L list) :
    Rings (initListHead m list) (update L list (some [])) := by
  refine hm.clear hlist ⟨fun x hx => ?_, fun x hx => ?_⟩ ⟨?_, ?_⟩
  · simp only [List.mem_singleton] at hx
    simp [initListHead, hx]
  · simp only [List.mem_singleton] at hx
    simp [initListHead, hx]
  · simp [initListHead]
  · simp [initListHead]

theorem Free.noEntry {e : Nat} (hf : Free L e) : NoEntry L e :=
  fun h ys hh hmem => hf h ys hh (List.mem_cons_of_mem _ hmem)

/-- What `list_replace` writes when `old` is not alone on its ring. -/
theorem writes_listReplace (m : Links Nat) (old new : Nat) (hself : m.next old ≠ old) (hprev : m.prev old ≠ new) (hnext : m.next old ≠ new) :
    Writes m (listReplace m old new) [m.prev old, new] [m.next old, new] ∧
      Linked (listReplace m old new) (m.prev old) new ∧ Linked (listReplace m old new) new (m.next old) := by
  refine ⟨⟨fun x hx => ?_, fun x hx => ?_⟩, ⟨?_, ?_⟩, ⟨?_, ?_⟩⟩
  · simp only [List.mem_cons, List.not_mem_nil, or_false, not_or] at hx
    simp [listReplace, hself.symm, hx]
  · simp only [List.mem_cons, List.not_mem_nil, or_false, not_or] at hx
    simp [listReplace, hx]
  · simp [listReplace, hself.symm]
  · simp [listReplace, hself.symm]
  · simp [listReplace, hself.symm, hprev.symm]
  · simp [listReplace, hnext]

theorem rings_listReplace {L' : ByHead} (hm : Rings m L) (hr : Replaces L L' old new) : Rings (listReplace m old new) L' := by
  obtain ⟨hnew, ⟨h, as, bs, hh, rfl⟩ | ⟨ys, hh, rfl⟩⟩ := hr
  · have hring := hm.ring h _ hh
    have hin : old ∈ h :: (as ++ old :: bs) := by simp
    have hout := hnew h _ hh
    have hprev := hring.prev_mem hin
    have hnext := hring.next_mem hin
    obtain ⟨init, a, b, tl, ha, hb⟩ := exists_ends h as bs
    have hbin : b ∈ bs ++ [h] := by simp [hb]
    have hnd := hring.nodup
    obtain ⟨hw, hl1, hl2⟩ := writes_listReplace m old new
      (by rw [(hring.neighbours ha hb).2]; grind) (by grind) (by grind)
    exact hm.replace hh hnew hw hl1 hl2
  · have hring := hm.ring old _ hh
    have hout := hnew old _ hh
    cases ys with
    | nil =>
      -- an empty list: the head of it is overwritten too
      have hself : m.next old = old := hring.next_nil
      have hne : old ≠ new := by grind
      have hfree : ∀ e ∈ [old, new], Free (update L old none) e := by
        intro e he h ys hh' hmem
        by_cases heq : h = old
        · simp [heq] at hh'
        · rw [update_of_ne heq] at hh'
          rcases List.mem_pair.1 he with rfl | rfl
          · exact hm.apart e h _ _ hh hh' (Ne.symm heq) e List.mem_cons_self hmem
          · exact hnew h ys hh' hmem
      have hw : Writes m (listReplace m old new) [new] [old, new] := by
        refine ⟨fun x hx => ?_, fun x hx => ?_⟩
        · simp only [List.mem_singleton] at hx
          simp [listReplace, hself, hx]
        · simp only [List.mem_cons, List.not_mem_nil, or_false, not_or] at hx
          simp [listReplace, hself, hx]
      refine (hm.forget old).edit_one (H := []) (E := [old, new]) hfree hw (fun x hx => .inl (List.mem_cons_of_mem _ hx)) (fun x hx => .inl hx) (fun h ht => ?_)
        (update_self ..) (isRing_iff.2 ⟨by simp, ?_⟩) nofun fun h ht hne' => ?_
      · rw [update_of_ne]
        rintro rfl
        exact ht (.inl (by simp))
      · simp [Linked, listReplace, hself]
      · rw [update_of_ne hne']
        rcases ht with he | ⟨_, hnil, -⟩
        · rw [(List.mem_pair.1 he).resolve_right hne', update_self]
        · cases hnil
    | cons y ys =>
      have hprev := hring.prev_mem List.mem_cons_self
      have hnext := hring.next_mem List.mem_cons_self
      have hy : m.next old = y := hring.next_cons
      have hnd := hring.nodup
      obtain ⟨hw, hl1, hl2⟩ := writes_listReplace m old new (by grind) (by grind) (by grind)
      exact hm.replace_head hh hnew hw hl1 hl2

/-- `list_replace` leaves `old` on no list. -/
theorem Replaces.noEntry {L' : ByHead} (hm : Rings m L) (hr : Replaces L L' old new) : NoEntry L' old := by
  obtain ⟨hnew, ⟨h, as, bs, hh, rfl⟩ | ⟨ys, hh, rfl⟩⟩ := hr
  · have hnd := (hm.ring h _ hh).nodup
    have hout := hnew h _ hh
    intro h' zs hh' hmem
    by_cases heq : h' = h
    · rw [heq, update_self] at hh'
      grind
    · rw [update_of_ne heq] at hh'
      exact hm.apart h h' _ zs hh hh' (Ne.symm heq) old (by simp) (List.mem_cons_of_mem _ hmem)
  · have hnd := (hm.ring old _ hh).nodup
    intro h' zs hh' hmem
    by_cases heq : h' = new
    · rw [heq, update_self] at hh'
      grind
    · rw [update_of_ne heq] at hh'
      by_cases heq' : h' = old
      · simp [heq'] at hh'
      · rw [update_of_ne heq'] at hh'
        exact hm.apart old h' _ zs hh hh' (Ne.symm heq') old List.mem_cons_self (List.mem_cons_of_mem _ hmem)

/-! ## Moves -/

theorem rings_moves {L' : ByHead} {put : List Nat → List Nat} {m' : Links Nat} (hm : Rings m L)
    (hput : ∀ L₁ ys, Rings (listDelEntry m list) L₁ → L₁ head = some ys → Free L₁ list → Rings m' (update L₁ head (some (put ys))))
    (hmv : Moves put L L' list head) : Rings m' L' := by
  obtain ⟨h, as, bs, ys, hh, hhead, rfl⟩ := hmv
  exact hput _ ys (rings_listDelEntry hm hh (fun _ _ => rfl) fun _ _ => rfl) hhead (hm.free_of_remove hh)

theorem listEmpty_iff (hm : Rings m L) (hh : L head = some ys) : listEmpty m head = true ↔ ys = [] := by
  rw [listEmpty, beq_iff_eq]
  cases ys with
  | nil => simp [(hm.ring head _ hh).next_nil]
  | cons y ys =>
    have hring := hm.ring head _ hh
    have hnd := hring.nodup
    rw [hring.next_cons]
    grind

theorem listIsSingular_iff (hm : Rings m L) (hh : L head = some ys) : listIsSingular m head = true ↔ ys.length = 1 := by
  have hring := hm.ring head _ hh
  have hempty := listEmpty_iff hm hh
  rw [listIsSingular, Bool.and_eq_true, Bool.not_eq_true', Bool.eq_false_iff, ne_eq, hempty, beq_iff_eq]
  match ys, hh, hring with
  | [], _, _ => simp
  | [y], _, hring =>
    have hnext : m.next head = y := hring.next_cons
    have hprev : m.prev head = y := hring.head_prev (show [head, y] = [head] ++ [y] from rfl)
    simp [hnext, hprev]
  | y :: z :: zs, _, hring =>
    obtain ⟨ini, l, hl⟩ : ∃ ini l, z :: zs = ini ++ [l] := ⟨_, _, (List.dropLast_append_getLast (by simp)).symm⟩
    have hnext : m.next head = y := hring.next_cons
    have hprev : m.prev head = l := hring.head_prev (show head :: y :: z :: zs = head :: y :: ini ++ [l] by rw [hl]; rfl)
    have hlin : l ∈ z :: zs := by simp [hl]
    have hyl : y ≠ l := by
      rintro rfl
      exact (List.nodup_cons.1 (List.nodup_cons.1 hring.nodup).2).1 hlin
    simp [hnext, hprev, hyl]

theorem rings_listRotateLeft (hm : Rings m L) (hh : L head = some ys) :
    Rings (listRotateLeft m head) (update L head (some (ys.drop 1 ++ ys.take 1))) := by
  have hempty := listEmpty_iff hm hh
  cases ys with
  | nil =>
    rw [listRotateLeft, hempty.2 rfl]
    show Rings m (update L head (some []))
    rwa [← hh, update_eq_self]
  | cons y ys =>
    have hfalse : listEmpty m head = false := by simpa using hempty
    have hy : m.next head = y := (hm.ring head _ hh).next_cons
    rw [listRotateLeft, hfalse, hy]
    have hmv : Moves (fun zs => zs ++ [y]) L (update (update L head (some ([] ++ ys))) head (some (ys ++ [y]))) y head :=
      ⟨head, [], ys, ys, hh, update_self .., rfl⟩
    have hrings : Rings (listMoveTail m y head) _ := rings_moves hm (fun L₁ zs hm₁ hh₁ hf => rings_listAddTail hm₁ hh₁ hf) hmv
    simpa using hrings

/-! ## Cuts and splices -/

theorem rings_listCutPosition (hm : Rings m L) (hh : L head = some (as ++ entry :: bs)) (hlist : NoEntry L list)
    (hne : list ≠ head) :
    Rings (listCutPosition m list head entry) (update (update L list (some (as ++ [entry]))) head (some bs)) := by
  have hring := hm.ring head _ hh
  have hnd := hring.nodup
  have hin : entry ∈ head :: (as ++ entry :: bs) := by simp
  have hout := hlist head _ hh
  -- the list that was at `list` is lost
  have hfree : Free (update L list none) list := by
    intro h ys hh' hmem
    by_cases heq : h = list
    · simp [heq] at hh'
    · rw [update_of_ne heq] at hh'
      exact (List.mem_cons.1 hmem).elim (fun h' => heq h'.symm) (hlist h ys hh')
  have hh' : update L list none head = some (as ++ entry :: bs) := by rw [update_of_ne hne.symm, hh]
  obtain ⟨x, xs, hx⟩ : ∃ x xs, as ++ [entry] = x :: xs := List.exists_cons_of_ne_nil (by simp)
  obtain ⟨init, a, b, tl, ha, hb⟩ := exists_ends head as bs
  have hfirst : m.next head = x := by
    rw [List.append_cons as, hx] at hring
    exact hring.next_cons
  have hnext : m.next entry = b := (hring.neighbours ha hb).2
  have hbin : b ∈ bs ++ [head] := by simp [hb]
  have hxin : x ∈ as ++ [entry] := by simp [hx]
  have hempty : listEmpty m head = false := by
    rw [Bool.eq_false_iff, ne_eq, listEmpty_iff hm hh]
    simp
  have hsingle : (listIsSingular m head && (m.next head != entry && head != entry)) = false := by
    -- a list of one element has no other entry
    rw [Bool.and_eq_false_iff, Bool.eq_false_iff, ne_eq, listIsSingular_iff hm hh]
    by_cases h1 : (as ++ entry :: bs).length = 1
    · right
      have has : as = [] := by
        rw [List.length_append, List.length_cons] at h1
        exact List.eq_nil_of_length_eq_zero (by omega)
      rw [has, List.nil_append] at hx
      simp [hfirst, (List.cons.inj hx).1]
    · exact .inl h1
  have hhe : entry ≠ head := by grind
  have hlx : list ≠ x := by grind
  have hle : list ≠ entry := by grind
  have hlb : list ≠ b := by grind
  have hxb : x ≠ b := by grind
  have hw : Writes m (rawListCutPosition m list head entry) [list, entry, head] [x, list, b] := by
    refine ⟨fun z hz => ?_, fun z hz => ?_⟩
    · simp only [List.mem_cons, List.not_mem_nil, or_false, not_or] at hz
      simp [rawListCutPosition, hz]
    · simp only [List.mem_cons, List.not_mem_nil, or_false, not_or] at hz
      simp [rawListCutPosition, hfirst, hnext, hz]
  have hhx : update L list none head = some (x :: xs ++ bs) := by rw [hh', ← hx, List.append_cons]
  have hcut := (hm.forget list).cut hhx hfree hx.symm hb hw ⟨?_, ?_⟩ ⟨?_, ?_⟩ ⟨?_, ?_⟩
  · rw [update_idem, ← hx] at hcut
    rw [listCutPosition, hempty, hsingle]
    simpa only [Bool.false_eq_true, if_false, if_neg hhe] using hcut
  · simp [rawListCutPosition, hfirst, hle, hne]
  · simp [rawListCutPosition, hfirst, hnext, hlx.symm, hxb]
  · simp [rawListCutPosition, hhe]
  · simp [rawListCutPosition, hnext, hlb]
  · simp [rawListCutPosition, hnext]
  · simp [rawListCutPosition, hnext]

theorem rings_rawListSplice {a b x : Nat} {xs init tl : List Nat} (hm : Rings m L) (hl : L list = some (x :: xs))
    (hh : L h = some (as ++ bs)) (hne : list ≠ h) (ha : h :: as = init ++ [a]) (hb : bs ++ [h] = b :: tl) :
    Rings (rawListSplice m list a b) (update (update L list none) h (some (as ++ x :: xs ++ bs))) := by
  have hring := hm.ring list _ hl
  have hapart := hm.apart list h _ _ hl hh hne
  obtain ⟨ini, y, hy⟩ : ∃ ini y, x :: xs = ini ++ [y] := ⟨_, _, (List.dropLast_append_getLast (by simp)).symm⟩
  have hfirst : m.next list = x := hring.next_cons
  have hlast : m.prev list = y := hring.head_prev (show list :: x :: xs = list :: ini ++ [y] by rw [hy]; rfl)
  have hain : a ∈ h :: as := by simp [ha]
  have hbin : b ∈ bs ++ [h] := by simp [hb]
  have hyin : y ∈ x :: xs := by simp [hy]
  have hay : a ≠ y := by grind
  have hxout := hapart x (by simp)
  have hxb : x ≠ b := by grind
  refine hm.splice hh hl hne hy ha hb ⟨fun z hz => ?_, fun z hz => ?_⟩ ⟨?_, ?_⟩ ⟨?_, ?_⟩
  · simp only [List.mem_cons, List.not_mem_nil, or_false, not_or] at hz
    simp [rawListSplice, hlast, hz]
  · simp only [List.mem_cons, List.not_mem_nil, or_false, not_or] at hz
    simp [rawListSplice, hfirst, hz]
  · simp [rawListSplice, hfirst, hlast, hay]
  · simp [rawListSplice, hfirst, hxb]
  · simp [rawListSplice, hlast]
  · simp [rawListSplice, hlast]

theorem rings_splice_head {xs : List Nat} (hm : Rings m L) (hl : L list = some xs) (hxs : xs ≠ []) (hh : L head = some ys)
    (hne : list ≠ head) :
    Rings (rawListSplice m list head (m.next head)) (update (update L list none) head (some (xs ++ ys))) := by
  obtain ⟨x, xs, rfl⟩ := List.exists_cons_of_ne_nil hxs
  obtain ⟨-, -, b, tl, -, hb⟩ := exists_ends head [] ys
  rw [(hm.ring head ys hh).head_next hb]
  exact rings_rawListSplice hm hl (show L head = some ([] ++ ys) from hh) hne (show [head] = [] ++ [head] from rfl) hb

theorem rings_splice_tail {xs : List Nat} (hm : Rings m L) (hl : L list = some xs) (hxs : xs ≠ []) (hh : L head = some ys)
    (hne : list ≠ head) :
    Rings (rawListSplice m list (m.prev head) head) (update (update L list none) head (some (ys ++ xs))) := by
  obtain ⟨x, xs, rfl⟩ := List.exists_cons_of_ne_nil hxs
  obtain ⟨init, a, -, -, ha, -⟩ := exists_ends head ys []
  rw [(hm.ring head ys hh).head_prev ha]
  have h := rings_rawListSplice hm hl (show L head = some (ys ++ []) by rwa [List.append_nil]) hne ha (show [] ++ [head] = head :: [] from rfl)
  rwa [List.append_nil] at h

/-- A splice of either kind; `m₁` is the memory after the splice and `m'` after what is done to the head of the empty list. -/
theorem rings_splices {L' : ByHead} {join : List Nat → List Nat → List Nat} {left : Option (List Nat)} {m₁ m' : Links Nat}
    (hm : Rings m L) (hs : Splices join left L L' list head) (hm' : m' = if !listEmpty m list then m₁ else m)
    (hjoin : ∀ xs ys, L list = some xs → xs ≠ [] → L head = some ys → list ≠ head →
      Rings m₁ (update (update (update L list none) head (some (join xs ys))) list left)) : Rings m' L' := by
  obtain ⟨xs, ys, hl, hh, hne, rfl⟩ := hs
  have hempty := listEmpty_iff hm hl
  by_cases hxs : xs = []
  · rw [hm', hempty.2 hxs, if_pos hxs]
    exact hm
  · have hfalse : listEmpty m list = false := by
      rw [Bool.eq_false_iff, ne_eq, hempty]
      exact hxs
    rw [hm', hfalse, if_neg hxs]
    exact hjoin xs ys hl hxs hh hne

/-- The head that `list_splice` leaves is on no list. -/
theorem noEntry_of_splice {xs zs : List Nat} (hm : Rings m L) (hl : L list = some xs) (hh : L head = some ys)
    (hne : list ≠ head) (hzs : ∀ z ∈ zs, z ∈ xs ∨ z ∈ ys) : NoEntry (update (update L list none) head (some zs)) list := by
  have hxs := (List.nodup_cons.1 (hm.ring list xs hl).nodup).1
  have hys : list ∉ ys := fun hmem =>
    hm.apart list head xs ys hl hh hne list List.mem_cons_self (List.mem_cons_of_mem _ hmem)
  intro h ws hh' hmem
  by_cases heq : h = head
  · rw [heq, update_self] at hh'
    obtain rfl := Option.some.inj hh'
    exact (hzs list hmem).elim hxs hys
  · rw [update_of_ne heq] at hh'
    by_cases heq' : h = list
    · simp [heq'] at hh'
    · rw [update_of_ne heq'] at hh'
      exact hm.apart list h xs ws hl hh' (Ne.symm heq') list List.mem_cons_self (List.mem_cons_of_mem _ hmem)

theorem update_left {zs : List Nat} (hne : list ≠ head) :
    update (update (update L list none) head (some zs)) list none = update (update L list none) head (some zs) := by
  rw [update_comm hne.symm, update_idem]

theorem rings_listDel (hm : Rings m L) (hh : L h = some (as ++ entry :: bs)) :
    Rings (listDel m entry) (update L h (some (as ++ bs))) := by
  refine rings_listDelEntry hm hh (fun x hx => ?_) fun x hx => ?_
  · simp [listDel, Links.join, listDelEntry, rawListDel, update_apply, hx]
  · simp [listDel, Links.join, listDelEntry, rawListDel, update_apply, hx]

/-- **Each call does what it is for**, and nothing to the other lists. -/
theorem Op.Does.rings {L' : ByHead} {op : Op} (hm : Rings m L) (hd : op.Does L L') : Rings (op.run m) L' := by
  cases op with
  | init list =>
    obtain ⟨hlist, rfl⟩ := hd
    exact rings_initListHead hm hlist
  | add new head =>
    obtain ⟨ys, hh, hnew, rfl⟩ := hd
    exact rings_listAdd hm hh hnew
  | addTail new head =>
    obtain ⟨ys, hh, hnew, rfl⟩ := hd
    exact rings_listAddTail hm hh hnew
  | del entry =>
    obtain ⟨h, as, bs, hh, rfl⟩ := hd
    exact rings_listDel hm hh
  | delInit entry =>
    obtain ⟨h, as, bs, hh, rfl⟩ := hd
    exact rings_initListHead (rings_listDelEntry hm hh (fun _ _ => rfl) fun _ _ => rfl) (Free.noEntry (hm.free_of_remove hh))
  | replace old new => exact rings_listReplace hm hd
  | replaceInit old new =>
    obtain ⟨L₁, hr, rfl⟩ := hd
    exact rings_initListHead (rings_listReplace hm hr) (hr.noEntry hm)
  | move list head => exact rings_moves hm (fun L₁ ys hm₁ hh hf => rings_listAdd hm₁ hh hf) hd
  | moveTail list head => exact rings_moves hm (fun L₁ ys hm₁ hh hf => rings_listAddTail hm₁ hh hf) hd
  | rotateLeft head =>
    obtain ⟨ys, hh, rfl⟩ := hd
    exact rings_listRotateLeft hm hh
  | cutPosition list head entry =>
    obtain ⟨ys, hh, hlist, ⟨rfl, rfl⟩ | ⟨hys, rfl, rfl⟩ | ⟨as, bs, rfl, hne, rfl⟩⟩ := hd
    · rwa [Op.run, listCutPosition, (listEmpty_iff hm hh).2 rfl]
    · have hempty : listEmpty m entry = false := by
        rw [Bool.eq_false_iff, ne_eq, listEmpty_iff hm hh]
        exact hys
      have hrun : listCutPosition m list entry entry = initListHead m list := by simp [listCutPosition, hempty]
      rw [Op.run, hrun]
      exact rings_initListHead hm hlist
    · exact rings_listCutPosition hm hh hlist hne
  | splice list head =>
    refine rings_splices hm hd rfl fun xs ys hl hxs hh hne => ?_
    rw [update_left hne]
    exact rings_splice_head hm hl hxs hh hne
  | spliceTail list head =>
    refine rings_splices hm hd rfl fun xs ys hl hxs hh hne => ?_
    rw [update_left hne]
    exact rings_splice_tail hm hl hxs hh hne
  | spliceInit list head =>
    refine rings_splices hm hd rfl fun xs ys hl hxs hh hne => ?_
    exact rings_initListHead (rings_splice_head hm hl hxs hh hne)
      (noEntry_of_splice hm hl hh hne fun z hz => List.mem_append.1 hz)
  | spliceTailInit list head =>
    refine rings_splices hm hd rfl fun xs ys hl hxs hh hne => ?_
    exact rings_initListHead (rings_splice_tail hm hl hxs hh hne)
      (noEntry_of_splice hm hl hh hne fun z hz => (List.mem_append.1 hz).symm)

/-! ## Loops -/

/-- A loop along one of the links visits the list. -/
theorem walk_eq {step : Nat → Nat} {n : Nat} (hstep : (head :: ys).map step = ys ++ [head]) (hout : head ∉ ys)
    (hn : ys.length < n) : walk step head n = some ys := by
  -- the induction is on the nodes that are left
  have hrest : ∀ bs as x n, (x :: bs).map step = bs ++ [head] → head ∉ bs → bs.length < n →
      loop (walkRound step head) n (step x, as) = some (as.reverse ++ bs) := by
    intro bs
    induction bs with
    | nil =>
      intro as x n hx _ hn
      obtain ⟨n, rfl⟩ := Nat.exists_eq_add_of_lt hn
      have hx : step x = head := by simpa using hx
      simp [loop, walkRound, hx]
    | cons b bs ih =>
      intro as x n hx hout hn
      obtain ⟨n, rfl⟩ : ∃ k, n = k + 1 := Nat.exists_eq_succ_of_ne_zero (by omega)
      rw [List.map_cons, List.cons_append] at hx
      obtain ⟨hxb, hx⟩ := List.cons.inj hx
      have hb : b ≠ head := fun heq => hout (heq ▸ List.mem_cons_self)
      have hwalk := ih (b :: as) b n hx (fun hmem => hout (List.mem_cons_of_mem _ hmem)) (by simpa using hn)
      simpa [loop, walkRound, hxb, hb] using hwalk
  exact hrest ys [] head n hstep hout hn

theorem entryAt_memberOf {off x : Nat} (h : x + off < 2 ^ 32) : entryAt off (memberOf off x) = x := by
  unfold entryAt memberOf u32
  omega

theorem memberOf_entryAt {off q : Nat} (hq : q < 2 ^ 32) (hoff : off ≤ 2 ^ 32) : memberOf off (entryAt off q) = q := by
  unfold entryAt memberOf u32
  rw [Nat.mod_add_mod, Nat.sub_add_cancel (Nat.le_trans hoff (Nat.le_add_left _ _)), Nat.add_mod_right, Nat.mod_eq_of_lt hq]

/-- `list_for_each_entry` is the loop over the entries. -/
theorem listForEachEntry_eq {σ ρ : Type} {off n : Nat} {xs : List Nat} (body : σ → Nat → σ ⊕ ρ) (s : σ) (hm : Rings m L)
    (hh : L head = some (xs.map (memberOf off))) (haddr : ∀ x ∈ xs, x + off < 2 ^ 32) (hhead : head < 2 ^ 32)
    (hoff : off ≤ 2 ^ 32) (hn : xs.length < n) : listForEachEntry m off head body s n = some (visit body xs s) := by
  have hring := hm.ring head _ hh
  -- the induction is on the entries that are left
  have hrest : ∀ bs s q n, (q :: bs.map (memberOf off)).map m.next = bs.map (memberOf off) ++ [head] →
      head ∉ bs.map (memberOf off) → (∀ x ∈ bs, x + off < 2 ^ 32) → bs.length < n →
      loop (entryRound m off head body) n (entryAt off (m.next q), s) = some (visit body bs s) := by
    intro bs
    induction bs with
    | nil =>
      intro s q n hq _ _ hn
      obtain ⟨n, rfl⟩ := Nat.exists_eq_add_of_lt hn
      have hq : m.next q = head := by simpa using hq
      rw [hq, loop, entryRound, if_pos (memberOf_entryAt hhead hoff), visit]
    | cons b bs ih =>
      intro s q n hq hout haddr hn
      obtain ⟨n, rfl⟩ : ∃ k, n = k + 1 := Nat.exists_eq_succ_of_ne_zero (by omega)
      simp only [List.map_cons, List.cons_append, List.mem_cons, not_or] at hq hout
      obtain ⟨hqb, hq⟩ := List.cons.inj hq
      rw [hqb, entryAt_memberOf (haddr b List.mem_cons_self), loop, entryRound, if_neg (Ne.symm hout.1), visit]
      cases body s b with
      | inl t => exact ih t _ n hq hout.2 (fun x hx => haddr x (List.mem_cons_of_mem _ hx)) (by simpa using hn)
      | inr r => rfl
  exact hrest xs s head n hring.next (List.nodup_cons.1 hring.nodup).1 haddr hn

theorem listFirstEntryOrNull_eq {off : Nat} {xs : List Nat} (hm : Rings m L) (hh : L head = some (xs.map (memberOf off)))
    (haddr : ∀ x ∈ xs, x + off < 2 ^ 32) : listFirstEntryOrNull m off head = xs.headD 0 := by
  have hempty := listEmpty_iff hm hh
  cases xs with
  | nil => simp [listFirstEntryOrNull, hempty.2 rfl]
  | cons x xs =>
    have hfalse : listEmpty m head = false := by simpa using hempty
    have hnext : m.next head = memberOf off x := (hm.ring head _ hh).next_cons
    simp [listFirstEntryOrNull, hfalse, hnext, entryAt_memberOf (haddr x List.mem_cons_self)]

/-- What the loops and tests of `list.h` read from the list of `head`. -/
structure Reads (m : Links Nat) (head : Nat) (ys : List Nat) : Prop where
  forEach : ∀ n, ys.length < n → listForEach m head n = some ys
  forEachPrev : ∀ n, ys.length < n → listForEachPrev m head n = some ys.reverse
  empty : listEmpty m head = ys.isEmpty
  emptyCareful : listEmptyCareful m head = ys.isEmpty
  isSingular : listIsSingular m head = (ys.length == 1)
  isLast : ∀ as e bs, ys = as ++ e :: bs → listIsLast m e head = bs.isEmpty

theorem reads (hm : Rings m L) (hh : L head = some ys) : Reads m head ys := by
  have hring := hm.ring head ys hh
  have hout := (List.nodup_cons.1 hring.nodup).1
  have hempty : listEmpty m head = ys.isEmpty := by
    rw [Bool.eq_iff_iff, listEmpty_iff hm hh, List.isEmpty_iff]
  constructor
  case forEach => exact fun n hn => walk_eq hring.next hout hn
  case forEachPrev =>
    intro n hn
    refine walk_eq ?_ (by simpa using hout) (by simpa using hn)
    have hprev := congrArg List.reverse hring.prev
    simpa using hprev
  case empty => exact hempty
  case emptyCareful =>
    rw [← hempty, listEmptyCareful, listEmpty]
    by_cases hself : m.next head = head
    · have hys := (listEmpty_iff hm hh).1 (by simpa [listEmpty] using hself)
      have hprev : m.prev head = head := hring.head_prev (show head :: ys = [] ++ [head] by rw [hys]; rfl)
      simp [hself, hprev]
    · simp [hself]
  case isSingular => rw [Bool.eq_iff_iff, listIsSingular_iff hm hh, beq_iff_eq]
  case isLast =>
    rintro as e bs rfl
    obtain ⟨init, a, b, tl, ha, hb⟩ := exists_ends head as bs
    rw [listIsLast, (hring.neighbours ha hb).2, Bool.eq_iff_iff, beq_iff_eq, List.isEmpty_iff]
    cases bs with
    | nil =>
      have hbh : b = head := (List.cons.inj hb).1.symm
      simp [hbh]
    | cons c cs =>
      have hbc : b = c := (List.cons.inj hb).1.symm
      have hch : c ≠ head := by
        rintro rfl
        exact hout (by simp)
      simp [hbc, hch]

/-- `list_for_each_safe` with a body that takes some of the nodes off the list. -/
theorem listForEachSafe_del {n : Nat} (p : Nat → Bool) (hm : Rings m L) (hh : L head = some ys) (hn : ys.length < n) :
    ∃ m', listForEachSafe (fun m e => if p e then listDel m e else m) m head n = some m' ∧
      Rings m' (update L head (some (ys.filter fun e => !p e))) := by
  -- `as` are the nodes that have been kept, `bs` those that are left
  have hrest : ∀ bs as (m : Links Nat) n, Rings m (update L head (some (as ++ bs))) → bs.length < n →
      ∀ b tl, bs ++ [head] = b :: tl →
      ∃ m', loop (safeRound (fun m e => if p e then listDel m e else m) head) n ⟨m, b, m.next b⟩ = some m' ∧
        Rings m' (update L head (some (as ++ bs.filter fun e => !p e))) := by
    intro bs
    induction bs with
    | nil =>
      intro as m n hm hn b tl hb
      obtain ⟨n, rfl⟩ := Nat.exists_eq_add_of_lt hn
      have hbh : b = head := (List.cons.inj hb).1.symm
      exact ⟨m, by simp [loop, safeRound, hbh], hm⟩
    | cons e bs ih =>
      intro as m n hm hn b tl hb
      obtain ⟨n, rfl⟩ : ∃ k, n = k + 1 := Nat.exists_eq_succ_of_ne_zero (by omega)
      have hn : bs.length < n := by simpa using hn
      obtain rfl : e = b := (List.cons.inj hb).1
      have hring := hm.ring head _ (update_self ..)
      have heh : e ≠ head := by
        rintro rfl
        exact (List.nodup_cons.1 hring.nodup).1 (by simp)
      obtain ⟨init, a, c, tl', ha, hc⟩ := exists_ends head as bs
      have hnext : m.next e = c := (hring.neighbours ha hc).2
      rw [loop, safeRound, if_neg heh, hnext]
      by_cases hp : p e = true
      · have hdel := rings_listDel hm (update_self ..)
        rw [update_idem] at hdel
        have := ih as _ n hdel hn c tl' hc
        simpa [hp] using this
      · have hkeep : Rings m (update L head (some (as ++ [e] ++ bs))) := by simpa using hm
        have := ih (as ++ [e]) m n hkeep hn c tl' hc
        simpa [hp] using this
  have hself : update L head (some ([] ++ ys)) = L := by rw [List.nil_append, ← hh, update_eq_self]
  obtain ⟨-, -, b, tl, -, hb⟩ := exists_ends head [] ys
  have := hrest ys [] m n (by rwa [hself]) hn b tl hb
  rw [listForEachSafe, (hm.ring head ys hh).head_next hb]
  simpa using this

end

/-! ## Lists by number -/

section
variable {ι : Type} [DecidableEq ι] {m : Links Nat} {head : ι → Nat} {xs : ι → List Nat} {i j : ι} {e : Nat}

theorem rings_family_move {as bs : List Nat} (hinj : Injective head) (hm : Rings m (family head xs)) (hx : xs i = as ++ e :: bs)
    (hij : i ≠ j) : Rings (listMove m e (head j)) (family head (update (update xs i (as ++ bs)) j (e :: xs j))) := by
  have hmv : Moves (fun ys => e :: ys) (family head xs)
      (update (update (family head xs) (head i) (some (as ++ bs))) (head j) (some (e :: xs j))) e (head j) := by
    refine ⟨head i, as, bs, xs j, by rw [family_head hinj, hx], ?_, rfl⟩
    rw [update_family hinj, family_head hinj, update_of_ne hij.symm]
  rw [← update_family hinj, ← update_family hinj]
  exact rings_moves hm (fun L₁ ys hm₁ hh hf => rings_listAdd hm₁ hh hf) hmv

theorem rings_family_add (hinj : Injective head) (hm : Rings m (family head xs)) (he : Free (family head xs) e) :
    Rings (listAdd m e (head i)) (family head (update xs i (e :: xs i))) := by
  rw [← update_family hinj]
  exact rings_listAdd hm (family_head hinj xs i) he

theorem rings_family_addTail (hinj : Injective head) (hm : Rings m (family head xs)) (he : Free (family head xs) e) :
    Rings (listAddTail m e (head i)) (family head (update xs i (xs i ++ [e]))) := by
  rw [← update_family hinj]
  exact rings_listAddTail hm (family_head hinj xs i) he

end

/-! ## Runs -/

/-- The calls `ops`, made one after the other, each as it is meant to be made, turn the lists `L` into `L'`. -/
inductive Runs : ByHead → List Op → ByHead → Prop where
  | nil (L : ByHead) : Runs L [] L
  | cons {L L₁ L' : ByHead} {op : Op} {ops : List Op} (h : op.Does L L₁) (hrest : Runs L₁ ops L') : Runs L (op :: ops) L'

theorem Runs.rings {m : Links Nat} {L L' : ByHead} {ops : List Op} (hrun : Runs L ops L') (hm : Rings m L) :
    Rings (ops.foldl Op.run m) L' := by
  induction hrun generalizing m with
  | nil L => exact hm
  | cons h _ ih => exact ih (h.rings hm)

/-- No lists at all. -/
def noLists : ByHead := fun _ => none

/-- **The lists of `list.h` are lists.** After any calls, on any number of lists in a memory that may hold anything before, every loop
and every test reads from each list head the list that the calls say, and a loop that deletes some of the nodes it visits leaves
the others, in their order. -/
theorem lists_refine (m : Links Nat) {ops : List Op} {L : ByHead} (hrun : Runs noLists ops L) {head : Nat} {ys : List Nat}
    (hh : L head = some ys) :
    Reads (ops.foldl Op.run m) head ys ∧ ∀ (p : Nat → Bool) (n : Nat), ys.length < n →
      ∃ m', listForEachSafe (fun m e => if p e then listDel m e else m) (ops.foldl Op.run m) head n = some m' ∧
        ∀ h zs, update L head (some (ys.filter fun e => !p e)) h = some zs → Reads m' h zs := by
  have hm : Rings (ops.foldl Op.run m) L := hrun.rings ⟨nofun, nofun⟩
  refine ⟨reads hm hh, fun p n hn => ?_⟩
  obtain ⟨m', hloop, hm'⟩ := listForEachSafe_del p hm hh hn
  exact ⟨m', hloop, fun h zs hz => reads hm' hz⟩

/-- Two lists; the first is spliced into the second. -/
theorem lists_refine_splice : ∃ L, Runs noLists [.init 1, .init 2, .add 10 1, .addTail 12 2, .splice 1 2] L ∧ L 1 = none ∧
    ∀ m, listForEach ([Op.init 1, .init 2, .add 10 1, .addTail 12 2, .splice 1 2].foldl Op.run m) 2 3 = some [10, 12] := by
  have hrun : Runs noLists [.init 1, .init 2, .add 10 1, .addTail 12 2, .splice 1 2] _ :=
    .cons ⟨nofun, rfl⟩ (.cons ⟨by grind [NoEntry, noLists], rfl⟩ (.cons ⟨[], rfl, by grind [Free, noLists], rfl⟩
      (.cons ⟨[], rfl, by grind [Free, noLists], rfl⟩ (.cons ⟨[10], [12], rfl, rfl, by decide, rfl⟩ (.nil _)))))
  exact ⟨_, hrun, rfl, fun m => (lists_refine m hrun rfl).1.forEach 3 (by decide)⟩

end RedMagic.ListHead
