import Mathlib.Data.List.Nodup

/-!
# Move to front

A history is a list of uses, the last one first. `recency` is the list that moving each used element to
the front builds from it: the elements in the order of their last uses.
-/

namespace RedMagic.Recency

variable {α : Type} [DecidableEq α] {h : List α} {a b : α}

def recency : List α → List α
  | [] => []
  | a :: h => a :: (recency h).erase a

theorem nodup_recency : ∀ h : List α, (recency h).Nodup
  | [] => List.nodup_nil
  | a :: h => List.nodup_cons.2 ⟨(nodup_recency h).not_mem_erase, (nodup_recency h).erase a⟩

theorem mem_recency : b ∈ recency h ↔ b ∈ h := by
  induction h with
  | nil => simp [recency]
  | cons a h ih =>
    rw [recency, List.mem_cons, List.mem_cons, (nodup_recency h).mem_erase_iff, ih]
    by_cases hb : b = a
    · simp [hb]
    · simp [hb]

/-- The further back in the list, the longer ago the last use. -/
theorem pairwise_recency : ∀ h : List α, (recency h).Pairwise fun a b => h.idxOf a < h.idxOf b
  | [] => List.Pairwise.nil
  | a :: h => by
    have hne : ∀ b ∈ (recency h).erase a, a ≠ b := fun b hb => ((nodup_recency h).mem_erase_iff.1 hb).1.symm
    refine List.pairwise_cons.2 ⟨fun b hb => ?_, ?_⟩
    · rw [List.idxOf_cons_self, List.idxOf_cons_ne h (hne b hb)]
      exact Nat.succ_pos _
    · refine ((pairwise_recency h).erase a).imp_of_mem fun hb hc hlt => ?_
      rw [List.idxOf_cons_ne h (hne _ hb), List.idxOf_cons_ne h (hne _ hc)]
      exact Nat.succ_lt_succ hlt

/-- A use of an element of the list, in a list with elements that were never used behind. -/
theorem moveToFront_old {fresh : List α} (ha : a ∈ h) :
    a :: (recency h ++ fresh).erase a = recency (a :: h) ++ fresh := by
  rw [List.erase_append_left fresh (mem_recency.2 ha), recency, List.cons_append]

theorem moveToFront_new {fresh : List α} (ha : a ∉ h) :
    a :: (recency h ++ fresh).erase a = recency (a :: h) ++ fresh.erase a := by
  have ha' : a ∉ recency h := fun hm => ha (mem_recency.1 hm)
  rw [List.erase_append_right fresh ha', recency, List.erase_of_not_mem ha', List.cons_append]

section
variable {p : α → Bool} {fresh : List α}

/-- Looking from the back, elements that were never used come first. -/
theorem find_fresh (hp : ∀ x ∈ fresh, p x = true) (hne : fresh ≠ [])
    (hfind : (recency h ++ fresh).reverse.find? p = some b) : b ∈ fresh := by
  have hne' : fresh.reverse ≠ [] := fun hr => hne (List.reverse_eq_nil_iff.1 hr)
  obtain ⟨x, xs, hx⟩ := List.exists_cons_of_ne_nil hne'
  have hxf : x ∈ fresh := List.mem_reverse.1 (hx ▸ List.mem_cons_self ..)
  rw [List.reverse_append, hx, List.cons_append, List.find?_cons_of_pos (hp x hxf), Option.some.injEq] at hfind
  exact hfind ▸ hxf

/-- Looking from the back, the one that is found was used the longest ago. -/
theorem find_oldest (hfind : (recency h).reverse.find? p = some b) {c : α} (hc : c ∈ h) (hp : p c = true)
    (hne : c ≠ b) : h.idxOf c < h.idxOf b := by
  obtain ⟨-, as, bs, hsplit, has⟩ := List.find?_eq_some_iff_append.1 hfind
  have hlist : recency h = bs.reverse ++ b :: as.reverse := by
    rw [← List.reverse_reverse (recency h), hsplit]
    simp
  have hcl : c ∈ bs.reverse := by
    have hmem : c ∈ recency h := mem_recency.2 hc
    rw [hlist, List.mem_append, List.mem_cons, List.mem_reverse, List.mem_reverse] at hmem
    rcases hmem with hmem | hmem | hmem
    · exact List.mem_reverse.2 hmem
    · exact absurd hmem hne
    · have hno := has c hmem
      rw [hp] at hno
      cases hno
  have hpair := pairwise_recency h
  rw [hlist] at hpair
  exact (List.pairwise_append.1 hpair).2.2 c hcl b (List.mem_cons_self ..)

end

end RedMagic.Recency
