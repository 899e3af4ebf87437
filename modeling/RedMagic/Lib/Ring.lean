import Mathlib.Data.List.Nodup
import Mathlib.Logic.Function.Basic

/-!
# Rings of doubly linked nodes

`IsRing m r ys`: from the node `r` the `next` links lead through the nodes `ys`, in this order, and back to `r`, and
the `prev` links lead back. A ring says of each node what its neighbours are (`IsRing.next_split`,
`IsRing.prev_split`); taking a node out is a write to either neighbour (`IsRing.unlink`), and a write to a node
that is not on the ring does not matter (`IsRing.congr`).
-/

namespace Ring

structure Links (α : Type) where
  next : α → α
  prev : α → α

structure IsRing {α : Type} (m : Links α) (r : α) (ys : List α) : Prop where
  nodup : (r :: ys).Nodup
  next : (r :: ys).map m.next = ys ++ [r]
  prev : (ys ++ [r]).map m.prev = r :: ys

section
variable {α : Type} {m m' : Links α} {r e : α} {ys as bs : List α}

theorem IsRing.congr (h : IsRing m r ys) (hnext : ∀ a ∈ r :: ys, m'.next a = m.next a)
    (hprev : ∀ a ∈ r :: ys, m'.prev a = m.prev a) : IsRing m' r ys := by
  refine ⟨h.nodup, ?_, ?_⟩
  · rw [← h.next]
    exact List.map_congr_left hnext
  · rw [← h.prev]
    refine List.map_congr_left fun a ha => hprev a ?_
    simpa [or_comm] using ha

/-- The `next` links up to the node `e` and from it on. -/
theorem IsRing.next_split (h : IsRing m r (as ++ e :: bs)) :
    (r :: as).map m.next = as ++ [e] ∧ (e :: bs).map m.next = bs ++ [r] := by
  have hnext := h.next
  rw [← List.cons_append, List.map_append, List.append_assoc, List.cons_append, List.append_cons as] at hnext
  exact List.append_inj hnext (by simp)

theorem IsRing.prev_split (h : IsRing m r (as ++ e :: bs)) :
    (as ++ [e]).map m.prev = r :: as ∧ (bs ++ [r]).map m.prev = e :: bs := by
  have hprev := h.prev
  rw [List.append_assoc, List.cons_append, List.append_cons, List.map_append, ← List.cons_append] at hprev
  exact List.append_inj hprev (by simp)

end

section
variable {α : Type} [DecidableEq α] {m : Links α} {r e : α} {as bs : List α}

/-- `a` and `b` become neighbours. -/
def Links.join (m : Links α) (a b : α) : Links α := ⟨Function.update m.next a b, Function.update m.prev b a⟩

theorem map_update_of_not_mem {β : Type} {f : α → β} {a : α} {v : β} {l : List α} (h : a ∉ l) :
    l.map (Function.update f a v) = l.map f := by
  refine List.map_congr_left fun x hx => Function.update_of_ne ?_ _ _
  rintro rfl
  exact h hx

/-- The neighbours of a node become neighbours: the node is taken out. -/
theorem IsRing.unlink (h : IsRing m r (as ++ e :: bs)) : IsRing (m.join (m.prev e) (m.next e)) r (as ++ bs) := by
  obtain ⟨hn1, hn2⟩ := h.next_split
  obtain ⟨hp1, hp2⟩ := h.prev_split
  have hnd : (r :: (as ++ bs)).Nodup := by
    refine h.nodup.sublist (List.Sublist.cons_cons r ?_)
    exact (List.sublist_cons_self e bs).append_left as
  -- the node before `e` and the node after it
  obtain ⟨init, a, hinit⟩ : ∃ init a, r :: as = init ++ [a] :=
    ⟨_, _, (List.dropLast_append_getLast (by simp)).symm⟩
  obtain ⟨b, tl, htl⟩ : ∃ b tl, bs ++ [r] = b :: tl := List.exists_cons_of_ne_nil (by simp)
  rw [hinit, List.map_append] at hn1
  rw [hinit, List.map_append] at hp1
  rw [htl, List.map_cons] at hn2 hp2
  obtain ⟨hni, -⟩ := List.append_inj' hn1 rfl
  obtain ⟨hpi, hpe⟩ := List.append_inj' hp1 rfl
  obtain ⟨hne, hnb⟩ := List.cons.inj hn2
  obtain ⟨-, hpb⟩ := List.cons.inj hp2
  obtain rfl : m.prev e = a := by simpa using hpe
  obtain rfl : m.next e = b := hne
  have hleft : (init ++ [m.prev e] ++ bs).Nodup := by
    rw [← hinit]
    exact hnd
  have hright : (as ++ (m.next e :: tl)).Nodup := by
    rw [← htl, ← List.append_assoc]
    exact (List.perm_append_singleton r (as ++ bs)).nodup_iff.2 hnd
  obtain ⟨hleft1, -, hleft2⟩ := List.nodup_append.1 hleft
  obtain ⟨-, hright1, hright2⟩ := List.nodup_append.1 hright
  refine ⟨hnd, ?_, ?_⟩
  · have hai : m.prev e ∉ init := fun hmem => (List.nodup_append.1 hleft1).2.2 _ hmem _ (by simp) rfl
    have hab : m.prev e ∉ bs := fun hmem => hleft2 _ (by simp) _ hmem rfl
    rw [← List.cons_append, hinit, List.append_assoc as, htl]
    simp [Links.join, map_update_of_not_mem hai, map_update_of_not_mem hab, hni, hnb]
  · have hba : m.next e ∉ as := fun hmem => hright2 _ hmem _ List.mem_cons_self rfl
    have hbt : m.next e ∉ tl := (List.nodup_cons.1 hright1).1
    rw [List.append_assoc, htl, ← List.cons_append, hinit]
    simp [Links.join, map_update_of_not_mem hba, map_update_of_not_mem hbt, hpi, hpb]

end

end Ring
