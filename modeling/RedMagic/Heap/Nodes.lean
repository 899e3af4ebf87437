import Mathlib.Data.List.Perm.Basic
import Mathlib.Data.List.Perm.Subperm
import Mathlib.Data.List.Count
import RedMagic.Heap.Basic
import RedMagic.Mm.Colour

/-!
# The nodes of the metadata pages

Every `heap_block_t` of a metadata page but the three list heads is on one of the lists `free`, `res`
and `avail`. `pageNodes` lists those nodes; the heap calls only move nodes between the lists, so the
three lists together stay a permutation of it (`perm_free_res` and its companions).
-/

namespace RedMagic.Heap

open Mm

def hblkNumPPg : Nat := pageSize / hblkSize

/-- The nodes of the metadata pages; the oldest page, which starts with the three heads, is last. -/
def pageNodes : List Nat → List Nat
  | [] => []
  | [pg] => nodesFrom pg (pg + hblkSize * 3)
  | pg :: pg' :: pgs => nodesFrom pg pg ++ pageNodes (pg' :: pgs)

/-- `n` is the address of a node of a metadata page, and not of a list head. -/
def MetaNode (pages : List Nat) (n : Nat) : Prop :=
  ∃ pg ∈ pages, ∃ i < hblkNumPPg, n = pg + hblkSize * i ∧ (pages.getLast? = some pg → 3 ≤ i)

/-- The pages are distinct whole pages that end below the top of the address space. -/
structure PagesOk (pages : List Nat) : Prop where
  nodup : pages.Nodup
  aligned : ∀ pg ∈ pages, pg % pageSize = 0
  fits : ∀ pg ∈ pages, pg + pageSize < 2 ^ 32

theorem PagesOk.tail {pg : Nat} {pages : List Nat} (h : PagesOk (pg :: pages)) : PagesOk pages :=
  ⟨(List.nodup_cons.1 h.nodup).2, fun q hq => h.aligned q (by simp [hq]),
    fun q hq => h.fits q (by simp [hq])⟩

theorem nodesFrom_eq {pg k : Nat} (hfit : pg + pageSize < 2 ^ 32) :
    nodesFrom pg (pg + hblkSize * k) = List.range' (pg + hblkSize * k) (hblkNumPPg - k) hblkSize := by
  rw [nodesFrom, u32_of_lt hfit]
  congr 1
  unfold hblkNumPPg pageSize hblkSize
  omega

theorem mem_nodesFrom {pg k n : Nat} (hfit : pg + pageSize < 2 ^ 32) :
    n ∈ nodesFrom pg (pg + hblkSize * k) ↔ ∃ i, k ≤ i ∧ i < hblkNumPPg ∧ n = pg + hblkSize * i := by
  rw [nodesFrom_eq hfit, List.mem_range']
  constructor
  · rintro ⟨i, hi, rfl⟩
    exact ⟨k + i, by omega, by omega, by rw [Nat.mul_add, Nat.add_assoc]⟩
  · rintro ⟨i, hk, hi, rfl⟩
    exact ⟨i - k, by omega, by rw [Nat.add_assoc, ← Nat.mul_add]; congr 2; omega⟩

theorem nodup_nodesFrom {pg k : Nat} (hfit : pg + pageSize < 2 ^ 32) :
    (nodesFrom pg (pg + hblkSize * k)).Nodup := by
  rw [nodesFrom_eq hfit]
  exact List.nodup_range' hblkSize (by decide)

/-- The nodes of a page lie in the page. -/
theorem nodesFrom_inside {pg k n : Nat} (hfit : pg + pageSize < 2 ^ 32)
    (h : n ∈ nodesFrom pg (pg + hblkSize * k)) : pg ≤ n ∧ n < pg + pageSize := by
  obtain ⟨i, -, hi, rfl⟩ := (mem_nodesFrom hfit).1 h
  unfold hblkNumPPg pageSize hblkSize at *
  omega

theorem pageNodes_inside : ∀ {pages : List Nat} {n : Nat}, PagesOk pages → n ∈ pageNodes pages →
    ∃ pg ∈ pages, pg ≤ n ∧ n < pg + pageSize
  | [], _, _, h => by simp [pageNodes] at h
  | [pg], n, hok, h => ⟨pg, by simp, nodesFrom_inside (k := 3) (hok.fits pg (by simp)) h⟩
  | pg :: pg' :: pgs, n, hok, h => by
    rcases List.mem_append.1 h with h | h
    · exact ⟨pg, by simp, nodesFrom_inside (k := 0) (hok.fits pg (by simp)) h⟩
    · obtain ⟨q, hq, hin⟩ := pageNodes_inside hok.tail h
      exact ⟨q, List.mem_cons_of_mem _ hq, hin⟩

/-- Two pages that share an address are one page. -/
theorem page_eq {pg q n : Nat} (h1 : pg % pageSize = 0) (h2 : q % pageSize = 0)
    (hp : pg ≤ n ∧ n < pg + pageSize) (hq : q ≤ n ∧ n < q + pageSize) : pg = q := by
  unfold pageSize at *
  omega

theorem nodup_pageNodes : ∀ {pages : List Nat}, PagesOk pages → (pageNodes pages).Nodup
  | [], _ => List.nodup_nil
  | [pg], hok => nodup_nodesFrom (k := 3) (hok.fits pg (by simp))
  | pg :: pg' :: pgs, hok => by
    have hfit := hok.fits pg (by simp)
    refine List.nodup_append.2 ⟨nodup_nodesFrom (k := 0) hfit, nodup_pageNodes hok.tail, ?_⟩
    intro n hn m hm heq
    subst heq
    obtain ⟨q, hq, hin⟩ := pageNodes_inside hok.tail hm
    have := page_eq (hok.aligned pg (by simp)) (hok.aligned q (by simp [hq]))
      (nodesFrom_inside (k := 0) hfit hn) hin
    exact (List.nodup_cons.1 hok.nodup).1 (this ▸ hq)

theorem mem_pageNodes : ∀ {pages : List Nat} {n : Nat}, PagesOk pages →
    (n ∈ pageNodes pages ↔ MetaNode pages n)
  | [], n, _ => by simp [pageNodes, MetaNode]
  | [pg], n, hok => by
    rw [pageNodes, mem_nodesFrom (hok.fits pg (by simp))]
    simp only [MetaNode, List.mem_singleton, exists_eq_left, List.getLast?_singleton, true_imp_iff]
    constructor
    · rintro ⟨i, h3, hi, rfl⟩; exact ⟨i, hi, rfl, h3⟩
    · rintro ⟨i, hi, rfl, h3⟩; exact ⟨i, h3, hi, rfl⟩
  | pg :: pg' :: pgs, n, hok => by
    have hlast : (pg :: pg' :: pgs).getLast? = (pg' :: pgs).getLast? := List.getLast?_cons_cons
    have hne : (pg' :: pgs).getLast? ≠ some pg := by
      intro h
      exact (List.nodup_cons.1 hok.nodup).1 (List.mem_of_getLast? h)
    have hhead : n ∈ nodesFrom pg pg ↔ _ := mem_nodesFrom (k := 0) (hok.fits pg (by simp))
    rw [pageNodes, List.mem_append, mem_pageNodes hok.tail, hhead]
    simp only [MetaNode, hlast]
    constructor
    · rintro (⟨i, -, hi, rfl⟩ | ⟨q, hq, i, hi, rfl, h3⟩)
      · exact ⟨pg, by simp, i, hi, rfl, fun h => absurd h hne⟩
      · exact ⟨q, List.mem_cons_of_mem _ hq, i, hi, rfl, h3⟩
    · rintro ⟨q, hq, i, hi, rfl, h3⟩
      rcases List.mem_cons.1 hq with rfl | hq
      · exact .inl ⟨i, Nat.zero_le _, hi, rfl⟩
      · exact .inr ⟨q, hq, i, hi, rfl, h3⟩

/-! ## Moving a node between the three lists -/

section
variable {l r t : List Nat} {x : Nat}

theorem perm_free_res (hx : x ∈ l) : (l.erase x ++ (x :: r) ++ t).Perm (l ++ r ++ t) := by
  refine List.Perm.append_right t ?_
  exact List.perm_middle.trans ((List.perm_cons_erase hx).symm.append_right r)

theorem perm_res_free (hx : x ∈ r) : ((x :: l) ++ r.erase x ++ t).Perm (l ++ r ++ t) := by
  refine List.Perm.append_right t ?_
  exact (List.perm_middle.symm).trans ((List.perm_cons_erase hx).symm.append_left l)

theorem perm_free_avail (hx : x ∈ l) : (l.erase x ++ r ++ (x :: t)).Perm (l ++ r ++ t) := by
  refine List.perm_middle.trans ?_
  rw [← List.cons_append, ← List.cons_append]
  exact ((List.perm_cons_erase hx).symm.append_right r).append_right t

theorem perm_avail_res (hx : x ∈ t) : (l ++ (x :: r) ++ t.erase x).Perm (l ++ r ++ t) := by
  rw [List.append_assoc, List.append_assoc]
  refine List.Perm.append_left l ?_
  exact List.perm_middle.symm.trans ((List.perm_cons_erase hx).symm.append_left r)

end

end RedMagic.Heap
