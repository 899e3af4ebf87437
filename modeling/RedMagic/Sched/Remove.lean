import RedMagic.Heap.Basic
import RedMagic.Lib.Loop
import RedMagic.Lib.Ring
import RedMagic.Mm.Colour
import RedMagic.Sched.RunQueue

/-!
# `__remove_thread_from_rq` on the links (src/sched.c:316-343, include/list.h)

| here | there |
| --- | --- |
| `RqMem`    | the `list_head_t`s and `rthread_list_t`s in memory, one map for each field, the CPU's `rq_lock` and the kernel heap |
| `runqOf`, `entryOf` | `&entry->runq` and `list_entry`: `runq` is 12 bytes into a `rthread_list_t` |
| `listDel`  | `list_del` (`list.h:130-135`) |
| `findRound` | one round of `list_for_each_entry` in `find_thread_in_rq` (`sched.c:332-343`) |
| `removeThreadFromRq` | `__remove_thread_from_rq` (`sched.c:316-330`), with at most `n` rounds of that loop |

`RqRep m q es` says that the memory holds the queue `es` of `Sched/RunQueue.lean` behind the list head at `q`; the
loop on the links then ends at what `findThreadInRq` says (`find_refines`). On a queue without the thread this is
the list head, 12 bytes off, which `list_del` then takes out of the ring.
-/

namespace RedMagic.Sched

open Mm Heap Loop Ring

structure RqMem (τ : Type) where
  links : Links Nat
  threadp : Nat → Option τ
  rqLock : Bool
  heap : HeapDesc

def runqOffset : Nat := 12
def runqOf (entry : Nat) : Nat := u32 (entry + runqOffset)
def entryOf (node : Nat) : Nat := u32 (node + 2 ^ 32 - runqOffset)

def listPoison1 : Nat := 0xfffffff0
def listPoison2 : Nat := 0xfffffff1

def listDel (m : Links Nat) (e : Nat) : Links Nat :=
  let m := m.join (m.prev e) (m.next e)
  ⟨Function.update m.next e listPoison1, Function.update m.prev e listPoison2⟩

section
variable {τ : Type} [DecidableEq τ]

def findRound (m : RqMem τ) (threadp : Option τ) (q tmp : Nat) : Nat ⊕ Nat :=
  if runqOf tmp = q then .inr tmp
  else if m.threadp tmp = threadp then .inr tmp
  else .inl (entryOf (m.links.next (runqOf tmp)))

/-- The status and the memory after the call; `none` = it is still spinning on `rq_lock`, or in its loop. -/
def removeThreadFromRq (n q : Nat) (threadp : Option τ) (m : RqMem τ) : Option (Int × RqMem τ) :=
  if m.rqLock then none
  else
    let m := { m with rqLock := true }
    (loop (findRound m threadp q) n (entryOf (m.links.next q))).map fun entry =>
      if entry = 0 then (-1, m)
      else
        let r := kfree entry m.heap
        let m := { m with links := listDel m.links (runqOf entry), heap := r.2 }
        if r.1 ≠ 0 then (-2, m) else (0, { m with rqLock := false })

end

/-! ## The queue in memory -/

section
variable {τ : Type} {m m' : RqMem τ} {q : Nat} {es as bs : List (Entry τ)} {e : Entry τ}

def nodesOf (es : List (Entry τ)) : List Nat := es.map fun e => e.addr + runqOffset

structure RqRep (m : RqMem τ) (q : Nat) (es : List (Entry τ)) : Prop where
  ring : IsRing m.links q (nodesOf es)
  head : q < 2 ^ 32
  addr : ∀ e ∈ es, 0 < e.addr ∧ e.addr + runqOffset < 2 ^ 32
  threadp : ∀ e ∈ es, m.threadp e.addr = e.threadp

/-- The address of a cursor of `Sched/RunQueue.lean`. -/
def ptrAddr (q : Nat) : Ptr → Nat
  | .null => 0
  | .head => entryOf q
  | .entry a => a

theorem runqOf_entryOf {q : Nat} (h : q < 2 ^ 32) : runqOf (entryOf q) = q := by
  unfold runqOf entryOf runqOffset u32
  omega

theorem entryOf_add {a : Nat} (h : a + runqOffset < 2 ^ 32) : entryOf (a + runqOffset) = a := by
  unfold entryOf u32 runqOffset at *
  omega

theorem RqRep.runqOf (h : RqRep m q es) (he : e ∈ es) : runqOf e.addr = e.addr + runqOffset :=
  u32_of_lt (h.addr e he).2

/-- The cursor that a `next` link leads to. -/
theorem entryOf_next {x : Nat} (haddr : ∀ e ∈ bs, e.addr + runqOffset < 2 ^ 32)
    (hnext : (x :: nodesOf bs).map m.links.next = nodesOf bs ++ [q]) :
    entryOf (m.links.next x) = ptrAddr q (firstEntry bs) := by
  cases bs with
  | nil =>
    have hx : m.links.next x = q := by simpa [nodesOf] using hnext
    rw [hx]
    rfl
  | cons e bs =>
    have hx : m.links.next x = e.addr + runqOffset := by
      simp only [nodesOf, List.map_cons, List.cons_append, List.cons.injEq] at hnext
      exact hnext.1
    rw [hx]
    exact entryOf_add (haddr e List.mem_cons_self)

/-- `find_thread_in_rq` passes over the entries of other threads. -/
theorem findThreadInRq_append [DecidableEq τ] {t : Option τ} (has : ∀ a ∈ as, a.threadp ≠ t) :
    (findThreadInRq t (as ++ bs)).2 = (findThreadInRq t bs).2 := by
  induction as with
  | nil => rfl
  | cons a as ih =>
    have ha := has a List.mem_cons_self
    simp only [List.cons_append, findThreadInRq, if_neg ha]
    exact ih fun x hx => has x (List.mem_cons_of_mem _ hx)

/-- **The loop on the links** ends where the search on the list does. -/
theorem find_refines [DecidableEq τ] (h : RqRep m q es) (t : Option τ) {n : Nat} (hn : es.length < n) :
    loop (findRound m t q) n (entryOf (m.links.next q)) = some (ptrAddr q (findThreadInRq t es).2) := by
  -- the induction is on the entries that are left
  have hwalk : ∀ bs as, es = as ++ bs → ∀ n, bs.length < n →
      loop (findRound m t q) n (ptrAddr q (firstEntry bs)) = some (ptrAddr q (findThreadInRq t bs).2) := by
    intro bs
    induction bs with
    | nil =>
      intro as _ n hn
      obtain ⟨n, rfl⟩ : ∃ k, n = k + 1 := Nat.exists_eq_succ_of_ne_zero (Nat.ne_of_gt (Nat.zero_lt_of_lt hn))
      have hround : findRound m t q (ptrAddr q .head) = .inr (ptrAddr q .head) := if_pos (runqOf_entryOf h.head)
      show loop (findRound m t q) (n + 1) (ptrAddr q .head) = some (ptrAddr q .head)
      rw [loop, hround]
    | cons e bs ih =>
      intro as hes n hn
      obtain ⟨n, rfl⟩ : ∃ k, n = k + 1 := Nat.exists_eq_succ_of_ne_zero (Nat.ne_of_gt (Nat.zero_lt_of_lt hn))
      have he : e ∈ es := by simp [hes]
      have hring := h.ring
      rw [hes, nodesOf, List.map_append, List.map_cons] at hring
      have hne : e.addr + runqOffset ≠ q := by
        rintro rfl
        exact (List.nodup_cons.1 hring.nodup).1 (by simp)
      have hround : findRound m t q e.addr =
          if e.threadp = t then .inr e.addr else .inl (ptrAddr q (firstEntry bs)) := by
        have hcursor : entryOf (m.links.next (e.addr + runqOffset)) = ptrAddr q (firstEntry bs) :=
          entryOf_next (fun x hx => (h.addr x (by simp [hes, hx])).2) hring.next_split.2
        rw [findRound, h.runqOf he, if_neg hne, h.threadp e he, hcursor]
      rw [show ptrAddr q (firstEntry (e :: bs)) = e.addr from rfl, loop, hround, findThreadInRq]
      by_cases ht : e.threadp = t
      · rw [if_pos ht, if_pos ht]
        rfl
      · rw [if_neg ht, if_neg ht]
        exact ih (as ++ [e]) (by simp [hes]) n (Nat.lt_of_succ_lt_succ hn)
  rw [entryOf_next (fun x hx => (h.addr x hx).2) h.ring.next]
  exact hwalk es [] rfl n hn

/-- Deleting an entry takes its node out of the ring. -/
theorem RqRep.listDel (h : RqRep m q (as ++ e :: bs)) (hlinks : m'.links = listDel m.links (e.addr + runqOffset))
    (hthreadp : m'.threadp = m.threadp) : RqRep m' q (as ++ bs) := by
  have hring := h.ring
  rw [nodesOf, List.map_append, List.map_cons] at hring
  have hsub : ∀ x ∈ as ++ bs, x ∈ as ++ e :: bs := by
    intro x hx
    simp only [List.mem_append, List.mem_cons] at hx ⊢
    tauto
  -- the poisoned node is not on the ring any more
  have hout : ∀ x ∈ q :: nodesOf (as ++ bs), x ≠ e.addr + runqOffset := by
    rintro x hx rfl
    have hnd := hring.nodup
    rw [← List.cons_append, List.perm_middle.nodup_iff] at hnd
    exact (List.nodup_cons.1 hnd).1 (by simpa [nodesOf] using hx)
  refine ⟨?_, h.head, fun x hx => h.addr x (hsub x hx), fun x hx => ?_⟩
  · have hunlinked := hring.unlink
    rw [← List.map_append] at hunlinked
    rw [hlinks]
    refine hunlinked.congr ?_ ?_
    · intro x hx
      exact Function.update_of_ne (hout x hx) _ _
    · intro x hx
      exact Function.update_of_ne (hout x hx) _ _
  · rw [hthreadp]
    exact h.threadp x (hsub x hx)

end

theorem kfree_eq_zero_iff (p : Nat) (h : HeapDesc) : (kfree p h).1 = 0 ↔ ∃ k ∈ h.res, (h.blk k).base = p := by
  unfold kfree
  split
  · rename_i hnone
    simpa using hnone
  · rename_i found hfound
    simp only [true_iff]
    exact ⟨found, List.mem_of_find?_eq_some hfound, by simpa using List.find?_some hfound⟩

/-! ## Removing a thread -/

section
variable {τ : Type} [DecidableEq τ]

/-- What the call is to do: the thread's entry leaves the queue, and it alone, and is freed; without an entry
nothing changes; and the lock is free. -/
structure RemoveOk (m : RqMem τ) (q : Nat) (t : Option τ) (es : List (Entry τ)) (r : Int) (m' : RqMem τ) : Prop where
  present : (∃ e ∈ es, e.threadp = t) → r = 0 ∧ ∃ as e bs, es = as ++ e :: bs ∧ e.threadp = t ∧
    RqRep m' q (as ++ bs) ∧ kfree e.addr m.heap = (0, m'.heap)
  absent : (∀ e ∈ es, e.threadp ≠ t) → r ≠ 0 ∧ m'.links = m.links ∧ m'.heap = m.heap
  unlocked : m'.rqLock = false

/-- The call once the search has ended. -/
theorem removeThreadFromRq_eq {m : RqMem τ} {q n : Nat} {es : List (Entry τ)} (h : RqRep m q es)
    (hlock : m.rqLock = false) (t : Option τ) (hn : es.length < n) :
    removeThreadFromRq n q t m = some
      (let entry := ptrAddr q (findThreadInRq t es).2
      let r := kfree entry m.heap
      if entry = 0 then (-1, { m with rqLock := true })
      else if r.1 ≠ 0 then (-2, ⟨listDel m.links (runqOf entry), m.threadp, true, r.2⟩)
      else (0, ⟨listDel m.links (runqOf entry), m.threadp, false, r.2⟩)) := by
  have hfind := find_refines (m := { m with rqLock := true }) ⟨h.ring, h.head, h.addr, h.threadp⟩ t hn
  simp only [removeThreadFromRq, hlock, hfind, Option.map_some]
  rfl

/-- **Removing a thread.** On every run queue and for every thread: the call does what it is to do if, and only
if, the thread has an entry and its first one is a reserved block of the heap. -/
theorem remove_thread_iff (m : RqMem τ) (q : Nat) (es : List (Entry τ)) (h : RqRep m q es) (hlock : m.rqLock = false)
    (t : Option τ) (n : Nat) (hn : es.length < n) :
    (∃ r m', removeThreadFromRq n q t m = some (r, m') ∧ RemoveOk m q t es r m') ↔
      ∃ e, (es.find? fun e => e.threadp = t) = some e ∧ ∃ k ∈ m.heap.res, (m.heap.blk k).base = e.addr := by
  rw [removeThreadFromRq_eq h hlock t hn]
  cases hfind : es.find? fun e => e.threadp = t with
  | none =>
    -- the list head is deleted; what is returned with the lock free is 0
    have habsent : ∀ e ∈ es, e.threadp ≠ t := by simpa using hfind
    have hhead : (findThreadInRq t es).2 = .head := by
      have hend : (findThreadInRq t (es ++ [])).2 = .head := findThreadInRq_append habsent
      simpa using hend
    simp only [hhead, reduceCtorEq, false_and, exists_false, iff_false]
    rintro ⟨r, m', hcall, hok⟩
    have hunlocked := hok.unlocked
    have hne := (hok.absent habsent).1
    split at hcall
    · cases hcall
      cases hunlocked
    · split at hcall
      · cases hcall
        cases hunlocked
      · cases hcall
        exact hne rfl
  | some e =>
    obtain ⟨ht, as, bs, rfl, has⟩ := List.find?_eq_some_iff_append.1 hfind
    have ht : e.threadp = t := by simpa using ht
    have has : ∀ a ∈ as, a.threadp ≠ t := by simpa using has
    have he : e ∈ as ++ e :: bs := by simp
    have hentry : (findThreadInRq t (as ++ e :: bs)).2 = .entry e.addr := by
      rw [findThreadInRq_append has]
      simp [findThreadInRq, ht]
    have hnull : e.addr ≠ 0 := Nat.pos_iff_ne_zero.1 (h.addr e he).1
    simp only [hentry, ptrAddr, if_neg hnull, Option.some.injEq, exists_eq_left', ← kfree_eq_zero_iff]
    constructor
    · rintro ⟨r, m', hcall, hok⟩
      by_contra hfail
      rw [if_pos hfail] at hcall
      cases hcall
      cases hok.unlocked
    · intro hfree
      rw [if_neg (not_not_intro hfree)]
      refine ⟨_, _, rfl, fun _ => ⟨rfl, as, e, bs, rfl, ht, ?_, ?_⟩, fun hno => absurd ht (hno e he), rfl⟩
      · exact h.listDel (congrArg (Sched.listDel m.links) (h.runqOf he)) rfl
      · rw [← hfree]

end

/-- The queue of a CPU whose list head is at `0x100`: threads 7 and 8, with their entries on the heap. -/
def twoThreads : RqMem Nat where
  links :=
    { next := fun a => if a = 0x100 then 0x200c else if a = 0x200c then 0x2020 else 0x100
      prev := fun a => if a = 0x100 then 0x2020 else if a = 0x2020 then 0x200c else 0x100 }
  threadp := fun a => if a = 0x2000 then some 7 else some 8
  rqLock := false
  heap :=
    { start := 0x2000, endAddr := 0x2028, blk := fun n => if n = 0x1030 then ⟨0x2000, 0x14⟩ else ⟨0x2014, 0x14⟩,
      free := [], res := [0x1030, 0x1040], avail := [], pages := [0x1000] }

theorem twoThreads_rep : RqRep twoThreads 0x100 [⟨0x2000, some 7⟩, ⟨0x2014, some 8⟩] := by
  refine ⟨⟨by decide, by decide, by decide⟩, by decide, by decide, by decide⟩

/-- Thread 7 is removed, and the queue of thread 8 is left. -/
theorem remove_thread_iff_first :
    ∃ r m', removeThreadFromRq 3 0x100 (some 7) twoThreads = some (r, m') ∧
      RemoveOk twoThreads 0x100 (some 7) [⟨0x2000, some 7⟩, ⟨0x2014, some 8⟩] r m' :=
  (remove_thread_iff twoThreads 0x100 _ twoThreads_rep rfl (some 7) 3 (by decide)).2
    ⟨⟨0x2000, some 7⟩, by decide, 0x1030, by decide, by decide⟩

/-- Thread 9 is not on the queue: the list head is taken for its entry, taken out of the ring and poisoned, and
the call returns with the lock held. -/
theorem remove_absent_thread :
    (removeThreadFromRq 3 0x100 (some 9) twoThreads).map
        (fun r => (r.1, r.2.rqLock, r.2.links.next 0x100, r.2.links.next 0x2020)) =
      some (-2, true, listPoison1, 0x200c) := by
  decide +kernel

end RedMagic.Sched
