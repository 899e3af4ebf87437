import Mathlib.Logic.Function.Basic
import RedMagic.Mm.Frames

/-!
# Page tables: `page_map`, `page_unmap`, `__virt_to_phys` (src/mm.c:298-346, include/paging.h)

| here | there |
| --- | --- |
| `Ram`        | physical memory by 32-bit words, each at its byte address; `written` are the words stored to, in order |
| `pageMap`    | `page_map`, i.e. `__page_map` (`mm.c:309-332`), `.error` = an `ASSERT` of `alloc_frame` that failed |
| `pageUnmap`  | `page_unmap`, i.e. `__page_unmap` (`mm.c:334-346`) |
| `virtToPhys` | `__virt_to_phys` (`paging.h:97-100`) |

`pdir` is the address of the directory. Page tables are reached at their physical addresses, and a NULL
table is address 0, as the code has it. The flush of the TLB entry is not modelled.
-/

namespace RedMagic.Paging

open Mm

/-! ## Words and indices (paging.h:27-48) -/

def pgdBase : Nat := 0x00100000
def pgdMax : Nat := 5

def pdeIndex (va : Nat) : Nat := (va >>> 22) &&& 0x3FF
def pteIndex (va : Nat) : Nat := (va >>> 12) &&& 0x3FF

def pagePresent : Nat := 0x1
def pageWrite : Nat := 0x2
def pageUser : Nat := 0x4

/-- `addr | PAGE_PRESENT | PAGE_WRITE | PAGE_USER`. -/
def entryOf (addr : Nat) : Nat := addr ||| pagePresent ||| pageWrite ||| pageUser

structure Ram where
  word : Nat → Nat
  written : List Nat

namespace Ram

def store (r : Ram) (a v : Nat) : Ram := ⟨Function.update r.word a v, r.written ++ [a]⟩

/-- `bzero(a, PAGE_SIZE)`, by words. -/
def bzero (r : Ram) (a : Nat) : Ram :=
  ⟨fun b => if a ≤ b ∧ b < a + pageSize then 0 else r.word b,
    r.written ++ (List.range (pageSize / 4)).map fun i => a + 4 * i⟩

@[simp] theorem store_word_self (r : Ram) (a v : Nat) : (r.store a v).word a = v := Function.update_self ..

theorem store_word_ne (r : Ram) {a b : Nat} (v : Nat) (h : b ≠ a) : (r.store a v).word b = r.word b :=
  Function.update_of_ne h ..

theorem bzero_word_in (r : Ram) {a b : Nat} (h1 : a ≤ b) (h2 : b < a + pageSize) : (r.bzero a).word b = 0 :=
  if_pos ⟨h1, h2⟩

theorem bzero_word_out (r : Ram) {a b : Nat} (h : b < a ∨ a + pageSize ≤ b) :
    (r.bzero a).word b = r.word b :=
  if_neg (by omega)

@[simp] theorem mem_written_store (r : Ram) (a v b : Nat) : b ∈ (r.store a v).written ↔ b ∈ r.written ∨ b = a := by
  simp [store]

@[simp] theorem mem_written_bzero (r : Ram) (a b : Nat) :
    b ∈ (r.bzero a).written ↔ b ∈ r.written ∨ ∃ i < 1024, b = a + 4 * i := by
  simp [bzero, pageSize, eq_comm]

end Ram

/-- Memory and the `mmc_t` that page tables are taken from. -/
structure PgSt where
  ram : Ram
  mmc : Mmc

/-! ## The calls -/

/-- `&pdir->tables[PDE_INDEX(va)]`. -/
def pdeAddr (pdir va : Nat) : Nat := pdir + 4 * pdeIndex va

/-- `&ptp->pages[PTE_INDEX(va)]`. -/
def pteAddr (ptp va : Nat) : Nat := ptp + 4 * pteIndex va

/-- The status and the state after the call. -/
def pageMap (pdir va pa : Nat) (s : PgSt) : Except String (Nat × PgSt) :=
  let pdep := pdeAddr pdir va
  if s.ram.word pdep = 0 then
    match allocFrame s.mmc with
    | .error e => .error e
    | .ok (p, mmc) =>
      let ptp := p.getD 0
      let ram := (s.ram.bzero ptp).store pdep (entryOf ptp)
      .ok (0, ⟨ram.store (pteAddr ptp va) (entryOf pa), mmc⟩)
  else
    let ptp := s.ram.word pdep &&& pageMask
    .ok (0, ⟨s.ram.store (pteAddr ptp va) (entryOf pa), s.mmc⟩)

def pageUnmap (pdir va : Nat) (s : PgSt) : Nat × PgSt :=
  let ptp := s.ram.word (pdeAddr pdir va) &&& pageMask
  (0, ⟨s.ram.store (pteAddr ptp va) 0, s.mmc⟩)

def virtToPhys (pdir : Nat) (ram : Ram) (va : Nat) : Nat :=
  let addr := ram.word (pdeAddr pdir va) &&& pageMask
  let addr := ram.word (pteAddr addr va) &&& pageMask
  addr ||| (va &&& 0xFFF)

/-! ## Words as numbers -/

theorem pdeIndex_eq (va : Nat) : pdeIndex va = va / pageSize / 1024 % 1024 := by
  rw [pdeIndex, Nat.shiftRight_eq_div_pow, show (0x3FF : Nat) = 2 ^ 10 - 1 by decide,
    Nat.and_two_pow_sub_one_eq_mod, Nat.div_div_eq_div_mul]
  rfl

theorem pteIndex_eq (va : Nat) : pteIndex va = va / pageSize % 1024 := by
  rw [pteIndex, Nat.shiftRight_eq_div_pow, show (0x3FF : Nat) = 2 ^ 10 - 1 by decide,
    Nat.and_two_pow_sub_one_eq_mod]
  rfl

theorem offset_eq (va : Nat) : va &&& 0xFFF = va % pageSize := Nat.and_two_pow_sub_one_eq_mod va 12

theorem pdeIndex_lt (va : Nat) : pdeIndex va < 1024 := by
  rw [pdeIndex_eq]
  omega

theorem pteIndex_lt (va : Nat) : pteIndex va < 1024 := by
  rw [pteIndex_eq]
  omega

theorem entryOf_eq {a : Nat} (ha : a % pageSize = 0) : entryOf a = a + 7 := by
  have h : entryOf a = a ||| 7 := by
    simp only [entryOf, pagePresent, pageWrite, pageUser, Nat.or_assoc]
    rfl
  rw [h, or_color ha (by decide)]

/-- The page an entry points to. -/
theorem entry_page {a : Nat} (ha : a % pageSize = 0) (hlt : a < 2 ^ 32) : a + 7 &&& pageMask = a := by
  rw [Nat.and_comm]
  refine page_add ha (by decide) ?_
  unfold pageSize at ha
  omega

end RedMagic.Paging
