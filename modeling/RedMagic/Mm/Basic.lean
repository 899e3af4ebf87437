import Mathlib.Data.Nat.Bitwise
import RedMagic.Lib.Transition

/-!
# The frame table: `MM_PAGE_TABLE`, `alloc_frames`, `free_frames` (src/mm.c:403-592)

| here | there |
| --- | --- |
| `Mmc`           | `mmc_t` (`mm.h:20-33`) with the `_u32` words of its metadata pages as `table` |
| `mmPageTable`   | `MM_PAGE_TABLE`, i.e. `minit_pgtbl` (`mm.c:403-456`) |
| `findSeqPages`  | `find_seq_pages` (`mm.c:462-483`) |
| `findPageIndex` | `find_page_index` (`mm.c:485-496`) |
| `allocFrames`   | `alloc_frames` (`mm.c:498-547`), `.error` = the `ASSERT` that failed |
| `freeFrames`    | `free_frames` (`mm.c:554-592`) |

A `_u32 *` into the table is its index: `meta_base + i` is the word `table[i]`. The one place where
the address itself matters is the NULL test on a found entry, see `notNull`. Arithmetic is on
`Nat`, reduced modulo `2^32` wherever the C expression can wrap.
-/

namespace RedMagic.Mm

/-! ## Constants and macros (mm.h:8-16, 91-105) -/

def u32 (n : Nat) : Nat := n % 2 ^ 32

def pageSize : Nat := 0x1000

/-- `PAGE_MASK`: `~(PAGE_SIZE-1)` as a `_u32`. -/
def pageMask : Nat := 0xFFFFF000

def pageAlign (addr : Nat) : Nat := u32 (addr + pageSize - 1) &&& pageMask

def metaEntSize : Nat := 4
def metaEntNumPPg : Nat := pageSize / metaEntSize

def pgColorMask : Nat := 0xFF
def pgColor (x : Nat) : Nat := x &&& pgColorMask
def pgColorXor (a b : Nat) : Nat := a ^^^ b
def pgColorShift (a : Nat) : Nat := a % 3 + 1
def pgColorReset (a : Nat) : Nat := pageMask &&& a
def pgWhite : Nat := 0x00
def pgRed : Nat := 0x01

/-! ## `mmc_t` and its initialisation -/

structure Mmc where
  base : Nat
  length : Nat
  metaBase : Nat
  mframes : Nat
  metaLen : Nat
  frameBase : Nat
  nframes : Nat
  nfree : Nat
  /-- The words of the metadata pages, from `meta_base` on. -/
  table : List Nat
deriving DecidableEq, Repr

/-- The initialisation loop (`mm.c:443-450`): word `i` is written while `metap` is below the end of
the metadata pages; `basep` moves on only in the first branch, which is taken by a prefix. -/
def initTable (metaBase mpg metaLen frameBase : Nat) : List Nat :=
  (List.range ((u32 (metaBase + mpg * pageSize) - metaBase) / metaEntSize)).map fun i =>
    if metaBase + metaEntSize * i < u32 (metaBase + metaLen) then
      u32 (frameBase + pageSize * i) ||| pgWhite
    else 0

/-- `MM_PAGE_TABLE`; `none` = it returned 1 and left the `mmc_t` alone. -/
def mmPageTable (base length : Nat) : Except String (Option Mmc) :=
  let basep := pageAlign base
  let endp := u32 (base + length) &&& pageMask
  let pages := u32 (endp + 2 ^ 32 - basep) / pageSize
  if pages < 2 then .ok none
  else
    let npg := u32 (pages * metaEntNumPPg) / (metaEntNumPPg + 1)
    let mpg := pages - npg
    let metaLen := u32 (npg * metaEntSize)
    if u32 (mpg * metaEntNumPPg) < npg then
      .error "ASSERTION-FAILED: mpg * META_ENT_NUM_P_PG >= npg"
    else
      let frameBase := u32 (basep + mpg * pageSize)
      .ok (some
        { base := base, length := length, metaBase := basep, mframes := mpg, metaLen := metaLen,
          frameBase := frameBase, nframes := npg, nfree := npg,
          table := initTable basep mpg metaLen frameBase })

/-! ## Looking up entries -/

/-- `*(meta_base + i)`. -/
def Mmc.word (m : Mmc) (i : Nat) : Nat := m.table.getD i 0

/-- The entries the two search loops visit: `cp < meta_base + meta_len`. -/
def Mmc.entries (m : Mmc) : List Nat :=
  m.table.take ((u32 (m.metaBase + m.metaLen) - m.metaBase) / metaEntSize)

/-- The pointer to entry `i` is not NULL (it is for entry 0 of a table at address 0). -/
def Mmc.notNull (m : Mmc) (i : Nat) : Bool := u32 (m.metaBase + metaEntSize * i) != 0

/-- The loop of `find_seq_pages` from entry `i` on, with its `pp` and `seq_pages`. -/
def findSeqLoop (npages : Nat) : List Nat → Nat → Nat → Nat → Option Nat
  | [], _, _, _ => none
  | e :: es, i, pp, seq =>
    if pgColor e = pgWhite then
      let pp := if seq = 0 then i else pp
      if seq + 1 = npages then some pp else findSeqLoop npages es (i + 1) pp (seq + 1)
    else findSeqLoop npages es (i + 1) pp 0

def findSeqPages (m : Mmc) (npages : Nat) : Option Nat :=
  if npages ≤ m.nfree then findSeqLoop npages m.entries 0 0 0 else none

def findPageIndex (m : Mmc) (mp : Nat) : Option Nat :=
  m.entries.findIdx? fun e => pageMask &&& e == pageMask &&& mp

/-! ## `alloc_frames` -/

/-- The choice of the new block's colour (`mm.c:514-535`). -/
def chooseMarker (m : Mmc) (tp npages : Nat) : Except String Nat :=
  if tp = 0 ∧ tp + npages = m.nframes then .ok pgRed
  else if tp = 0 then .ok (pgColorShift (pgColor (m.word (tp + npages))))
  else if tp + npages = m.nframes then .ok (pgColorShift (pgColor (m.word (tp - 1))))
  else
    let right := pgColor (m.word (tp + npages))
    let left := pgColor (m.word (tp - 1))
    if left = pgWhite then .error "ASSERTION-FAILED: left != PG_WHITE"
    else if right = left ∨ right = pgWhite then .ok (pgColorShift left)
    else .ok (pgColorXor left right)

/-- Draw the colour on `k` pages from entry `i` on (`mm.c:538-541`). -/
def paint (marker : Nat) : Nat → Nat → List Nat → Except String (List Nat)
  | 0, _, t => .ok t
  | k + 1, i, t =>
    if pgColor (t.getD i 0) = pgWhite then paint marker k (i + 1) (t.set i (t.getD i 0 ||| marker))
    else .error "ASSERTION-FAILED: PGCOLOR(*(tp + n)) == PG_WHITE"

/-- `alloc_frames`: the returned pointer (`none` = NULL) and the `mmc_t` after the call. -/
def allocFrames (m : Mmc) (npages : Nat) : Except String (Option Nat × Mmc) :=
  match findSeqPages m npages with
  | none => .ok (none, m)
  | some tp =>
    if m.notNull tp then
      match chooseMarker m tp npages with
      | .error e => .error e
      | .ok marker =>
        match paint marker npages tp m.table with
        | .error e => .error e
        | .ok t => .ok (some (pageMask &&& t.getD tp 0), { m with table := t, nfree := m.nfree - npages })
    else .ok (none, m)

def allocFrame (m : Mmc) : Except String (Option Nat × Mmc) := allocFrames m 1

/-! ## `free_frames` -/

/-- `left` after the first loop (`mm.c:564-570`): the lowest entry down to which the colour is
`marker`, starting at entry `tp`. -/
def leftEdge (t : List Nat) (marker : Nat) : Nat → Nat
  | 0 => 0
  | i + 1 => if pgColor (t.getD i 0) = marker then leftEdge t marker i else i + 1

/-- `right` after the second loop (`mm.c:572-578`), with `k` entries left to visit. -/
def rightEdge (t : List Nat) (marker : Nat) : Nat → Nat → Nat → Nat
  | 0, _, edge => edge
  | k + 1, right, edge =>
    if pgColor (t.getD right 0) = marker then rightEdge t marker k (right + 1) right else edge

/-- `PGCOLOR_RESET` on `k` entries from `i` on (`mm.c:582-585`). -/
def whiten : Nat → Nat → List Nat → List Nat
  | 0, _, t => t
  | k + 1, i, t => whiten k (i + 1) (t.set i (pgColorReset (t.getD i 0)))

/-- `free_frames`: the status and the `mmc_t` after the call. The colour read through a NULL `tp`
(`mm.c:558`, before the test) is not used. -/
def freeFrames (m : Mmc) (mp : Nat) : Nat × Mmc :=
  match findPageIndex m mp with
  | none => (1, m)
  | some tp =>
    let marker := pgColor (m.word tp)
    if !m.notNull tp || marker == pgWhite then (1, m)
    else
      let left := leftEdge m.table marker tp
      let right := rightEdge m.table marker (m.nframes - tp) tp tp
      (0, { m with nfree := u32 (m.nfree + (right - left + 1)),
                   table := whiten (right - left + 1) left m.table })

end RedMagic.Mm
