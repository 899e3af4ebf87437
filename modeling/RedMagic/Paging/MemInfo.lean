import RedMagic.Lib.Loop
import RedMagic.Mm.Colour
import RedMagic.Paging.Init

/-!
# The copy of the memory map (src/mm.c:49-81)

| here | there |
| --- | --- |
| `AddrRange` | `addr_range_t` (`mm.h:45-54`); `init_paging` does not read its `size` |
| `MemInfo`   | `mem_info_t` (`mm.h:59-64`), with the stores into `mmap_entries` in their order |
| `copyRound`, `getMemInfoFromMultiboot` | the loop (`mm.c:66-77`) and the function |

The assertion compares a number of entries with a length in bytes, the wrong way round: it fails for the empty map only.
`mem_total` and `mem_avail` are not set before the loop; what they hold then is a parameter.
-/

namespace RedMagic.Paging

open Mm Loop

structure AddrRange extends Ards where
  size : Nat
deriving DecidableEq, Repr

/-- `sizeof(addr_range_t)`. -/
def addrRangeSize : Nat := 24

def maxArdsEnt : Nat := 10

/-- The range at an address. -/
def addrRangeAt (m : Nat → UInt32) (a : Nat) : AddrRange where
  size := (m a).toNat
  baseAddrLow := (m (u32 (a + 4))).toNat
  baseAddrHigh := (m (u32 (a + 8))).toNat
  lengthLow := (m (u32 (a + 12))).toNat
  lengthHigh := (m (u32 (a + 16))).toNat
  type := (m (u32 (a + 20))).toNat

structure MemInfo where
  totalMemory : Nat
  availMemory : Nat
  mmapLength : Nat
  /-- What is stored into `mmap_entries`, with the index. -/
  stores : List (AddrRange × Nat)
deriving DecidableEq, Repr

inductive Outcome where
  | panics
  | returns (minfo : MemInfo)
deriving DecidableEq, Repr

structure CopyState where
  mmap : Nat
  /-- `p - minfo->mmap_entries`. -/
  p : Nat
  memTotal : Nat
  memAvail : Nat
  stores : List (AddrRange × Nat)

def copyRound (m : Nat → UInt32) (endp : Nat) (s : CopyState) : CopyState ⊕ CopyState :=
  if s.mmap < endp then
    let r := addrRangeAt m s.mmap
    .inl {
      mmap := u32 (s.mmap + addrRangeSize)
      p := s.p + 1
      memTotal := u32 (s.memTotal + r.lengthLow)
      memAvail := if r.type = ardsTypeAvail then u32 (s.memAvail + r.lengthLow) else s.memAvail
      stores := s.stores ++ [(r, s.p)] }
  else .inr s

/-- The function, with at most `fuel` rounds of the loop. -/
def getMemInfoFromMultiboot (fuel : Nat) (m : Nat → UInt32) (mmapAddr mmapLength memTotal memAvail : Nat) :
    Option Outcome :=
  if maxArdsEnt < mmapLength then
    (loop (copyRound m (u32 (mmapAddr + mmapLength))) fuel ⟨mmapAddr, 0, memTotal, memAvail, []⟩).map fun s =>
      .returns ⟨s.memTotal, s.memAvail, mmapLength, s.stores⟩
  else some .panics

/-! ## The map and its copy -/

/-- The `n` ranges of the map at `a`. -/
def rangesAt (m : Nat → UInt32) : Nat → Nat → List AddrRange
  | _, 0 => []
  | a, n + 1 => addrRangeAt m a :: rangesAt m (u32 (a + addrRangeSize)) n

def lengthSum (l : List AddrRange) : Nat := (l.map (·.lengthLow)).sum

def availSum (l : List AddrRange) : Nat := lengthSum (l.filter fun r => r.type = ardsTypeAvail)

/-- A panic, or every range at its place in `mmap_entries` and nothing else stored, and the right sums. -/
def CopyOk (map : List AddrRange) : Outcome → Prop
  | .panics => True
  | .returns minfo =>
    (∀ w ∈ minfo.stores, w.2 < maxArdsEnt) ∧ minfo.stores = map.zipIdx ∧
      minfo.totalMemory = lengthSum map % 2 ^ 32 ∧ minfo.availMemory = availSum map % 2 ^ 32

theorem length_rangesAt (m : Nat → UInt32) (a n : Nat) : (rangesAt m a n).length = n := by
  induction n generalizing a with
  | zero => rfl
  | succ n ih => rw [rangesAt, List.length_cons, ih]

section
variable (m : Nat → UInt32)

theorem lengthSum_cons (r : AddrRange) (l : List AddrRange) : lengthSum (r :: l) = r.lengthLow + lengthSum l := by
  rw [lengthSum, List.map_cons, List.sum_cons, ← lengthSum]

theorem availSum_cons (r : AddrRange) (l : List AddrRange) :
    availSum (r :: l) = (if r.type = ardsTypeAvail then r.lengthLow else 0) + availSum l := by
  unfold availSum
  by_cases h : r.type = ardsTypeAvail
  · rw [List.filter_cons_of_pos (by simpa using h), lengthSum_cons, if_pos h]
  · rw [List.filter_cons_of_neg (by simpa using h), if_neg h, Nat.zero_add]

/-- The loop over a map that the address space holds. The sums go on from what the variables hold. -/
theorem copyRound_loop {n a endp t v fuel : Nat} (p : Nat) (stores : List (AddrRange × Nat))
    (hend : endp = a + addrRangeSize * n) (hlt : endp < 2 ^ 32) (ht : t < 2 ^ 32) (hv : v < 2 ^ 32) (hfuel : n < fuel) :
    loop (copyRound m endp) fuel ⟨a, p, t, v, stores⟩ =
      some ⟨endp, p + n, u32 (t + lengthSum (rangesAt m a n)), u32 (v + availSum (rangesAt m a n)),
        stores ++ (rangesAt m a n).zipIdx p⟩ := by
  induction n generalizing a t v p stores fuel with
  | zero =>
    obtain ⟨fuel, rfl⟩ : ∃ k, fuel = k + 1 := ⟨fuel - 1, by omega⟩
    obtain rfl : endp = a := hend
    rw [loop, copyRound, if_neg (Nat.lt_irrefl _)]
    simp [rangesAt, lengthSum, availSum, u32_of_lt ht, u32_of_lt hv]
  | succ n ih =>
    obtain ⟨fuel, rfl⟩ : ∃ k, fuel = k + 1 := ⟨fuel - 1, by omega⟩
    have hrest : endp = a + addrRangeSize + addrRangeSize * n := by
      rw [hend, Nat.mul_succ, Nat.add_assoc, Nat.add_comm addrRangeSize]
    have hmore : a < endp := hrest ▸ Nat.lt_add_right _ (Nat.lt_add_of_pos_right (by decide))
    have hnext : u32 (a + addrRangeSize) = a + addrRangeSize := u32_of_lt (by omega)
    have hu32 : ∀ x, u32 x < 2 ^ 32 := fun x => Nat.mod_lt _ (by decide)
    have havail : (if (addrRangeAt m a).type = ardsTypeAvail then u32 (v + (addrRangeAt m a).lengthLow) else v) =
        u32 (v + if (addrRangeAt m a).type = ardsTypeAvail then (addrRangeAt m a).lengthLow else 0) := by
      split
      · rfl
      · exact (u32_of_lt hv).symm
    rw [loop, copyRound, if_pos hmore]
    dsimp only
    rw [hnext, havail, ih (p + 1) _ hrest (hu32 _) (hu32 _) (by omega), rangesAt, hnext, lengthSum_cons, availSum_cons,
      List.zipIdx_cons]
    simp only [u32, Nat.mod_add_mod, Nat.add_assoc, List.append_assoc, List.singleton_append, Nat.add_comm 1 n]

variable {a n t v : Nat}

/-- A map that is not empty passes the assertion. -/
theorem maxArdsEnt_lt (hpos : 0 < n) : maxArdsEnt < addrRangeSize * n := by
  show 10 < 24 * n
  omega

theorem getMemInfo_fits (hpos : 0 < n) (hfits : a + addrRangeSize * n < 2 ^ 32) (ht : t < 2 ^ 32) (hv : v < 2 ^ 32)
    {fuel : Nat} (hfuel : n < fuel) :
    getMemInfoFromMultiboot fuel m a (addrRangeSize * n) t v =
      some (.returns ⟨u32 (t + lengthSum (rangesAt m a n)), u32 (v + availSum (rangesAt m a n)), addrRangeSize * n,
        (rangesAt m a n).zipIdx⟩) := by
  rw [getMemInfoFromMultiboot, if_pos (maxArdsEnt_lt hpos), u32_of_lt hfits, copyRound_loop m 0 [] rfl hfits ht hv hfuel]
  rfl

/-- The end of the map wraps around: the loop does not start. -/
theorem getMemInfo_wraps (hpos : 0 < n) (ha : a < 2 ^ 32) (hn : addrRangeSize * n < 2 ^ 32)
    (hwraps : 2 ^ 32 ≤ a + addrRangeSize * n) {fuel : Nat} (hfuel : 0 < fuel) :
    getMemInfoFromMultiboot fuel m a (addrRangeSize * n) t v = some (.returns ⟨t, v, addrRangeSize * n, []⟩) := by
  obtain ⟨fuel, rfl⟩ : ∃ k, fuel = k + 1 := ⟨fuel - 1, by omega⟩
  have hend : ¬ a < u32 (a + addrRangeSize * n) := by
    unfold u32
    omega
  rw [getMemInfoFromMultiboot, if_pos (maxArdsEnt_lt hpos), loop, copyRound, if_neg hend]
  rfl

end

/-- The last store is at the last index. -/
theorem zipIdx_inside_iff {α : Type} {l : List α} {k : Nat} (hpos : 0 < l.length) :
    (∀ w ∈ l.zipIdx, w.2 < k) ↔ l.length ≤ k := by
  constructor
  · intro h
    have hlast : l.length - 1 < l.zipIdx.length := by
      rw [List.length_zipIdx]
      omega
    have hlt := h _ (List.getElem_mem hlast)
    rw [List.getElem_zipIdx] at hlt
    dsimp only at hlt
    omega
  · intro h w hw
    have hlt := List.snd_lt_of_mem_zipIdx hw
    omega

/-- **The copy is right exactly for the empty map**, which panics, and for a map of at most ten ranges, below the end of the
address space, if the variables of the sums hold 0 before they are added to. -/
theorem memory_map_copied (m : Nat → UInt32) {a n t v : Nat} (ha : a < 2 ^ 32) (hn : addrRangeSize * n < 2 ^ 32)
    (ht : t < 2 ^ 32) (hv : v < 2 ^ 32) :
    ∃ o, (∀ fuel, n < fuel → getMemInfoFromMultiboot fuel m a (addrRangeSize * n) t v = some o) ∧
      (CopyOk (rangesAt m a n) o ↔
        n = 0 ∨ n ≤ maxArdsEnt ∧ t = 0 ∧ v = 0 ∧ a + addrRangeSize * n < 2 ^ 32) := by
  rcases Nat.eq_zero_or_pos n with rfl | hpos
  · exact ⟨.panics, fun fuel _ => rfl, by simp [CopyOk]⟩
  have hlen := length_rangesAt m a n
  by_cases hfits : a + addrRangeSize * n < 2 ^ 32
  · refine ⟨_, fun fuel hfuel => getMemInfo_fits m hpos hfits ht hv hfuel, ?_⟩
    have hinside := zipIdx_inside_iff (k := maxArdsEnt) (show 0 < (rangesAt m a n).length by omega)
    have htotal : u32 (t + lengthSum (rangesAt m a n)) = lengthSum (rangesAt m a n) % 2 ^ 32 ↔ t = 0 := by
      unfold u32
      omega
    have havail : u32 (v + availSum (rangesAt m a n)) = availSum (rangesAt m a n) % 2 ^ 32 ↔ v = 0 := by
      unfold u32
      omega
    rw [CopyOk, hinside, hlen, htotal, havail]
    constructor
    · rintro ⟨hmax, -, ht0, hv0⟩
      exact .inr ⟨hmax, ht0, hv0, hfits⟩
    · rintro (hzero | ⟨hmax, ht0, hv0, -⟩)
      · omega
      · exact ⟨hmax, rfl, ht0, hv0⟩
  · refine ⟨_, fun fuel hfuel => getMemInfo_wraps m hpos ha hn (by omega) (by omega), ?_⟩
    -- nothing was stored
    have hstores : [] ≠ (rangesAt m a n).zipIdx := by
      intro h
      have hzero := congrArg List.length h
      rw [List.length_zipIdx, hlen, List.length_nil] at hzero
      omega
    constructor
    · intro hcopy
      exact absurd hcopy.2.1 hstores
    · rintro (hzero | ⟨-, -, -, hlt⟩)
      · omega
      · exact absurd hlt hfits

/-- A range of 1 MiB at every address. -/
def sameRanges (_ : Nat) : UInt32 := 0x100000

theorem memory_map_copied_two : ∃ o,
    (∀ fuel, 2 < fuel → getMemInfoFromMultiboot fuel sameRanges 0x9000 (addrRangeSize * 2) 0 0 = some o) ∧
      (CopyOk (rangesAt sameRanges 0x9000 2) o ↔
        2 = 0 ∨ 2 ≤ maxArdsEnt ∧ 0 = 0 ∧ 0 = 0 ∧ 0x9000 + addrRangeSize * 2 < 2 ^ 32) :=
  memory_map_copied sameRanges (by decide) (by decide) (by decide) (by decide)

/-- Eleven ranges: the last one is stored behind the array. One range and a variable that does not hold 0: a wrong sum. -/
theorem memory_map_overrun :
    (∃ minfo, getMemInfoFromMultiboot 12 sameRanges 0x9000 (addrRangeSize * 11) 0 0 = some (.returns minfo) ∧
      (addrRangeAt sameRanges 0x90f0, 10) ∈ minfo.stores ∧ ¬ CopyOk (rangesAt sameRanges 0x9000 11) (.returns minfo)) ∧
    ∃ minfo, getMemInfoFromMultiboot 2 sameRanges 0x9000 (addrRangeSize * 1) 1 0 = some (.returns minfo) ∧
      minfo.totalMemory = 0x100001 ∧ lengthSum (rangesAt sameRanges 0x9000 1) = 0x100000 := by
  refine ⟨⟨_, rfl, by decide, fun h => ?_⟩, _, rfl, by decide, by decide⟩
  exact absurd (h.1 (addrRangeAt sameRanges 0x90f0, 10) (by decide)) (by decide)

end RedMagic.Paging
