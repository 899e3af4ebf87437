import Mathlib.Logic.Function.Basic
import RedMagic.Lib.Loop
import RedMagic.Mm.Basic

/-!
# The processors the firmware reports

| here | there |
| --- | --- |
| `zeroChecksum`, `searchMpfpIn`, `searchMpfp` | `__zero_checksum`, `__search_mpfp`, `search_mpfp` (`mproc.c:28-88`) |
| `mpconfig`, `initMp`                         | `mpconfig`, `init_mp` (`mproc.c:90-193`) |
| `cpuResetState`, `initBootstrapProcessor`    | `cpu_reset_state`, `init_bootstrap_processor` (`cpu.c:22-39, 83-90`) |
| `getBootProcessor`, `getProcessor`           | the functions of `cpu.c:46-65` |
| `lapicGetId`, `initLocalApic`                | `lapic_get_id`, `init_local_apic` (`lapic.c:73-115`) |

Paging is still off, so an address is a physical one; pointers are 32 bits wide and wrap around. The
firmware's memory is an `Image`; what the kernel writes are its own variables, `Globals`.
-/

namespace RedMagic.Mp

open Mm Loop

/-- The byte at each physical address. -/
abbrev Image := Nat → UInt8

section Memory
variable (m : Image)

def byteAt (a : Nat) : Nat := (m (u32 a)).toNat

theorem byteAt_lt (a : Nat) : byteAt m a < 256 := (m (u32 a)).toNat_lt

def u16At (a : Nat) : Nat := byteAt m a + 256 * byteAt m (a + 1)

def u32At (a : Nat) : Nat := u16At m a + 65536 * u16At m (a + 2)

/-- `!memcmp(a, s, n)` for a text of `n` characters. -/
def hasBytes : Nat → List UInt8 → Bool
  | _, [] => true
  | a, c :: cs => m (u32 a) == c && hasBytes (a + 1) cs

def zeroChecksum (start len : Nat) : UInt8 := (List.range len).foldl (fun sum i => sum + m (u32 (start + i))) 0

/-! ## The floating pointer -/

/-- The text `_MP_`. -/
def mpfpSignature : List UInt8 := [0x5F, 0x4D, 0x50, 0x5F]

/-- `sizeof(mpfp_t)`. -/
def mpfpSize : Nat := 16

def isMpfp (cur : Nat) : Bool := hasBytes m cur mpfpSignature && zeroChecksum m cur mpfpSize == 0

/-- The end of the range wraps around if the range is the last kilobyte of the address space, and then
nothing is searched; the ranges of `searchMpfp` do not wrap otherwise. A hit at address 0 is `NULL` to the
caller. -/
def searchMpfpIn (pa len : Nat) : Option Nat :=
  if pa < u32 (pa + len) then
    (((List.range (len / mpfpSize)).map fun i => pa + mpfpSize * i).find? (isMpfp m)).filter (· != 0)
  else none

def searchMpfp : Option Nat :=
  let bda := 0x400
  let p := (byteAt m (bda + 0x0F) * 256 + byteAt m (bda + 0x0E)) * 16
  if p ≠ 0 then searchMpfpIn m p 1024 <|> searchMpfpIn m 0xF0000 0x10000
  else
    let p := (byteAt m (bda + 0x14) * 256 + byteAt m (bda + 0x13)) * 1024
    -- `p - 1024` as a `uint_t`
    searchMpfpIn m (u32 (p + (2 ^ 32 - 1024))) 1024 <|> searchMpfpIn m 0xF0000 0x10000

def physaddr (mp : Nat) : Nat := u32At m (mp + 4)

def imcrp (mp : Nat) : Nat := byteAt m (mp + 12)

/-! ## The configuration table -/

/-- The text `PCMP`. -/
def mpconfSignature : List UInt8 := [0x50, 0x43, 0x4D, 0x50]

/-- `sizeof(mpconf_t)`. -/
def mpconfSize : Nat := 44

def confLength (conf : Nat) : Nat := u16At m (conf + 4)

def confVersion (conf : Nat) : Nat := byteAt m (conf + 6)

def lapicaddr (conf : Nat) : Nat := u32At m (conf + 36)

/-- The floating pointer and the table it points to. -/
def mpconfig : Option (Nat × Nat) :=
  match searchMpfp m with
  | none => none
  | some mp =>
    if physaddr m mp = 0 then none
    else
      let conf := physaddr m mp
      if hasBytes m conf mpconfSignature = false then none
      else if confVersion m conf ≠ 1 ∧ confVersion m conf ≠ 4 then none
      else if zeroChecksum m conf (confLength m conf) ≠ 0 then none
      else some (mp, conf)

end Memory

inductive EntryType where
  | proc
  | bus
  | ioapic
  | iointr
  | lintr
deriving DecidableEq, Repr

def entryType : Nat → Option EntryType
  | 0 => some .proc
  | 1 => some .bus
  | 2 => some .ioapic
  | 3 => some .iointr
  | 4 => some .lintr
  | _ => none

/-- The size of an entry: `sizeof(mpproc_t)`, `sizeof(mpioapic_t)` and the 8 of the other types. -/
def EntryType.size : EntryType → Nat
  | .proc => 20
  | _ => 8

/-- `MPBOOT`. -/
def mpboot : Nat := 0x02

/-! ## Processor records -/

structure Spinlock where
  rlock : Nat
  ownerCpu : Option Nat
deriving DecidableEq, Repr

/-- The part of `cpu_state_t` that is written here; `runq` is `none` until `INIT_LIST_HEAD`. -/
structure CpuState where
  procId : Nat
  flagBsp : Nat
  preemptOn : Nat
  runq : Option (List Nat)
  rthread : Option Nat
  rqLock : Spinlock
deriving DecidableEq, Repr

/-- A record after `bzero`. -/
def zeroCpu : CpuState := ⟨0, 0, 0, none, none, ⟨0, none⟩⟩

def cpuResetState (c : CpuState) : CpuState :=
  { c with runq := some [], rqLock := ⟨0, none⟩, flagBsp := 0, preemptOn := 0, rthread := none }

/-- `MAX_CPUS`. -/
def maxCpus : Nat := 32

/-- `mpinfo`, `lapic_regp` (0 for `NULL`), `ioapic_id`, `cpuset`, and the bytes sent to ports. The records from `MAX_CPUS` on are
the memory behind the array, to which the scan writes, too. -/
structure Globals where
  ismp : Nat
  ncpu : Nat
  lapicRegp : Nat
  ioapicId : Nat
  cpuset : Nat → CpuState
  outb : List (Nat × Nat)

/-- The variables before `main`. -/
def bss : Globals := ⟨0, 0, 0, 0, fun _ => zeroCpu, []⟩

/-- Why a function does not return. -/
inductive Stop where
  | panic (msg : String)
deriving DecidableEq, Repr

/-! ## The scan of the table -/

/-- The variables of the loop of `init_mp`. -/
structure Scan where
  p : Nat
  ncpu : Nat
  ismp : Nat
  g : Globals

/-- The record of a processor entry. -/
def procRecord (c : CpuState) (apicid flags : Nat) : CpuState :=
  let c := cpuResetState c
  let c := if flags &&& mpboot ≠ 0 then { c with flagBsp := 1 } else c
  { c with procId := apicid }

/-- The body of the loop. `ncpu` is not tested, and in the default case `p` stays where it is. -/
def scanRound (m : Image) (endp : Nat) (s : Scan) : Scan ⊕ Scan :=
  if s.p < endp then
    match entryType (byteAt m s.p) with
    | some .proc =>
      let apicid := byteAt m (s.p + 1)
      let flags := byteAt m (s.p + 3)
      .inl { p := u32 (s.p + EntryType.proc.size), ncpu := s.ncpu + 1,
             ismp := if s.ncpu ≠ apicid then 0 else s.ismp,
             g := { s.g with
               cpuset := Function.update s.g.cpuset s.ncpu (procRecord (s.g.cpuset s.ncpu) apicid flags) } }
    | some .ioapic =>
      .inl { s with p := u32 (s.p + EntryType.ioapic.size), g := { s.g with ioapicId := byteAt m (s.p + 1) } }
    | some t => .inl { s with p := u32 (s.p + t.size) }
    | none => .inl { s with ismp := 0 }
  else .inr s

/-- `init_mp` after the loop; `inb` is what the ports read. -/
def afterScan (m : Image) (inb : Nat → Nat) (mp : Nat) (s : Scan) : Int × Globals :=
  if s.ismp = 0 then (0, { s.g with ncpu := 1, ismp := 0, lapicRegp := 0, ioapicId := 0 })
  else
    let g :=
      if imcrp m mp ≠ 0 then { s.g with outb := s.g.outb ++ [(0x22, 0x70), (0x23, inb 0x23 ||| 1)] } else s.g
    ((s.ncpu : Int) - 1, { g with ismp := if s.ncpu > 1 then 1 else 0, ncpu := s.ncpu })

def tableStart (conf : Nat) : Nat := u32 (conf + mpconfSize)

def tableEnd (m : Image) (conf : Nat) : Nat := u32 (conf + confLength m conf)

def scanStart (m : Image) (conf : Nat) (g : Globals) : Scan :=
  ⟨tableStart conf, 0, 1, { g with lapicRegp := lapicaddr m conf }⟩

/-- `init_mp`, with at most `fuel` rounds of its loop. -/
def initMp (fuel : Nat) (m : Image) (inb : Nat → Nat) (g : Globals) : Option (Int × Globals) :=
  match mpconfig m with
  | none => some (0, g)
  | some (mp, conf) => (loop (scanRound m (tableEnd m conf)) fuel (scanStart m conf g)).map (afterScan m inb mp)

/-! ## The boot processor -/

/-- The writes to the registers of the local APIC and the wait for one of them are the device's. -/
def initLocalApic (g : Globals) : Except Stop Globals :=
  if g.lapicRegp ≠ 0 then .ok g else .error (.panic "ASSERTION-FAILED: lapic_regp != NULL")

def finishBootstrap (ap : Int) (g : Globals) : Except Stop Globals :=
  if ap < 0 then .error (.panic "CPU     :init_mp: error")
  else if ap > 0 then initLocalApic g
  else
    .ok { g with cpuset := Function.update g.cpuset 0 { cpuResetState (g.cpuset 0) with flagBsp := 1, procId := 0 } }

def initBootstrapProcessor (fuel : Nat) (m : Image) (inb : Nat → Nat) (g : Globals) : Option (Except Stop Globals) :=
  (initMp fuel m inb { g with cpuset := fun _ => zeroCpu }).map fun r => finishBootstrap r.1 r.2

/-- The index in `cpuset` of the record, if any. -/
def getBootProcessor (g : Globals) : Option Nat :=
  (List.range g.ncpu).find? fun n => (g.cpuset n).flagBsp != 0

/-- `idReg` is what the ID register of the local APIC reads on this processor. -/
def lapicGetId (idReg : Nat) (g : Globals) : Int := if g.lapicRegp ≠ 0 then (idReg >>> 24 : Nat) else -1

/-- The comparison is one of `uint_t`, so an id of -1 is 2^32 - 1 there. -/
def getProcessor (idReg : Nat) (g : Globals) : Option Nat :=
  (List.range g.ncpu).find? fun n => (g.cpuset n).procId == (lapicGetId idReg g % 2 ^ 32).toNat

end RedMagic.Mp
