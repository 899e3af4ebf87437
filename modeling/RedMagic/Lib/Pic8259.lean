import Mathlib.Data.List.FinRange
import Mathlib.Logic.Function.Basic

/-!
# Two 8259A interrupt controllers

A `Chip` is programmed by writes to its two ports (`writeCommand`, `writeData`): the initialisation words ICW1 to ICW4, which
come in this order, the mask OCW1 and the end of interrupt OCW2. It works in the fully nested mode: of the lines that request
and are not masked the one with the smallest number is served, unless it or a line with a smaller number is in service, and the
end of interrupt without a number ends the line with the smallest number that is in service. A request is kept until it is
acknowledged: a line that falls before that, the rotation of priorities, the special mask mode and the automatic end of interrupt
are left out.

`Pair` is a master and a slave. The output of the slave is the line of the master that the ICW3 of the slave says, if the one of
the master agrees.
-/

namespace Pic8259

/-- The first line of which `f` holds. -/
def first (f : Fin 8 → Bool) : Option (Fin 8) := (List.finRange 8).find? f

theorem first_eq_some {f : Fin 8 → Bool} {i : Fin 8} : first f = some i ↔ f i = true ∧ ∀ j < i, f j = false := by
  rw [first, List.find?_eq_some_iff_getElem]
  refine and_congr_right fun _ => ⟨?_, fun h => ⟨i, by simp, by simp, fun j hj => ?_⟩⟩
  · rintro ⟨k, hk, hki, hlt⟩ j hj
    rw [List.getElem_finRange] at hki
    have hjk : j.val < k := by
      rw [← hki] at hj
      exact hj
    simpa using hlt j hjk
  · rw [List.getElem_finRange, h _ hj]
    rfl

theorem first_eq_none {f : Fin 8 → Bool} : first f = none ↔ ∀ i, f i = false := by
  simp [first, List.find?_eq_none]

/-- The first line is not behind any other one. -/
theorem le_of_first {f : Fin 8 → Bool} {i j : Fin 8} (h : first f = some i) (hj : f j = true) : i ≤ j := by
  by_contra hlt
  rw [(first_eq_some.1 h).2 j (not_le.1 hlt)] at hj
  cases hj

inductive Phase where
  | ready
  | icw2
  | icw3
  | icw4
deriving DecidableEq, Repr

structure Chip where
  /-- The lines that request. -/
  irr : Fin 8 → Bool
  /-- The lines that are in service. -/
  isr : Fin 8 → Bool
  /-- The lines that are masked. -/
  imr : Fin 8 → Bool
  base : BitVec 8
  cascade : BitVec 8
  single : Bool
  hasIcw4 : Bool
  phase : Phase

def Chip.eoi (c : Chip) : Chip :=
  match first c.isr with
  | some i => { c with isr := Function.update c.isr i false }
  | none => c

/-- The port with the even address: ICW1 if bit 4 is set, OCW2 if neither this nor bit 3 is. -/
def Chip.writeCommand (c : Chip) (v : BitVec 8) : Chip :=
  if v.getLsbD 4 then
    { c with
      irr := fun _ => false, isr := fun _ => false, imr := fun _ => false, hasIcw4 := v.getLsbD 0, single := v.getLsbD 1,
      phase := .icw2 }
  else if v.getLsbD 3 then c
  else if v.extractLsb' 5 3 = 1#3 then c.eoi
  else if v.extractLsb' 5 3 = 3#3 then { c with isr := fun i => if i.val = (v.extractLsb' 0 3).toNat then false else c.isr i }
  else c

/-- The port with the odd address. -/
def Chip.writeData (c : Chip) (v : BitVec 8) : Chip :=
  let last := if c.hasIcw4 then Phase.icw4 else .ready
  match c.phase with
  | .icw2 => { c with base := v &&& 0xF8#8, phase := if c.single then last else .icw3 }
  | .icw3 => { c with cascade := v, phase := last }
  | .icw4 => { c with phase := .ready }
  | .ready => { c with imr := fun i => v.getLsbD i }

/-- The line that is to be served, of those that request. -/
def Chip.request (c : Chip) (lines : Fin 8 → Bool) : Option (Fin 8) :=
  match first fun i => lines i && !c.imr i with
  | some i => if (List.finRange 8).all fun j => i < j || !c.isr j then some i else none
  | none => none

def Chip.ack (c : Chip) (i : Fin 8) : Chip :=
  { c with irr := Function.update c.irr i false, isr := Function.update c.isr i true }

/-- The number the chip gives to the processor for a line. -/
def Chip.vector (c : Chip) (i : Fin 8) : BitVec 8 := c.base + BitVec.ofNat 8 i

section
variable {c : Chip} {lines : Fin 8 → Bool}

/-- The end of interrupt changes nothing else. -/
theorem Chip.eoi_eq (c : Chip) : c.eoi = { c with isr := c.eoi.isr } := by
  rw [Chip.eoi]
  cases first c.isr <;> rfl

/-- If at most one line is in service, the end of interrupt ends it. -/
theorem Chip.eoi_isr (h : ∀ i j, c.isr i = true → c.isr j = true → i = j) (i : Fin 8) : c.eoi.isr i = false := by
  rw [Chip.eoi]
  cases hf : first c.isr with
  | none => exact first_eq_none.1 hf i
  | some k =>
    by_cases hik : i = k
    · subst hik
      exact Function.update_self ..
    · refine (Function.update_of_ne hik _ _).trans (Bool.eq_false_iff.2 fun hi => hik ?_)
      exact h i k hi (first_eq_some.1 hf).1

/-- With nothing masked and nothing in service, the first line that requests is served. -/
theorem Chip.request_eq_first (himr : ∀ i, c.imr i = false) (hisr : ∀ i, c.isr i = false) : c.request lines = first lines := by
  have hlines : (fun i => lines i && !c.imr i) = lines := by
    funext i
    simp [himr i]
  rw [Chip.request, hlines]
  cases first lines with
  | none => rfl
  | some i => simp [hisr]

end

structure Pair where
  master : Chip
  slave : Chip

/-- The line of the master that the slave is on. -/
def Pair.isCascade (p : Pair) (i : Fin 8) : Bool := p.master.cascade.getLsbD i && decide (p.slave.cascade.toNat = i)

def Pair.lines (p : Pair) (i : Fin 8) : Bool :=
  if p.isCascade i then (p.slave.request p.slave.irr).isSome else p.master.irr i

/-- The processor asks for a vector. -/
def Pair.inta (p : Pair) : Option (BitVec 8 × Pair) := do
  let i ← p.master.request p.lines
  if p.isCascade i then
    let j ← p.slave.request p.slave.irr
    some (p.slave.vector j, { master := p.master.ack i, slave := p.slave.ack j })
  else some (p.master.vector i, { p with master := p.master.ack i })

/-- A device raises a line; those from 8 on are the slave's. -/
def Pair.raise (p : Pair) (n : Fin 16) : Pair :=
  if h : n.val < 8 then { p with master := { p.master with irr := Function.update p.master.irr ⟨n, h⟩ true } }
  else { p with slave := { p.slave with irr := Function.update p.slave.irr ⟨n.val - 8, by omega⟩ true } }

end Pic8259
