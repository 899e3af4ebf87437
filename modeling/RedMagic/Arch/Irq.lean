import RedMagic.Arch.Interrupt
import RedMagic.Lib.Pic8259
import RedMagic.Lib.Transition

/-!
# Interrupt requests and their ends (src/idt.c:65-97, :149-179)

| here | there |
| --- | --- |
| `writePort`, `init8259A` | `outb` to one of the chips, and the writes of `init_8259A` |
| `irqHandler` | `irq_handler`: what it does for a vector, one operation after the other |
| `registerInterruptHandler` | `register_interrupt_handler` |

The runs are those of a machine with one CPU (`mpinfo.ismp` is 0) that the two 8259A are wired to: no IMCR has taken them off
(src/mproc.c:180-183). With more CPUs there is nothing to serve: `init_local_apic` masks LINT0 on each, and every other CPU runs
`init_8259A` again from `__main` (src/main.c:95), which drops what waits (`not_pending_init`).
-/

namespace RedMagic.Arch

open X86 Pic8259 Lts

/-- One operation of `irq_handler`. -/
inductive IrqOp (η : Type) where
  | outb (port : BitVec 16) (v : BitVec 8)
  | lapicEoi
  /-- Look for a handler of the vector. -/
  | lookup (intNo : BitVec 8)
  | call (h : η)
deriving DecidableEq, Repr

def writePort (p : Pair) (port : BitVec 16) (v : BitVec 8) : Pair :=
  if port = 0x20#16 then { p with master := p.master.writeCommand v }
  else if port = 0x21#16 then { p with master := p.master.writeData v }
  else if port = 0xA0#16 then { p with slave := p.slave.writeCommand v }
  else if port = 0xA1#16 then { p with slave := p.slave.writeData v }
  else p

def init8259A : List (BitVec 16 × BitVec 8) :=
  [(0x20#16, 0x11#8), (0xA0#16, 0x11#8), (0x21#16, 0x20#8), (0xA1#16, 0x28#8), (0x21#16, 0x04#8), (0xA1#16, 0x02#8),
    (0x21#16, 0x01#8), (0xA1#16, 0x01#8), (0x21#16, 0x0#8), (0xA1#16, 0x0#8)]

section
variable {η : Type}

/-- The ends of interrupt; `lapic_eoi` returns at once if there is one processor only. -/
def eois (ismp : Bool) (intNo : BitVec 8) : List (IrqOp η) :=
  (if 32 ≤ intNo.toNat ∧ intNo.toNat ≤ 47 then
    (if 40 ≤ intNo.toNat then [.outb 0xA0#16 0x20#8] else []) ++ [.outb 0x20#16 0x20#8]
  else []) ++
  if ismp then [.lapicEoi] else []

def irqHandler (ismp : Bool) (intNo : BitVec 8) : List (IrqOp η) := eois ismp intNo ++ [.lookup intNo]

def registerInterruptHandler (handlers : BitVec 8 → Option η) (n : BitVec 8) (h : η) : Option η × (BitVec 8 → Option η) :=
  (handlers n, Function.update handlers n (some h))

end

/-! ## The chips as they are programmed -/

structure Configured (p : Pair) : Prop where
  masterBase : p.master.base = 0x20#8
  slaveBase : p.slave.base = 0x28#8
  masterImr : ∀ i, p.master.imr i = false
  slaveImr : ∀ i, p.slave.imr i = false
  masterCascade : p.master.cascade = 0x04#8
  slaveCascade : p.slave.cascade = 0x02#8

/-- Nothing is in service. -/
def Idle (p : Pair) : Prop := (∀ i, p.master.isr i = false) ∧ ∀ j, p.slave.isr j = false

/-- Whatever state the chips are in. -/
theorem configured_init (p : Pair) :
    Configured (init8259A.foldl (fun p w => writePort p w.1 w.2) p) ∧
      Idle (init8259A.foldl (fun p w => writePort p w.1 w.2) p) := by
  refine ⟨⟨rfl, rfl, fun i => ?_, fun i => ?_, rfl, rfl⟩, fun i => rfl, fun i => rfl⟩
  · exact BitVec.getLsbD_zero
  · exact BitVec.getLsbD_zero

/-- A device waits on line `n`; line 2 is the one of the slave. -/
def Pending (p : Pair) (n : Fin 16) : Prop :=
  (∃ i : Fin 8, n.val = i ∧ i ≠ 2 ∧ p.master.irr i = true) ∨ ∃ j : Fin 8, n.val = 8 + j ∧ p.slave.irr j = true

/-- Whatever waited before: a request that comes before `init_8259A` is lost. -/
theorem not_pending_init (p : Pair) (n : Fin 16) : ¬ Pending (init8259A.foldl (fun p w => writePort p w.1 w.2) p) n := by
  rintro (⟨i, -, -, hirr⟩ | ⟨j, -, hirr⟩)
  · cases hirr
  · cases hirr

/-- The order in which the lines are served: 0, 1, 8 to 15, 3 to 7. -/
def rank (n : Fin 16) : Nat := if n.val < 8 then 8 * n.val else n.val + 8

section
variable {p p' : Pair} {n : Fin 16} {v : BitVec 8}

theorem Configured.isCascade (h : Configured p) (i : Fin 8) : p.isCascade i = decide (i = 2) := by
  rw [Pair.isCascade, h.masterCascade, h.slaveCascade]
  revert i
  decide

theorem Configured.lines_two (h : Configured p) : p.lines 2 = (p.slave.request p.slave.irr).isSome := by
  rw [Pair.lines, h.isCascade, if_pos (by decide)]

theorem Configured.lines_of_ne (h : Configured p) {i : Fin 8} (hi : i ≠ 2) : p.lines i = p.master.irr i := by
  rw [Pair.lines, h.isCascade, if_neg (by simpa using hi)]

/-- What the chips answer if nothing is in service: the line that comes first, of those that wait. -/
theorem inta_spec (h : Configured p) (hidle : Idle p) (hv : p.inta = some (v, p')) :
    ∃ n : Fin 16, Pending p n ∧ v.toNat = 32 + n ∧ (∀ n', Pending p n' → rank n ≤ rank n') ∧
      ((∃ i : Fin 8, n.val = i ∧ p' = { p with master := p.master.ack i }) ∨
        ∃ j : Fin 8, n.val = 8 + j ∧ p' = { master := p.master.ack 2, slave := p.slave.ack j }) := by
  have hsreq : p.slave.request p.slave.irr = first p.slave.irr := p.slave.request_eq_first h.slaveImr hidle.2
  simp only [Pair.inta, Option.bind_eq_bind, Option.bind_eq_some_iff] at hv
  obtain ⟨i, hi, hv⟩ := hv
  rw [p.master.request_eq_first h.masterImr hidle.1] at hi
  by_cases hi2 : i = 2
  · subst hi2
    rw [h.isCascade, if_pos (by decide), Option.bind_eq_some_iff] at hv
    obtain ⟨j, hj, hv⟩ := hv
    rw [hsreq] at hj
    cases hv
    refine ⟨⟨8 + j, by omega⟩, .inr ⟨j, rfl, (first_eq_some.1 hj).1⟩, ?_, ?_, .inr ⟨j, rfl, rfl⟩⟩
    · rw [Chip.vector, h.slaveBase]
      simp only [BitVec.toNat_add, BitVec.toNat_ofNat]
      omega
    · rintro n' (⟨k, hk, hk2, hirr⟩ | ⟨k, hk, hirr⟩)
      · have hle := le_of_first hi ((h.lines_of_ne hk2).trans hirr)
        have hlt : 2 < k.val := lt_of_le_of_ne hle fun he => hk2 (Fin.ext he.symm)
        simp only [rank]
        rw [if_neg (by omega), if_pos (by omega)]
        omega
      · have hle : j.val ≤ k := le_of_first hj hirr
        simp only [rank]
        rw [if_neg (by omega), if_neg (by omega)]
        omega
  · rw [h.isCascade, if_neg (by simpa using hi2)] at hv
    cases hv
    have hirr := (h.lines_of_ne hi2).symm.trans (first_eq_some.1 hi).1
    refine ⟨⟨i, by omega⟩, .inl ⟨i, rfl, hi2, hirr⟩, ?_, ?_, .inl ⟨i, rfl, rfl⟩⟩
    · rw [Chip.vector, h.masterBase]
      simp only [BitVec.toNat_add, BitVec.toNat_ofNat]
      omega
    · rintro n' (⟨k, hk, hk2, hirr'⟩ | ⟨k, hk, hirr'⟩)
      · have hle : i.val ≤ k := le_of_first hi ((h.lines_of_ne hk2).trans hirr')
        simp only [rank]
        rw [if_pos (by omega), if_pos (by omega)]
        omega
      · -- the slave is on line 2
        have hsome : (first p.slave.irr).isSome = true := by
          rw [Option.isSome_iff_ne_none]
          intro hnone
          rw [first_eq_none.1 hnone k] at hirr'
          cases hirr'
        have hle : i.val ≤ 2 := le_of_first hi (h.lines_two.trans ((congrArg _ hsreq).trans hsome))
        have hne : i.val ≠ 2 := fun he => hi2 (Fin.ext he)
        simp only [rank]
        rw [if_pos (by omega), if_neg (by omega)]
        omega

/-- If a device waits and nothing is in service, the chips answer. -/
theorem inta_of_pending (h : Configured p) (hidle : Idle p) (hn : Pending p n) : ∃ v p', p.inta = some (v, p') := by
  have hsreq : p.slave.request p.slave.irr = first p.slave.irr := p.slave.request_eq_first h.slaveImr hidle.2
  have hmreq : p.master.request p.lines = first p.lines := p.master.request_eq_first h.masterImr hidle.1
  cases hf : first p.lines with
  | none =>
    have hno := first_eq_none.1 hf
    rcases hn with ⟨i, -, hi2, hirr⟩ | ⟨j, -, hirr⟩
    · rw [← h.lines_of_ne hi2, hno i] at hirr
      cases hirr
    · have h2 := h.lines_two.symm.trans (hno 2)
      rw [hsreq, Option.isSome_eq_false_iff, Option.isNone_iff_eq_none] at h2
      rw [first_eq_none.1 h2 j] at hirr
      cases hirr
  | some i =>
    by_cases hi2 : i = 2
    · subst hi2
      have h2 := h.lines_two.symm.trans (first_eq_some.1 hf).1
      obtain ⟨j, hj⟩ := Option.isSome_iff_exists.1 h2
      exact ⟨p.slave.vector j, ⟨p.master.ack 2, p.slave.ack j⟩, by simp [Pair.inta, hmreq, hf, h.isCascade, hj]⟩
    · exact ⟨p.master.vector i, { p with master := p.master.ack i }, by simp [Pair.inta, hmreq, hf, h.isCascade, hi2]⟩

end

/-! ## The CPU and the devices -/

/-- `intr` is the interrupt flag, and `todo` what `irq_handler` still has to do. -/
structure IrqSys (η : Type) where
  pics : Pair
  handlers : BitVec 8 → Option η
  intr : Bool
  todo : List (IrqOp η)

inductive IrqAct (η : Type) where
  /-- A device raises its line. -/
  | raise (n : Fin 16)
  /-- The CPU takes an interrupt of the chips. -/
  | inta
  /-- The CPU does the next operation of `irq_handler`. -/
  | op
  | sti
  | cli
  | register (n : BitVec 8) (h : η)

section
variable {η : Type}

/-- The interrupt gate clears the flag, and the stub calls `irq_handler`. -/
def IrqSys.enter (s : IrqSys η) (v : BitVec 8) : IrqSys η := { s with intr := false, todo := irqHandler false v }

def IrqSys.perform (s : IrqSys η) (rest : List (IrqOp η)) : IrqOp η → IrqSys η
  | .outb port v => { s with pics := writePort s.pics port v, todo := rest }
  -- both reads of the table are one step: no other code of this CPU comes between them
  | .lookup n => { s with todo := (s.handlers n).toList.map .call ++ rest }
  | .lapicEoi | .call _ => { s with todo := rest }

/-- A step of a device or of the only CPU. The flag is set again by `iret`, or when a handler hands the CPU to another thread: in
both cases `irq_handler` has made its last call. A handler is registered by code that this CPU runs, so not in the middle of
`irq_handler`. -/
def irqStep (s : IrqSys η) : IrqAct η → Option (IrqSys η)
  | .raise n => some { s with pics := s.pics.raise n }
  | .inta => if s.intr then s.pics.inta.map fun r => { s with pics := r.2 }.enter r.1 else none
  | .op =>
    match s.todo with
    | [] => none
    | o :: rest => some (s.perform rest o)
  | .sti => if s.todo.isEmpty then some { s with intr := true } else none
  | .cli => some { s with intr := false }
  | .register n h =>
    if s.todo.isEmpty then some { s with handlers := (registerInterruptHandler s.handlers n h).2 } else none

/-- After `init_8259A`, with interrupts off. -/
def IrqSys.Init (s : IrqSys η) : Prop :=
  (∃ p, s.pics = init8259A.foldl (fun p w => writePort p w.1 w.2) p) ∧ s.intr = false ∧ s.todo = []

/-- What is left of `irq_handler`: ends of interrupt, and the handler that is still to be looked for or called. -/
structure Rest (todo : List (IrqOp η)) (ends last : List (IrqOp η)) : Prop where
  eq : todo = ends ++ last
  ends : ∀ o ∈ ends, o = .outb 0x20#16 0x20#8 ∨ o = .outb 0xA0#16 0x20#8
  last : last = [] ∨ (∃ n, last = [.lookup n]) ∨ ∃ f, last = [.call f]

structure IrqInv (s : IrqSys η) : Prop where
  configured : Configured s.pics
  off : s.todo ≠ [] → s.intr = false
  rest : ∃ ends last, Rest s.todo ends last
  /-- What is in service has its end still to come. -/
  master : ∀ i, s.pics.master.isr i = true → .outb 0x20#16 0x20#8 ∈ s.todo
  slave : ∀ j, s.pics.slave.isr j = true → .outb 0xA0#16 0x20#8 ∈ s.todo
  masterOne : ∀ i j, s.pics.master.isr i = true → s.pics.master.isr j = true → i = j
  slaveOne : ∀ i j, s.pics.slave.isr i = true → s.pics.slave.isr j = true → i = j

end

section
variable {η : Type} {s s' : IrqSys η} {p : Pair} {n : Fin 16} {v : BitVec 8} {o : IrqOp η} {todo ends last rest : List (IrqOp η)}

/-! ### What `irq_handler` does -/

theorem rest_irqHandler (v : BitVec 8) : Rest (irqHandler false v : List (IrqOp η)) (eois false v) [.lookup v] := by
  refine ⟨rfl, fun o ho => ?_, .inr (.inl ⟨v, rfl⟩)⟩
  simp only [eois, Bool.false_eq_true, if_false, List.append_nil, List.mem_ite_nil_right, List.mem_append, List.mem_singleton] at ho
  rcases ho with ⟨-, ⟨-, rfl⟩ | rfl⟩
  · exact .inr rfl
  · exact .inl rfl

theorem mem_irqHandler (hv : v.toNat = 32 + n) :
    .outb 0x20#16 0x20#8 ∈ (irqHandler false v : List (IrqOp η)) ∧
      (8 ≤ n.val → .outb 0xA0#16 0x20#8 ∈ (irqHandler false v : List (IrqOp η))) := by
  have hin : 32 ≤ v.toNat ∧ v.toNat ≤ 47 := by omega
  refine ⟨by simp [irqHandler, eois, hin], fun hn => ?_⟩
  have h40 : 40 ≤ v.toNat := by omega
  simp [irqHandler, eois, hin, h40]

/-- The next operation ends an interrupt, looks for the handler or calls it. -/
theorem Rest.perform_cases (h : Rest (o :: rest) ends last) (s : IrqSys η) :
    (o = .outb 0x20#16 0x20#8 ∧ (∃ ends', Rest rest ends' last) ∧
        s.perform rest o = { s with pics := { s.pics with master := s.pics.master.eoi }, todo := rest }) ∨
      (o = .outb 0xA0#16 0x20#8 ∧ (∃ ends', Rest rest ends' last) ∧
        s.perform rest o = { s with pics := { s.pics with slave := s.pics.slave.eoi }, todo := rest }) ∨
      (∀ port w, .outb port w ∉ o :: rest) ∧ ∃ t, (∃ last', Rest t [] last') ∧ s.perform rest o = { s with todo := t } := by
  obtain ⟨heq, hends, hlast⟩ := h
  cases ends with
  | nil =>
    refine .inr (.inr ?_)
    rw [List.nil_append] at heq
    rcases hlast with rfl | ⟨n, rfl⟩ | ⟨f, rfl⟩
    · cases heq
    · cases heq
      refine ⟨fun port w hmem => by simp at hmem, (s.handlers n).toList.map .call, ⟨_, rfl, by simp, ?_⟩, ?_⟩
      · cases s.handlers n with
        | none => exact .inl rfl
        | some f => exact .inr (.inr ⟨f, rfl⟩)
      · simp only [IrqSys.perform, List.append_nil]
    · cases heq
      exact ⟨fun port w hmem => by simp at hmem, [], ⟨[], rfl, by simp, .inl rfl⟩, rfl⟩
  | cons e ends' =>
    cases heq
    have hrest : ∃ ends'', Rest (ends' ++ last) ends'' last := ⟨ends', rfl, fun o ho => hends o (List.mem_cons_of_mem _ ho), hlast⟩
    rcases hends _ List.mem_cons_self with rfl | rfl
    · exact .inl ⟨rfl, hrest, rfl⟩
    · exact .inr (.inl ⟨rfl, hrest, rfl⟩)

/-! ### One step -/

/-- With `irq_handler` at its end, or at the handler that it calls, nothing is in service. -/
theorem IrqInv.idle (h : IrqInv s) (hno : ∀ port v, .outb port v ∉ s.todo) : Idle s.pics :=
  ⟨fun i => Bool.eq_false_iff.2 fun hi => hno _ _ (h.master i hi), fun j => Bool.eq_false_iff.2 fun hj => hno _ _ (h.slave j hj)⟩

theorem IrqInv.idle_of_intr (h : IrqInv s) (hi : s.intr = true) : Idle s.pics := by
  refine h.idle fun port v hmem => ?_
  rw [h.off (List.ne_nil_of_mem hmem)] at hi
  cases hi

/-- If nothing is in service, the invariant says nothing about what `irq_handler` has to do for the chips. -/
theorem IrqInv.of_idle (hconf : Configured s.pics) (hidle : Idle s.pics) (hoff : s.todo ≠ [] → s.intr = false)
    (hrest : ∃ ends last, Rest s.todo ends last) : IrqInv s where
  configured := hconf
  off := hoff
  rest := hrest
  master i hi := absurd hi (by simp [hidle.1])
  slave j hj := absurd hj (by simp [hidle.2])
  masterOne i _ hi := absurd hi (by simp [hidle.1])
  slaveOne i _ hi := absurd hi (by simp [hidle.2])

theorem raise_keeps (p : Pair) (n : Fin 16) (h : Configured p) :
    Configured (p.raise n) ∧ (p.raise n).master.isr = p.master.isr ∧ (p.raise n).slave.isr = p.slave.isr := by
  rw [Pair.raise]
  split
  · exact ⟨{ h with }, rfl, rfl⟩
  · exact ⟨{ h with }, rfl, rfl⟩

theorem IrqInv.inta (h : IrqInv s) (hi : s.intr = true) {p' : Pair} (hv : s.pics.inta = some (v, p')) :
    IrqInv ({ s with pics := p' }.enter v) := by
  obtain ⟨hm, hs⟩ := h.idle_of_intr hi
  obtain ⟨n, -, hvn, -, hp'⟩ := inta_spec h.configured ⟨hm, hs⟩ hv
  obtain ⟨hmem, hmem'⟩ := mem_irqHandler (η := η) hvn
  have hone (f : Fin 8 → Bool) (hf : ∀ i, f i = false) (k i : Fin 8) (hi : Function.update f k true i = true) : i = k := by
    by_contra hne
    rw [Function.update_of_ne hne, hf i] at hi
    cases hi
  rcases hp' with ⟨i, hni, rfl⟩ | ⟨j, hnj, rfl⟩
  · exact {
      configured := { h.configured with }
      off := fun _ => rfl
      rest := ⟨_, _, rest_irqHandler v⟩
      master := fun _ _ => hmem
      slave := fun j hj => absurd hj (by simp [IrqSys.enter, hs])
      masterOne := fun a b ha hb => (hone _ hm i a ha).trans (hone _ hm i b hb).symm
      slaveOne := fun a _ ha => absurd ha (by simp [IrqSys.enter, hs]) }
  · exact {
      configured := { h.configured with }
      off := fun _ => rfl
      rest := ⟨_, _, rest_irqHandler v⟩
      master := fun _ _ => hmem
      slave := fun _ _ => hmem' (by omega)
      masterOne := fun a b ha hb => (hone _ hm 2 a ha).trans (hone _ hm 2 b hb).symm
      slaveOne := fun a b ha hb => (hone _ hs j a ha).trans (hone _ hs j b hb).symm }

theorem IrqInv.op (h : IrqInv s) (ho : s.todo = o :: rest) : IrqInv (s.perform rest o) := by
  obtain ⟨ends, last, hrest⟩ := h.rest
  rw [ho] at hrest
  have hoff : s.intr = false := h.off (by rw [ho]; exact List.cons_ne_nil _ _)
  -- an end of interrupt that is still to come, and is not this one
  have hlater (x : IrqOp η) (hx : x ∈ s.todo) (hne : x ≠ o) : x ∈ rest := by
    rw [ho] at hx
    exact List.mem_of_ne_of_mem hne hx
  rcases hrest.perform_cases s with ⟨rfl, ⟨ends', hrest'⟩, hp⟩ | ⟨rfl, ⟨ends', hrest'⟩, hp⟩ | ⟨hno, t, ⟨last', ht⟩, hp⟩
  · have hmaster := s.pics.master.eoi_isr h.masterOne
    rw [hp]
    refine ⟨?_, fun _ => hoff, ⟨ends', last, hrest'⟩, fun i hi => absurd hi (by simp [hmaster]),
      fun j hj => hlater _ (h.slave j hj) (by simp), fun i j hi => absurd hi (by simp [hmaster]), h.slaveOne⟩
    rw [s.pics.master.eoi_eq]
    exact { h.configured with }
  · have hslave := s.pics.slave.eoi_isr h.slaveOne
    rw [hp]
    refine ⟨?_, fun _ => hoff, ⟨ends', last, hrest'⟩, fun i hi => hlater _ (h.master i hi) (by simp),
      fun j hj => absurd hj (by simp [hslave]), h.masterOne, fun i j hi => absurd hi (by simp [hslave])⟩
    rw [s.pics.slave.eoi_eq]
    exact { h.configured with }
  · rw [hp]
    exact .of_idle h.configured (h.idle (by rw [ho]; exact hno)) (fun _ => hoff) ⟨[], last', ht⟩

theorem inta_cases (h : irqStep s .inta = some s') :
    s.intr = true ∧ ∃ v p', s.pics.inta = some (v, p') ∧ s' = { s with pics := p' }.enter v := by
  simp only [irqStep] at h
  split at h
  · rename_i hi
    obtain ⟨⟨v, p'⟩, hv, rfl⟩ := Option.map_eq_some_iff.1 h
    exact ⟨hi, v, p', hv, rfl⟩
  · cases h

/-- What a step can be. -/
theorem irqStep_cases {a : IrqAct η} (h : irqStep s a = some s') :
    (∃ n, a = .raise n ∧ s' = { s with pics := s.pics.raise n }) ∨
      (∃ v p', a = .inta ∧ s.intr = true ∧ s.pics.inta = some (v, p') ∧ s' = { s with pics := p' }.enter v) ∨
      (∃ o rest, a = .op ∧ s.todo = o :: rest ∧ s' = s.perform rest o) ∨
      (a = .sti ∧ s.todo = [] ∧ s' = { s with intr := true }) ∨ (a = .cli ∧ s' = { s with intr := false }) ∨
      ∃ n f, a = .register n f ∧ s.todo = [] ∧ s' = { s with handlers := (registerInterruptHandler s.handlers n f).2 } := by
  cases a with
  | raise n => exact .inl ⟨n, rfl, (Option.some.inj h).symm⟩
  | inta =>
    obtain ⟨hi, v, p', hv, rfl⟩ := inta_cases h
    exact .inr (.inl ⟨v, p', rfl, hi, hv, rfl⟩)
  | op =>
    simp only [irqStep] at h
    split at h
    · cases h
    · rename_i o rest ho
      cases h
      exact .inr (.inr (.inl ⟨o, rest, rfl, ho, rfl⟩))
  | sti =>
    simp only [irqStep] at h
    split at h
    · rename_i hempty
      cases h
      exact .inr (.inr (.inr (.inl ⟨rfl, List.isEmpty_iff.1 hempty, rfl⟩)))
    · cases h
  | cli => exact .inr (.inr (.inr (.inr (.inl ⟨rfl, (Option.some.inj h).symm⟩))))
  | register n f =>
    simp only [irqStep] at h
    split at h
    · rename_i hempty
      cases h
      exact .inr (.inr (.inr (.inr (.inr ⟨n, f, rfl, List.isEmpty_iff.1 hempty, rfl⟩))))
    · cases h

theorem IrqInv.step (h : IrqInv s) {a : IrqAct η} (hs : irqStep s a = some s') : IrqInv s' := by
  obtain ⟨n, rfl, rfl⟩ | ⟨v, p', rfl, hi, hv, rfl⟩ | ⟨o, rest, rfl, ho, rfl⟩ | ⟨rfl, hnil, rfl⟩ | ⟨rfl, rfl⟩ | ⟨n, f, rfl, -, rfl⟩ :=
    irqStep_cases hs
  · obtain ⟨hconf, hm, hsl⟩ := raise_keeps s.pics n h.configured
    exact { h with
      configured := hconf, master := by rw [hm]; exact h.master, slave := by rw [hsl]; exact h.slave,
      masterOne := by rw [hm]; exact h.masterOne, slaveOne := by rw [hsl]; exact h.slaveOne }
  · exact h.inta hi hv
  · exact h.op ho
  · exact { h with off := fun hne => absurd hnil hne }
  · exact { h with off := fun _ => rfl }
  · exact { h with }

theorem IrqSys.Init.inv (h : s.Init) : IrqInv s := by
  obtain ⟨⟨p, hp⟩, -, htodo⟩ := h
  obtain ⟨hconf, hidle⟩ := configured_init p
  rw [← hp] at hconf hidle
  exact .of_idle hconf hidle (fun hne => absurd htodo hne) ⟨[], [], htodo, by simp, .inl rfl⟩

/-! ### What waits -/

section
variable {p' : Pair} {n' : Fin 16}

theorem pending_raise (h : Pending p n') (n : Fin 16) : Pending (p.raise n) n' := by
  rw [Pair.raise]
  rcases h with ⟨i, hi, hi2, hirr⟩ | ⟨j, hj, hirr⟩
  · refine .inl ⟨i, hi, hi2, ?_⟩
    split
    · show Function.update p.master.irr _ true i = true
      rw [Function.update_apply]
      split
      · rfl
      · exact hirr
    · exact hirr
  · refine .inr ⟨j, hj, ?_⟩
    split
    · exact hirr
    · show Function.update p.slave.irr _ true j = true
      rw [Function.update_apply]
      split
      · rfl
      · exact hirr

/-- A device that raises its line waits; line 2 is the slave's. -/
theorem pending_raised (p : Pair) {n : Fin 16} (hn : n ≠ 2) : Pending (p.raise n) n := by
  rw [Pair.raise]
  split
  · rename_i hlt
    have hne : (⟨n, hlt⟩ : Fin 8) ≠ 2 := by
      intro he
      have hval : n.val = 2 := Fin.mk.inj he
      exact hn (Fin.ext hval)
    exact .inl ⟨⟨n, hlt⟩, rfl, hne, Function.update_self ..⟩
  · exact .inr ⟨⟨n.val - 8, by omega⟩, (by simp only; omega), Function.update_self ..⟩

/-- A request that is served waits no more; the others do. -/
theorem pending_ack
    (h : (∃ i : Fin 8, n.val = i ∧ p' = { p with master := p.master.ack i }) ∨
      ∃ j : Fin 8, n.val = 8 + j ∧ p' = { master := p.master.ack 2, slave := p.slave.ack j }) :
    Pending p' n' ↔ Pending p n' ∧ n' ≠ n := by
  rcases h with ⟨i, hni, rfl⟩ | ⟨j, hnj, rfl⟩
  · constructor
    · rintro (⟨k, hk, hk2, hirr⟩ | ⟨k, hk, hirr⟩)
      · have hki : k ≠ i := by
          rintro rfl
          exact absurd hirr (by simp [Chip.ack])
        refine ⟨.inl ⟨k, hk, hk2, ?_⟩, fun he => hki (Fin.ext (by omega))⟩
        simpa [Chip.ack, Function.update_of_ne hki] using hirr
      · exact ⟨.inr ⟨k, hk, hirr⟩, fun he => by omega⟩
    · rintro ⟨⟨k, hk, hk2, hirr⟩ | ⟨k, hk, hirr⟩, hne⟩
      · have hki : k ≠ i := fun he => hne (Fin.ext (by omega))
        exact .inl ⟨k, hk, hk2, by simpa [Chip.ack, Function.update_of_ne hki] using hirr⟩
      · exact .inr ⟨k, hk, hirr⟩
  · constructor
    · rintro (⟨k, hk, hk2, hirr⟩ | ⟨k, hk, hirr⟩)
      · refine ⟨.inl ⟨k, hk, hk2, ?_⟩, fun he => by omega⟩
        simpa [Chip.ack, Function.update_of_ne hk2] using hirr
      · have hkj : k ≠ j := by
          rintro rfl
          exact absurd hirr (by simp [Chip.ack])
        refine ⟨.inr ⟨k, hk, ?_⟩, fun he => hkj (Fin.ext (by omega))⟩
        simpa [Chip.ack, Function.update_of_ne hkj] using hirr
    · rintro ⟨⟨k, hk, hk2, hirr⟩ | ⟨k, hk, hirr⟩, hne⟩
      · exact .inl ⟨k, hk, hk2, by simpa [Chip.ack, Function.update_of_ne hk2] using hirr⟩
      · have hkj : k ≠ j := fun he => hne (Fin.ext (by omega))
        exact .inr ⟨k, hk, by simpa [Chip.ack, Function.update_of_ne hkj] using hirr⟩

theorem IrqInv.pending_op (h : IrqInv s) (ho : s.todo = o :: rest) (hn : Pending s.pics n) : Pending (s.perform rest o).pics n := by
  obtain ⟨ends, last, hrest⟩ := h.rest
  rw [ho] at hrest
  rcases hrest.perform_cases s with ⟨-, -, hp⟩ | ⟨-, -, hp⟩ | ⟨-, t, -, hp⟩
  · rw [hp, s.pics.master.eoi_eq]
    exact hn
  · rw [hp, s.pics.slave.eoi_eq]
    exact hn
  · rw [hp]
    exact hn

/-- What waits goes on waiting, unless an interrupt is taken. -/
theorem IrqInv.pending_step (h : IrqInv s) {a : IrqAct η} (hs : irqStep s a = some s') (ha : a ≠ .inta) (hn : Pending s.pics n) :
    Pending s'.pics n := by
  obtain ⟨m, rfl, rfl⟩ | ⟨v, p', rfl, -⟩ | ⟨o, rest, rfl, ho, rfl⟩ | ⟨rfl, -, rfl⟩ | ⟨rfl, rfl⟩ | ⟨m, f, rfl, -, rfl⟩ :=
    irqStep_cases hs
  · exact pending_raise hn m
  · exact absurd rfl ha
  · exact h.pending_op ho hn
  · exact hn
  · exact hn
  · exact hn

end

/-! ## Runs -/

/-- `irq_handler` without a pause: it ends with the call of the handler, if the vector has one. -/
theorem exec_ends (hends : ∀ o ∈ ends, o = .outb 0x20#16 0x20#8 ∨ o = .outb 0xA0#16 0x20#8)
    (htodo : s.todo = ends ++ [.lookup v]) :
    ∃ s', exec irqStep s (s.todo.map fun _ => .op) = some s' ∧ s'.todo = (s.handlers v).toList.map .call := by
  induction ends generalizing s with
  | nil =>
    refine ⟨s.perform [] (.lookup v), ?_, List.append_nil _⟩
    simp only [htodo, List.nil_append, List.map_cons, List.map_nil, exec, irqStep]
  | cons e ends ih =>
    have hperform : (s.perform (ends ++ [.lookup v]) e).todo = ends ++ [.lookup v] ∧
        (s.perform (ends ++ [.lookup v]) e).handlers = s.handlers := by
      rcases hends e List.mem_cons_self with rfl | rfl
      · exact ⟨rfl, rfl⟩
      · exact ⟨rfl, rfl⟩
    obtain ⟨s', hrun, hs'⟩ := ih (fun o ho => hends o (List.mem_cons_of_mem _ ho)) hperform.1
    rw [hperform.1] at hrun
    rw [hperform.2] at hs'
    refine ⟨s', ?_, hs'⟩
    simp only [htodo, List.cons_append, List.map_cons, exec, irqStep]
    exact hrun

section
variable {s₀ : IrqSys η}

/-- **No interrupt request is lost or blocked.** After `init_8259A`, in every interleaving of the CPU and the devices: a line that
was raised waits until the CPU takes it. Whenever interrupts are on, or `irq_handler` has reached the handler that it calls,
nothing is in service, so that the first line of those that wait is taken next, with the vector of its own stub, and
`irq_handler` comes to the handler of this vector. -/
theorem irq_lines_served (h0 : s₀.Init) (hr : Reaches irqStep Any s₀ s) :
    ((s.intr = true ∨ ∃ f, s.todo = [.call f]) → Idle s.pics) ∧
    (s.intr = true → (∃ n, Pending s.pics n) → ∃ s', irqStep s .inta = some s') ∧
    (∀ s', irqStep s .inta = some s' → ∃ n, Pending s.pics n ∧ (∀ n', Pending s.pics n' → rank n ≤ rank n') ∧
      s'.todo = irqHandler false (Label.irq n).vector ∧ (∀ n', Pending s'.pics n' ↔ Pending s.pics n' ∧ n' ≠ n) ∧
      ∃ s'', exec irqStep s' (s'.todo.map fun _ => .op) = some s'' ∧
        s''.todo = (s.handlers (Label.irq n).vector).toList.map .call) ∧
    (∀ n s', n ≠ 2 → irqStep s (.raise n) = some s' → Pending s'.pics n) ∧
    ∀ a s' n, irqStep s a = some s' → a ≠ .inta → Pending s.pics n → Pending s'.pics n := by
  have hinv : IrqInv s := hr.invariant h0.inv fun _ _ _ hi _ hs => hi.step hs
  refine ⟨?_, fun hi ⟨n, hn⟩ => ?_, fun s' hs => ?_, fun n s' hn hs => ?_,
    fun a s' n hs ha hn => hinv.pending_step hs ha hn⟩
  · rintro (hi | ⟨f, htodo⟩)
    · exact hinv.idle_of_intr hi
    · exact hinv.idle fun port v hmem => by simp [htodo] at hmem
  · obtain ⟨v, p', hv⟩ := inta_of_pending hinv.configured (hinv.idle_of_intr hi) hn
    exact ⟨_, by simp only [irqStep, hi, hv]; rfl⟩
  · obtain ⟨hi, v, p', hv, rfl⟩ := inta_cases hs
    obtain ⟨n, hn, hvn, hbest, hp'⟩ := inta_spec hinv.configured (hinv.idle_of_intr hi) hv
    obtain rfl : v = (Label.irq n).vector := by
      refine BitVec.eq_of_toNat_eq ?_
      rw [hvn, Label.vector, BitVec.toNat_ofNat, Nat.mod_eq_of_lt (by omega)]
    exact ⟨n, hn, hbest, rfl, fun n' => pending_ack hp', exec_ends (rest_irqHandler _).ends rfl⟩
  · cases hs
    exact pending_raised _ hn

end

end

/-- The chips as the BIOS may have left them, and a handler for line 9. -/
def irqBoot : IrqSys Unit where
  pics :=
    let c : Chip := ⟨fun _ => true, fun _ => true, fun _ => true, 8#8, 0#8, false, true, .icw3⟩
    init8259A.foldl (fun p w => writePort p w.1 w.2) ⟨c, c⟩
  handlers v := if v = 41#8 then some () else none
  intr := false
  todo := []

/-- The CPU takes line 9, line 0 is raised before its end and taken next. -/
theorem irq_lines_served_nested :
    ∃ s, exec irqStep irqBoot [.sti, .raise 9, .inta, .raise 0, .op, .op, .op, .op, .sti] = some s ∧
      Idle s.pics ∧ ∃ s', irqStep s .inta = some s' := by
  have hinit : irqBoot.Init := ⟨⟨_, rfl⟩, rfl, rfl⟩
  have hr : Reaches irqStep Any irqBoot _ :=
    reaches_of_execOk irqStep Any [.sti, .raise 9, .inta, .raise 0, .op, .op, .op, .op, .sti] rfl
  obtain ⟨hidle, hnext, -⟩ := irq_lines_served hinit hr
  exact ⟨_, rfl, hidle (.inl rfl), hnext rfl ⟨0, .inl ⟨0, rfl, by decide, rfl⟩⟩⟩

end RedMagic.Arch
