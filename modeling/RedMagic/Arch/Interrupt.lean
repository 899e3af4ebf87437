import RedMagic.Lib.X86

/-!
# From an interrupt to its handler and back (src/interrupt.s, src/idt.c:21-131, isr.h:16-35)

| here | there |
| --- | --- |
| `stubEntry`, `stubExit`, `commonStub` | `isr_common_stub` and `irq_common_stub`, which differ in the handler they call |
| `Label.code` | the stubs that the macros `ISR_NOERRCODE`, `ISR_ERRCODE`, `IRQ` and `SMP_IRQ` make |
| `Registers` | `registers_t`, up to `eflags`; the processor does not push `useresp` and `ss` for an interrupt of its own ring |
| `IdtEntry`, `idtSetGate`, `initIdt` | `idt_entry_t`, `idt_set_gate`, and the table after `init_idt` |
| `deliver` | what the processor makes of the gate for a vector |

The handlers `isr_handler` and `irq_handler` are C functions that return, maybe after other threads have run. The stub reads its
frame back from the stack, so they must leave it alone.

For some vectors the processor pushes an error code (`pushesErrCode`). The macros of `interrupt.s:38-69` agree with it for every
vector but 17, the alignment check, whose stub pushes a 0 for an error code that is there already: it does not return to what was
interrupted.
-/

namespace RedMagic.Arch

open X86

/-! ## The stubs -/

inductive Handler where
  | isrHandler
  | irqHandler
deriving DecidableEq, Repr

/-- The common stub up to the call … -/
def stubEntry : List (Instr Handler) :=
  [.pusha, .movAxSeg .ds, .push .eax, .movAx 0x10#16, .movSeg .ds .eax, .movSeg .es .eax, .movSeg .fs .eax, .movSeg .gs .eax,
    .push .esp]

/-- … and behind it. -/
def stubExit : List (Instr Handler) :=
  [.addEsp 4#32, .pop .ebx, .movSeg .ds .ebx, .movSeg .es .ebx, .movSeg .fs .ebx, .movSeg .gs .ebx, .popa, .addEsp 8#32, .sti,
    .iret]

def commonStub (h : Handler) : List (Instr Handler) := stubEntry ++ .call h :: stubExit

inductive Label where
  | isr (n : Fin 32)
  | irq (n : Fin 16)
  | smpIrqInvalTlb
  | smpIrqStopCpu
  | smpIrqLocalTimer
deriving DecidableEq, Repr

/-- The number that the stub pushes. -/
def Label.vector : Label → BitVec 8
  | .isr n => BitVec.ofNat 8 n
  | .irq n => BitVec.ofNat 8 (32 + n)
  | .smpIrqInvalTlb => 52#8
  | .smpIrqStopCpu => 53#8
  | .smpIrqLocalTimer => 54#8

/-- The stub expects an error code from the processor (`ISR_ERRCODE`). -/
def Label.errCode : Label → Bool
  | .isr n => n ∈ [8, 10, 11, 12, 13, 14]
  | _ => false

/-- The processor pushes an error code: for a double fault, the faults of segments and pages (10 to 14), and an alignment check.
The vectors above 20 that have one are of features that the kernel does not switch on. -/
def pushesErrCode (v : BitVec 8) : Bool := v ∈ [8#8, 10#8, 11#8, 12#8, 13#8, 14#8, 17#8]

def Label.handler : Label → Handler
  | .isr _ => .isrHandler
  | _ => .irqHandler

/-- What the stub pushes before it jumps to the common stub. -/
def Label.pushes (l : Label) : List (Instr Handler) :=
  if l.errCode then [.cli, .pushByte l.vector] else [.cli, .pushByte 0#8, .pushByte l.vector]

def Label.code (l : Label) : List (Instr Handler) := l.pushes ++ commonStub l.handler

/-- The stubs expect the error codes that the processor pushes, but for the alignment check. -/
theorem errCode_eq_pushesErrCode {l : Label} (h : l.vector ≠ 17#8) : l.errCode = pushesErrCode l.vector := by
  cases l with
  | isr n =>
    revert n
    decide
  | irq n =>
    revert n
    decide
  | _ => decide

/-! ## The table -/

structure IdtEntry where
  baseLo : BitVec 16
  sel : BitVec 16
  always0 : BitVec 8
  flags : BitVec 8
  baseHi : BitVec 16
deriving DecidableEq, Repr

def idtSetGate (idt : BitVec 8 → IdtEntry) (num : BitVec 8) (base : Word) (sel : BitVec 16) (flags : BitVec 8) :
    BitVec 8 → IdtEntry :=
  Function.update idt num
    ⟨(base &&& 0xFFFF#32).setWidth 16, sel, 0#8, flags, ((base >>> 16) &&& 0xFFFF#32).setWidth 16⟩

/-- The calls of `idt_set_gate` in `init_cpu_isr`, `init_8259A` and `init_smp_irq`, in this order. -/
def gates (ismp : Bool) : List Label :=
  (List.finRange 32).map .isr ++ (List.finRange 16).map .irq ++
    if ismp then [.smpIrqInvalTlb, .smpIrqStopCpu, .smpIrqLocalTimer] else []

/-- `addr` is where the linker has put the stubs. -/
def initIdt (addr : Label → Word) (ismp : Bool) : BitVec 8 → IdtEntry :=
  (gates ismp).foldl (fun idt l => idtSetGate idt l.vector (addr l) 0x08#16 0x8E#8) fun _ => ⟨0#16, 0#16, 0#8, 0#8, 0#16⟩

/-- The gate that is used for a vector: it must be present. -/
def IdtEntry.present (e : IdtEntry) : Bool := e.flags.getLsbD 7

def IdtEntry.offset (e : IdtEntry) : Word := e.baseHi ++ e.baseLo

/-- The interrupt `v` comes with the error code `err`; `codeAt` is the code at an address. -/
def deliver (idt : BitVec 8 → IdtEntry) (codeAt : Word → Option (List (Instr Handler))) (env : Handler → Machine → Machine)
    (m : Machine) (v : BitVec 8) (err : Option Word) : Option Machine :=
  if (idt v).present then
    (codeAt (idt v).offset).map fun code => run env code (m.interrupt (idt v).sel (idt v).offset err)
  else none

/-! ## The registers on the stack -/

structure Registers where
  ds : Word
  edi : Word
  esi : Word
  ebp : Word
  esp : Word
  ebx : Word
  edx : Word
  ecx : Word
  eax : Word
  intNo : Word
  errCode : Word
  eip : Word
  cs : Word
  eflags : Word
deriving DecidableEq, Repr

def Registers.words (x : Registers) : List Word :=
  [x.ds, x.edi, x.esi, x.ebp, x.esp, x.ebx, x.edx, x.ecx, x.eax, x.intNo, x.errCode, x.eip, x.cs, x.eflags]

/-- What the handler gets of a machine `m` that is interrupted. `esp` is that of `pusha`, and only the low half of `ds` is the
selector. -/
def Registers.of (m : Machine) (intNo errCode : Word) : Registers where
  ds := setLow (m.reg .eax) (m.seg .ds)
  edi := m.reg .edi
  esi := m.reg .esi
  ebp := m.reg .ebp
  esp := m.reg .esp - 20#32
  ebx := m.reg .ebx
  edx := m.reg .edx
  ecx := m.reg .ecx
  eax := m.reg .eax
  intNo := intNo
  errCode := errCode
  eip := m.eip
  cs := (m.seg .cs).setWidth 32
  eflags := m.eflags.1

/-! ## The common stub -/

section
variable {env : Handler → Machine → Machine} {m : Machine} {ws : List Word}

/-- `ds`, `es`, `fs` and `gs` get one selector. -/
def setSegs (m : Machine) (v : BitVec 16) : Machine := (((m.setSeg .ds v).setSeg .es v).setSeg .fs v).setSeg .gs v

theorem stack_setSegs (h : m.Stack ws) (v : BitVec 16) : (setSegs m v).Stack ws := h

/-- The machine when the handler is called. -/
def entered (m : Machine) : Machine :=
  let w := setLow (m.reg .eax) (m.seg .ds)
  (setSegs (((m.pusha.setReg .eax w).push w).setReg .eax (setLow w 0x10#16)) 0x10#16).push (m.reg .esp - 36#32)

theorem run_stubEntry (m : Machine) : run env stubEntry m = entered m := by
  have hesp : m.reg .esp - 32#32 - 4#32 = m.reg .esp - 36#32 := by bv_omega
  simp [run, stubEntry, Instr.exec, entered, setSegs, Machine.pusha, Machine.pushAll_reg, hesp]

theorem entered_esp (m : Machine) : (entered m).reg .esp = m.reg .esp - 40#32 := by
  have hesp : m.reg .esp - 32#32 - 4#32 - 4#32 = m.reg .esp - 40#32 := by bv_omega
  simp [entered, setSegs, Machine.pusha, Machine.pushAll_reg, hesp]

theorem entered_ss (m : Machine) : (entered m).seg .ss = m.seg .ss := by
  simp [entered, setSegs, Machine.pusha]

theorem entered_eflags (m : Machine) : (entered m).eflags = m.eflags := by
  simp [entered, setSegs, Machine.pusha]

theorem stack_entered (h : m.Stack ws) (hlen : 4 * (ws.length + 10) ≤ 0x100000000) :
    (entered m).Stack ([m.reg .esp - 36#32, setLow (m.reg .eax) (m.seg .ds), m.reg .edi, m.reg .esi, m.reg .ebp,
      m.reg .esp, m.reg .ebx, m.reg .edx, m.reg .ecx, m.reg .eax] ++ ws) := by
  have hpusha : m.pusha.Stack
      ([m.reg .edi, m.reg .esi, m.reg .ebp, m.reg .esp, m.reg .ebx, m.reg .edx, m.reg .ecx, m.reg .eax] ++ ws) :=
    h.pushAll _ (by simp only [List.length_cons, List.length_nil]; omega)
  have hds := (hpusha.setReg (r := .eax) (by decide) (setLow (m.reg .eax) (m.seg .ds))).push
    (v := setLow (m.reg .eax) (m.seg .ds)) (by simp only [List.cons_append, List.nil_append, List.length_cons]; omega)
  have hsegs := stack_setSegs (hds.setReg (r := .eax) (by decide) (setLow (setLow (m.reg .eax) (m.seg .ds)) 0x10#16)) 0x10#16
  exact hsegs.push (by simp only [List.cons_append, List.nil_append, List.length_cons]; omega)

/-- The machine behind `iret`, for a machine `m` on whose stack the handler has left its argument and the registers `x`. -/
def left (m : Machine) (x : Registers) : Machine where
  reg
    | .eax => x.eax
    | .ecx => x.ecx
    | .edx => x.edx
    | .ebx => x.ebx
    | .esp => m.reg .esp + 60#32
    | .ebp => x.ebp
    | .esi => x.esi
    | .edi => x.edi
  seg
    | .cs => x.cs.setWidth 16
    | .ss => m.seg .ss
    | .ds | .es | .fs | .gs => x.ds.setWidth 16
  eip := x.eip
  eflags := .load x.eflags
  mem := m.mem

theorem run_stubExit {a : Word} {x : Registers} (h : m.Stack (a :: x.words ++ ws)) : run env stubExit m = left m x := by
  simp only [Registers.words, List.cons_append, List.nil_append, Machine.Stack, Words] at h
  obtain ⟨-, hds, hedi, hesi, hebp, -, hebx, hedx, hecx, heax, -, -, heip, hcs, hfl, -⟩ := h
  have h8 : ∀ w : Word, w + 8#32 = w + 4#32 + 4#32 := fun w => by bv_omega
  simp only [run, stubExit, Instr.exec, List.foldl_cons, List.foldl_nil, Machine.popa, Machine.pop, Machine.top, Machine.iret,
    left]
  simp [h8, hds, hedi, hesi, hebp, hebx, hedx, hecx, heax, heip, hcs, hfl]
  refine ⟨funext fun r => ?_, funext fun g => ?_⟩
  · cases r with
    | esp =>
      simp
      bv_omega
    | _ => simp
  · cases g <;> simp

/-- A handler that returns, as the stub sees it: the stack above its argument is left alone, up to `size` words. -/
structure Returns (f : Machine → Machine) (size : Nat) : Prop where
  esp : ∀ m, (f m).reg .esp = m.reg .esp
  ss : ∀ m, (f m).seg .ss = m.seg .ss
  stack : ∀ m a ws, ws.length ≤ size → m.Stack (a :: ws) → Words (f m).mem (m.reg .esp + 4#32) ws

theorem run_commonStub {h : Handler} {size : Nat} {x : Registers} (hf : Returns (env h) size)
    (hm : m.Stack ([x.intNo, x.errCode, x.eip, x.cs, x.eflags] ++ ws))
    (hx : x = { x with
      ds := setLow (m.reg .eax) (m.seg .ds), edi := m.reg .edi, esi := m.reg .esi, ebp := m.reg .ebp, esp := m.reg .esp,
      ebx := m.reg .ebx, edx := m.reg .edx, ecx := m.reg .ecx, eax := m.reg .eax })
    (hlen : 4 * (ws.length + 15) ≤ 0x100000000) (hsize : ws.length + 14 ≤ size) :
    (entered m).Stack (((entered m).reg .esp + 4#32) :: x.words ++ ws) ∧
      run env (commonStub h) m = left (env h (entered m)) x ∧ Words (env h (entered m)).mem (m.reg .esp + 20#32) ws := by
  have hesp := entered_esp m
  have hq : (entered m).Stack (((entered m).reg .esp + 4#32) :: x.words ++ ws) := by
    have hstack := stack_entered hm (by simp only [List.cons_append, List.nil_append, List.length_cons]; omega)
    have hptr : (entered m).reg .esp + 4#32 = m.reg .esp - 36#32 := by
      rw [hesp]
      bv_omega
    rw [hptr, hx]
    exact hstack
  have hwords : Words (env h (entered m)).mem ((entered m).reg .esp + 4#32) (x.words ++ ws) := by
    refine hf.stack (entered m) _ _ ?_ hq
    simp only [Registers.words, List.cons_append, List.nil_append, List.length_cons]
    omega
  have hret : (env h (entered m)).Stack (read32 (env h (entered m)).mem ((entered m).reg .esp) :: x.words ++ ws) := by
    rw [Machine.Stack, hf.esp]
    exact ⟨rfl, hwords⟩
  refine ⟨hq, ?_, ?_⟩
  · rw [commonStub, run_append, run_stubEntry, run_cons]
    exact run_stubExit hret
  · have hend : (entered m).reg .esp + 4#32 + BitVec.ofNat 32 (4 * x.words.length) = m.reg .esp + 20#32 := by
      rw [hesp, show x.words.length = 14 from rfl]
      bv_omega
    rw [← hend]
    exact hwords.right

/-! ## From the interrupt to the common stub -/

/-- The machine when the stub of `l` jumps to the common stub. -/
def pushed (m : Machine) (l : Label) (sel : BitVec 16) (offset : Word) (err : Option Word) : Machine :=
  { (m.pushAll [m.eflags.1, (m.seg .cs).setWidth 32, m.eip, err.getD 0#32, l.vector.setWidth 32]).setSeg .cs sel with
    eip := offset, eflags := m.eflags.gate.clearIntr }

/-- `push byte` extends the sign; the numbers are small enough. -/
theorem signExtend_vector (l : Label) : l.vector.signExtend 32 = l.vector.setWidth 32 := by
  have hsmall : ∀ l : Label, l.vector.toNat < 128 := by
    intro l
    cases l with
    | isr n => 
      simp only [Label.vector, BitVec.toNat_ofNat]
      omega
    | irq n => 
      simp only [Label.vector, BitVec.toNat_ofNat]
      omega
    | _ => decide
  refine BitVec.signExtend_eq_setWidth_of_msb_false ?_
  rw [BitVec.msb_eq_decide]
  have := hsmall l
  simp only [decide_eq_false_iff_not]
  omega

theorem run_pushes {l : Label} {sel : BitVec 16} {offset : Word} {err : Option Word} (herr : err.isSome = l.errCode) :
    run env l.pushes (m.interrupt sel offset err) = pushed m l sel offset err := by
  have hsign := signExtend_vector l
  cases err with
  | none =>
    rw [Label.pushes, ← herr]
    simp only [run, Instr.exec, List.foldl_cons, List.foldl_nil, Option.isSome_none, Bool.false_eq_true, if_false, hsign]
    rfl
  | some e =>
    rw [Label.pushes, ← herr]
    simp only [run, Instr.exec, List.foldl_cons, List.foldl_nil, Option.isSome_some, if_true, hsign]
    rfl

/-- The stub of the alignment check pushes a 0 on top of the error code. -/
theorem run_alignmentCheck {sel : BitVec 16} {offset : Word} (e : Word) :
    run env (Label.isr 17).pushes (m.interrupt sel offset (some e)) =
      { (m.pushAll [m.eflags.1, (m.seg .cs).setWidth 32, m.eip, e, 0#32, 17#32]).setSeg .cs sel with
        eip := offset, eflags := m.eflags.gate.clearIntr } := rfl

theorem run_code {l : Label} {sel : BitVec 16} {offset : Word} {err : Option Word} (herr : err.isSome = l.errCode) :
    run env l.code (m.interrupt sel offset err) = run env (commonStub l.handler) (pushed m l sel offset err) := by
  rw [Label.code, run_append]
  exact congrArg _ (run_pushes herr)

end

/-! ## The gates -/

theorem Label.vector_injective {l l' : Label} (h : l.vector = l'.vector) : l = l' := by
  have hnat := congrArg BitVec.toNat h
  cases l <;> cases l' <;> simp [Label.vector] at hnat ⊢ <;> omega

/-- The entry that `idt_set_gate` writes. -/
def gate (base : Word) : IdtEntry :=
  ⟨(base &&& 0xFFFF#32).setWidth 16, 0x08#16, 0#8, 0x8E#8, ((base >>> 16) &&& 0xFFFF#32).setWidth 16⟩

/-- The processor puts the two halves together again. -/
theorem offset_gate (base : Word) : (gate base).offset = base := by
  have hmask (w : Word) : (w &&& 0xFFFF#32).setWidth 16 = w.setWidth 16 := by
    rw [BitVec.setWidth_and]
    exact BitVec.and_allOnes
  simp only [gate, IdtEntry.offset, hmask]
  refine BitVec.eq_of_getLsbD_eq fun i hi => ?_
  rw [BitVec.getLsbD_append, BitVec.getLsbD_setWidth, BitVec.getLsbD_setWidth, BitVec.getLsbD_ushiftRight]
  split
  · rename_i h
    rw [decide_eq_true h, Bool.true_and]
  · rename_i h
    rw [decide_eq_true (by omega), Bool.true_and, Nat.add_sub_cancel' (by omega)]

/-- A table after some calls of `idt_set_gate`. -/
theorem foldl_idtSetGate (addr : Label → Word) (ls : List Label) (idt : BitVec 8 → IdtEntry) (v : BitVec 8) :
    (∀ l ∈ ls, l.vector = v → ls.foldl (fun idt l => idtSetGate idt l.vector (addr l) 0x08#16 0x8E#8) idt v = gate (addr l)) ∧
      ((∀ l ∈ ls, l.vector ≠ v) → ls.foldl (fun idt l => idtSetGate idt l.vector (addr l) 0x08#16 0x8E#8) idt v = idt v) := by
  induction ls generalizing idt with
  | nil => exact ⟨nofun, fun _ => rfl⟩
  | cons l ls ih =>
    obtain ⟨ih1, ih2⟩ := ih (idtSetGate idt l.vector (addr l) 0x08#16 0x8E#8)
    refine ⟨fun l' hl' hv => ?_, fun hno => ?_⟩
    · by_cases hlater : ∃ k ∈ ls, k.vector = v
      · obtain ⟨k, hk, hkv⟩ := hlater
        obtain rfl : l' = k := Label.vector_injective (hv.trans hkv.symm)
        exact ih1 l' hk hkv
      · rw [List.foldl_cons, ih2 fun k hk hkv => hlater ⟨k, hk, hkv⟩]
        rcases List.mem_cons.1 hl' with rfl | hin
        · subst hv
          exact Function.update_self ..
        · exact absurd ⟨l', hin, hv⟩ hlater
    · rw [List.foldl_cons, ih2 fun k hk => hno k (List.mem_cons_of_mem _ hk)]
      exact Function.update_of_ne (hno l List.mem_cons_self).symm _ _

theorem initIdt_gate (addr : Label → Word) {ismp : Bool} {l : Label} (hl : l ∈ gates ismp) :
    initIdt addr ismp l.vector = gate (addr l) := (foldl_idtSetGate addr _ _ _).1 l hl rfl

theorem initIdt_none (addr : Label → Word) {ismp : Bool} {v : BitVec 8} (hv : ∀ l ∈ gates ismp, l.vector ≠ v) :
    initIdt addr ismp v = ⟨0#16, 0#16, 0#8, 0#8, 0#16⟩ := (foldl_idtSetGate addr _ _ _).2 hv

/-! ## Interrupts are transparent -/

section
variable {addr : Label → Word} {codeAt : Word → Option (List (Instr Handler))} {env : Handler → Machine → Machine} {size : Nat}
  {m : Machine} {ws : List Word}

theorem stack_pushed (hstack : m.Stack ws) (hlen : 4 * (ws.length + 15) ≤ 0x100000000) (l : Label) (sel : BitVec 16) (offset : Word)
    (err : Option Word) :
    (pushed m l sel offset err).Stack
      ([l.vector.setWidth 32, err.getD 0#32, m.eip, (m.seg .cs).setWidth 32, m.eflags.1] ++ ws) :=
  hstack.pushAll [m.eflags.1, (m.seg .cs).setWidth 32, m.eip, err.getD 0#32, l.vector.setWidth 32]
    (by simp only [List.length_cons, List.length_nil]; omega)

theorem pushed_reg (m : Machine) (l : Label) (sel : BitVec 16) (offset : Word) (err : Option Word) (r : Reg) :
    (pushed m l sel offset err).reg r = if r = .esp then m.reg .esp - 20#32 else m.reg r := by
  simp [pushed, Machine.pushAll_reg]

/-- The machine `m` goes on where it was interrupted; the data segments are all that of `ds`. -/
structure GoesOn (m m' : Machine) : Prop where
  reg : m'.reg = m.reg
  eip : m'.eip = m.eip
  eflags : m'.eflags = m.eflags
  cs : m'.seg .cs = m.seg .cs
  data : ∀ g ∈ [Seg.ds, .es, .fs, .gs], m'.seg g = m.seg .ds

theorem goesOn_left {q : Machine} {n err : Word} (hesp : q.reg .esp = m.reg .esp - 60#32) :
    GoesOn m (left q (.of m n err)) := by
  refine ⟨funext fun r => ?_, rfl, Flags.load_val _, ?_, ?_⟩
  · cases r with
    | esp =>
      show q.reg .esp + 60#32 = m.reg .esp
      rw [hesp]
      exact BitVec.sub_add_cancel _ _
    | _ => rfl
  · simp [left, Registers.of]
  · simp [left, Registers.of]

/-- An alignment check is delivered, too, but the error code is left where `iret` expects `eip`. -/
theorem alignmentCheck_delivered (ismp : Bool) (hcode : ∀ l, codeAt (addr l) = some l.code) (hret : ∀ h, Returns (env h) size)
    (hstack : m.Stack ws) (hlen : 4 * (ws.length + 16) ≤ 0x100000000) (hsize : ws.length + 15 ≤ size) (e : Word) :
    ∃ m', deliver (initIdt addr ismp) codeAt env m 17#8 (some e) = some m' ∧ m'.eip = e := by
  have hl : Label.isr 17 ∈ gates ismp :=
    List.mem_append_left _ (List.mem_append_left _ (List.mem_map_of_mem (List.mem_finRange 17)))
  have hp := hstack.pushAll [m.eflags.1, (m.seg .cs).setWidth 32, m.eip, e, 0#32, 17#32]
    (by simp only [List.length_cons, List.length_nil]; omega)
  have hpresent : (gate (addr (.isr 17))).present = true := (by decide : (0x8E#8).getLsbD 7 = true)
  have hgate : initIdt addr ismp 17#8 = gate (addr (.isr 17)) := initIdt_gate addr hl
  rw [deliver, hgate, offset_gate, hcode, if_pos hpresent, Option.map_some, Label.code, run_append, run_alignmentCheck]
  generalize hq : ({ (m.pushAll [m.eflags.1, (m.seg .cs).setWidth 32, m.eip, e, 0#32, 17#32]).setSeg .cs _ with
    eip := _, eflags := m.eflags.gate.clearIntr } : Machine) = q
  have hqs : q.Stack ([17#32, 0#32, e, m.eip, (m.seg .cs).setWidth 32] ++ (m.eflags.1 :: ws)) := by
    rw [← hq]
    exact hp
  obtain ⟨-, hrun, -⟩ := run_commonStub (h := .isrHandler)
    (x := { Registers.of q 17#32 0#32 with esp := q.reg .esp, eip := e, cs := m.eip, eflags := (m.seg .cs).setWidth 32 })
    (hret .isrHandler) hqs rfl (by rw [List.length_cons]; omega) (by rw [List.length_cons]; omega)
  exact ⟨_, rfl, congrArg (fun m' : Machine => m'.eip) hrun⟩

/-- **An interrupt leaves no trace but that of its handler.** Every vector that `init_idt` has made a gate for, 17 apart, is
delivered to the stub of this vector; the handler is called with interrupts off and gets the registers of what was interrupted
and the number of the vector, and what was interrupted goes on with its registers, its flags and its stack. For vector 17 the stub
misses that there is an error code, and returns to it. The other vectors have no gate. -/
theorem interrupt_delivered (ismp : Bool) (hcode : ∀ l, codeAt (addr l) = some l.code) (hret : ∀ h, Returns (env h) size)
    (hstack : m.Stack ws) (hlen : 4 * (ws.length + 16) ≤ 0x100000000) (hsize : ws.length + 15 ≤ size) :
    (∀ l ∈ gates ismp, l.vector ≠ 17#8 → ∀ err : Option Word, err.isSome = pushesErrCode l.vector → ∃ q m',
      q.top = q.reg .esp + 4#32 ∧ Words q.mem q.top (Registers.of m (l.vector.setWidth 32) (err.getD 0#32)).words ∧
      q.eflags.intr = false ∧ deliver (initIdt addr ismp) codeAt env m l.vector err = some m' ∧
      m'.mem = (env l.handler q).mem ∧ GoesOn m m' ∧ m'.seg .ss = m.seg .ss ∧ m'.Stack ws) ∧
    (∀ e, ∃ m', deliver (initIdt addr ismp) codeAt env m 17#8 (some e) = some m' ∧ m'.eip = e) ∧
    ∀ v err, (∀ l ∈ gates ismp, l.vector ≠ v) → deliver (initIdt addr ismp) codeAt env m v err = none := by
  refine ⟨fun l hl h17 err herr => ?_, alignmentCheck_delivered ismp hcode hret hstack hlen hsize, fun v err hv => ?_⟩
  · rw [← errCode_eq_pushesErrCode h17] at herr
    have hp := stack_pushed hstack (by omega) l 0x08#16 (addr l) err
    obtain ⟨hq, hrun, hws⟩ := run_commonStub (x := .of m (l.vector.setWidth 32) (err.getD 0#32)) (hret l.handler) hp
      (by simp [Registers.of, pushed, Machine.pushAll_reg]) (by omega) (by omega)
    have hbase : (pushed m l 0x08#16 (addr l) err).reg .esp = m.reg .esp - 20#32 := by rw [pushed_reg, if_pos rfl]
    have hesp : (env l.handler (entered (pushed m l 0x08#16 (addr l) err))).reg .esp = m.reg .esp - 60#32 := by
      rw [(hret l.handler).esp, entered_esp, hbase]
      bv_omega
    refine ⟨entered (pushed m l 0x08#16 (addr l) err), left _ (.of m (l.vector.setWidth 32) (err.getD 0#32)), hq.top, ?_, ?_,
      ?_, rfl, goesOn_left hesp, ?_, ?_⟩
    · rw [hq.top]
      exact hq.2.left
    · rw [entered_eflags]
      exact Flags.intr_clearIntr _
    · have hpresent : (gate (addr l)).present = true := (by decide : (0x8E#8).getLsbD 7 = true)
      rw [deliver, initIdt_gate addr hl, offset_gate, hcode, if_pos hpresent, Option.map_some]
      exact congrArg some ((run_code herr).trans hrun)
    · show (env l.handler _).seg .ss = _
      rw [(hret l.handler).ss, entered_ss]
      simp [pushed]
    · show Words (env l.handler _).mem ((env l.handler _).reg .esp + 60#32) ws
      rw [hesp, BitVec.sub_add_cancel]
      rw [hbase, BitVec.sub_add_cancel] at hws
      exact hws
  · rw [deliver, initIdt_none addr hv]
    rfl

end

/-- A handler that does nothing. -/
theorem returns_id (size : Nat) : Returns id size := ⟨fun _ => rfl, fun _ => rfl, fun _ _ _ _ h => h.2⟩

/-- The stubs, each at the address of its number. -/
def codeByVector (w : Word) : Option (List (Instr Handler)) :=
  ((gates true).find? fun l => l.vector.setWidth 32 = w).map Label.code

theorem codeByVector_vector (l : Label) : codeByVector (l.vector.setWidth 32) = some l.code := by
  have hfind : (gates true).find? (fun l' => l'.vector.setWidth 32 = l.vector.setWidth 32) = some l := by
    cases l with
    | isr n => 
      revert n
      decide
    | irq n => 
      revert n
      decide
    | smpIrqInvalTlb => decide
    | smpIrqStopCpu => decide
    | smpIrqLocalTimer => decide
  rw [codeByVector, hfind, Option.map_some]

theorem interrupt_delivered_timer : ∃ m' : Machine,
    deliver (initIdt (fun l => l.vector.setWidth 32) false) codeByVector (fun _ => id)
      ⟨⟨fun _ => 0x1000#32, fun _ => 0x10#16, 0x5000#32, .load 0x200#32⟩, fun _ => 0#8⟩ 32#8 none = some m' ∧
    m'.eip = 0x5000#32 := by
  have hstack : Machine.Stack ⟨⟨fun _ => 0x1000#32, fun _ => 0x10#16, 0x5000#32, .load 0x200#32⟩, fun _ => 0#8⟩ [] := trivial
  obtain ⟨q, m', -, -, -, hdel, -, hon, -⟩ :=
    (interrupt_delivered false codeByVector_vector (fun _ => returns_id 15) hstack (by decide) (by decide)).1 (.irq 0) (by decide)
      (by decide) none rfl
  exact ⟨m', hdel, hon.eip⟩

end RedMagic.Arch
