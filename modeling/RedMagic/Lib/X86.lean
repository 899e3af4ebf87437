import Mathlib.Data.Set.Basic
import Mathlib.Logic.Function.Basic

/-!
# A part of the 32-bit x86 machine

The registers, the flags and a byte memory of one processor, and the instructions that move them about: loads and stores of
words, `push` and `pop`, `pusha` and `popa`, `pushf` and `popf`, the segment registers, `ret` and `iret`. Code is a list of
instructions; a `call` leaves the code for a function `env f` that is given from outside and returns behind the `call`.

`cells a n` are the `n` bytes from the address `a` on, and addresses wrap. `fixFlags` is what becomes of a word that is loaded
into EFLAGS in ring 0: bit 1 is always set, and RF, VM, VIF, VIP and the reserved bits are not loaded.
-/

namespace X86

abbrev Word := BitVec 32

abbrev Mem := Word → BitVec 8

/-! ## Memory -/

def cells (a : Word) (n : Nat) : Set Word := { x | (x - a).toNat < n }

theorem mem_cells {x a : Word} {n : Nat} : x ∈ cells a n ↔ (x - a).toNat < n := Iff.rfl

def read32 (m : Mem) (a : Word) : Word := m (a + 3#32) ++ m (a + 2#32) ++ m (a + 1#32) ++ m a

def write32 (m : Mem) (a v : Word) : Mem :=
  fun x => if (x - a).toNat < 4 then v.extractLsb' (8 * (x - a).toNat) 8 else m x

section
variable {m m' : Mem} {a b v x : Word}

theorem write32_of_notMem (h : x ∉ cells a 4) : write32 m a v x = m x := if_neg h

theorem add_mem_cells {k : Word} {n : Nat} (h : k.toNat < n) : a + k ∈ cells a n := by
  rw [mem_cells]
  bv_omega

theorem read32_congr (h : ∀ x ∈ cells a 4, m' x = m x) : read32 m' a = read32 m a := by
  have h0 := h a (by simpa using add_mem_cells (a := a) (k := 0#32) (n := 4) (by decide))
  have h1 := h (a + 1#32) (add_mem_cells (by decide))
  have h2 := h (a + 2#32) (add_mem_cells (by decide))
  have h3 := h (a + 3#32) (add_mem_cells (by decide))
  rw [read32, read32, h0, h1, h2, h3]

theorem write32_add {k : Word} (h : k.toNat < 4) : write32 m a v (a + k) = v.extractLsb' (8 * k.toNat) 8 := by
  have hk : a + k - a = k := by bv_omega
  rw [write32, hk, if_pos h]

@[simp] theorem read32_write32 (m : Mem) (a v : Word) : read32 (write32 m a v) a = v := by
  have h0 : write32 m a v a = v.extractLsb' 0 8 := by
    simpa using write32_add (m := m) (a := a) (v := v) (k := 0#32) (by decide)
  rw [read32, h0, write32_add (by decide), write32_add (by decide), write32_add (by decide),
    BitVec.extractLsb'_append_extractLsb'_eq_extractLsb' (by rfl), BitVec.extractLsb'_append_extractLsb'_eq_extractLsb' (by rfl),
    BitVec.extractLsb'_append_extractLsb'_eq_extractLsb' (by rfl)]
  exact BitVec.extractLsb'_eq_self

theorem read32_write32_outside (h : ∀ x ∈ cells b 4, x ∉ cells a 4) : read32 (write32 m a v) b = read32 m b :=
  read32_congr fun x hx => write32_of_notMem (h x hx)

/-- Two areas without a common byte. -/
def Apart (s t : Set Word) : Prop := ∀ x ∈ s, x ∉ t

theorem apart_cells {n l : Nat} (h : n ≤ (b - a).toNat) (h' : l ≤ (a - b).toNat) : Apart (cells a n) (cells b l) := by
  intro x hx hx'
  rw [mem_cells] at hx hx'
  bv_omega

/-- Two words of one area. -/
theorem read32_write32_add {j k : Word} (h : 4 ≤ (k - j).toNat) (h' : 4 ≤ (j - k).toNat) :
    read32 (write32 m (a + j) v) (a + k) = read32 m (a + k) := by
  refine read32_write32_outside fun x hx hc => ?_
  rw [mem_cells] at hx hc
  bv_omega

/-- A part of an area. -/
theorem mem_cells_of_add {k : Word} {n l : Nat} (hx : x ∈ cells (a + k) l) (h : k.toNat + l ≤ n) : x ∈ cells a n := by
  rw [mem_cells] at hx ⊢
  bv_omega

end

/-- The words from the address `p` on. -/
def Words (m : Mem) (p : Word) : List Word → Prop
  | [] => True
  | w :: ws => read32 m p = w ∧ Words m (p + 4#32) ws

/-- The bytes of `n` words are those of the first one and of the rest. -/
theorem mem_cells_words {p x : Word} {n : Nat} (hx : x ∈ cells (p + 4#32) (4 * n)) : x ∈ cells p (4 * (n + 1)) := by
  rw [mem_cells] at hx ⊢
  bv_omega

theorem Words.congr {m m' : Mem} {p : Word} {ws : List Word} (h : Words m p ws)
    (hm : ∀ x ∈ cells p (4 * ws.length), m' x = m x) : Words m' p ws := by
  induction ws generalizing p with
  | nil => trivial
  | cons w ws ih =>
    refine ⟨(read32_congr fun x hx => hm x ?_).trans h.1, ih h.2 fun x hx => hm x (mem_cells_words hx)⟩
    rw [mem_cells] at hx ⊢
    rw [List.length_cons]
    omega

theorem Words.left {m : Mem} {p : Word} {us ws : List Word} (h : Words m p (us ++ ws)) : Words m p us := by
  induction us generalizing p with
  | nil => trivial
  | cons u us ih => exact ⟨h.1, ih h.2⟩

theorem Words.right {m : Mem} {p : Word} {us ws : List Word} (h : Words m p (us ++ ws)) :
    Words m (p + BitVec.ofNat 32 (4 * us.length)) ws := by
  induction us generalizing p with
  | nil => simpa using h
  | cons u us ih =>
    have hp : p + BitVec.ofNat 32 (4 * (u :: us).length) = p + 4#32 + BitVec.ofNat 32 (4 * us.length) := by
      rw [List.length_cons]
      bv_omega
    rw [hp]
    exact ih h.2

/-- A word is put below them. -/
theorem Words.push {m : Mem} {p v : Word} {ws : List Word} (h : Words m p ws) (hlen : 4 * (ws.length + 1) ≤ 0x100000000) :
    Words (write32 m (p - 4#32) v) (p - 4#32) (v :: ws) := by
  refine ⟨read32_write32 .., ?_⟩
  rw [BitVec.sub_add_cancel]
  refine h.congr fun x hx => write32_of_notMem fun hc => ?_
  rw [mem_cells] at hx hc
  bv_omega

/-! ## Registers and flags -/

inductive Reg where
  | eax
  | ecx
  | edx
  | ebx
  | esp
  | ebp
  | esi
  | edi
deriving DecidableEq, Repr

inductive Seg where
  | cs
  | ss
  | ds
  | es
  | fs
  | gs
deriving DecidableEq, Repr

def fixFlags (w : Word) : Word := (w &&& 0x247FD5#32) ||| 2#32

theorem fixFlags_fixFlags (w : Word) : fixFlags (fixFlags w) = fixFlags w := by
  ext i hi
  simp only [fixFlags, BitVec.getElem_or, BitVec.getElem_and]
  cases w[i] <;> cases (0x247FD5#32)[i] <;> cases (2#32)[i] <;> rfl

/-- The values of EFLAGS. -/
def Flags : Type := { w : Word // fixFlags w = w }

def Flags.load (w : Word) : Flags := ⟨fixFlags w, fixFlags_fixFlags w⟩

@[simp] theorem Flags.load_val (f : Flags) : Flags.load f.1 = f := Subtype.ext f.2

/-- The interrupt flag. -/
def Flags.intr (f : Flags) : Bool := f.1.getLsbD 9

@[simp] theorem Flags.intr_load (w : Word) : (Flags.load w).intr = w.getLsbD 9 := by
  simp [Flags.intr, Flags.load, fixFlags]

def Flags.setIntr (f : Flags) : Flags := .load (f.1 ||| 0x200#32)

def Flags.clearIntr (f : Flags) : Flags := .load (f.1 &&& ~~~0x200#32)

@[simp] theorem Flags.intr_clearIntr (f : Flags) : f.clearIntr.intr = false := by
  simp [Flags.clearIntr]

/-- TF, IF and NT are cleared. -/
def Flags.gate (f : Flags) : Flags := .load (f.1 &&& ~~~0x4300#32)

/-! ## The machine -/

structure Core where
  reg : Reg → Word
  seg : Seg → BitVec 16
  eip : Word
  eflags : Flags

structure Machine extends Core where
  mem : Mem

def Machine.setReg (m : Machine) (r : Reg) (v : Word) : Machine := { m with reg := Function.update m.reg r v }

def Machine.setSeg (m : Machine) (g : Seg) (v : BitVec 16) : Machine := { m with seg := Function.update m.seg g v }

def Machine.push (m : Machine) (v : Word) : Machine :=
  { m.setReg .esp (m.reg .esp - 4#32) with mem := write32 m.mem (m.reg .esp - 4#32) v }

/-- The word on top of the stack. -/
def Machine.top (m : Machine) : Word := read32 m.mem (m.reg .esp)

/-- The word on top of the stack is dropped. -/
def Machine.drop (m : Machine) : Machine := m.setReg .esp (m.reg .esp + 4#32)

section
variable (m : Machine) (r : Reg) (g : Seg) (v : Word) (w : BitVec 16)

@[simp] theorem Machine.setReg_reg : (m.setReg r v).reg = Function.update m.reg r v := rfl
@[simp] theorem Machine.setReg_seg : (m.setReg r v).seg = m.seg := rfl
@[simp] theorem Machine.setReg_eip : (m.setReg r v).eip = m.eip := rfl
@[simp] theorem Machine.setReg_eflags : (m.setReg r v).eflags = m.eflags := rfl
@[simp] theorem Machine.setReg_mem : (m.setReg r v).mem = m.mem := rfl
@[simp] theorem Machine.setSeg_reg : (m.setSeg g w).reg = m.reg := rfl
@[simp] theorem Machine.setSeg_seg : (m.setSeg g w).seg = Function.update m.seg g w := rfl
@[simp] theorem Machine.setSeg_eip : (m.setSeg g w).eip = m.eip := rfl
@[simp] theorem Machine.setSeg_eflags : (m.setSeg g w).eflags = m.eflags := rfl
@[simp] theorem Machine.setSeg_mem : (m.setSeg g w).mem = m.mem := rfl
@[simp] theorem Machine.push_reg : (m.push v).reg = Function.update m.reg .esp (m.reg .esp - 4#32) := rfl
@[simp] theorem Machine.push_seg : (m.push v).seg = m.seg := rfl
@[simp] theorem Machine.push_eip : (m.push v).eip = m.eip := rfl
@[simp] theorem Machine.push_eflags : (m.push v).eflags = m.eflags := rfl
@[simp] theorem Machine.push_mem : (m.push v).mem = write32 m.mem (m.reg .esp - 4#32) v := rfl
@[simp] theorem Machine.drop_reg : m.drop.reg = Function.update m.reg .esp (m.reg .esp + 4#32) := rfl
@[simp] theorem Machine.drop_seg : m.drop.seg = m.seg := rfl
@[simp] theorem Machine.drop_eip : m.drop.eip = m.eip := rfl
@[simp] theorem Machine.drop_eflags : m.drop.eflags = m.eflags := rfl
@[simp] theorem Machine.drop_mem : m.drop.mem = m.mem := rfl

@[simp] theorem Machine.push_top : (m.push v).top = v := by simp [top]

/-- What is popped again is left below the stack. -/
@[simp] theorem Machine.drop_push : (m.push v).drop = { m with mem := write32 m.mem (m.reg .esp - 4#32) v } := by
  simp only [drop, push, setReg, Function.update_self, Function.update_idem, BitVec.sub_add_cancel, Function.update_eq_self]

end

inductive Instr (φ : Type) where
  /-- `mov d, [s + off]` -/
  | load (d s : Reg) (off : Word)
  /-- `mov [d + off], s` -/
  | store (d : Reg) (off : Word) (s : Reg)
  /-- `mov ax, imm` -/
  | movAx (imm : BitVec 16)
  /-- `mov ax, g` -/
  | movAxSeg (g : Seg)
  /-- `mov g, r`, with the 16-bit half of `r` -/
  | movSeg (g : Seg) (r : Reg)
  | push (r : Reg)
  /-- `push byte imm` -/
  | pushByte (imm : BitVec 8)
  | pop (r : Reg)
  | pusha
  | popa
  | pushf
  | popf
  | cli
  | sti
  | addEsp (imm : Word)
  | call (f : φ)
  | ret
  | iret

/-- The low half of a register gets `v`. -/
def setLow (w : Word) (v : BitVec 16) : Word := (w &&& 0xFFFF0000#32) ||| v.setWidth 32

@[simp] theorem setWidth_setLow (w : Word) (v : BitVec 16) : (setLow w v).setWidth 16 = v := by
  ext i hi
  simp [setLow]

def Machine.pop (m : Machine) (r : Reg) : Machine := m.drop.setReg r m.top

/-- One word after the other is pushed. -/
def Machine.pushAll (m : Machine) (vs : List Word) : Machine := vs.foldl Machine.push m

def Machine.pusha (m : Machine) : Machine :=
  m.pushAll [m.reg .eax, m.reg .ecx, m.reg .edx, m.reg .ebx, m.reg .esp, m.reg .ebp, m.reg .esi, m.reg .edi]

theorem Machine.pushAll_reg (m : Machine) (vs : List Word) (r : Reg) :
    (m.pushAll vs).reg r = if r = .esp then m.reg .esp - BitVec.ofNat 32 (4 * vs.length) else m.reg r := by
  induction vs generalizing m with
  | nil =>
    split
    · rename_i hr
      subst hr
      simp [pushAll]
    · rfl
  | cons v vs ih =>
    rw [pushAll, List.foldl_cons, ← pushAll, ih, push_reg]
    split
    · rw [Function.update_self, List.length_cons]
      bv_omega
    · rename_i hr
      exact Function.update_of_ne hr _ _

@[simp] theorem Machine.pushAll_seg (m : Machine) (vs : List Word) : (m.pushAll vs).seg = m.seg := by
  induction vs generalizing m with
  | nil => rfl
  | cons v vs ih => exact ih (m.push v)

@[simp] theorem Machine.pushAll_eflags (m : Machine) (vs : List Word) : (m.pushAll vs).eflags = m.eflags := by
  induction vs generalizing m with
  | nil => rfl
  | cons v vs ih => exact ih (m.push v)

/-- The word for `esp` is skipped. -/
def Machine.popa (m : Machine) : Machine :=
  (((((((m.pop .edi).pop .esi).pop .ebp).drop).pop .ebx).pop .edx).pop .ecx).pop .eax

def Machine.ret (m : Machine) : Machine := { m.drop with eip := m.top }

theorem Machine.ret_reg (m : Machine) : m.ret.reg = Function.update m.reg .esp (m.reg .esp + 4#32) := rfl

theorem Machine.ret_eflags (m : Machine) : m.ret.eflags = m.eflags := rfl

/-- Without a change of privilege: EIP, CS and EFLAGS are popped. -/
def Machine.iret (m : Machine) : Machine :=
  { m.drop.drop.drop.setSeg .cs (m.drop.top.setWidth 16) with eip := m.top, eflags := .load m.drop.drop.top }

section
variable {φ : Type} (env : φ → Machine → Machine)

def Instr.exec (m : Machine) : Instr φ → Machine
  | .load d s off => m.setReg d (read32 m.mem (m.reg s + off))
  | .store d off s => { m with mem := write32 m.mem (m.reg d + off) (m.reg s) }
  | .movAx imm => m.setReg .eax (setLow (m.reg .eax) imm)
  | .movAxSeg g => m.setReg .eax (setLow (m.reg .eax) (m.seg g))
  | .movSeg g r => m.setSeg g ((m.reg r).setWidth 16)
  | .push r => m.push (m.reg r)
  | .pushByte imm => m.push (imm.signExtend 32)
  | .pop r => m.pop r
  | .pusha => m.pusha
  | .popa => m.popa
  | .pushf => m.push m.eflags.1
  | .popf => { m.drop with eflags := .load m.top }
  | .cli => { m with eflags := m.eflags.clearIntr }
  | .sti => { m with eflags := m.eflags.setIntr }
  | .addEsp imm => m.setReg .esp (m.reg .esp + imm)
  | .call f => env f m
  | .ret => m.ret
  | .iret => m.iret

def run (code : List (Instr φ)) (m : Machine) : Machine := code.foldl (Instr.exec env) m

theorem run_cons (i : Instr φ) (p : List (Instr φ)) (m : Machine) : run env (i :: p) m = run env p (i.exec env m) := rfl

theorem run_append (p q : List (Instr φ)) (m : Machine) : run env (p ++ q) m = run env q (run env p m) :=
  List.foldl_append

/-- What the processor does for an interrupt through a gate of its own ring, with the selector and the offset of the gate: EFLAGS,
CS and EIP are pushed, and the error code, if the interrupt has one. -/
def Machine.interrupt (m : Machine) (sel : BitVec 16) (offset : Word) (err : Option Word) : Machine :=
  let m' := m.pushAll ([m.eflags.1, (m.seg .cs).setWidth 32, m.eip] ++ err.toList)
  { m'.setSeg .cs sel with eip := offset, eflags := m.eflags.gate }

/-! ## The stack -/

/-- The words on the stack, the top one first. -/
def Machine.Stack (m : Machine) (ws : List Word) : Prop := Words m.mem (m.reg .esp) ws

section
variable {m : Machine} {v w : Word} {ws : List Word}

theorem Machine.Stack.push (h : m.Stack ws) (hlen : 4 * (ws.length + 1) ≤ 0x100000000) : (m.push v).Stack (v :: ws) := by
  rw [Machine.Stack, push_mem, push_reg, Function.update_self]
  exact Words.push h hlen

theorem Machine.Stack.top (h : m.Stack (w :: ws)) : m.top = w := h.1

theorem Machine.Stack.drop (h : m.Stack (w :: ws)) : m.drop.Stack ws := by
  rw [Machine.Stack, drop_mem, drop_reg, Function.update_self]
  exact h.2

theorem Machine.Stack.pop (h : m.Stack (w :: ws)) {r : Reg} (hr : r ≠ .esp) : m.pop r = m.drop.setReg r w ∧ (m.pop r).Stack ws := by
  have heq : m.pop r = m.drop.setReg r w := by rw [Machine.pop, h.top]
  refine ⟨heq, ?_⟩
  rw [heq, Machine.Stack, setReg_mem, setReg_reg, Function.update_of_ne hr.symm]
  exact h.drop

theorem Machine.Stack.setReg (h : m.Stack ws) {r : Reg} (hr : r ≠ .esp) (v : Word) : (m.setReg r v).Stack ws := by
  rw [Machine.Stack, setReg_mem, setReg_reg, Function.update_of_ne hr.symm]
  exact h

theorem Machine.Stack.setSeg (h : m.Stack ws) (g : Seg) (v : BitVec 16) : (m.setSeg g v).Stack ws := h

theorem Machine.Stack.pushAll (h : m.Stack ws) (vs : List Word) (hlen : 4 * (ws.length + vs.length) ≤ 0x100000000) :
    (m.pushAll vs).Stack (vs.reverse ++ ws) := by
  induction vs generalizing m ws with
  | nil => exact h
  | cons v vs ih =>
    rw [List.length_cons] at hlen
    have hnext := ih (h.push (v := v) (by omega)) (by rw [List.length_cons]; omega)
    rw [List.reverse_cons, List.append_assoc]
    exact hnext

end

end

/-- The registers that a C function gives back as it got them. -/
def calleeSaved : List Reg := [.ebx, .esp, .ebp, .esi, .edi]

/-- A C function that returns, as its caller sees it but for the memory. -/
structure Cdecl (f : Machine → Machine) : Prop where
  reg : ∀ m, ∀ r ∈ calleeSaved, (f m).reg r = m.reg r
  intr : ∀ m, (f m).eflags.intr = m.eflags.intr

end X86
