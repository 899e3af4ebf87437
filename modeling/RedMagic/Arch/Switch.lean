import RedMagic.Lib.X86

/-!
# `switch_to`, `switch_to_init` and the first frame of a thread (src/switch.s, src/task.c:183-243)

| here | there |
| --- | --- |
| `Context`, `contextAt` | `thread_context_t` (`task.h:33-40`), read at its address |
| `switchTo`, `switchToInit` | `switch_to`, `switch_to_init` (`switch.s:18-45`, `:51-66`), instruction by instruction |
| `createThread` | what `__create_thread` writes to the context and to the stack of the new thread (`task.c:189`, `:210-229`) |

`preempt_enable` is a C function: it keeps to the calling convention, and on the stack it is called on it writes below `esp` only.
-/

namespace RedMagic.Arch

open X86

/-! ## The code -/

inductive Extern where
  | preemptEnable
deriving DecidableEq, Repr

/-- `mov esp, [eax + 0]` … `ret`, the end of both routines. -/
def loadContext : List (Instr Extern) :=
  [.load .esp .eax 0#32, .load .ebp .eax 4#32, .load .ebx .eax 8#32, .load .esi .eax 12#32, .load .edi .eax 16#32,
    .load .eax .eax 20#32, .push .eax, .popf, .call .preemptEnable, .ret]

/-- `mov [eax + 0], esp` … `mov [eax + 20], ecx`. -/
def saveContext : List (Instr Extern) :=
  [.store .eax 0#32 .esp, .store .eax 4#32 .ebp, .store .eax 8#32 .ebx, .store .eax 12#32 .esi, .store .eax 16#32 .edi,
    .pushf, .pop .ecx, .store .eax 20#32 .ecx]

def switchTo : List (Instr Extern) :=
  .load .eax .esp 4#32 :: saveContext ++ .load .eax .esp 8#32 :: loadContext

def switchToInit : List (Instr Extern) := .load .eax .esp 4#32 :: loadContext

structure Context where
  esp : Word
  ebp : Word
  ebx : Word
  esi : Word
  edi : Word
  eflags : Word
deriving DecidableEq, Repr

def contextAt (m : Mem) (c : Word) : Context :=
  ⟨read32 m (c + 0#32), read32 m (c + 4#32), read32 m (c + 8#32), read32 m (c + 12#32), read32 m (c + 16#32), read32 m (c + 20#32)⟩

/-- The context in the memory that is written for the machine `m`. -/
def contextOf (m : Machine) : Context :=
  ⟨m.reg .esp, m.reg .ebp, m.reg .ebx, m.reg .esi, m.reg .edi, m.eflags.1⟩


/-! ## What the code does -/

section
variable (preemptEnable : Machine → Machine)

def env : Extern → Machine → Machine
  | .preemptEnable => preemptEnable

/-- The machine when `loadContext` calls `preempt_enable`. -/
def loaded (m : Machine) (k : Context) : Machine :=
  let m' := ((((((m.setReg .esp k.esp).setReg .ebp k.ebp).setReg .ebx k.ebx).setReg .esi k.esi).setReg .edi k.edi).setReg .eax
    k.eflags)
  { m' with mem := write32 m.mem (k.esp - 4#32) k.eflags, eflags := .load k.eflags }

theorem run_loadContext (m : Machine) :
    run (env preemptEnable) loadContext m = (preemptEnable (loaded m (contextAt m.mem (m.reg .eax)))).ret := by
  simp [run, loadContext, Instr.exec, env, contextAt, loaded]

/-- The memory after `saveContext`; the flags stay below the stack, too. -/
def savedMem (m : Machine) (c : Word) : Mem :=
  let k := contextOf m
  let mem := write32 m.mem (c + 0#32) k.esp
  let mem := write32 mem (c + 4#32) k.ebp
  let mem := write32 mem (c + 8#32) k.ebx
  let mem := write32 mem (c + 12#32) k.esi
  let mem := write32 mem (c + 16#32) k.edi
  write32 (write32 mem (k.esp - 4#32) k.eflags) (c + 20#32) k.eflags

theorem run_saveContext (m : Machine) :
    run (env preemptEnable) saveContext m = { m.setReg .ecx m.eflags.1 with mem := savedMem m (m.reg .eax) } := by
  simp [run, saveContext, Instr.exec, savedMem, contextOf, Machine.pop, Machine.setReg]

/-- The two arguments are read from the stack of the caller, the second one after its context is written. -/
theorem run_switchTo (m : Machine) :
    ∃ m', m'.mem = savedMem m (read32 m.mem (m.reg .esp + 4#32)) ∧
      run (env preemptEnable) switchTo m =
        (preemptEnable (loaded m' (contextAt m'.mem (read32 m'.mem (m.reg .esp + 8#32))))).ret := by
  rw [switchTo, run_append, run_cons, run_cons, run_saveContext, run_loadContext]
  simp only [Instr.exec, Machine.setReg_reg, Machine.setReg_mem, Function.update_self]
  exact ⟨_, rfl, rfl⟩

theorem run_switchToInit (m : Machine) :
    ∃ m', m'.mem = m.mem ∧ run (env preemptEnable) switchToInit m =
      (preemptEnable (loaded m' (contextAt m.mem (read32 m.mem (m.reg .esp + 4#32))))).ret := by
  rw [switchToInit, run_cons, run_loadContext]
  exact ⟨m.setReg .eax (read32 m.mem (m.reg .esp + 4#32)), rfl, by simp [Instr.exec]⟩

end

/-! ## Contexts and stacks -/

/-- `T_STACK_SIZE` -/
def tStackSize : Nat := 0x1000

def contextCells (c : Word) : Set Word := cells c 24

def stackCells (base : Word) : Set Word := cells base tStackSize

/-- The bytes of a stack from `esp` up. -/
def liveCells (base esp : Word) : Set Word := { x | (esp - base).toNat ≤ (x - base).toNat ∧ (x - base).toNat < tStackSize }

/-- What must not be written below `esp` on the stack of `t`: the contexts, the other stacks, and the stack itself from `esp` up. -/
def Guarded {τ : Type} (context kstackBase : τ → Word) (t : τ) (esp x : Word) : Prop :=
  (∃ u, x ∈ contextCells (context u)) ∨ (∃ u, u ≠ t ∧ x ∈ stackCells (kstackBase u)) ∨ x ∈ liveCells (kstackBase t) esp

/-- Where the threads of the kernel have their contexts and their stacks, and the C code that `switch.s` calls or returns to.
`preempt_enable` uses up to `depth` bytes of the stack it is called on. -/
structure Kernel (τ : Type) where
  context : τ → Word
  kstackBase : τ → Word
  finishThread : Word
  preemptEnable : Machine → Machine
  depth : Nat
  depth_le : depth + 16 ≤ tStackSize
  contexts_apart : ∀ t u, t ≠ u → Apart (contextCells (context t)) (contextCells (context u))
  stacks_apart : ∀ t u, t ≠ u → Apart (stackCells (kstackBase t)) (stackCells (kstackBase u))
  context_stack : ∀ t u, Apart (contextCells (context t)) (stackCells (kstackBase u))
  cdecl : Cdecl preemptEnable
  footprint : ∀ (m : Machine) (t : τ), depth ≤ (m.reg .esp - kstackBase t).toNat →
    (m.reg .esp - kstackBase t).toNat ≤ tStackSize → ∀ x, Guarded context kstackBase t (m.reg .esp) x →
      (preemptEnable m).mem x = m.mem x

section
variable {τ : Type}

/-- The end of the stack of `t`. -/
def Kernel.top (k : Kernel τ) (t : τ) : Word := k.kstackBase t + BitVec.ofNat 32 tStackSize

/-- The stack of the new thread is what a call of `fn` with the argument `arg` would have left, with `__finish_thread` to
return to. -/
def createThread (k : Kernel τ) (m : Mem) (t : τ) (fn arg : Word) : Mem :=
  let c := k.context t
  let top := k.top t
  let m : Mem := fun x => if (x - c).toNat < 24 then 0 else m x
  let m := write32 m (top - 4#32) arg
  let m := write32 m (top - 8#32) k.finishThread
  let m := write32 m (top - 12#32) fn
  write32 (write32 m (c + 0#32) (top - 12#32)) (c + 20#32) 0x200#32

/-- `esp` is in the stack of `t`, with room for the three words that `switch_to` is called with and for what it does below. -/
structure Kernel.Fits (k : Kernel τ) (t : τ) (esp : Word) : Prop where
  below : k.depth + 4 ≤ (esp - k.kstackBase t).toNat
  above : (esp - k.kstackBase t).toNat + 12 ≤ tStackSize

/-- Thread `t` has the context `y`, and on its stack what is there in `w`, but for the bytes `lent` that others may write. The
frame of its call of `switch_to` is not among them. -/
structure Kernel.Keeps (k : Kernel τ) (mem : Mem) (lent : Set Word) (t : τ) (y : Context) (w : Mem) : Prop where
  context : contextAt mem (k.context t) = y
  fits : k.Fits t y.esp
  frame : ∀ x ∈ cells y.esp 12, x ∉ lent
  stack : ∀ x ∈ liveCells (k.kstackBase t) y.esp, x ∉ lent → mem x = w x

end

section
variable {τ : Type} {k : Kernel τ} {t u v : τ} {esp x : Word}

theorem mem_stack_of_live {base : Word} (h : x ∈ liveCells base esp) : x ∈ stackCells base := h.2

/-- The words at and above `esp` that `switch_to` reads. -/
theorem Kernel.Fits.live (h : k.Fits t esp) {j : Word} (hj : j.toNat + 4 ≤ 12) (hx : x ∈ cells (esp + j) 4) :
    x ∈ liveCells (k.kstackBase t) esp := by
  have habove := h.above
  rw [mem_cells] at hx
  simp only [liveCells, tStackSize, Set.mem_ofPred_eq] at habove ⊢
  bv_omega

/-- The word below `esp` that `pushf` and `push` write. -/
theorem Kernel.Fits.scratch (h : k.Fits t esp) (hx : x ∈ cells (esp - 4#32) 4) :
    x ∈ stackCells (k.kstackBase t) ∧ x ∉ liveCells (k.kstackBase t) esp := by
  have hbelow := h.below
  have habove := h.above
  rw [mem_cells] at hx
  simp only [liveCells, stackCells, mem_cells, tStackSize, Set.mem_ofPred_eq] at habove ⊢
  bv_omega

/-- The memory that `saveContext` leaves alone. -/
theorem savedMem_of_notMem {m : Machine} {c : Word} (hc : x ∉ contextCells c) (hp : x ∉ cells (m.reg .esp - 4#32) 4) :
    savedMem m c x = m.mem x := by
  have hk (k : Word) (h : k.toNat + 4 ≤ 24) : x ∉ cells (c + k) 4 := fun hx => hc (mem_cells_of_add hx h)
  simp only [savedMem, contextOf]
  rw [write32_of_notMem (hk _ (by decide)), write32_of_notMem hp, write32_of_notMem (hk _ (by decide)),
    write32_of_notMem (hk _ (by decide)), write32_of_notMem (hk _ (by decide)), write32_of_notMem (hk _ (by decide)),
    write32_of_notMem (hk _ (by decide))]

theorem contextAt_savedMem {m : Machine} {c : Word} (h : ∀ x ∈ contextCells c, x ∉ cells (m.reg .esp - 4#32) 4) :
    contextAt (savedMem m c) c = contextOf m := by
  have hp (mem : Mem) (w j : Word) (hj : j.toNat + 4 ≤ 24) :
      read32 (write32 mem (m.reg .esp - 4#32) w) (c + j) = read32 mem (c + j) :=
    read32_write32_outside fun x hx => h x (mem_cells_of_add hx hj)
  simp (disch := decide) only [contextAt, savedMem, contextOf, hp, read32_write32_add, read32_write32]

/-- The word below `esp` is not guarded. -/
theorem Kernel.Fits.not_guarded (h : k.Fits t esp) (hx : Guarded k.context k.kstackBase t esp x) :
    x ∉ cells (esp - 4#32) 4 := by
  intro hc
  obtain ⟨hstack, hlive⟩ := h.scratch hc
  rcases hx with ⟨u, hu⟩ | ⟨u, hne, hu⟩ | hx
  · exact k.context_stack u t _ hu hstack
  · exact k.stacks_apart u t hne _ hu hstack
  · exact hlive hx

/-- `y` is the thread with the context `x`, gone on behind its call of `switch_to` (or, if it is new, at its first
instruction). -/
structure Resumed (x : Context) (mem : Mem) (y : Machine) : Prop where
  eip : y.eip = read32 mem x.esp
  esp : y.reg .esp = x.esp + 4#32
  ebp : y.reg .ebp = x.ebp
  ebx : y.reg .ebx = x.ebx
  esi : y.reg .esi = x.esi
  edi : y.reg .edi = x.edi
  intr : y.eflags.intr = x.eflags.getLsbD 9

/-- The end of `switch_to` and `switch_to_init`: thread `u` gets the CPU, and nothing that is guarded is written. -/
theorem resume_spec {m : Machine} {y : Context} (hfits : k.Fits u y.esp) :
    Resumed y m.mem (k.preemptEnable (loaded m y)).ret ∧
      ∀ x, Guarded k.context k.kstackBase u y.esp x → (k.preemptEnable (loaded m y)).ret.mem x = m.mem x := by
  have hesp : (k.preemptEnable (loaded m y)).reg .esp = y.esp := by
    rw [k.cdecl.reg _ .esp (by decide)]
    simp [loaded]
  have hreg (r : Reg) (hr : r ∈ calleeSaved) (hne : r ≠ .esp) :
      (k.preemptEnable (loaded m y)).ret.reg r = (loaded m y).reg r := by
    rw [Machine.ret_reg, Function.update_of_ne hne, k.cdecl.reg _ r hr]
  have hmem : ∀ x, Guarded k.context k.kstackBase u y.esp x → (k.preemptEnable (loaded m y)).mem x = m.mem x := by
    intro x hx
    have hl : (loaded m y).reg .esp = y.esp := by simp [loaded]
    have hfoot := k.footprint (loaded m y) u
    rw [hl] at hfoot
    rw [hfoot (by have := hfits.below; omega) (by have := hfits.above; omega) x hx]
    exact write32_of_notMem (hfits.not_guarded hx)
  refine ⟨⟨?_, ?_, ?_, ?_, ?_, ?_, ?_⟩, hmem⟩
  · show read32 (k.preemptEnable (loaded m y)).mem ((k.preemptEnable (loaded m y)).reg .esp) = _
    rw [hesp]
    refine read32_congr fun x hx => hmem x (.inr (.inr ?_))
    exact hfits.live (j := 0#32) (by decide) (by simpa using hx)
  · rw [Machine.ret_reg, Function.update_self, hesp]
  · rw [hreg .ebp (by decide) (by decide)]
    simp [loaded]
  · rw [hreg .ebx (by decide) (by decide)]
    simp [loaded]
  · rw [hreg .esi (by decide) (by decide)]
    simp [loaded]
  · rw [hreg .edi (by decide) (by decide)]
    simp [loaded]
  · rw [Machine.ret_eflags, k.cdecl.intr]
    simp [loaded]

/-! ## Contexts in memory -/

theorem contextAt_congr {mem mem' : Mem} {c : Word} (h : ∀ x ∈ contextCells c, mem' x = mem x) :
    contextAt mem' c = contextAt mem c := by
  have hk (j : Word) (hj : j.toNat + 4 ≤ 24) : read32 mem' (c + j) = read32 mem (c + j) :=
    read32_congr fun x hx => h x (mem_cells_of_add hx hj)
  simp (disch := decide) only [contextAt, hk]

/-- Writes elsewhere do not matter to a thread. -/
theorem Kernel.Keeps.congr {mem mem' w : Mem} {lent : Set Word} {y : Context} (h : k.Keeps mem lent t y w)
    (hc : ∀ x ∈ contextCells (k.context t), mem' x = mem x)
    (hs : ∀ x ∈ liveCells (k.kstackBase t) y.esp, x ∉ lent → mem' x = mem x) : k.Keeps mem' lent t y w where
  context := (contextAt_congr hc).trans h.context
  fits := h.fits
  frame := h.frame
  stack x hx hl := (hs x hx hl).trans (h.stack x hx hl)

section
variable {m : Machine} {lent : Set Word}

theorem Kernel.Fits.savedMem_live (h : k.Fits t (m.reg .esp)) (hx : x ∈ liveCells (k.kstackBase t) (m.reg .esp)) :
    savedMem m (k.context t) x = m.mem x := by
  refine savedMem_of_notMem (fun hc => ?_) fun hp => (h.scratch hp).2 hx
  exact k.context_stack t t _ hc (mem_stack_of_live hx)

/-- `switch_to` has saved the caller. -/
theorem Kernel.Fits.saved (h : k.Fits t (m.reg .esp)) (hframe : ∀ x ∈ cells (m.reg .esp) 12, x ∉ lent) :
    k.Keeps (savedMem m (k.context t)) lent t (contextOf m) m.mem where
  context := contextAt_savedMem fun _ hx hp => k.context_stack t t _ hx (h.scratch hp).1
  fits := h
  frame := hframe
  stack _ hx _ := h.savedMem_live hx

/-- … and has left the others alone. -/
theorem Kernel.Fits.saved_other (h : k.Fits t (m.reg .esp)) (hv : v ≠ t) {w : Mem} {y : Context}
    (hk : k.Keeps m.mem lent v y w) : k.Keeps (savedMem m (k.context t)) lent v y w := by
  refine hk.congr (fun x hx => ?_) fun x hx _ => ?_
  · refine savedMem_of_notMem (k.contexts_apart v t hv _ hx) fun hp => ?_
    exact k.context_stack v t _ hx (h.scratch hp).1
  · refine savedMem_of_notMem (fun hc => ?_) fun hp => ?_
    · exact k.context_stack t v _ hc (mem_stack_of_live hx)
    · exact k.stacks_apart v t hv _ (mem_stack_of_live hx) (h.scratch hp).1

/-- The second argument is still there. -/
theorem Kernel.Fits.saved_arg (h : k.Fits t (m.reg .esp)) :
    read32 (savedMem m (k.context t)) (m.reg .esp + 8#32) = read32 m.mem (m.reg .esp + 8#32) := by
  exact read32_congr fun x hx => h.savedMem_live (h.live (by decide) hx)

end

/-! ## A new thread -/

/-- The context of a thread that has not run yet. -/
def Kernel.firstContext (k : Kernel τ) (t : τ) : Context := ⟨k.top t - 12#32, 0#32, 0#32, 0#32, 0#32, 0x200#32⟩

theorem Kernel.fits_first (k : Kernel τ) (t : τ) : k.Fits t (k.firstContext t).esp := by
  have hd := k.depth_le
  have hsub : (k.top t - 12#32 - k.kstackBase t).toNat = tStackSize - 12 := by
    simp only [Kernel.top, tStackSize]
    bv_omega
  constructor
  · show k.depth + 4 ≤ (k.top t - 12#32 - k.kstackBase t).toNat
    omega
  · show (k.top t - 12#32 - k.kstackBase t).toNat + 12 ≤ tStackSize
    rw [hsub]
    decide

theorem mem_stack_of_frame {j : Word} (hj : 4 ≤ j.toNat ∧ j.toNat ≤ 12) (hx : x ∈ cells (k.top t - j) 4) :
    x ∈ stackCells (k.kstackBase t) := by
  simp only [stackCells, Kernel.top, tStackSize, mem_cells] at hx ⊢
  bv_omega

theorem createThread_of_notMem {mem : Mem} {fn arg : Word} (hc : x ∉ contextCells (k.context t))
    (hs : x ∉ stackCells (k.kstackBase t)) : createThread k mem t fn arg x = mem x := by
  have hk (j : Word) (h : j.toNat + 4 ≤ 24) : x ∉ cells (k.context t + j) 4 := fun hx => hc (mem_cells_of_add hx h)
  have hp (j : Word) (h : 4 ≤ j.toNat ∧ j.toNat ≤ 12) : x ∉ cells (k.top t - j) 4 := fun hx => hs (mem_stack_of_frame h hx)
  simp only [createThread]
  rw [write32_of_notMem (hk _ (by decide)), write32_of_notMem (hk _ (by decide)), write32_of_notMem (hp _ (by decide)),
    write32_of_notMem (hp _ (by decide)), write32_of_notMem (hp _ (by decide))]
  exact if_neg hc

theorem contextAt_createThread (k : Kernel τ) (mem : Mem) (t : τ) (fn arg : Word) :
    contextAt (createThread k mem t fn arg) (k.context t) = k.firstContext t := by
  have hp (mem : Mem) (w i j : Word) (hi : 4 ≤ i.toNat ∧ i.toNat ≤ 12) (hj : j.toNat + 4 ≤ 24) :
      read32 (write32 mem (k.top t - i) w) (k.context t + j) = read32 mem (k.context t + j) := by
    refine read32_write32_outside fun x hx hc => ?_
    exact k.context_stack t t _ (mem_cells_of_add hx hj) (mem_stack_of_frame hi hc)
  have hz (j : Word) (hj : j.toNat + 4 ≤ 24) :
      read32 (fun x => if (x - k.context t).toNat < 24 then 0 else mem x) (k.context t + j) = 0#32 := by
    refine (read32_congr (m := fun _ => 0) fun x hx => ?_).trans (by decide : 0#8 ++ 0#8 ++ 0#8 ++ 0#8 = 0#32)
    exact if_pos (mem_cells_of_add hx hj : x ∈ cells (k.context t) 24)
  simp (disch := decide) only [contextAt, createThread, Kernel.firstContext, hp, hz, read32_write32_add, read32_write32]

/-- The three words on the stack of a new thread. -/
theorem frame_createThread (k : Kernel τ) (mem : Mem) (t : τ) (fn arg : Word) :
    read32 (createThread k mem t fn arg) (k.top t - 12#32) = fn ∧
      read32 (createThread k mem t fn arg) (k.top t - 8#32) = k.finishThread ∧
      read32 (createThread k mem t fn arg) (k.top t - 4#32) = arg := by
  have hc (mem : Mem) (w i j : Word) (hi : 4 ≤ i.toNat ∧ i.toNat ≤ 12) (hj : j.toNat + 4 ≤ 24) :
      read32 (write32 mem (k.context t + j) w) (k.top t - i) = read32 mem (k.top t - i) := by
    refine read32_write32_outside fun x hx hx' => ?_
    exact k.context_stack t t _ (mem_cells_of_add hx' hj) (mem_stack_of_frame hi hx)
  have hs (mem : Mem) (w i j : Word) (hij : 4 ≤ (i - j).toNat) (hji : 4 ≤ (j - i).toNat) :
      read32 (write32 mem (k.top t - i) w) (k.top t - j) = read32 mem (k.top t - j) := by
    refine read32_write32_outside fun x hx hx' => ?_
    rw [mem_cells] at hx hx'
    bv_omega
  refine ⟨?_, ?_, ?_⟩ <;> simp (disch := decide) only [createThread, hc, hs, read32_write32]

theorem keeps_createThread (k : Kernel τ) (mem : Mem) (t : τ) (fn arg : Word) :
    k.Keeps (createThread k mem t fn arg) ∅ t (k.firstContext t) (createThread k mem t fn arg) :=
  ⟨contextAt_createThread k mem t fn arg, k.fits_first t, fun _ _ => Set.notMem_empty _, fun _ _ _ => rfl⟩

theorem Kernel.Keeps.createThread {mem w : Mem} {lent : Set Word} {y : Context} (h : k.Keeps mem lent v y w) (hv : v ≠ t)
    (fn arg : Word) : k.Keeps (createThread k mem t fn arg) lent v y w := by
  refine h.congr (fun x hx => ?_) fun x hx _ => ?_
  · exact createThread_of_notMem (k.contexts_apart v t hv _ hx)
      (k.context_stack v t _ hx)
  · have hst := mem_stack_of_live hx
    exact createThread_of_notMem (fun hc => k.context_stack t v _ hc hst)
      (k.stacks_apart v t hv _ hst)

/-! ## The switch -/

/-- A CPU on which the memory is `mem` is handed to thread `u` and goes on as `m`. -/
structure Kernel.Hands (k : Kernel τ) (mem : Mem) (u : τ) (m : Machine) : Prop where
  resumed : ∀ lent y w, k.Keeps mem lent u y w →
    Resumed y w m ∧ ∀ x ∈ liveCells (k.kstackBase u) y.esp, x ∉ lent → m.mem x = w x
  others : ∀ v, v ≠ u → ∀ lent y w, k.Keeps mem lent v y w → k.Keeps m.mem lent v y w

theorem hands_loaded {m : Machine} {lent : Set Word} {y : Context} {w : Mem} (h : k.Keeps m.mem lent u y w) :
    k.Hands m.mem u (k.preemptEnable (loaded m (contextAt m.mem (k.context u)))).ret := by
  rw [h.context]
  obtain ⟨hres, hmem⟩ := resume_spec (m := m) h.fits
  refine ⟨fun lent' y' w' h' => ?_, fun v hv lent' y' w' h' => h'.congr (fun x hx => ?_) fun x hx _ => ?_⟩
  · obtain rfl : y = y' := h.context.symm.trans h'.context
    refine ⟨{ hres with eip := hres.eip.trans (read32_congr fun x hx => ?_) }, fun x hx hl => ?_⟩
    · have hframe : x ∈ cells y.esp 12 := by
        rw [mem_cells] at hx ⊢
        omega
      exact h'.stack x (h'.fits.live (j := 0#32) (by decide) (by simpa using hx)) (h'.frame x hframe)
    · rw [hmem x (.inr (.inr hx)), h'.stack x hx hl]
  · exact hmem x (.inl ⟨v, hx⟩)
  · exact hmem x (.inr (.inl ⟨v, hv, mem_stack_of_live hx⟩))

end

end RedMagic.Arch
