import RedMagic.Arch.Interrupt
import RedMagic.Arch.Threads

/-!
# Preemption (src/interrupt.s, src/timer.c:25-47, src/sched.c:59-79, src/switch.s)

A timer interrupt may end in another thread: `irq_handler` calls `timer_callback`, which calls `schedule`, which calls
`switch_to`. The thread that was interrupted is then in the middle of its handler. When a CPU is handed to it, `switch_to`
returns, the handler returns, and the second half of the stub gives the thread its registers back.

`Around before after` is all that is assumed of the C code of the handler, which is cut in two at its call of `switch_to`.
-/

namespace RedMagic.Arch

open X86 Lts

/-! ## The two halves of an interrupt -/

/-- The stub of `l` up to the call of its handler. -/
def Label.entryCode (l : Label) : List (Instr Handler) := l.pushes ++ stubEntry

theorem Label.code_eq (l : Label) : l.code = l.entryCode ++ .call l.handler :: stubExit := by
  simp [Label.code, Label.entryCode, commonStub]

/-- A C function that calls `switch_to` is `before` up to this call and `after` behind it. Its frame takes up to `depth` bytes;
`size` bytes above its argument are left alone, but for those that are `lent`. What `after` finds is what `switch_to` gives back:
the registers that a call must keep, and the frame. -/
structure Around (before after : Machine → Machine) (depth size : Nat) (lent : Set Word) : Prop where
  esp : ∀ m, ∃ n ≤ depth, (before m).reg .esp = m.reg .esp - BitVec.ofNat 32 n
  above : ∀ m, ∀ x ∈ cells (m.reg .esp + 4#32) size, x ∉ lent → (before m).mem x = m.mem x
  back : ∀ m q, Resumed (contextOf (before m)) (before m).mem q →
    (∀ x ∈ cells ((before m).reg .esp) (m.reg .esp + 4#32 - (before m).reg .esp).toNat, q.mem x = (before m).mem x) →
    (after q).reg .esp = m.reg .esp ∧ ∀ x ∈ cells (m.reg .esp + 4#32) size, x ∉ lent → (after q).mem x = q.mem x

section
variable (env : Handler → Machine → Machine) (addr : Label → Word) (ismp : Bool) (before after : Machine → Machine)

/-- From the interrupt `l` to the call of `switch_to`. -/
def preempt (l : Label) (err : Option Word) (m : Machine) : Machine :=
  let e := initIdt addr ismp l.vector
  before (run env l.entryCode (m.interrupt e.sel e.offset err))

/-- From behind `switch_to` to the thread that was interrupted. -/
def resume (q : Machine) : Machine := run env stubExit (after q)

theorem run_entryCode (m : Machine) {l : Label} {sel : BitVec 16} {offset : Word} {err : Option Word}
    (herr : err.isSome = l.errCode) :
    run env l.entryCode (m.interrupt sel offset err) = entered (pushed m l sel offset err) := by
  rw [Label.entryCode, run_append, run_pushes herr, run_stubEntry]

end

section
variable {env : Handler → Machine → Machine} {before after : Machine → Machine} {m q : Machine} {depth size : Nat}
  {l : Label} {sel : BitVec 16} {offset : Word} {err : Option Word} {lent : Set Word}

theorem entered_pushed_esp (m : Machine) (l : Label) (sel : BitVec 16) (offset : Word) (err : Option Word) :
    (entered (pushed m l sel offset err)).reg .esp = m.reg .esp - 60#32 := by
  rw [entered_esp, pushed_reg, if_pos rfl]
  bv_omega

/-- What the stub has left on the stack for its second half, above the argument of the handler. -/
theorem words_entered (m : Machine) (l : Label) (sel : BitVec 16) (offset : Word) (err : Option Word) :
    Words (entered (pushed m l sel offset err)).mem (m.reg .esp - 56#32)
      (Registers.of m (l.vector.setWidth 32) (err.getD 0#32)).words := by
  have hnil : m.Stack [] := trivial
  have hq := stack_entered (stack_pushed hnil (by decide) l sel offset err) (by simp)
  have hptr : m.reg .esp - 56#32 = (entered (pushed m l sel offset err)).reg .esp + 4#32 := by
    rw [entered_pushed_esp]
    bv_omega
  rw [hptr]
  convert hq.2 using 2
  simp [Registers.words, Registers.of, pushed, Machine.pushAll_reg]

/-- The words that are pushed are all that changes. -/
theorem pushAll_mem (m : Machine) (vs : List Word) {x : Word} (hlen : 4 * vs.length < 0x100000000)
    (h : x ∉ cells (m.reg .esp - BitVec.ofNat 32 (4 * vs.length)) (4 * vs.length)) : (m.pushAll vs).mem x = m.mem x := by
  induction vs generalizing m with
  | nil => rfl
  | cons v vs ih =>
    rw [List.length_cons] at h hlen
    have hpush : (m.push v).reg .esp = m.reg .esp - 4#32 := by simp
    rw [mem_cells] at h
    rw [Machine.pushAll, List.foldl_cons, ← Machine.pushAll, ih _ (by omega)]
    · refine write32_of_notMem fun hc => h ?_
      rw [mem_cells] at hc
      bv_omega
    · rw [hpush, mem_cells]
      bv_omega

/-- The stub and the processor write the 60 bytes below the stack. -/
theorem entered_pushed_mem {m : Machine} {l : Label} {sel : BitVec 16} {offset : Word} {err : Option Word} {x : Word}
    (h : x ∉ cells (m.reg .esp - 60#32) 60) : (entered (pushed m l sel offset err)).mem x = m.mem x := by
  have hall (p : Machine) (w v : Word) : ((setSegs (((p.pusha.setReg .eax w).push w).setReg .eax
      (setLow w 0x10#16)) 0x10#16).push v).mem = ((p.pusha.push w).push v).mem := by simp [setSegs]
  have hpush : (pushed m l sel offset err).reg .esp = m.reg .esp - 20#32 := by rw [pushed_reg, if_pos rfl]
  rw [mem_cells] at h
  rw [entered, hall]
  refine (pushAll_mem (pushed m l sel offset err) [_, _, _, _, _, _, _, _, _, _] (by simp) ?_).trans
    (pushAll_mem m [_, _, _, _, _] (by simp) ?_)
  · rw [hpush, mem_cells]
    simp only [List.length_cons, List.length_nil]
    bv_omega
  · rw [mem_cells]
    simp only [List.length_cons, List.length_nil]
    bv_omega

/-- The frame of the handler, and the stack above it, are in the live part of the stack. -/
theorem mem_live_of_frame {base esp esp' x : Word} {n d : Nat} (hesp : esp' = esp - 60#32 - BitVec.ofNat 32 d)
    (hd : d + 60 ≤ (esp - base).toNat) (htop : (esp - base).toNat ≤ tStackSize)
    (hn : n ≤ d + 60 + (tStackSize - (esp - base).toNat)) (hx : x ∈ cells esp' n) : x ∈ liveCells base esp' := by
  have hsub : (esp' - base).toNat = (esp - base).toNat - 60 - d := by
    subst hesp
    bv_omega
  simp only [mem_cells, liveCells, tStackSize, Set.mem_ofPred_eq] at *
  bv_omega

/-- The second half of the interrupt, on a stack on which the registers have been left alone. -/
theorem resume_goesOn (l : Label) (err : Option Word) (hesp : (after q).reg .esp = m.reg .esp - 60#32)
    (hwords : Words (after q).mem (m.reg .esp - 56#32) (Registers.of m (l.vector.setWidth 32) (err.getD 0#32)).words) :
    GoesOn m (resume env after q) ∧ (resume env after q).mem = (after q).mem := by
  have harg : (after q).reg .esp + 4#32 = m.reg .esp - 56#32 := by
    rw [hesp]
    bv_omega
  have hstack : (after q).Stack
      (read32 (after q).mem ((after q).reg .esp) :: (Registers.of m (l.vector.setWidth 32) (err.getD 0#32)).words ++ []) := by
    rw [List.append_nil]
    refine ⟨rfl, ?_⟩
    rw [harg]
    exact hwords
  rw [resume, run_stubExit hstack]
  exact ⟨goesOn_left hesp, rfl⟩

/-- The handler, with `switch_to` in the middle, called on `e` with the stack of the interrupted code from `esp` on: what is
between its argument and the top of the stack comes back as it was, unless it is lent. -/
theorem Around.kept {e : Machine} {base esp : Word} (har : Around before after depth size lent) (hesp : e.reg .esp = esp - 60#32)
    (hroom : depth + 60 ≤ (esp - base).toNat) (htop : (esp - base).toNat ≤ tStackSize)
    (hsize : tStackSize + 56 ≤ (esp - base).toNat + size) (hlent : ∀ x ∈ cells base (esp - base).toNat, x ∉ lent)
    (hres : Resumed (contextOf (before e)) (before e).mem q)
    (hlive : ∀ x ∈ liveCells base ((before e).reg .esp), x ∉ lent → q.mem x = (before e).mem x) :
    (after q).reg .esp = e.reg .esp ∧
      ∀ x ∈ cells (esp - 56#32) (tStackSize + 56 - (esp - base).toNat), x ∉ lent → (after q).mem x = e.mem x := by
  obtain ⟨n, hn, hbefore⟩ := har.esp e
  rw [hesp] at hbefore
  have harg : e.reg .esp + 4#32 = esp - 56#32 := by
    rw [hesp]
    bv_omega
  -- the part of the stack below `esp` is not lent
  have hbelow : ∀ x ∈ liveCells base ((before e).reg .esp), x ∉ liveCells base esp → x ∉ lent := by
    intro x hx hnot
    refine hlent x ?_
    simp only [liveCells, Set.mem_ofPred_eq, mem_cells] at hx hnot ⊢
    omega
  have hframe : ∀ x ∈ cells ((before e).reg .esp) (e.reg .esp + 4#32 - (before e).reg .esp).toNat,
      q.mem x = (before e).mem x := by
    intro x hx
    have hin : x ∈ liveCells base ((before e).reg .esp) :=
      mem_live_of_frame hbefore (by omega) htop (by rw [hesp, hbefore]; bv_omega) hx
    refine hlive x hin (hbelow x hin fun hm => ?_)
    rw [hesp, hbefore, mem_cells] at hx
    simp only [liveCells, tStackSize, Set.mem_ofPred_eq] at hm htop
    bv_omega
  obtain ⟨hesp', hmem⟩ := har.back e q hres hframe
  have habove := har.above e
  rw [harg] at hmem habove
  refine ⟨hesp', fun x hx hl => ?_⟩
  have hcells : x ∈ cells (esp - 56#32) size := by
    rw [mem_cells] at hx ⊢
    omega
  have hin : x ∈ liveCells base ((before e).reg .esp) := by
    refine mem_live_of_frame hbefore (by omega) htop (n := n + 60 + (tStackSize - (esp - base).toNat)) (by omega) ?_
    rw [mem_cells] at hx ⊢
    simp only [tStackSize] at htop hx ⊢
    rw [hbefore]
    bv_omega
  rw [hmem x hcells hl, hlive x hin hl, habove x hcells hl]

/-- The interrupt as the interrupted code sees it, with `switch_to` in the middle: `base` is the start of the stack, and what is
lent of it is not below `esp`. -/
theorem goesOn_resume {addr : Label → Word} {ismp : Bool} {base : Word} (har : Around before after depth size lent)
    (herr : err.isSome = l.errCode) (hroom : depth + 60 ≤ (m.reg .esp - base).toNat)
    (htop : (m.reg .esp - base).toNat ≤ tStackSize) (hsize : tStackSize + 56 ≤ (m.reg .esp - base).toNat + size)
    (hlent : ∀ x ∈ cells base (m.reg .esp - base).toNat, x ∉ lent)
    (hres : Resumed (contextOf (preempt env addr ismp before l err m)) (preempt env addr ismp before l err m).mem q)
    (hlive : ∀ x ∈ liveCells base ((preempt env addr ismp before l err m).reg .esp), x ∉ lent →
      q.mem x = (preempt env addr ismp before l err m).mem x) :
    GoesOn m (resume env after q) ∧
      ∀ x ∈ liveCells base (m.reg .esp), x ∉ lent → (resume env after q).mem x = m.mem x := by
  have hesp := entered_pushed_esp m l (initIdt addr ismp l.vector).sel (initIdt addr ismp l.vector).offset err
  have hwords := words_entered m l (initIdt addr ismp l.vector).sel (initIdt addr ismp l.vector).offset err
  rw [preempt, run_entryCode env m herr] at hres hlive
  obtain ⟨hesp', hkept⟩ := har.kept hesp hroom htop hsize hlent hres hlive
  -- the registers that the stub has pushed are below the stack of the interrupted code, so not lent
  have hregs : Words (after q).mem (m.reg .esp - 56#32) (Registers.of m (l.vector.setWidth 32) (err.getD 0#32)).words := by
    refine hwords.congr fun x hx => ?_
    rw [mem_cells] at hx
    simp only [Registers.words, List.length_cons, List.length_nil] at hx
    refine hkept x ?_ (hlent x ?_)
    · rw [mem_cells]
      omega
    · rw [mem_cells]
      bv_omega
  obtain ⟨hon, hsame⟩ := resume_goesOn l err (hesp'.trans hesp) hregs
  refine ⟨hon, fun x hx hl => ?_⟩
  have hup : x ∉ cells (m.reg .esp - 60#32) 60 ∧ x ∈ cells (m.reg .esp - 56#32) (tStackSize + 56 - (m.reg .esp - base).toNat) := by
    rw [mem_cells, mem_cells]
    simp only [liveCells, tStackSize, Set.mem_ofPred_eq] at hx htop ⊢
    bv_omega
  rw [hsame, hkept x hup.2 hl, entered_pushed_mem hup.1]

end

/-! ## A preempted thread -/

section
variable {κ τ : Type} [DecidableEq κ] [DecidableEq τ] {k : Kernel τ} {s₀ s s₁ s₂ s₃ : Sys κ τ} {c c' : κ} {t u : τ}
  {env : Handler → Machine → Machine} {addr : Label → Word} {ismp : Bool} {before after : Machine → Machine} {depth size : Nat}
  {l : Label} {err : Option Word}

omit [DecidableEq κ] in
theorem machine_lend (s : Sys κ τ) (c c' : κ) (lend : Set Word) : (s.lend c lend).machine c' = s.machine c' := by
  rw [Sys.machine, Sys.machine, Sys.lend_core, Sys.lend_mem]

omit [DecidableEq τ] in
theorem machine_put (s : Sys κ τ) (c : κ) (m : Machine) : (s.put c m).machine c = m := by
  simp [Sys.put, Sys.machine]

omit [DecidableEq τ] in
theorem core_put (s : Sys κ τ) (c : κ) (m : Machine) : (s.put c m).core c = m.toCore := Function.update_self ..

/-- **Preemption is not seen by the thread.** A thread `t` is interrupted anywhere, and the handler of the interrupt, called by
the stub that the gate leads to, hands its CPU to a thread `u`. Whatever happens then, on any number of CPUs: when some CPU is
handed to `t` again and the handler returns, `t` goes on where it was interrupted, with all its registers and its flags. Its stack
is as it was but for the bytes that it had lent to others. -/
theorem preempted_thread_goes_on {codeAt : Word → Option (List (Instr Handler))} (hcode : codeAt (addr l) = some l.code)
    (hl : l ∈ gates ismp) (h17 : l.vector ≠ 17#8) (herr : err.isSome = pushesErrCode l.vector) (hboot : s₀.Boot)
    (hr : Reaches (step k) (Ok k) s₀ s) (hcur : s.cur c = some t) (har : Around before after depth size (s.lent t))
    (hroom : depth + 60 ≤ ((s.core c).reg .esp - k.kstackBase t).toNat)
    (htop : ((s.core c).reg .esp - k.kstackBase t).toNat ≤ tStackSize)
    (hsize : tStackSize + 56 ≤ ((s.core c).reg .esp - k.kstackBase t).toNat + size)
    (hlent : ∀ x ∈ cells (k.kstackBase t) ((s.core c).reg .esp - k.kstackBase t).toNat, x ∉ s.lent t)
    (hok : Ok k s (.work c (preempt env addr ismp before l err) (s.lent t)))
    (h1 : step k s (.work c (preempt env addr ismp before l err) (s.lent t)) = some s₁)
    (hok₁ : Ok k s₁ (.switchTo c u)) (h2 : step k s₁ (.switchTo c u) = some s₂) (hb : ComesBack k t u c s₂ c' s₃)
    (lend : Set Word) :
    ((initIdt addr ismp l.vector).present = true ∧
      codeAt (initIdt addr ismp l.vector).offset = some (l.entryCode ++ .call l.handler :: stubExit)) ∧
    ∃ s₄, step k s₃ (.work c' (resume env after) lend) = some s₄ ∧ GoesOn (s.machine c) (s₄.machine c') ∧
      ∀ x ∈ liveCells (k.kstackBase t) ((s.core c).reg .esp), x ∉ s.lent t → s₄.mem x = s.mem x := by
  rw [← errCode_eq_pushesErrCode h17] at herr
  have hi₁ := (reaches_inv hboot hr).step hok h1
  obtain rfl : (s.put c (preempt env addr ismp before l err (s.machine c))).lend c (s.lent t) = s₁ := Option.some.inj h1
  have hcur₁ : ((s.put c (preempt env addr ismp before l err (s.machine c))).lend c (s.lent t)).cur c = some t := by
    rw [Sys.lend_cur]
    exact hcur
  have hlent₁ : ((s.put c (preempt env addr ismp before l err (s.machine c))).lend c (s.lent t)).lent t = s.lent t := by
    have hput : (s.put c (preempt env addr ismp before l err (s.machine c))).cur c = some t := hcur
    simp only [Sys.lend, hput, Function.update_self]
  obtain ⟨hres, hlive⟩ := hb.resumed hi₁ hcur₁ hok₁ h2
  rw [machine_lend, machine_put, Sys.lend_mem] at hres
  rw [hlent₁, Sys.lend_core, Sys.lend_mem, core_put] at hlive
  obtain ⟨hon, hstack⟩ := goesOn_resume (m := s.machine c) har herr hroom htop hsize hlent hres hlive
  refine ⟨?_, (s₃.put c' (resume env after (s₃.machine c'))).lend c' lend, rfl, ?_, fun x hx hx' => ?_⟩
  · rw [initIdt_gate addr hl, offset_gate, hcode, Label.code_eq]
    exact ⟨(by decide : (0x8E#8).getLsbD 7 = true), rfl⟩
  · rw [machine_lend, machine_put]
    exact hon
  · rw [Sys.lend_mem]
    exact hstack x hx hx'

end

/-! ## A run in which a thread is preempted -/

/-- A handler that calls `switch_to(prev, next)` and does nothing else. -/
def callsSwitch (prev next : Word) (m : Machine) : Machine := m.pushAll [next, prev, 0#32]

def dropArgs (q : Machine) : Machine := q.setReg .esp (q.reg .esp + 8#32)

theorem callsSwitch_esp (prev next : Word) (m : Machine) : (callsSwitch prev next m).reg .esp = m.reg .esp - 12#32 := by
  simp [callsSwitch, Machine.pushAll_reg]

theorem around_callsSwitch (prev next : Word) (lent : Set Word) : Around (callsSwitch prev next) dropArgs 12 0x1000 lent where
  esp m := ⟨12, le_rfl, callsSwitch_esp prev next m⟩
  above m x hx _ := by
    refine pushAll_mem m _ (by simp) ?_
    simp only [mem_cells, List.length_cons, List.length_nil] at hx ⊢
    bv_omega
  back m q hres _ := by
    have hesp : q.reg .esp = m.reg .esp - 12#32 + 4#32 := hres.esp.trans (by rw [contextOf, callsSwitch_esp])
    refine ⟨?_, fun _ _ _ => rfl⟩
    rw [dropArgs, Machine.setReg_reg, Function.update_self, hesp]
    bv_omega

section
variable (addr : Label → Word) (ismp : Bool) {l : Label} {err : Option Word} (m : Machine) (prev next : Word)

theorem preempt_callsSwitch (herr : err.isSome = l.errCode) :
    (preempt (fun _ => id) addr ismp (callsSwitch prev next) l err m).reg .esp = m.reg .esp - 72#32 ∧
      (preempt (fun _ => id) addr ismp (callsSwitch prev next) l err m).Stack [0#32, prev, next] ∧
      ∀ x, x ∉ cells (m.reg .esp - 72#32) 72 →
        (preempt (fun _ => id) addr ismp (callsSwitch prev next) l err m).mem x = m.mem x := by
  rw [preempt, run_entryCode _ m herr]
  have hesp := entered_pushed_esp m l (initIdt addr ismp l.vector).sel (initIdt addr ismp l.vector).offset err
  refine ⟨?_, ?_, fun x hx => ?_⟩
  · rw [callsSwitch_esp, hesp]
    bv_omega
  · have hnil : (entered (pushed m l (initIdt addr ismp l.vector).sel (initIdt addr ismp l.vector).offset err)).Stack [] := trivial
    exact hnil.pushAll [next, prev, 0#32] (by simp)
  · rw [mem_cells] at hx
    rw [callsSwitch, pushAll_mem _ _ (by simp)]
    · refine entered_pushed_mem ?_
      rw [mem_cells]
      bv_omega
    · rw [hesp, mem_cells]
      simp only [List.length_cons, List.length_nil]
      bv_omega

end

/-- The first half of a timer interrupt of the first thread, with a switch to the second one. -/
def timerSwitch : Machine → Machine :=
  preempt (fun _ => id) (fun l => l.vector.setWidth 32) false (callsSwitch 0x1000#32 0x2000#32) (.irq 0) none

/-- The first thread of `callingSys` is interrupted. Its node is in a wait queue. -/
def preemptedSys : Sys Unit Bool := (callingSys.put () (timerSwitch (callingSys.machine ()))).lend () waitNode

theorem ok_timerSwitch : Ok twoThreads callingSys (.work () timerSwitch waitNode) := by
  obtain ⟨-, -, hmem⟩ := preempt_callsSwitch (l := .irq 0) (fun l => l.vector.setWidth 32) false (callingSys.machine ()) 0x1000#32
    0x2000#32 (Option.isSome_none : (none : Option Word).isSome = false)
  rw [show (callingSys.machine ()).reg .esp = 0x10800#32 from callingSys_esp] at hmem
  have hapart (a : Word) (n : Nat) (h : n ≤ (0x10800#32 - 72#32 - a).toNat) (h' : 72 ≤ (a - (0x10800#32 - 72#32)).toNat) :
      ∀ x ∈ cells a n, (timerSwitch (callingSys.machine ())).mem x = callingSys.mem x :=
    fun x hx => hmem x (apart_cells h h' x hx)
  rintro (_ | _) -
  · exact ⟨hapart 0x1000#32 24 (by decide) (by decide), fun h => absurd rfl h⟩
  · exact ⟨hapart 0x2000#32 24 (by decide) (by decide), fun _ x hx _ => hapart 0x20000#32 tStackSize (by decide) (by decide) x hx⟩

theorem preemptedSys_made : preemptedSys.made = [true, false] := (Sys.lend_made ..).trans callingSys_made

theorem preemptedSys_lent : preemptedSys.lent false = waitNode := rfl

theorem ok_preemptedSys : Ok twoThreads preemptedSys (.switchTo () true) := by
  obtain ⟨hesp, hstack, -⟩ := preempt_callsSwitch (l := .irq 0) (fun l => l.vector.setWidth 32) false (callingSys.machine ())
    0x1000#32 0x2000#32 (Option.isSome_none : (none : Option Word).isSome = false)
  have hcore : (preemptedSys.core ()).reg .esp = 0x107B8#32 := by
    rw [preemptedSys, Sys.lend_core, core_put]
    exact hesp.trans (by rw [show (callingSys.machine ()).reg .esp = 0x10800#32 from callingSys_esp]; decide)
  refine ⟨?_, fun c' hc' => absurd rfl hc', false, ?_, ?_, ?_, ?_, ?_⟩
  · rw [preemptedSys_made]
    exact List.mem_cons_self
  · rw [preemptedSys, Sys.lend_cur]
    exact callingSys_cur
  · rw [preemptedSys, Sys.lend_core, Sys.lend_mem, core_put]
    exact hstack.2.1
  · rw [preemptedSys, Sys.lend_core, Sys.lend_mem, core_put]
    have h8 := hstack.2.2.1
    rw [BitVec.add_assoc] at h8
    exact h8
  · rw [hcore]
    exact ⟨by decide, by decide⟩
  · rw [hcore, preemptedSys_lent]
    exact not_mem_waitNode (by decide) (by decide)

/-- The second thread unlinks the node of the preempted one before it hands the CPU back. -/
theorem preempted_thread_goes_on_timer :
    callingSys.cur () = some false ∧ ∃ s₃ s₄ : Sys Unit Bool,
      ComesBack twoThreads false true () (handOver preemptedSys true) () s₃ ∧
      step twoThreads s₃ (.work () (resume (fun _ => id) dropArgs) waitNode) = some s₄ ∧
      GoesOn (callingSys.machine ()) (s₄.machine ()) := by
  have hcur := handOver_cur preemptedSys true
  have hrun := unlinked_reached hcur ((handOver_lent ..).trans preemptedSys_lent)
  have hok := ok_unlinked ((handOver_made ..).trans preemptedSys_made) hcur
  have hback : ComesBack twoThreads false true () (handOver preemptedSys true) () _ :=
    .later (by decide) hrun hok rfl rfl
  obtain ⟨-, s₄, hstep, hon, -⟩ := preempted_thread_goes_on (codeByVector_vector (.irq 0)) (by decide) (by decide) rfl bootSys_boot
    callingSys_reached callingSys_cur (around_callsSwitch 0x1000#32 0x2000#32 _) (by decide) (by decide) (by decide)
    (fun x hx => not_mem_waitNode (by decide) (by decide) x hx) ok_timerSwitch rfl ok_preemptedSys rfl hback waitNode
  exact ⟨callingSys_cur, _, s₄, hback, hstep, hon⟩

end RedMagic.Arch
