import RedMagic.Heap.Memory
import RedMagic.Sched.Pick

/-!
# Creating tasks and threads (src/task.c:65-245, src/sched.c:277-309)

| here | there |
| --- | --- |
| `Kernel`          | the kernel heap and `mm_phys`, the run queues, `all_tasks`, the thread list of each task, and the fields of `task_t` and `thread_t` that are read again |
| `kmalloc`, `kfree`, `getZeroedPage` | `kmalloc`, `kfree` and `get_zeroed_page` (`mm.c:110-118`), as `Heap/Memory.lean` has them |
| `createThreadCore`, `createThread` | `__create_thread`, `create_thread` (`task.c:169-245`) |
| `prepareTask`, `createTaskCore` | `__create_task` (`task.c:87-167`), up to its thread and from there on |
| `createTask`, `createKernelTask` | `create_task`, `create_kernel_task` (`task.c:65-85`) |
| `addThreadToRq`, `addTaskToRq` | `add_thread_to_rq`, `add_task_to_rq` (`sched.c:277-309`) |

A pointer is its address. The callers use a NULL `task_t *` or `thread_t *` like any other, which reads and writes the words
around address 0: `Kernel.low` is the memory there. A call that stops at an `ASSERT` or does not return is an error of the
monad. The contents of a new stack, context, alarm and page directory are left out; no function here reads them.
-/

namespace RedMagic.Task

open Mm Heap Kmem Sched Fallible BestFit

/-! ## The structures (task.h, sched.h, mm.h) -/

/-- `sizeof(thread_t)`. -/
def threadSize : Nat := 76
/-- `sizeof(task_t)`. -/
def taskSize : Nat := 36
/-- `sizeof(mmc_t)`. -/
def mmcSize : Nat := 32
/-- `sizeof(rthread_list_t)`. -/
def rthreadListSize : Nat := 20
def tStackSize : Nat := 0x1000

/-- `offsetof(task_t, status)`, and `offsetof(thread_t, status)`. -/
def statusOffset : Nat := 4
/-- `offsetof(task_t, thread_list)`. -/
def threadListHead : Nat := 20
/-- `offsetof(thread_t, thread_list)`. -/
def threadListNode : Nat := 68

/-- `thread_state_t` as a word; other words are none of the states that are compared with. -/
def statusOfWord : Nat → Status
  | 0 => .init
  | 1 => .ready
  | 2 => .running
  | 3 => .blocked
  | _ => .complete

def statusWord : Status → Nat
  | .init => 0
  | .ready => 1
  | .running => 2
  | .blocked => 3
  | .complete => 4

theorem statusOfWord_eq_init {w : Nat} : statusOfWord w = .init ↔ w = 0 := by
  unfold statusOfWord
  split <;> simp_all

structure Kernel where
  mem : Kst
  /-- The queue of `cpuset[j]`. -/
  runq : Nat → List (Entry Nat)
  /-- The tasks of `all_tasks`. -/
  tasks : List Nat
  /-- The `thread_list` of a task. -/
  threads : Nat → List Nat
  taskStatus : Nat → Status
  taskId : Nat → Nat
  threadStatus : Nat → Status
  threadId : Nat → Nat
  /-- `id` of `alloc_task_id`. -/
  lastId : Nat
  /-- The words from address 0 on. -/
  low : Nat → Nat
  /-- An allocation has returned NULL; not part of the code. -/
  failed : Bool

/-- What `pick_processor` reads: `mpinfo`, and the index of the CPU the call runs on. -/
structure Smp where
  ismp : Bool
  ncpu : Nat
  self : Nat

def Kernel.statusOf (s : Kernel) : ThreadPtr Nat → Status
  | .thread t => s.threadStatus t
  | .null | .junk => statusOfWord (s.low statusOffset)

def Kernel.taskStatusOf (s : Kernel) (taskp : Nat) : Status :=
  if taskp = 0 then statusOfWord (s.low statusOffset) else s.taskStatus taskp

def Kernel.taskIdOf (s : Kernel) (taskp : Nat) : Nat := if taskp = 0 then s.low 0 else s.taskId taskp

def Kernel.threadIdOf (s : Kernel) (threadp : Nat) : Nat := if threadp = 0 then s.low 0 else s.threadId threadp

/-- `list_entry(taskp->thread_list.next, thread_t, thread_list)`. -/
def Kernel.firstThread (s : Kernel) (taskp : Nat) : Nat :=
  if taskp = 0 then u32 (s.low threadListHead + 2 ^ 32 - threadListNode)
  else
    match s.threads taskp with
    | t :: _ => t
    | [] => u32 (taskp + threadListHead + 2 ^ 32 - threadListNode)

/-- A `thread_t *` as an entry of a queue holds it. -/
def ptrOf (p : Nat) : Option Nat := if p = 0 then none else some p

abbrev KernelM := EStateM String Kernel

/-! ## Allocation -/

/-- A call on the memory. -/
def onMem {α : Type} (x : MemM α) : KernelM α := zoom Kernel.mem (fun st s => { s with mem := st }) x

def noteFailure (p : Nat) (s : Kernel) : Kernel := { s with failed := s.failed || p == 0 }

/-- An allocation, which is noted if it returns NULL. -/
def allocating (x : MemM Nat) : KernelM Nat := do
  let p ← onMem x
  modify (noteFailure p)
  return p

def kmalloc (size : Nat) : KernelM Nat := allocating (Kmem.kmalloc size)

def kfree (p : Nat) : KernelM Nat := onMem (Kmem.kfree p)

def getZeroedPage : KernelM Nat := allocating (getFreePages 1)

/-! ## Threads -/

def setThreadStatus (threadp : Nat) (st : Status) (s : Kernel) : Kernel :=
  if threadp = 0 then { s with low := Function.update s.low statusOffset (statusWord st) }
  else { s with threadStatus := Function.update s.threadStatus threadp st }

def setTaskStatus (taskp : Nat) (st : Status) (s : Kernel) : Kernel :=
  if taskp = 0 then { s with low := Function.update s.low statusOffset (statusWord st) }
  else { s with taskStatus := Function.update s.taskStatus taskp st }

/-- `threadp->thread_id = 1`, and `T_INIT` as its status. -/
def initThread (threadp : Nat) (s : Kernel) : Kernel :=
  { s with threadStatus := Function.update s.threadStatus threadp .init,
           threadId := Function.update s.threadId threadp 1 }

/-- `list_add_tail(&threadp->thread_list, &task->thread_list)`. -/
def addToTask (task threadp : Nat) (s : Kernel) : Kernel :=
  { s with threads := Function.update s.threads task (s.threads task ++ [threadp]) }

def createThreadCore (task : Nat) : KernelM Nat := do
  let threadp ← kmalloc threadSize
  if threadp = 0 then
    return 0
  else
    modify (initThread threadp)
    let stackp ← kmalloc tStackSize
    if stackp = 0 then
      let _ ← kfree threadp
      return 0
    else
      modify (addToTask task threadp)
      return threadp

/-- `list_add_tail(&ptr->runq, &cpu->runq)` on the queue that `pick_processor` chooses. -/
def enqueue (c : Smp) (ptr threadp : Nat) : KernelM Unit := fun s =>
  match pickProcessor s.statusOf c.ismp c.self s.runq c.ncpu with
  | none => .error "rq_calc_len_and_ready" s
  | some cpu => .ok () { s with runq := Function.update s.runq cpu (s.runq cpu ++ [⟨ptr, ptrOf threadp⟩]) }

def addThreadToRq (c : Smp) (threadp : Nat) : KernelM Nat := do
  let ptr ← kmalloc rthreadListSize
  if ptr = 0 then
    return 1
  else
    enqueue c ptr threadp
    modify (setThreadStatus threadp .ready)
    return 0

/-- `task` is the task of the running thread. -/
def createThread (c : Smp) (task : Nat) : KernelM Nat := do
  let thrp ← createThreadCore task
  -- the status is only logged
  let _ ← addThreadToRq c thrp
  return (← get).threadIdOf thrp

/-! ## Tasks -/

def allocTaskId : KernelM Nat := fun s => .ok (u32 (s.lastId + 1)) { s with lastId := u32 (s.lastId + 1) }

def setTaskId (taskp id : Nat) (s : Kernel) : Kernel := { s with taskId := Function.update s.taskId taskp id }

@[simp] theorem setTaskId_taskId (taskp id : Nat) (s : Kernel) : (setTaskId taskp id s).taskId taskp = id :=
  Function.update_self _ _ _

/-- `INIT_LIST_HEAD(&taskp->thread_list)`. -/
def initThreadList (taskp : Nat) (s : Kernel) : Kernel := { s with threads := Function.update s.threads taskp [] }

def addToTaskGroup (taskp : Nat) (s : Kernel) : Kernel := { s with tasks := s.tasks ++ [taskp] }

/-- The label `c_err`. -/
def cErr (taskp mmcp : Nat) : KernelM Nat := do
  if taskp ≠ 0 then
    let _ ← kfree taskp
  if mmcp ≠ 0 then
    let _ ← kfree mmcp
  return 0

/-- `verify_task_id` accepts every id. -/
def taskIdFor (taskId : Nat) : KernelM Nat := if taskId = 0 then allocTaskId else pure taskId

/-- `mm` and `addr_space`, or new ones for NULL. -/
def mmFor (mm : Nat) : KernelM Nat := if mm = 0 then kmalloc mmcSize else pure mm

def addrSpaceFor (addrSpace : Nat) : KernelM Nat := if addrSpace = 0 then getZeroedPage else pure addrSpace

/-- The address space of a task, and its empty thread list. -/
def prepareSpace (taskp mm addrSpace : Nat) : KernelM Nat := do
  let mmcp ← mmFor mm
  if mmcp = 0 then
    cErr taskp 0
  else
    let dir ← addrSpaceFor addrSpace
    if dir = 0 then
      -- only an `mmc_t` of the task's own is freed
      cErr taskp (if mm = 0 then mmcp else 0)
    else
      modify (initThreadList taskp)
      return taskp

def prepareTask (taskId mm addrSpace : Nat) : KernelM Nat := do
  let taskp ← kmalloc taskSize
  if taskp = 0 then
    cErr 0 0
  else
    modify (setTaskStatus taskp .init)
    let id ← taskIdFor taskId
    modify (setTaskId taskp id)
    if id = 0 then
      cErr taskp 0
    else
      prepareSpace taskp mm addrSpace

def createTaskCore (taskId mm addrSpace : Nat) : KernelM Nat := do
  let taskp ← prepareTask taskId mm addrSpace
  if taskp = 0 then
    return 0
  else
    let threadp ← createThreadCore taskp
    if threadp = 0 then
      -- a plain return: nothing is freed
      return 0
    else
      modify (addToTaskGroup taskp)
      return taskp

def assertInit (taskp : Nat) : KernelM Unit := fun s =>
  if s.taskStatusOf taskp = .init then .ok () s else .error "ASSERTION-FAILED: taskp->status == T_INIT" s

def addTaskToRq (c : Smp) (taskp : Nat) : KernelM Nat := do
  assertInit taskp
  let r ← addThreadToRq c ((← get).firstThread taskp)
  if r = 0 then
    modify (setTaskStatus taskp .ready)
    return 0
  else
    return 1

/-- `create_task` and `create_kernel_task` differ in the `mmc_t` they pass on. -/
def createTaskOn (c : Smp) (mm : Nat) : KernelM Nat := do
  let taskp ← createTaskCore 0 mm 0
  let _ ← addTaskToRq c taskp
  return (← get).taskIdOf taskp

def createTask (c : Smp) : KernelM Nat := createTaskOn c 0

def createKernelTask (c : Smp) (mmPhys : Nat) : KernelM Nat := createTaskOn c mmPhys

/-! ## Running a call -/

/-- The state a call leaves, whether or not it returns. -/
def stateAfter {α : Type} : EStateM.Result String Kernel α → Kernel
  | .ok _ s => s
  | .error _ s => s

@[simp] theorem stateAfter_ok {α : Type} (a : α) (s : Kernel) : stateAfter (.ok a s) = s := rfl

/-- What the first part of a call establishes and the second keeps. -/
theorem stateAfter_bind {α β : Type} {x : KernelM α} {f : α → KernelM β} {s : Kernel} {Q : Kernel → Prop}
    (hx : Q (stateAfter (x s))) (hf : ∀ a s', Q s' → Q (stateAfter (f a s'))) : Q (stateAfter ((x >>= f) s)) := by
  cases h : x s with
  | ok a s' =>
    rw [h] at hx
    rw [bind_ok h]
    exact hf a s' hx
  | error e s' =>
    rw [h] at hx
    rw [bind_error h]
    exact hx

/-! ## Calls from reachable states -/

section
variable {s : Kernel} {x : MemM Nat}

theorem allocating_run {p : Nat} {st : Kst} (h : x s.mem = .ok p st) :
    allocating x s = .ok p (noteFailure p { s with mem := st }) :=
  bind_ok (x := onMem x) (zoom_ok h)

theorem allocating_null (h : x s.mem = .ok 0 s.mem) : allocating x s = .ok 0 { s with failed := true } := by
  rw [allocating_run h]
  simp [noteFailure]

theorem allocating_ok {p : Nat} {st : Kst} (h : x s.mem = .ok p st) (hp : p ≠ 0) :
    allocating x s = .ok p { s with mem := st } := by
  rw [allocating_run h]
  simp [noteFailure, hp]

variable (hr : Reachable s.mem)
include hr

theorem kmalloc_run (size : Nat) (hsize : size < 2 ^ 32) :
    (kmalloc size s = .ok 0 { s with failed := true } ∧ ∀ rs, ¬ Served (.block size :: rs) s.mem) ∨
      ∃ p st', kmalloc size s = .ok p { s with mem := st' } ∧ Allocated s.mem st' p size := by
  rcases hr.kmalloc_run size hsize with ⟨hk, href⟩ | ⟨p, st', hk, ha, -⟩
  · exact .inl ⟨allocating_null hk, not_served_of_refuses hr.exhausted_iff href⟩
  · exact .inr ⟨p, st', allocating_ok hk ha.notNull, ha⟩

theorem getZeroedPage_run :
    (getZeroedPage s = .ok 0 { s with failed := true } ∧ ∀ rs, ¬ Served (.page :: rs) s.mem) ∨
      ∃ pg st', getZeroedPage s = .ok pg { s with mem := st' } ∧ GotPages s.mem st' pg 1 := by
  rcases hr.getFreePages_run Nat.one_pos with ⟨hp, hno⟩ | ⟨pg, st', hp, hgot⟩
  · exact .inl ⟨allocating_null hp, hr.not_served_page hno⟩
  · exact .inr ⟨pg, st', allocating_ok hp hgot.notNull, hgot⟩

theorem kfree_run (p : Nat) : kfree p s =
    .ok (Heap.kfree p s.mem.heap).1 { s with mem := { s.mem with heap := (Heap.kfree p s.mem.heap).2 } } := by
  rw [kfree, onMem, zoom_ok (hr.kfree_run p)]

end

end RedMagic.Task
