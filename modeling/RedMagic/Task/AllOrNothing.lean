import RedMagic.Task.Create

/-!
# All-or-nothing creation

A creation that fails at an allocation should return 0 and leave the kernel as it was (`AllOrNothing`). Up to the
`c_err` and `thr_err` labels the code does that (`createThreadCore_spec`, `prepareTask_spec`). The callers spoil it: they queue
the NULL they get, return an id although the queue entry failed, and a task whose thread failed is never freed. `create_all_or_nothing`
says exactly when a call is all-or-nothing, by the requests that the memory serves when the call starts (`CleanThread`, `CleanTask`).

That the frame table is the old one after a failure needs an argument. An allocation that succeeded before may have taken a
metadata page, which is not given back; but then there are nodes and free bytes enough for the queue entry, whose
allocation is the last one.
-/

namespace RedMagic.Task

open Mm Heap Kmem Sched Lts Fallible BestFit

/-! ## What is to be shown -/

/-- What a failed call has to leave as it was. -/
structure SameState (s s' : Kernel) : Prop where
  res : resBlocks s'.mem.heap = resBlocks s.mem.heap
  mmc : s'.mem.mmc = s.mem.mmc
  runq : s'.runq = s.runq
  tasks : s'.tasks = s.tasks
  threads : s'.threads = s.threads

/-- No run queue has an entry with a NULL thread. -/
def NoNull (s : Kernel) : Prop := ∀ cpu, ∀ e ∈ s.runq cpu, e.threadp ≠ none

structure AllOrNothing (f : KernelM Nat) (s : Kernel) : Prop where
  undone : (stateAfter (f s)).failed = true → ∃ s', f s = .ok 0 s' ∧ SameState s s'
  noNull : NoNull s → NoNull (stateAfter (f s))

/-! ## Up to the labels -/

/-- What is asked of the memory for a queue entry. -/
def entryRequests : List Request := [.block rthreadListSize]

/-- What `__create_thread` asks for. -/
def threadRequests : List Request := [.block threadSize, .block tStackSize]

/-- What `__create_task` asks for before it comes to the thread; `create_kernel_task` has an `mmc_t` already. -/
def taskRequests (mm : Nat) : List Request :=
  .block taskSize :: ((if mm = 0 then [.block mmcSize] else []) ++ [.page])

/-- The state in which a function returns NULL. A queue entry is served as it was before. -/
structure Undone (s s' : Kernel) : Prop where
  reach : Reachable s'.mem
  res : resBlocks s'.mem.heap = resBlocks s.mem.heap
  entry : Served entryRequests s'.mem ↔ Served entryRequests s.mem
  frames : ¬ Served entryRequests s.mem → s'.mem.mmc = s.mem.mmc
  runq : s'.runq = s.runq
  tasks : s'.tasks = s.tasks
  threads : s'.threads = s.threads
  low : s'.low = s.low

/-- Nothing was taken. -/
theorem Undone.of_mem {s s' : Kernel} (hr : Reachable s.mem) (hmem : s'.mem = s.mem) (hrunq : s'.runq = s.runq)
    (htasks : s'.tasks = s.tasks) (hthreads : s'.threads = s.threads) (hlow : s'.low = s.low) : Undone s s' := by
  refine ⟨?_, ?_, ?_, fun _ => ?_, hrunq, htasks, hthreads, hlow⟩
  · rwa [hmem]
  all_goals rw [hmem]

/-- What was taken is given back, and it was more than a queue entry takes. -/
theorem Undone.of_restored {s s' : Kernel} (hr : Reachable s.mem) (hr' : Reachable s'.mem) (h : Restored s.mem s'.mem)
    (hroom : ∃ b ∈ sizes s.mem.heap, rthreadListSize ≤ b) (hrunq : s'.runq = s.runq) (htasks : s'.tasks = s.tasks)
    (hthreads : s'.threads = s.threads) (hlow : s'.low = s.low) : Undone s s' := by
  obtain ⟨hentry, hframes⟩ := h.served_iff hr.loose hr'.loose hroom
  exact ⟨hr', h.res, hentry, hframes, hrunq, htasks, hthreads, hlow⟩

/-- The state in which `__create_thread` returns a thread. -/
structure ThreadMade (s s' : Kernel) (task threadp : Nat) : Prop where
  notNull : threadp ≠ 0
  reach : Reachable s'.mem
  served : ∀ rs, Served (threadRequests ++ rs) s.mem ↔ Served rs s'.mem
  failed : s'.failed = s.failed
  runq : s'.runq = s.runq
  threads : s'.threads = Function.update s.threads task (s.threads task ++ [threadp])
  threadId : s'.threadId threadp = 1
  taskStatus : s'.taskStatus = s.taskStatus
  taskId : s'.taskId = s.taskId

theorem createThreadCore_spec {s : Kernel} (hr : Reachable s.mem) (task : Nat) :
    ∃ threadp s', createThreadCore task s = .ok threadp s' ∧
      ((threadp = 0 ∧ Undone s s' ∧ s'.failed = true ∧ ∀ rs, ¬ Served (threadRequests ++ rs) s.mem) ∨
        ThreadMade s s' task threadp) := by
  rcases kmalloc_run hr threadSize (by decide) with ⟨hk, hno⟩ | ⟨threadp, st₁, hk, ha⟩
  · refine ⟨0, { s with failed := true }, ?_, .inl ⟨rfl, .of_mem hr rfl rfl rfl rfl rfl, rfl, fun rs => hno _⟩⟩
    rw [createThreadCore, bind_ok hk, if_pos rfl]
    rfl
  · rw [createThreadCore, bind_ok hk, if_neg ha.notNull, bind_modify]
    rcases kmalloc_run (s := initThread threadp { s with mem := st₁ }) ha.reach tStackSize (by decide) with
      ⟨hk', hno⟩ | ⟨stackp, st₂, hk', ha'⟩
    · -- `thr_err` with the thread struct
      rw [bind_ok hk', if_pos rfl, bind_ok (kfree_run (s := { initThread threadp { s with mem := st₁ } with failed := true })
        ha.reach threadp)]
      refine ⟨0, _, rfl, .inl ⟨rfl, ?_, rfl, fun rs hserved => hno rs ((ha.served_iff _).1 hserved)⟩⟩
      exact .of_restored hr (ha.reach.kfree threadp) (ha.restored (by decide)) (ha.room (by decide)) rfl rfl rfl rfl
    · rw [bind_ok hk', if_neg ha'.notNull]
      refine ⟨threadp, _, rfl, .inr ⟨ha.notNull, ha'.reach, fun rs => ?_, rfl, rfl, rfl, ?_, rfl, rfl⟩⟩
      · exact (ha.served_iff _).trans (ha'.served_iff rs)
      · exact Function.update_self _ _ _

/-! ## A task without its thread -/

theorem cErr_task {taskp : Nat} (h : taskp ≠ 0) {s : Kernel} (hr : Reachable s.mem) :
    cErr taskp 0 s = .ok 0 { s with mem := { s.mem with heap := (Heap.kfree taskp s.mem.heap).2 } } := by
  simp only [cErr, if_pos h, bind_ok (kfree_run hr taskp)]
  rfl

theorem cErr_both {taskp mmcp : Nat} (h : taskp ≠ 0) (h' : mmcp ≠ 0) {s : Kernel} (hr : Reachable s.mem) :
    cErr taskp mmcp s = .ok 0
      { s with mem := { s.mem with heap := (Heap.kfree mmcp (Heap.kfree taskp s.mem.heap).2).2 } } := by
  have hr' := hr.kfree taskp
  simp only [cErr, if_pos h, if_pos h', bind_ok (kfree_run hr taskp)]
  rw [bind_ok (kfree_run (s := { s with mem := { s.mem with heap := (Heap.kfree taskp s.mem.heap).2 } }) hr' mmcp)]
  rfl

/-- The state in which a task has its struct and its id. -/
structure TaskNamed (s s' : Kernel) (taskp : Nat) : Prop where
  reach : Reachable s.mem
  alloc : Allocated s.mem s'.mem taskp taskSize
  failed : s'.failed = s.failed
  runq : s'.runq = s.runq
  tasks : s'.tasks = s.tasks
  threads : s'.threads = s.threads
  low : s'.low = s.low
  status : s'.taskStatus taskp = .init
  taskId : s'.taskId taskp = u32 (s.lastId + 1)

/-- The state in which `__create_task` comes to its thread. -/
structure TaskReady (s s' : Kernel) (mm taskp : Nat) : Prop where
  notNull : taskp ≠ 0
  reach : Reachable s'.mem
  served : ∀ rs, Served (taskRequests mm ++ rs) s.mem ↔ Served rs s'.mem
  entry : Served entryRequests s.mem
  failed : s'.failed = s.failed
  runq : s'.runq = s.runq
  res : (resBlocks s.mem.heap).length < (resBlocks s'.mem.heap).length
  threads : s'.threads taskp = []
  status : s'.taskStatus taskp = .init
  taskId : s'.taskId taskp = u32 (s.lastId + 1)

/-- `c_err`, with the task struct alone or with its `mmc_t`. -/
theorem TaskNamed.undone {s s₁ : Kernel} {taskp : Nat} (h : TaskNamed s s₁ taskp) {st : Kst} (hreach : Reachable st)
    (hrestored : Restored s.mem st) (failed : Bool) : Undone s { s₁ with mem := st, failed := failed } :=
  .of_restored h.reach hreach hrestored (h.alloc.room (by decide)) h.runq h.tasks h.threads h.low

/-- A page is taken for the directory, so there was one for the nodes of the heap too. -/
theorem TaskNamed.ready {s s₁ : Kernel} {mm taskp pg : Nat} (h : TaskNamed s s₁ taskp) {st st' : Kst}
    (hgot : GotPages st st' pg 1) (hnfree : st.mmc.nfree ≤ s₁.mem.mmc.nfree)
    (hserved : ∀ rs, Served (taskRequests mm ++ rs) s.mem ↔ Served (.page :: rs) st)
    (hres : (resBlocks s.mem.heap).length < (resBlocks st.heap).length) :
    TaskReady s (initThreadList taskp { s₁ with mem := st' }) mm taskp := by
  have hpos : 0 < s.mem.mmc.nfree := by
    have hle := h.alloc.nfree_le
    have hpage := hgot.nfree
    omega
  refine ⟨h.alloc.notNull, hgot.reach, fun rs => (hserved rs).trans (hgot.served_iff rs), ?_, h.failed, h.runq, ?_,
    Function.update_self _ _ _, h.status, h.taskId⟩
  · exact serves_of_room (h.alloc.room (by decide)) (.inr hpos)
  · show _ < (resBlocks st'.heap).length
    rwa [hgot.heap]

theorem prepareSpace_spec {s s₁ : Kernel} {taskp : Nat} (h : TaskNamed s s₁ taskp) (mm : Nat) :
    ∃ r s', prepareSpace taskp mm 0 s₁ = .ok r s' ∧
      ((r = 0 ∧ Undone s s' ∧ s'.failed = true ∧ ∀ rs, ¬ Served (taskRequests mm ++ rs) s.mem) ∨
        (r = taskp ∧ TaskReady s s' mm taskp)) := by
  have htask := h.alloc.notNull
  have hlen : (resBlocks s.mem.heap).length < (resBlocks s₁.mem.heap).length := by simp [h.alloc.res]
  have hrestored := h.alloc.restored (by decide)
  have hpage := fun s : Kernel => (rfl : addrSpaceFor 0 s = getZeroedPage s)
  rw [prepareSpace]
  by_cases hmm : mm = 0
  · subst hmm
    rcases kmalloc_run h.alloc.reach mmcSize (by decide) with ⟨hk, hno⟩ | ⟨mmcp, st₂, hk, ha⟩
    · rw [bind_ok (x := mmFor 0) hk, if_pos rfl, cErr_task htask (s := { s₁ with failed := true }) h.alloc.reach]
      refine ⟨0, _, rfl, .inl ⟨rfl, h.undone (h.alloc.reach.kfree taskp) hrestored true, rfl, fun rs hserved => ?_⟩⟩
      exact hno _ ((h.alloc.served_iff _).1 hserved)
    · have hboth : ∀ rs, Served (taskRequests 0 ++ rs) s.mem ↔ Served (.page :: rs) st₂ :=
        fun rs => (h.alloc.served_iff _).trans (ha.served_iff _)
      rw [bind_ok (x := mmFor 0) hk, if_neg ha.notNull, if_pos rfl]
      rcases getZeroedPage_run (s := { s₁ with mem := st₂ }) ha.reach with ⟨hpg, hno⟩ | ⟨pg, st₃, hpg, hgot⟩
      · rw [bind_ok ((hpage _).trans hpg), if_pos rfl, cErr_both htask ha.notNull ha.reach]
        refine ⟨0, _, rfl, .inl ⟨rfl, h.undone ((ha.reach.kfree taskp).kfree mmcp)
          (h.alloc.restored_both ha (by decide) (by decide)) true, rfl, fun rs hserved => ?_⟩⟩
        exact hno _ ((hboth rs).1 hserved)
      · rw [bind_ok ((hpage _).trans hpg), if_neg hgot.notNull]
        refine ⟨taskp, _, rfl, .inr ⟨rfl, h.ready hgot ha.nfree_le hboth ?_⟩⟩
        rw [ha.res]
        exact hlen.trans (Nat.lt_succ_self _)
  · have hown : mmFor mm s₁ = .ok mm s₁ := by
      rw [mmFor, if_neg hmm]
      rfl
    have honly : ∀ rs, Served (taskRequests mm ++ rs) s.mem ↔ Served (.page :: rs) s₁.mem := by
      intro rs
      rw [taskRequests, if_neg hmm]
      exact h.alloc.served_iff _
    rw [bind_ok hown, if_neg hmm, if_neg hmm]
    rcases getZeroedPage_run h.alloc.reach with ⟨hpg, hno⟩ | ⟨pg, st₃, hpg, hgot⟩
    · rw [bind_ok ((hpage _).trans hpg), if_pos rfl, cErr_task htask (s := { s₁ with failed := true }) h.alloc.reach]
      refine ⟨0, _, rfl, .inl ⟨rfl, h.undone (h.alloc.reach.kfree taskp) hrestored true, rfl, fun rs hserved => ?_⟩⟩
      exact hno _ ((honly rs).1 hserved)
    · rw [bind_ok ((hpage _).trans hpg), if_neg hgot.notNull]
      exact ⟨taskp, _, rfl, .inr ⟨rfl, h.ready hgot (Nat.le_refl _) honly hlen⟩⟩

theorem taskIdFor_zero (s : Kernel) :
    taskIdFor 0 s = .ok (u32 (s.lastId + 1)) { s with lastId := u32 (s.lastId + 1) } := rfl

/-- How `__create_task` ends before it comes to the thread. -/
inductive Prepared (s : Kernel) (mm taskp : Nat) (s' : Kernel) : Prop where
  | undone (null : taskp = 0) (h : Undone s s') (failed : s'.failed = true) (no : ∀ rs, ¬ Served (taskRequests mm ++ rs) s.mem)
    (noTask : u32 (s.lastId + 1) = 0 → ¬ Served [.block taskSize] s.mem)
  /-- The task ids have run out. -/
  | noId (null : taskp = 0) (h : Undone s s') (failed : s'.failed = s.failed) (id : u32 (s.lastId + 1) = 0)
    (served : Served [.block taskSize] s.mem)
  | ready (h : TaskReady s s' mm taskp) (id : u32 (s.lastId + 1) ≠ 0)

theorem prepareTask_spec {s : Kernel} (hr : Reachable s.mem) (mm : Nat) :
    ∃ taskp s', prepareTask 0 mm 0 s = .ok taskp s' ∧ Prepared s mm taskp s' := by
  rcases kmalloc_run hr taskSize (by decide) with ⟨hk, hno⟩ | ⟨taskp, st₁, hk, ha⟩
  · refine ⟨0, { s with failed := true }, ?_, .undone rfl (.of_mem hr rfl rfl rfl rfl rfl) rfl (fun rs => hno _)
      fun _ => hno []⟩
    rw [prepareTask, bind_ok hk, if_pos rfl]
    rfl
  · rw [prepareTask, bind_ok hk, if_neg ha.notNull, bind_modify, setTaskStatus, if_neg ha.notNull,
      bind_ok (taskIdFor_zero _), bind_modify]
    have hnamed : TaskNamed s (setTaskId taskp (u32 (s.lastId + 1)) { s with
        mem := st₁, taskStatus := Function.update s.taskStatus taskp .init, lastId := u32 (s.lastId + 1) }) taskp :=
      ⟨hr, ha, rfl, rfl, rfl, rfl, rfl, Function.update_self _ _ _, setTaskId_taskId _ _ _⟩
    by_cases hid : u32 (s.lastId + 1) = 0
    · rw [if_pos hid, cErr_task ha.notNull ha.reach]
      refine ⟨0, _, rfl, .noId rfl ?_ rfl hid ((ha.served_iff []).2 trivial)⟩
      exact hnamed.undone (ha.reach.kfree taskp) (ha.restored (by decide)) s.failed
    · rw [if_neg hid]
      obtain ⟨r, s', hrun, ⟨rfl, hundone, hfailed, hno⟩ | ⟨rfl, hready⟩⟩ := prepareSpace_spec hnamed mm
      · exact ⟨0, s', hrun, .undone rfl hundone hfailed hno fun hzero => absurd hzero hid⟩
      · exact ⟨r, s', hrun, .ready hready hid⟩

/-! ## The run queue -/

/-- The state after a queue entry was allocated, whether or not `pick_processor` returns. -/
structure Queued (s : Kernel) (threadp : Nat) (s' : Kernel) : Prop where
  failed : s'.failed = s.failed
  res : (resBlocks s'.mem.heap).length = (resBlocks s.mem.heap).length + 1
  runq : ∀ cpu, ∀ e ∈ s'.runq cpu, e ∈ s.runq cpu ∨ e.threadp = ptrOf threadp
  queued : (∀ cpu, QueueOk (s.runq cpu)) → ∃ cpu, ∃ e ∈ s'.runq cpu, e.threadp = ptrOf threadp

theorem Queued.noNull {s s' : Kernel} {threadp : Nat} (h : Queued s threadp s') (hne : threadp ≠ 0) (hs : NoNull s) :
    NoNull s' := by
  intro cpu e he
  rcases h.runq cpu e he with hold | hnew
  · exact hs cpu e hold
  · rw [hnew, ptrOf, if_neg hne]
    exact Option.some_ne_none _

theorem Queued.setThreadStatus {s s' : Kernel} {threadp : Nat} (h : Queued s threadp s') (t : Nat) (st : Status) :
    Queued s threadp (setThreadStatus t st s') := by
  unfold Task.setThreadStatus
  split <;> exact ⟨h.failed, h.res, h.runq, h.queued⟩

theorem Queued.setTaskStatus {s s' : Kernel} {threadp : Nat} (h : Queued s threadp s') (t : Nat) (st : Status) :
    Queued s threadp (setTaskStatus t st s') := by
  unfold Task.setTaskStatus
  split <;> exact ⟨h.failed, h.res, h.runq, h.queued⟩

theorem enqueue_queued {s : Kernel} {st' : Kst} {ptr : Nat} (ha : Allocated s.mem st' ptr rthreadListSize) (c : Smp)
    (threadp : Nat) : Queued s threadp (stateAfter (enqueue c ptr threadp { s with mem := st' })) := by
  have hlen : (resBlocks st'.heap).length = (resBlocks s.mem.heap).length + 1 := by simp [ha.res]
  unfold enqueue
  split
  · rename_i hnone
    refine ⟨rfl, hlen, fun cpu e he => .inl he, fun hq => ?_⟩
    obtain ⟨cpu, hcpu⟩ := pickProcessor_returns hq c.ismp c.self c.ncpu
    exact absurd (hnone.symm.trans hcpu) (Option.some_ne_none cpu).symm
  · rename_i cpu _
    refine ⟨rfl, hlen, fun j e he => ?_, fun _ => ⟨cpu, ⟨ptr, ptrOf threadp⟩, ?_, rfl⟩⟩
    swap
    · dsimp only [stateAfter_ok]
      rw [Function.update_self]
      exact List.mem_append_right _ (List.mem_singleton.2 rfl)
    by_cases hj : j = cpu
    · subst hj
      dsimp only [stateAfter_ok] at he
      rw [Function.update_self, List.mem_append, List.mem_singleton] at he
      rcases he with hold | rfl
      · exact .inl hold
      · exact .inr rfl
    · dsimp only [stateAfter_ok] at he
      rw [Function.update_of_ne hj] at he
      exact .inl he

theorem addThreadToRq_spec {s : Kernel} (hr : Reachable s.mem) (c : Smp) (threadp : Nat) :
    (¬ Served entryRequests s.mem ∧ addThreadToRq c threadp s = .ok 1 { s with failed := true }) ∨
      (Served entryRequests s.mem ∧ Queued s threadp (stateAfter (addThreadToRq c threadp s))) := by
  rcases kmalloc_run hr rthreadListSize (by decide) with ⟨hk, hno⟩ | ⟨ptr, st', hk, ha⟩
  · refine .inl ⟨hno [], ?_⟩
    rw [addThreadToRq, bind_ok hk, if_pos rfl]
    rfl
  · refine .inr ⟨(ha.served_iff []).2 trivial, ?_⟩
    rw [addThreadToRq, bind_ok hk, if_neg ha.notNull]
    exact stateAfter_bind (enqueue_queued ha c threadp) fun _ _ hq => hq.setThreadStatus threadp .ready

theorem addTaskToRq_spec {s : Kernel} (hr : Reachable s.mem) (c : Smp) {taskp : Nat} (hst : s.taskStatusOf taskp = .init) :
    (¬ Served entryRequests s.mem ∧ addTaskToRq c taskp s = .ok 1 { s with failed := true }) ∨
      (Served entryRequests s.mem ∧ Queued s (s.firstThread taskp) (stateAfter (addTaskToRq c taskp s))) := by
  have hassert : assertInit taskp s = .ok () s := by rw [assertInit, if_pos hst]
  have hget : ∀ f : Kernel → KernelM Nat, (get >>= f) s = f s s := fun _ => rfl
  rw [addTaskToRq, bind_ok hassert, hget]
  rcases addThreadToRq_spec hr c (s.firstThread taskp) with ⟨hno, hadd⟩ | ⟨hserved, hq⟩
  · refine .inl ⟨hno, ?_⟩
    rw [bind_ok hadd]
    rfl
  · refine .inr ⟨hserved, stateAfter_bind hq fun r s' hs' => ?_⟩
    split
    · exact hs'.setTaskStatus taskp .ready
    · exact hs'

/-! ## A task -/

/-- The state in which `__create_task` returns a task. -/
structure TaskMade (s s' : Kernel) (mm taskp : Nat) : Prop where
  notNull : taskp ≠ 0
  reach : Reachable s'.mem
  served : ∀ rs, Served (taskRequests mm ++ (threadRequests ++ rs)) s.mem ↔ Served rs s'.mem
  entry : Served entryRequests s.mem
  failed : s'.failed = s.failed
  runq : s'.runq = s.runq
  status : s'.taskStatusOf taskp = .init
  taskId : s'.taskIdOf taskp ≠ 0
  thread : s'.firstThread taskp ≠ 0

/-- The state in which `__create_task` returns NULL for want of a thread: the task struct is still there. -/
structure Leaked (s s' : Kernel) (mm : Nat) : Prop where
  reach : Reachable s'.mem
  no : ∀ rs, ¬ Served (taskRequests mm ++ (threadRequests ++ rs)) s.mem
  entry : Served entryRequests s.mem
  failed : s'.failed = true
  res : (resBlocks s.mem.heap).length < (resBlocks s'.mem.heap).length

inductive TaskOutcome (s : Kernel) (mm : Nat) : Prop where
  | undone (s₁ : Kernel) (core : createTaskCore 0 mm 0 s = .ok 0 s₁) (h : Undone s s₁) (failed : s₁.failed = true)
    (no : ∀ rs, ¬ Served (taskRequests mm ++ rs) s.mem) (noTask : u32 (s.lastId + 1) = 0 → ¬ Served [.block taskSize] s.mem)
  | noId (s₁ : Kernel) (core : createTaskCore 0 mm 0 s = .ok 0 s₁) (h : Undone s s₁) (failed : s₁.failed = s.failed)
    (id : u32 (s.lastId + 1) = 0) (served : Served [.block taskSize] s.mem)
  | leaked (s₂ : Kernel) (core : createTaskCore 0 mm 0 s = .ok 0 s₂) (h : Leaked s s₂ mm) (id : u32 (s.lastId + 1) ≠ 0)
  | made (taskp : Nat) (s₂ : Kernel) (core : createTaskCore 0 mm 0 s = .ok taskp s₂) (h : TaskMade s s₂ mm taskp)
    (id : u32 (s.lastId + 1) ≠ 0)

theorem createTaskCore_null {s s₁ : Kernel} {mm : Nat} (hprep : prepareTask 0 mm 0 s = .ok 0 s₁) :
    createTaskCore 0 mm 0 s = .ok 0 s₁ := by
  rw [createTaskCore, bind_ok hprep, if_pos rfl]
  rfl

theorem createTaskCore_outcome {s : Kernel} (hr : Reachable s.mem) (mm : Nat) : TaskOutcome s mm := by
  obtain ⟨taskp, s₁, hprep, hprepared⟩ := prepareTask_spec hr mm
  cases hprepared with
  | undone hnull h hfailed hno hnoTask =>
    subst hnull
    exact .undone s₁ (createTaskCore_null hprep) h hfailed hno hnoTask
  | noId hnull h hfailed hid hserved =>
    subst hnull
    exact .noId s₁ (createTaskCore_null hprep) h hfailed hid hserved
  | ready hready hid =>
    have hne := hready.notNull
    obtain ⟨threadp, s₂, hthread, ⟨rfl, hundone, hfailed, hno⟩ | hmade⟩ := createThreadCore_spec hready.reach taskp
    · refine .leaked s₂ ?_ ⟨hundone.reach, fun rs hs => hno rs ((hready.served _).1 hs), hready.entry, hfailed,
        hundone.res ▸ hready.res⟩ hid
      rw [createTaskCore, bind_ok hprep, if_neg hne, bind_ok hthread, if_pos rfl]
      rfl
    · refine .made taskp (addToTaskGroup taskp s₂) ?_ ⟨hne, hmade.reach, fun rs => (hready.served _).trans (hmade.served rs),
        hready.entry, hmade.failed.trans hready.failed, hmade.runq.trans hready.runq, ?_, ?_, ?_⟩ hid
      · rw [createTaskCore, bind_ok hprep, if_neg hne, bind_ok hthread, if_neg hmade.notNull, bind_modify]
        rfl
      · rw [Kernel.taskStatusOf, if_neg hne]
        exact (congrFun hmade.taskStatus taskp).trans hready.status
      · rw [Kernel.taskIdOf, if_neg hne]
        exact ((congrFun hmade.taskId taskp).trans hready.taskId).trans_ne hid
      · -- the list of the new task holds the new thread alone
        have hlist : (addToTaskGroup taskp s₂).threads taskp = [threadp] := by
          show s₂.threads taskp = [threadp]
          rw [hmade.threads, Function.update_self, hready.threads, List.nil_append]
        rw [Kernel.firstThread, if_neg hne, hlist]
        exact hmade.notNull

/-! ## The calls -/

theorem not_allOrNothing_of_leak {f : KernelM Nat} {s : Kernel} (hfailed : (stateAfter (f s)).failed = true)
    (hleak : (resBlocks s.mem.heap).length < (resBlocks (stateAfter (f s)).mem.heap).length) : ¬ AllOrNothing f s := by
  intro h
  obtain ⟨s', hf, hsame⟩ := h.undone hfailed
  rw [hf, stateAfter_ok, hsame.res] at hleak
  exact Nat.lt_irrefl _ hleak

theorem not_allOrNothing_of_ne {f : KernelM Nat} {s s' : Kernel} {r : Nat} (hf : f s = .ok r s') (hfailed : s'.failed = true)
    (hr : r ≠ 0) : ¬ AllOrNothing f s := by
  intro h
  obtain ⟨s'', hf', -⟩ := h.undone (by rwa [hf])
  rw [hf] at hf'
  cases hf'
  exact hr rfl

section
variable {f : KernelM Nat} {s s₁ : Kernel} {t : Nat}

theorem NoNull.congr (hrunq : s₁.runq = s.runq) (h : NoNull s) : NoNull s₁ := by
  intro cpu e he
  rw [hrunq] at he
  exact h cpu e he

/-- The queue entry fails after nothing is left of the rest, and the call returns `w`. -/
theorem Undone.allOrNothing_iff (h : Undone s s₁) (hno : ¬ Served entryRequests s₁.mem) {w : Nat}
    (hf : f s = .ok w { s₁ with failed := true }) : AllOrNothing f s ↔ w = 0 := by
  constructor
  · intro hall
    by_contra hne
    exact not_allOrNothing_of_ne hf rfl hne hall
  · rintro rfl
    have hmmc : s₁.mem.mmc = s.mem.mmc := h.frames (mt h.entry.2 hno)
    refine ⟨fun _ => ⟨_, hf, h.res, hmmc, h.runq, h.tasks, h.threads⟩, fun hnn => ?_⟩
    rw [hf]
    exact hnn.congr h.runq

/-- The call fails before the queue entry, which is allocated all the same. -/
theorem Undone.not_allOrNothing (h : Undone s s₁) (hfailed : s₁.failed = true) (hq : Queued s₁ t (stateAfter (f s))) :
    ¬ AllOrNothing f s := by
  refine not_allOrNothing_of_leak (hq.failed.trans hfailed) ?_
  rw [hq.res, h.res]
  exact Nat.lt_succ_self _

/-- Nothing fails. -/
theorem Queued.allOrNothing_iff (hq : Queued s₁ t (stateAfter (f s))) (hf : s₁.failed = false) (hrunq : s₁.runq = s.runq)
    (hqueues : ∀ cpu, QueueOk (s.runq cpu)) : AllOrNothing f s ↔ (NoNull s → t ≠ 0) := by
  constructor
  · rintro hall hnn rfl
    obtain ⟨cpu, e, he, hnull⟩ := hq.queued (hrunq ▸ hqueues)
    exact hall.noNull hnn cpu e he hnull
  · intro ht
    refine ⟨fun hfailed => ?_, fun hnn => hq.noNull (ht hnn) (hnn.congr hrunq)⟩
    rw [hq.failed, hf] at hfailed
    cases hfailed

end

/-- The memory serves the thread and its queue entry; or neither of them, and the word at NULL, which is returned as the
id, is 0. -/
def CleanThread (s : Kernel) : Prop :=
  Served (threadRequests ++ entryRequests) s.mem ∨
    (¬ Served threadRequests s.mem ∧ ¬ Served entryRequests s.mem ∧ s.low 0 = 0)

section
variable {s : Kernel} (hr : Reachable s.mem) (hf : s.failed = false) (hqueues : ∀ cpu, QueueOk (s.runq cpu))
include hr hf hqueues

theorem createThread_iff (c : Smp) (task : Nat) : AllOrNothing (createThread c task) s ↔ CleanThread s := by
  obtain ⟨threadp, s₁, hcore, hcase⟩ := createThreadCore_spec hr task
  have hfailed : addThreadToRq c threadp s₁ = .ok 1 { s₁ with failed := true } →
      createThread c task s = .ok (s₁.threadIdOf threadp) { s₁ with failed := true } := by
    intro hadd
    rw [createThread, bind_ok hcore, bind_ok hadd]
    rfl
  have hqueued : Queued s₁ threadp (stateAfter (addThreadToRq c threadp s₁)) →
      Queued s₁ threadp (stateAfter (createThread c task s)) := by
    intro hq
    rw [createThread, bind_ok hcore]
    exact stateAfter_bind hq fun _ _ h => h
  rcases hcase with ⟨rfl, h, hfail, hno⟩ | h
  · have hclean : CleanThread s ↔ ¬ Served entryRequests s.mem ∧ s.low 0 = 0 :=
      ⟨fun hc => (hc.resolve_left (hno _)).2, fun hc => .inr ⟨hno [], hc⟩⟩
    rw [hclean, ← h.entry]
    rcases addThreadToRq_spec h.reach c 0 with ⟨hentry, hadd⟩ | ⟨hentry, hq⟩
    · have hid : s₁.threadIdOf 0 = s.low 0 := by rw [Kernel.threadIdOf, if_pos rfl, h.low]
      rw [h.allOrNothing_iff hentry (hid ▸ hfailed hadd)]
      exact ⟨fun hzero => ⟨hentry, hzero⟩, fun hc => hc.2⟩
    · exact iff_of_false (h.not_allOrNothing hfail (hqueued hq)) fun hc => hc.1 hentry
  · have hthread : Served threadRequests s.mem := (h.served []).2 trivial
    have hclean : CleanThread s ↔ Served entryRequests s₁.mem :=
      ⟨fun hc => (h.served _).1 (hc.resolve_right fun hn => hn.1 hthread), fun hc => .inl ((h.served _).2 hc)⟩
    rw [hclean]
    rcases addThreadToRq_spec h.reach c threadp with ⟨hentry, hadd⟩ | ⟨hentry, hq⟩
    · have hid : s₁.threadIdOf threadp ≠ 0 := by
        rw [Kernel.threadIdOf, if_neg h.notNull, h.threadId]
        exact Nat.one_ne_zero
      exact iff_of_false (not_allOrNothing_of_ne (hfailed hadd) rfl hid) hentry
    · refine iff_of_true (((hqueued hq).allOrNothing_iff (h.failed.trans hf) h.runq hqueues).2 fun _ => h.notNull) hentry

end

/-- The memory does not serve a queue entry, and the words read through NULL are 0. Or it serves the task, its thread and the
queue entry. If the task ids have run out nothing is asked for beyond the task struct: the call stops at the assertion
on the status at NULL, or it queues what it takes for the first thread of NULL. -/
def CleanTask (mm : Nat) (s : Kernel) : Prop :=
  (¬ Served entryRequests s.mem ∧ s.low 0 = 0 ∧ s.low statusOffset = 0) ∨
    if u32 (s.lastId + 1) = 0 then
      Served [.block taskSize] s.mem ∧
        (s.low statusOffset ≠ 0 ∨ (Served entryRequests s.mem ∧ (NoNull s → s.firstThread 0 ≠ 0)))
    else Served (taskRequests mm ++ (threadRequests ++ entryRequests)) s.mem

section
variable {s : Kernel} {mm taskp : Nat} {s₁ : Kernel} (c : Smp)

/-- The entry of the queue is allocated after `__create_task`, whatever that returned. -/
theorem Queued.of_core (hcore : createTaskCore 0 mm 0 s = .ok taskp s₁)
    (hq : Queued s₁ (s₁.firstThread taskp) (stateAfter (addTaskToRq c taskp s₁))) :
    Queued s₁ (s₁.firstThread taskp) (stateAfter (createTaskOn c mm s)) := by
  rw [createTaskOn, bind_ok hcore]
  exact stateAfter_bind hq fun _ _ h => h

theorem createTaskOn_of_failed (hcore : createTaskCore 0 mm 0 s = .ok taskp s₁)
    (hadd : addTaskToRq c taskp s₁ = .ok 1 { s₁ with failed := true }) :
    createTaskOn c mm s = .ok (s₁.taskIdOf taskp) { s₁ with failed := true } := by
  rw [createTaskOn, bind_ok hcore, bind_ok hadd]
  rfl

theorem assertInit_null (hstatus : s₁.low statusOffset ≠ 0) :
    assertInit 0 s₁ = .error "ASSERTION-FAILED: taskp->status == T_INIT" s₁ := by
  rw [assertInit, if_neg]
  rw [Kernel.taskStatusOf, if_pos rfl, statusOfWord_eq_init]
  exact hstatus

/-- What a call does once `__create_task` has left nothing. -/
inductive NullOutcome (f : KernelM Nat) (s s₁ : Kernel) : Prop where
  | stopped (status : s.low statusOffset ≠ 0) (call : f s = .error "ASSERTION-FAILED: taskp->status == T_INIT" s₁)
  | refused (status : s.low statusOffset = 0) (entry : ¬ Served entryRequests s₁.mem)
    (call : f s = .ok (s.low 0) { s₁ with failed := true })
  | queued (status : s.low statusOffset = 0) (entry : Served entryRequests s₁.mem)
    (h : Queued s₁ (s.firstThread 0) (stateAfter (f s)))

theorem Undone.nullOutcome (hcore : createTaskCore 0 mm 0 s = .ok 0 s₁) (h : Undone s s₁) :
    NullOutcome (createTaskOn c mm) s s₁ := by
  have hid : s₁.taskIdOf 0 = s.low 0 := by rw [Kernel.taskIdOf, if_pos rfl, h.low]
  have hfirst : s₁.firstThread 0 = s.firstThread 0 := by rw [Kernel.firstThread, Kernel.firstThread, if_pos rfl, if_pos rfl, h.low]
  by_cases hlow : s.low statusOffset = 0
  · have hstatus : s₁.taskStatusOf 0 = .init := by
      rw [Kernel.taskStatusOf, if_pos rfl, h.low]
      exact statusOfWord_eq_init.2 hlow
    rcases addTaskToRq_spec h.reach c hstatus with ⟨hentry, hadd⟩ | ⟨hentry, hq⟩
    · exact .refused hlow hentry (hid ▸ createTaskOn_of_failed c hcore hadd)
    · exact .queued hlow hentry (hfirst ▸ Queued.of_core c hcore hq)
  · refine .stopped hlow ?_
    rw [createTaskOn, bind_ok hcore, addTaskToRq]
    exact bind_error (bind_error (assertInit_null (by rwa [h.low])))

/-- `__create_task` failed and cleaned up. -/
theorem Undone.createTaskOn_iff (hcore : createTaskCore 0 mm 0 s = .ok 0 s₁) (h : Undone s s₁) (hfailed : s₁.failed = true)
    (hno : ∀ rs, ¬ Served (taskRequests mm ++ rs) s.mem) (hnoTask : u32 (s.lastId + 1) = 0 → ¬ Served [.block taskSize] s.mem) :
    AllOrNothing (createTaskOn c mm) s ↔ CleanTask mm s := by
  have hclean : CleanTask mm s ↔ ¬ Served entryRequests s.mem ∧ s.low 0 = 0 ∧ s.low statusOffset = 0 := by
    refine or_iff_left ?_
    split
    · rename_i hid
      exact fun hc => hnoTask hid hc.1
    · exact hno _
  rw [hclean, ← h.entry]
  cases h.nullOutcome c hcore with
  | stopped hlow hcall =>
    refine iff_of_false (fun hall => ?_) fun hc => hlow hc.2.2
    obtain ⟨s', hok, -⟩ := hall.undone (by rw [hcall]; exact hfailed)
    rw [hcall] at hok
    cases hok
  | refused hlow hentry hcall =>
    rw [h.allOrNothing_iff hentry hcall]
    exact ⟨fun hzero => ⟨hentry, hzero, hlow⟩, fun hc => hc.2.1⟩
  | queued hlow hentry hq => exact iff_of_false (h.not_allOrNothing hfailed hq) fun hc => hc.1 hentry

/-- There was no id for the task. -/
theorem Undone.createTaskOn_noId_iff (hqueues : ∀ cpu, QueueOk (s.runq cpu)) (hcore : createTaskCore 0 mm 0 s = .ok 0 s₁)
    (h : Undone s s₁) (hfailed : s₁.failed = false) (hid : u32 (s.lastId + 1) = 0) (hserved : Served [.block taskSize] s.mem) :
    AllOrNothing (createTaskOn c mm) s ↔ CleanTask mm s := by
  rw [CleanTask, if_pos hid, ← h.entry]
  cases h.nullOutcome c hcore with
  | stopped hlow hcall =>
    refine iff_of_true ⟨fun hf => ?_, fun hnn => ?_⟩ (.inr ⟨hserved, .inl hlow⟩)
    · rw [hcall] at hf
      exact absurd (hf.symm.trans hfailed) (by decide)
    · rw [hcall]
      exact hnn.congr h.runq
  | refused hlow hentry hcall =>
    rw [h.allOrNothing_iff hentry hcall]
    constructor
    · exact fun hzero => .inl ⟨hentry, hzero, hlow⟩
    · rintro (hc | ⟨-, hc | hc⟩)
      · exact hc.2.1
      · exact absurd hlow hc
      · exact absurd hc.1 hentry
  | queued hlow hentry hq =>
    rw [hq.allOrNothing_iff hfailed h.runq hqueues]
    constructor
    · exact fun ht => .inr ⟨hserved, .inr ⟨hentry, ht⟩⟩
    · rintro (hc | ⟨-, hc | hc⟩)
      · exact absurd hentry hc.1
      · exact absurd hlow hc
      · exact hc.2

/-- `__create_task` did not free the task struct. -/
theorem Leaked.createTaskOn_iff (hcore : createTaskCore 0 mm 0 s = .ok 0 s₁) (h : Leaked s s₁ mm)
    (hid : u32 (s.lastId + 1) ≠ 0) : AllOrNothing (createTaskOn c mm) s ↔ CleanTask mm s := by
  refine iff_of_false ?_ ?_
  · have hadd : (stateAfter (addTaskToRq c 0 s₁)).failed = true ∧
        (resBlocks s.mem.heap).length < (resBlocks (stateAfter (addTaskToRq c 0 s₁)).mem.heap).length := by
      by_cases hst : s₁.taskStatusOf 0 = .init
      · rcases addTaskToRq_spec h.reach c hst with ⟨-, hadd⟩ | ⟨-, hq⟩
        · rw [hadd]
          exact ⟨rfl, h.res⟩
        · refine ⟨hq.failed.trans h.failed, ?_⟩
          rw [hq.res]
          exact h.res.trans (Nat.lt_succ_self _)
      · have hassert : assertInit 0 s₁ = .error "ASSERTION-FAILED: taskp->status == T_INIT" s₁ := by
          rw [assertInit, if_neg hst]
        rw [addTaskToRq, bind_error hassert]
        exact ⟨h.failed, h.res⟩
    have hcall : (stateAfter (createTaskOn c mm s)).failed = true ∧
        (resBlocks s.mem.heap).length < (resBlocks (stateAfter (createTaskOn c mm s)).mem.heap).length := by
      rw [createTaskOn, bind_ok hcore]
      exact stateAfter_bind (Q := fun s' => s'.failed = true ∧
        (resBlocks s.mem.heap).length < (resBlocks s'.mem.heap).length) hadd fun _ _ h => h
    exact not_allOrNothing_of_leak hcall.1 hcall.2
  · rw [CleanTask, if_neg hid]
    rintro (hc | hc)
    · exact hc.1 h.entry
    · exact h.no _ hc

/-- `__create_task` made the task. -/
theorem TaskMade.createTaskOn_iff (hf : s.failed = false) (hqueues : ∀ cpu, QueueOk (s.runq cpu))
    (hcore : createTaskCore 0 mm 0 s = .ok taskp s₁) (h : TaskMade s s₁ mm taskp) (hid : u32 (s.lastId + 1) ≠ 0) :
    AllOrNothing (createTaskOn c mm) s ↔ CleanTask mm s := by
  have hclean : CleanTask mm s ↔ Served entryRequests s₁.mem := by
    rw [CleanTask, if_neg hid, h.served]
    exact or_iff_right fun hc => hc.1 h.entry
  rw [hclean]
  rcases addTaskToRq_spec h.reach c h.status with ⟨hentry, hadd⟩ | ⟨hentry, hq⟩
  · exact iff_of_false (not_allOrNothing_of_ne (createTaskOn_of_failed c hcore hadd) rfl h.taskId) hentry
  · refine iff_of_true ?_ hentry
    exact ((Queued.of_core c hcore hq).allOrNothing_iff (h.failed.trans hf) h.runq hqueues).2 fun _ => h.thread

end

theorem createTaskOn_iff {s : Kernel} (hr : Reachable s.mem) (hf : s.failed = false) (hqueues : ∀ cpu, QueueOk (s.runq cpu))
    (c : Smp) (mm : Nat) : AllOrNothing (createTaskOn c mm) s ↔ CleanTask mm s := by
  cases createTaskCore_outcome hr mm with
  | undone s₁ hcore h hfailed hno hnoTask => exact h.createTaskOn_iff c hcore hfailed hno hnoTask
  | noId s₁ hcore h hfailed hid hserved => exact h.createTaskOn_noId_iff c hqueues hcore (hfailed.trans hf) hid hserved
  | leaked s₂ hcore h hid => exact h.createTaskOn_iff c hcore hid
  | made taskp s₂ hcore h hid => exact h.createTaskOn_iff c hf hqueues hcore hid

/-- **All-or-nothing creation.** Exactly when `create_thread`, `create_task` and `create_kernel_task` are all-or-nothing, in
every state of the heap, the frame table and the run queues: a condition on what the memory serves when the call
starts, and on the words around NULL. -/
theorem create_all_or_nothing (s : Kernel) (hr : Reachable s.mem) (hf : s.failed = false)
    (hqueues : ∀ cpu, QueueOk (s.runq cpu)) (c : Smp) (task mmPhys : Nat) :
    (AllOrNothing (createThread c task) s ↔ CleanThread s) ∧
      (AllOrNothing (createTask c) s ↔ CleanTask 0 s) ∧
        (AllOrNothing (createKernelTask c mmPhys) s ↔ CleanTask mmPhys s) :=
  ⟨createThread_iff hr hf hqueues c task, createTaskOn_iff hr hf hqueues c 0, createTaskOn_iff hr hf hqueues c mmPhys⟩

/-- A kernel with no task and no thread. -/
def kernelOn (st : Kst) : Kernel :=
  ⟨st, fun _ => [], [], fun _ => [], fun _ => .init, fun _ => 0, fun _ => .init, fun _ => 0, 0, fun _ => 0, false⟩

/-- One processor. -/
def oneCpu : Smp := ⟨false, 1, 0⟩

/-- A heap of 6 KiB has room for a task, its thread and the thread's stack. -/
theorem create_all_or_nothing_fits :
    ∃ s, Reachable s.mem ∧ AllOrNothing (createThread oneCpu 0x102000) s ∧ AllOrNothing (createTask oneCpu) s ∧
      AllOrNothing (createKernelTask oneCpu 0x200000) s := by
  have h0 : mmPageTable 0x100000 0x5000 = .ok (some (freshMmc 0x100000 0x5000 1 4)) := rfl
  let all := fun (mm : Nat) => taskRequests mm ++ (threadRequests ++ entryRequests)
  obtain ⟨st₀, st, hb, hrun, hst⟩ := exists_boot_reaches (.of_aligned (by decide) (by decide)) h0 Spares 0x1800
    (by decide) [] (fun st => decide (Served (threadRequests ++ entryRequests) st) && decide (Served (all 0) st) &&
      decide (Served (all 0x200000) st)) (by decide +kernel)
  have hr : Reachable (kernelOn st).mem := ⟨_, st₀, hb, hrun⟩
  obtain ⟨hthread, htask, hkernel⟩ := create_all_or_nothing (kernelOn st) hr rfl
    (fun _ => ⟨List.nodup_nil, fun _ he => absurd he List.not_mem_nil⟩) oneCpu 0x102000 0x200000
  simp only [Bool.and_eq_true, decide_eq_true_eq] at hst
  obtain ⟨⟨hserved, hserved'⟩, hserved''⟩ := hst
  exact ⟨_, hr, hthread.2 (.inl hserved), htask.2 (.inr hserved'), hkernel.2 (.inr hserved'')⟩

/-- A heap of one page has no room for the stack. `create_thread` queues NULL, and the task calls leave the task struct. -/
theorem create_without_stack :
    ∃ s, Reachable s.mem ∧ s.failed = false ∧ NoNull s ∧ ¬ NoNull (stateAfter (createThread oneCpu 0x102000 s)) ∧
      ¬ AllOrNothing (createThread oneCpu 0x102000) s ∧ ¬ AllOrNothing (createTask oneCpu) s ∧
        ¬ AllOrNothing (createKernelTask oneCpu 0x200000) s := by
  have h0 : mmPageTable 0x100000 0x5000 = .ok (some (freshMmc 0x100000 0x5000 1 4)) := rfl
  let leaks := fun (f : KernelM Nat) (st : Kst) => (stateAfter (f (kernelOn st))).failed &&
    decide ((resBlocks (kernelOn st).mem.heap).length < (resBlocks (stateAfter (f (kernelOn st))).mem.heap).length)
  obtain ⟨st₀, st, hb, hrun, hst⟩ := exists_boot_reaches (.of_aligned (by decide) (by decide)) h0 Spares 0x1000
    (by decide) [] (fun st => ((stateAfter (createThread oneCpu 0x102000 (kernelOn st))).runq 0).any (·.threadp.isNone) &&
      leaks (createTask oneCpu) st && leaks (createKernelTask oneCpu 0x200000) st) (by decide +kernel)
  simp only [Bool.and_eq_true, leaks, decide_eq_true_eq, List.any_eq_true, Option.isNone_iff_eq_none] at hst
  obtain ⟨⟨⟨e, he, hnull⟩, hfail, hlen⟩, hfail', hlen'⟩ := hst
  have hnn : NoNull (kernelOn st) := fun _ e he => absurd he List.not_mem_nil
  have hqueued : ¬ NoNull (stateAfter (createThread oneCpu 0x102000 (kernelOn st))) := fun h => h 0 e he hnull
  exact ⟨kernelOn st, ⟨_, st₀, hb, hrun⟩, rfl, hnn, hqueued, fun h => hqueued (h.noNull hnn),
    not_allOrNothing_of_leak hfail hlen, not_allOrNothing_of_leak hfail' hlen'⟩

end RedMagic.Task
