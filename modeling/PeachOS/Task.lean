import PeachOS.PagingNew
import PeachOS.Process

/-! # Tasks

`task.c`: the task of a process, its page directory and the doubly linked list of all tasks.
A `struct task` is kept as a record next to memory, found by its address; the page
directory it points to is in memory. -/

namespace PeachOS

open ByteMemory Extents

/-! ### Data -/

/-- `struct registers`. -/
structure Registers where
  edi : UInt32
  esi : UInt32
  ebp : UInt32
  ebx : UInt32
  edx : UInt32
  ecx : UInt32
  eax : UInt32
  ip : UInt32
  cs : UInt32
  flags : UInt32
  esp : UInt32
  ss : UInt32
deriving DecidableEq, Repr

/-- `struct task`. -/
structure Task where
  pageDirectory : UInt32
  registers : Registers
  process : UInt32
  next : UInt32
  prev : UInt32
deriving DecidableEq, Repr

/-- A zeroed `struct task`. -/
def taskZero : Task := ⟨0, ⟨0, 0, 0, 0, 0, 0, 0, 0, 0, 0, 0, 0⟩, 0, 0, 0⟩

/-- The tasks by address, and the globals of `task.c`. -/
structure TaskState where
  kernel : Kernel
  tasks : UInt32 → Task
  currentTask : UInt32
  taskTail : UInt32
  taskHead : UInt32

/-- `USER_DATA_SEGMENT` and `USER_CODE_SEGMENT`. -/
def userDataSegment : UInt32 := 0x23
def userCodeSegment : UInt32 := 0x1b

/-- `PEACHOS_PROGRAM_VIRTUAL_STACK_ADDRESS_START`. -/
def peachosProgramVirtualStackAddressStart : UInt32 := 0x3ff000

/-! ### The code -/

/-- `task_init` after its page directory is built: the result and the task. -/
def taskInitRegisters (p : UInt32) (process : Process) (chunk : UInt32) (m : Mem) : ℤ × Task :=
  if chunk = 0 then (- EIO, { taskZero with pageDirectory := chunk })
  else
    let ip :=
      if process.filetype = processFiletypeElf then
        (readElfHeader m (elfHeader process.elfFile)).entry
      else peachosProgramVirtualAddress
    (0, { taskZero with
      pageDirectory := chunk
      registers := { taskZero.registers with
        ip := ip
        ss := userDataSegment
        cs := userCodeSegment
        esp := peachosProgramVirtualStackAddressStart }
      process := p })

/-- `task_init`: the result, the task and the kernel afterwards. -/
def taskInit (p : UInt32) (process : Process) (k : Kernel) : (ℤ × Task) × Kernel :=
  let chunk := pagingNew4gb (1 ||| 4) k
  (taskInitRegisters p process chunk.1 chunk.2.mem, chunk.2)

/-- `task_get_next`. -/
def taskGetNext (st : TaskState) : UInt32 :=
  if (st.tasks st.currentTask).next = 0 then st.taskHead else (st.tasks st.currentTask).next

/-- `task_list_remove`. -/
def taskListRemove (task : UInt32) (st : TaskState) : TaskState :=
  let st :=
    if (st.tasks task).prev ≠ 0 then
      { st with
        tasks := Function.update st.tasks (st.tasks task).prev
          { st.tasks (st.tasks task).prev with next := (st.tasks task).next } }
    else st
  let st := if task = st.taskHead then { st with taskHead := (st.tasks task).next } else st
  let st := if task = st.taskTail then { st with taskTail := (st.tasks task).prev } else st
  if task = st.currentTask then { st with currentTask := taskGetNext st } else st

/-- `task_free`. -/
def taskFree (task : UInt32) (st : TaskState) : TaskState :=
  let st := { st with kernel := pagingFree4gb (st.tasks task).pageDirectory st.kernel }
  let st := taskListRemove task st
  -- the task data is freed, and its bytes stay as they are
  { st with kernel := kfree task st.kernel }

/-- The end of `task_new`: the new task joins the list. -/
def taskAppend (task : UInt32) (st : TaskState) : TaskState :=
  if st.taskHead = 0 then { st with taskHead := task, taskTail := task, currentTask := task }
  else
    let tasks := Function.update st.tasks st.taskTail
      { st.tasks st.taskTail with next := task }
    { st with
      tasks := Function.update tasks task { tasks task with prev := st.taskTail }
      taskTail := task }

/-- `task_new`: the new task, or the error code cast to a pointer. -/
def taskNew (p : UInt32) (process : Process) (st : TaskState) : UInt32 × TaskState :=
  let task := kzalloc 64 st.kernel
  if task.1 = 0 then
    (UInt32.ofInt (-ENOMEM), taskFree task.1 { st with kernel := task.2 })
  else
    let init := taskInit p process task.2
    let st :=
      { st with kernel := init.2, tasks := Function.update st.tasks task.1 init.1.2 }
    if init.1.1 ≠ 0 then
      (UInt32.ofInt init.1.1, taskFree task.1 st)
    else (task.1, taskAppend task.1 st)

/-! ### A task is made -/

variable {p : UInt32} {process : Process} {st : TaskState} {k k' : Kernel}

theorem taskInitRegisters_of_ne (p : UInt32) (process : Process) {chunk : UInt32} (m : Mem)
    (h : chunk ≠ 0) : (taskInitRegisters p process chunk m).1 = 0 ∧
      (taskInitRegisters p process chunk m).2.pageDirectory = chunk ∧
      (taskInitRegisters p process chunk m).2.process = p ∧
      (taskInitRegisters p process chunk m).2.next = 0 ∧
      (taskInitRegisters p process chunk m).2.prev = 0 := by
  unfold taskInitRegisters
  rw [if_neg h]
  exact ⟨rfl, rfl, rfl, rfl, rfl⟩

theorem taskInit_eq {p : UInt32} {chunk : UInt32} (h : pagingNew4gb (1 ||| 4) k = (chunk, k')) :
    taskInit p process k = (taskInitRegisters p process chunk k'.mem, k') := by
  unfold taskInit
  rw [h]

/-- `task_new` has put the task `t` of the process `p` into the block `b`, with the address
space `s`: the state after the allocations, before the task joins the list. -/
structure NewTask (p : UInt32) (k k' : Kernel) (b : ℕ) (s : SpaceBlocks) (t : Task) : Prop where
  takes : Takes k k' (insert b s.blocks)
  not_mem : b ∉ s.blocks
  space : Represents k'.mem s fun w => w ||| 5
  pageDirectory : t.pageDirectory = blockAddr s.chunk
  process : t.process = p
  next : t.next = 0
  prev : t.prev = 0

theorem NewTask.lt {b : ℕ} {s : SpaceBlocks} {t : Task} (h : NewTask p k k' b s t) : b < 25600 :=
  h.takes.lt b (Set.mem_insert b _)

/-- Freeing never counts as a failure. -/
theorem pagingFreeTables_oom (chunk : UInt32) : ∀ (n : ℕ) (k : Kernel),
    (pagingFreeTables chunk n k).oom = k.oom
  | 0, _ => rfl
  | n + 1, k => pagingFreeTables_oom chunk n k

theorem taskListRemove_kernel (task : UInt32) (st : TaskState) :
    (taskListRemove task st).kernel = st.kernel := by
  unfold taskListRemove
  dsimp only
  split_ifs <;> rfl

theorem taskFree_oom (task : UInt32) (st : TaskState) :
    (taskFree task st).kernel.oom = st.kernel.oom := by
  unfold taskFree
  rw [kfree_oom, taskListRemove_kernel]
  unfold pagingFree4gb
  rw [kfree_oom, kfree_oom, pagingFreeTables_oom]

theorem taskNew_of_null (h : kzalloc 64 st.kernel = (0, k)) :
    taskNew p process st = (UInt32.ofInt (-ENOMEM), taskFree 0 { st with kernel := k }) := by
  unfold taskNew
  simp only [h, if_true]

theorem taskNew_of_ne {a : UInt32} {init : ℤ × Task} (h : kzalloc 64 st.kernel = (a, k))
    (ha : a ≠ 0) (hinit : taskInit p process k = (init, k')) :
    taskNew p process st =
      if init.1 ≠ 0 then
        (UInt32.ofInt init.1, taskFree a
          { st with kernel := k', tasks := Function.update st.tasks a init.2 })
      else (a, taskAppend a
          { st with kernel := k', tasks := Function.update st.tasks a init.2 }) := by
  unfold taskNew
  simp only [h, hinit]
  exact if_neg ha

theorem taskAppend_kernel (task : UInt32) (st : TaskState) :
    (taskAppend task st).kernel = st.kernel := by
  unfold taskAppend
  split_ifs <;> rfl

/-- Two tasks that differ in their links only. -/
def SameTask (t u : Task) : Prop :=
  t.pageDirectory = u.pageDirectory ∧ t.registers = u.registers ∧ t.process = u.process

theorem SameTask.trans {t u v : Task} (h₁ : SameTask t u) (h₂ : SameTask u v) : SameTask t v :=
  ⟨h₁.1.trans h₂.1, h₁.2.1.trans h₂.2.1, h₁.2.2.trans h₂.2.2⟩

theorem sameTask_update (tasks : UInt32 → Task) (a : UInt32) {t : Task}
    (h : SameTask t (tasks a)) (x : UInt32) : SameTask (Function.update tasks a t x) (tasks x) := by
  rcases eq_or_ne x a with rfl | hx
  · rw [Function.update_self]
    exact h
  · rw [Function.update_of_ne hx]
    exact ⟨rfl, rfl, rfl⟩

/-- The links are all that changes in the tasks when one is appended. -/
theorem taskAppend_sameTask (task : UInt32) (st : TaskState) (x : UInt32) :
    SameTask ((taskAppend task st).tasks x) (st.tasks x) := by
  unfold taskAppend
  split_ifs
  · exact ⟨rfl, rfl, rfl⟩
  · have hnext := sameTask_update st.tasks st.taskTail
      (t := { st.tasks st.taskTail with next := task }) ⟨rfl, rfl, rfl⟩
    dsimp only
    generalize Function.update st.tasks st.taskTail { st.tasks st.taskTail with next := task } =
      tasks at hnext ⊢
    have hprev := sameTask_update tasks task
      (t := { tasks task with prev := st.taskTail }) ⟨rfl, rfl, rfl⟩ x
    exact hprev.trans (hnext x)

/-- A new task of the process `p` is appended; nothing is said about the kernel. -/
def AppendsTask (p task : UInt32) (st st' : TaskState) : Prop :=
  task ≠ 0 ∧ ∃ k k' t, t.process = p ∧ st' = { taskAppend task
    { st with kernel := k, tasks := Function.update st.tasks task t } with kernel := k' }

theorem AppendsTask.of_kernel {task : UInt32} {st' : TaskState} (k : Kernel)
    (h : AppendsTask p task { st with kernel := k } st') : AppendsTask p task st st' := h

/-- The first task becomes the head and the current task. -/
theorem AppendsTask.first {task : UInt32} {st' : TaskState} (h : AppendsTask p task st st')
    (hhead : st.taskHead = 0) :
    st'.taskHead = task ∧ st'.currentTask = task ∧ (st'.tasks task).process = p := by
  obtain ⟨-, k, k', t, ht, rfl⟩ := h
  unfold taskAppend
  rw [if_pos hhead]
  dsimp only
  rw [Function.update_self]
  exact ⟨rfl, rfl, ht⟩

/-- A later one becomes neither. -/
theorem AppendsTask.later {task : UInt32} {st' : TaskState} (h : AppendsTask p task st st')
    (hhead : st.taskHead ≠ 0) :
    st'.taskHead = st.taskHead ∧ st'.currentTask = st.currentTask ∧
      ∀ x, x ≠ task → (st'.tasks x).process = (st.tasks x).process := by
  obtain ⟨-, k, k', t, ht, rfl⟩ := h
  refine ⟨?_, ?_, fun x hx => ?_⟩
  · unfold taskAppend
    rw [if_neg hhead]
  · unfold taskAppend
    rw [if_neg hhead]
  · refine (taskAppend_sameTask task _ x).2.2.trans ?_
    dsimp only
    rw [Function.update_of_ne hx]

/-- When no allocation of `task_new` fails, neither do the one of the task and those of its
directory. -/
theorem taskNew_oom_false (hok : (taskNew p process st).2.kernel.oom = false) :
    (kzalloc 64 st.kernel).2.oom = false ∧
      (pagingNew4gb (1 ||| 4) (kzalloc 64 st.kernel).2).2.oom = false := by
  rcases hk : kzalloc 64 st.kernel with ⟨a, k₁⟩
  rcases hnew : pagingNew4gb (1 ||| 4) k₁ with ⟨chunk, k₂⟩
  have hend : a ≠ 0 → k₂.oom = false := by
    intro ha
    rw [taskNew_of_ne hk ha (taskInit_eq hnew)] at hok
    split_ifs at hok
    · rw [taskFree_oom] at hok
      exact hok
    · rw [taskAppend_kernel] at hok
      exact hok
  have hok₁ : k₁.oom = false := by
    rcases eq_or_ne a 0 with rfl | ha
    · rw [taskNew_of_null hk] at hok
      dsimp only at hok
      rw [taskFree_oom] at hok
      exact hok
    · have hok' : (pagingNew4gb (1 ||| 4) k₁).2.oom = false := by rw [hnew]; exact hend ha
      exact pagingNew4gb_oom_false hok'
  have hok₀ : (kzalloc 64 st.kernel).2.oom = false := by rw [hk]; exact hok₁
  have hne := kzalloc_ne_zero_of_ok hok₀
  rw [hk] at hne
  exact ⟨hok₁, hend hne⟩

/-- When no allocation fails, `task_new` makes a task and appends it to the list. -/
theorem taskNew_ok (hok : (taskNew p process st).2.kernel.oom = false) :
    ∃ b s t k, NewTask p st.kernel k b s t ∧ k.oom = false ∧
      taskNew p process st = (blockAddr b, taskAppend (blockAddr b)
        { st with kernel := k, tasks := Function.update st.tasks (blockAddr b) t }) := by
  obtain ⟨hok₀, hok₂⟩ := taskNew_oom_false hok
  rcases hk : kzalloc 64 st.kernel with ⟨a, k₁⟩
  rw [hk] at hok₂
  rcases hnew : pagingNew4gb (1 ||| 4) k₁ with ⟨chunk, k₂⟩
  rw [hnew] at hok₂
  obtain ⟨b, hb, htake, -⟩ := kzalloc_block_of_ok (by decide) (by decide) hok₀
  rw [hk] at hb htake
  dsimp only at hb htake
  have hlt := htake.lt b rfl
  have ha : a ≠ 0 := by rw [hb]; exact blockAddr_ne_zero hlt
  have hok' : (pagingNew4gb (1 ||| 4) k₁).2.oom = false := by rw [hnew]; exact hok₂
  obtain ⟨s, hchunk, htakes, hrep⟩ := pagingNew4gb_spec hok'
  rw [hnew] at hchunk htakes hrep
  dsimp only at hchunk htakes hrep
  have hne : chunk ≠ 0 := by rw [hchunk]; exact blockAddr_ne_zero s.chunk_lt
  obtain ⟨hres, hdir, hprocess, hnext, hprev⟩ := taskInitRegisters_of_ne p process k₂.mem hne
  refine ⟨b, s, (taskInitRegisters p process chunk k₂.mem).2, k₂, ⟨?_, ?_, hrep,
    hdir.trans hchunk, hprocess, hnext, hprev⟩, hok₂, ?_⟩
  · rw [Set.insert_eq]
    exact htake.trans htakes
  · exact fun hmem => htake.taken rfl (htakes.free b hmem)
  · rw [taskNew_of_ne hk ha (taskInit_eq hnew), if_neg (not_not.mpr hres), hb]

/-- `task_new` takes 1027 blocks from the room at the top. -/
theorem TopFree.taskNew {live : Layout UInt32} {n : ℕ} (h : TopFree st.kernel live n)
    (hn : n + 1027 ≤ 25600) (p : UInt32) (process : Process) :
    ∃ live', TopFree (PeachOS.taskNew p process st).2.kernel live' (n + 1027) ∧
      live (PeachOS.taskNew p process st).1 = none ∧
      (∃ e, live' (PeachOS.taskNew p process st).1 = some e) ∧
      ∀ a e, live a = some e → live' a = some e := by
  have hone : blocksFor 64 = 1 := by decide
  obtain ⟨a, k₁, live₁, hk₁, h₁, halloc, hnone, hkeep₁⟩ := h.kzalloc 64 (by decide) (by omega)
  have hne : a ≠ 0 := h₁.heap.allocated_ne_zero halloc
  rw [hone] at h₁
  obtain ⟨chunk, k₂, live₂, hnew, hchunk, h₂, hkeep₂⟩ := h₁.pagingNew4gb (1 ||| 4) (by omega)
  obtain ⟨e, he, -⟩ := halloc
  rw [taskNew_of_ne hk₁ hne (taskInit_eq hnew),
    if_neg (not_not.mpr (taskInitRegisters_of_ne p process k₂.mem hchunk).1)]
  refine ⟨live₂, ?_, hnone, ⟨e, hkeep₂ a e he⟩, fun a e hae => hkeep₂ a e (hkeep₁ a e hae)⟩
  rw [taskAppend_kernel, show n + 1027 = n + 1 + 1026 by ring]
  exact h₂

end PeachOS
