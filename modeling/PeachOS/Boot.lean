import PeachOS.ProcessCreation
import PeachOS.ProgramLoading
import PeachOS.CurrentProcess

/-! # The first task

`kernel_main` from the page directory of the kernel on: the commands and the keyboard are
registered, `blank.elf` is loaded, and its task runs.

* `kernelMain_launched`: with room in the heap and a program that can be mapped, the boot ends with
  the task running in its own space. -/

namespace PeachOS

open ByteMemory Extents X86

/-! ### Definitions -/

/-- `task_switch`. -/
def System.taskSwitch (task : UInt32) (st : System) : Option System :=
  let st := { st with machine := PeachOS.taskSwitch task st.machine }
  (pagingSwitch st.task.pageDirectory st.paged).map st.setPaged

/-- `task_run_first_ever_task` before `task_return`; `none` is the panic or a fault. -/
def System.taskRunFirstEverTask (st : System) : Option System :=
  if st.machine.sched.currentTask = 0 then none else st.taskSwitch st.machine.sched.taskHead

/-- The program that `kernel_main` loads. -/
def bootFilename : List UInt8 := "0:/blank.elf".toList.map ascii

/-- `kernel_main` up to `enable_paging`, from `paging_new_4gb` on.  Paging is off, so
`paging_switch` reads the chunk where it is. -/
def System.enablePaging (st : System) : System :=
  let chunk := pagingNew4gb (2 ||| 1 ||| 4) st.machine.sched.kernel
  let directory := paging4gbChunkGetDirectory chunk.1 chunk.2.mem
  { st with
    machine := st.machine.setKernel chunk.2
    kernelChunk := chunk.1
    cr3 := directory
    currentDirectory := directory }

/-- `kernel_main` from `paging_new_4gb` on, until the first task returns to user mode; `none` is
the panic or a fault. -/
def kernelMain (load : Loader) (uninit : UInt32) (st : System) : Option System := do
  let st ← isr80hRegisterCommands st.enablePaging
  let st := classicKeyboardInit st
  let r ← processLoadSwitch load uninit bootFilename 0 st.machine
  if r.res ≠ 0 then none else ({ st with machine := r.st } : System).taskRunFirstEverTask

/-! ### The first load -/

/-- The process `p` has the first task, and the directory of it is that of `t`: what
`process_load_for_slot` makes of the machine `st` from `task_new` on. -/
structure FirstTask (st : Machine) (p : UInt32) (t : TaskSpace) (r : LoadResult) : Prop where
  res : r.res = 0
  process : r.process = p
  mem : r.st.sched.kernel.mem = t.mem
  head : r.st.sched.taskHead = r.st.sched.currentTask
  task : r.st.sched.currentTask ≠ 0
  directory : (r.st.sched.tasks r.st.sched.currentTask).pageDirectory = blockAddr t.space.chunk
  owner : (r.st.sched.tasks r.st.sched.currentTask).process = p
  procs : r.st.procs = Function.update st.procs p { st.procs p with task := r.st.sched.currentTask }

/-- A structure of `n` bytes at `a`, which was allocated after `live` and not for the program. -/
structure TaskSpace.Record (t : TaskSpace) (live : Layout UInt32) (a : UInt32) (n : ℕ) : Prop where
  fresh : live a = none
  own : a ∉ t.own
  covers : ∃ e, t.live a = some e ∧ n ≤ 4096 * e.len

namespace TaskSpace.Record

variable {t : TaskSpace} {live : Layout UInt32} {a x : UInt32} {n : ℕ}

theorem extent (h : t.Record live a n) (hx : InRange a n x) :
    ∃ e, t.live a = some e ∧ InExtent e x := by
  obtain ⟨e, he, hn⟩ := h.covers
  have hin := t.heap.encodes.packed.inside a e he
  rw [kernelHeap_total] at hin
  rw [t.heap.address a e he] at hx
  exact ⟨e, he, inExtent_of_inRange hin hn hx⟩

/-- It has no byte of an earlier allocation. -/
theorem apart (h : t.Record live a n) (hkeep : ∀ b e, live b = some e → t.live b = some e)
    {b : UInt32} {e : Extent} (he : live b = some e) (hx : InExtent e x) : ¬ InRange a n x := by
  intro hr
  obtain ⟨f, hf, hxf⟩ := h.extent hr
  refine t.heap.extent_apart (hkeep b e he) hf ?_ hx hxf
  rintro rfl
  rw [h.fresh] at he
  cases he

end TaskSpace.Record

section FirstLoad

variable {st : Machine} {live live₀ : Layout UInt32} {k₀ : Kernel} {n c : ℕ} {p own : UInt32}
  {data : LoadedData}

/-- `task_new` while there is no task: the new one is the head of the list, and current. -/
theorem taskNew_first {st : TaskState} {k k' : Kernel} {a : UInt32} {process : Process}
    {task : Task} (hk : kzalloc 64 st.kernel = (a, k)) (hne : a ≠ 0)
    (hinit : taskInit p process k = ((0, task), k')) (hhead : st.taskHead = 0) :
    taskNew p process st = (a, { st with
      kernel := k'
      tasks := Function.update st.tasks a task
      taskHead := a
      taskTail := a
      currentTask := a }) := by
  rw [taskNew_of_ne hk hne hinit, if_neg (not_not.mpr rfl)]
  unfold taskAppend
  rw [if_pos hhead]

theorem processLoadMap_mapped {m : Mem} (slot : ℤ) (out : UInt32)
    (h : processMapMemory (st.procs p).toProcess (st.sched.tasks (st.procs p).task)
      st.sched.kernel.mem = some (0, m)) :
    processLoadMap p slot out st = some ⟨0, p, { st.setKernel { st.sched.kernel with
      mem := m } with processes := Function.update st.processes slot p }⟩ := by
  unfold processLoadMap
  dsimp only
  rw [h]
  rfl

/-- `process_load_for_slot` from `task_new` on, when the first task is made and mapped. -/
theorem processLoadTask_first {k₁ k₂ : Kernel} {a : UInt32} {task : Task} {t : TaskSpace}
    (hk : kzalloc 64 st.sched.kernel = (a, k₁)) (hne : a ≠ 0)
    (hinit : taskInit p (st.procs p).toProcess k₁ = ((0, task), k₂))
    (hhead : st.sched.taskHead = 0) (howner : task.process = p)
    (hdir : task.pageDirectory = blockAddr t.space.chunk)
    (hmap : processMapMemory (st.procs p).toProcess task k₂.mem = some (0, t.mem)) (slot : ℤ)
    (out : UInt32) :
    ∃ r, processLoadTask p slot out st = some r ∧ FirstTask st p t r ∧
      r.st.sched.currentTask = a := by
  obtain ⟨sched, hsched⟩ : ∃ sched : TaskState, sched = { st.sched with
    kernel := k₂
    tasks := Function.update st.sched.tasks a task
    taskHead := a
    taskTail := a
    currentTask := a } := ⟨_, rfl⟩
  have htask : taskNew p (st.procs p).toProcess st.sched = (a, sched) := by
    rw [hsched]
    exact taskNew_first hk hne hinit hhead
  have hself : sched.tasks a = task := by
    rw [hsched]
    exact Function.update_self ..
  have hkernel : sched.kernel = k₂ := by rw [hsched]
  have hcurrent : sched.currentTask = a := by rw [hsched]
  have hfirst : sched.taskHead = a := by rw [hsched]
  obtain ⟨st', hst'⟩ : ∃ st', st' = ({ st with sched := sched } : Machine).setProc p
    { st.procs p with task := a } := ⟨_, rfl⟩
  have hprocs : st'.procs = Function.update st.procs p { st.procs p with task := a } := by
    rw [hst']
    rfl
  have hst : st'.sched = sched := by rw [hst', Machine.setProc_sched]
  have hmapped : processMapMemory (st'.procs p).toProcess (st'.sched.tasks (st'.procs p).task)
      st'.sched.kernel.mem = some (0, t.mem) := by
    rw [hprocs, Function.update_self, hst]
    dsimp only
    rw [hself, hkernel]
    exact hmap
  obtain ⟨r, hr⟩ : ∃ r : LoadResult, r = ⟨0, p, { st'.setKernel { st'.sched.kernel with
    mem := t.mem } with processes := Function.update st'.processes slot p }⟩ := ⟨_, rfl⟩
  have hload : processLoadTask p slot out st = some r := by
    unfold processLoadTask
    rw [htask]
    dsimp only
    rw [if_neg hne, ← hst', hr]
    exact processLoadMap_mapped slot out hmapped
  have hcur : r.st.sched.currentTask = a := by
    rw [hr, ← hcurrent, ← hst]
    rfl
  have hhead' : r.st.sched.taskHead = a := by
    rw [hr, ← hfirst, ← hst]
    rfl
  have hat : r.st.sched.tasks r.st.sched.currentTask = task := by
    rw [hcur, ← hself, ← hst, hr]
    rfl
  refine ⟨r, hload, ⟨by rw [hr], by rw [hr], by rw [hr]; rfl, hhead'.trans hcur.symm, hcur ▸ hne,
    by rw [hat, hdir], by rw [hat, howner], ?_⟩, hcur⟩
  rw [hcur, ← hprocs, hr]
  rfl

/-- `process_load_for_slot` from `task_new` on. -/
theorem Mappable.firstTask (hmap : Mappable data own k₀ live₀)
    (hgrown : Grown k₀ live₀ st.sched.kernel live n) (hn : n + 1027 ≤ 25600)
    (hhead : st.sched.taskHead = 0) (hdata : data.In (st.procs p).toProcess)
    (hstack : Allocated live peachosUserProgramStackSize (st.procs p).stack)
    (hown : ∃ e, live own = some e) (slot : ℤ) (out : UInt32) :
    ∃ (r : LoadResult) (t : TaskSpace) (n' : ℕ), processLoadTask p slot out st = some r ∧
      FirstTask st p t r ∧ Grown k₀ live₀ t.kernel t.live n' ∧
      t.own = {own, (st.procs p).stack} ∧
      t.Record live r.st.sched.currentTask sizeofTask := by
  have hone : blocksFor 64 = 1 := by decide
  obtain ⟨a, k₁, live₁, hk₁, h₁, ha, hanew⟩ :=
    hgrown.top.kzalloc_grown (show 1 ≤ (64 : UInt32).toNat by decide) (by omega)
  rw [hone] at h₁
  have hne : a ≠ 0 := h₁.top.heap.allocated_ne_zero ha
  obtain ⟨s, k₂, live₂, hnew, h₂, -⟩ := h₁.top.pagingNew4gb_grown (by omega)
    (show (1 ||| 4 : UInt8).toUInt32 ||| pagingIsWritable = 7 by decide)
  have hinit : taskInit p (st.procs p).toProcess k₁ = _ := taskInit_eq hnew
  obtain ⟨hres, -, howner, -⟩ := taskInitRegisters_of_ne p (st.procs p).toProcess k₂.mem
    (blockAddr_ne_zero s.chunk_lt)
  generalize taskInitRegisters p (st.procs p).toProcess (blockAddr s.chunk) k₂.mem = registers
    at hinit hres howner
  obtain ⟨res, init⟩ := registers
  obtain rfl : res = 0 := hres
  obtain ⟨t, htk, htlive, htown, -, htdir, htmap⟩ := hmap (hgrown.trans h₁) hdata
    (hstack.mono h₁.keep) hinit h₂.top.ok
  obtain ⟨r, hload, hfirst, hcur⟩ :=
    processLoadTask_first hk₁ hne hinit hhead howner htdir htmap slot out
  refine ⟨r, t, n + 1, hload, hfirst, ?_, htown, ?_⟩
  · rw [htk, htlive]
    exact hgrown.trans h₁
  · obtain ⟨e, he, hlen⟩ := ha
    rw [hcur]
    refine ⟨hanew, fun hin => ?_, e, by rw [htlive, he], ?_⟩
    · rw [htown] at hin
      rcases hin with rfl | rfl
      · obtain ⟨f, hf⟩ := hown
        rw [hanew] at hf
        cases hf
      · obtain ⟨f, hf⟩ := hstack.exists_extent
        rw [hanew] at hf
        cases hf
    · rw [hlen, hone]
      decide

/-- The state of the machine once its first program is loaded into the space `t`. -/
structure FirstProgram (st : Machine) (live : Layout UInt32) (t : TaskSpace) (r : LoadResult) :
    Prop where
  res : r.res = 0
  grown : ∃ n, Grown st.sched.kernel live t.kernel t.live n
  own : ∀ a ∈ t.own, live a = none
  mem : r.st.sched.kernel.mem = t.mem
  head : r.st.sched.taskHead = r.st.sched.currentTask
  directory : (r.st.sched.tasks r.st.sched.currentTask).pageDirectory = blockAddr t.space.chunk
  task : t.Record live r.st.sched.currentTask sizeofTask
  process : t.Record live r.process sizeofProcess
  reads : Reads r.st r.process
  keyboard : (r.st.procs r.process).keyboard = keyboardBufferZero
  fresh : (∀ p, (st.procs p).allocations = processInit.allocations) →
    ∀ p, (r.st.procs p).allocations = processInit.allocations

/-- A call for a free slot whose allocations are served and whose file is loaded, up to
`task_new`. -/
theorem processLoadForSlot_served {load : Loader} {filename : List UInt8} {slot : ℤ}
    {stack : UInt32} {k₁ k₂ k₃ : Kernel} (hget : processGet slot st = 0)
    (hp : kzalloc 5260 st.sched.kernel = (p, k₁)) (hpne : p ≠ 0)
    (hdata : load filename k₁ = (data, k₂)) (hres : data.res = 0)
    (hstack : kzalloc peachosUserProgramStackSize k₂ = (stack, k₃)) (hstackne : stack ≠ 0)
    (uninit out : UInt32) :
    processLoadForSlot load uninit filename slot out st = processLoadTask p slot out
      ((st.setKernel k₃).setProc p
        (withStack filename slot stack (data.store processFullZero))) := by
  have hnew : newProcess st = p := congrArg Prod.fst hp
  have hkernel : newKernel st = k₁ := congrArg Prod.snd hp
  have hstate : dataState load filename st = (st.setKernel k₂).setProc p
      (data.store processFullZero) := by
    unfold dataState
    rw [hkernel, hdata, hnew]
  have hstackEq : newStack load filename st = stack := by
    unfold newStack
    rw [hstate]
    exact congrArg Prod.fst hstack
  have hst : stackState load filename slot st = (st.setKernel k₃).setProc p
      (withStack filename slot stack (data.store processFullZero)) := by
    unfold stackState
    rw [hstate, hstackEq, hnew]
    dsimp only
    rw [Machine.setProc_self]
    rw [show ((st.setKernel k₂).setProc p _).sched.kernel = k₂ from rfl, hstack]
    unfold Machine.setProc Machine.setKernel
    rw [Function.update_idem]
  rw [processLoadForSlot_eq hget, if_neg (by rw [hnew]; exact hpne), hkernel, hdata,
    if_neg (show ¬ data.res < 0 by rw [hres]; decide), processLoadStack_eq,
    if_neg (by rw [hstackEq]; exact hstackne), hst, hnew]

theorem processLoadSwitch_loaded {load : Loader} {filename : List UInt8} {uninit out : UInt32}
    {r : LoadResult} (h : processLoadForSlot load uninit filename (processGetFreeSlot st) out st =
      some r) (hres : r.res = 0) :
    processLoadSwitch load uninit filename out st =
      some { r with st := processSwitch r.process r.st } := by
  have hslot := (processGetFreeSlot_isSlot st).1
  unfold processLoadSwitch processLoad
  dsimp only
  rw [if_neg (Int.not_lt.mpr hslot), h, Option.map_some, if_pos hres]

/-- The ring and the array of a process that is loaded. -/
theorem withStack_store (filename : List UInt8) (slot : ℤ) (stack : UInt32) (data : LoadedData) :
    (withStack filename slot stack (data.store processFullZero)).keyboard = keyboardBufferZero ∧
      (withStack filename slot stack (data.store processFullZero)).allocations =
        processInit.allocations := by
  cases data <;> exact ⟨rfl, rfl⟩

/-- The switch to the process, once it has its task: `st₃` is the machine before `task_new`. -/
theorem FirstTask.firstProgram {st₃ : Machine} {t : TaskSpace} {r : LoadResult}
    {filename : List UInt8} {slot : ℤ} {stack : UInt32} (h : FirstTask st₃ p t r)
    (hst₃ : st₃.procs = Function.update st.procs p
      (withStack filename slot stack (data.store processFullZero)))
    (hgrown : ∃ n, Grown st.sched.kernel live t.kernel t.live n)
    (hown : ∀ a ∈ t.own, live a = none)
    (htask : t.Record live r.st.sched.currentTask sizeofTask) (hp : t.Record live p sizeofProcess)
    (hpne : p ≠ 0) : FirstProgram st live t { r with st := processSwitch r.process r.st } where
  res := h.res
  grown := hgrown
  own := hown
  mem := h.mem
  head := h.head
  directory := h.directory
  task := htask
  process := by
    rw [show LoadResult.process _ = p from h.process]
    exact hp
  reads := by
    refine ⟨?_, rfl, h.task, h.owner.trans h.process.symm⟩
    rw [show LoadResult.process _ = p from h.process]
    exact hpne
  keyboard := by
    change (r.st.procs r.process).keyboard = _
    rw [h.process, h.procs, Function.update_self, hst₃, Function.update_self]
    exact (withStack_store filename slot stack data).1
  fresh hfresh q := by
    change (r.st.procs q).allocations = _
    rw [h.procs, hst₃]
    rcases eq_or_ne q p with rfl | hne
    · rw [Function.update_self, Function.update_self]
      exact (withStack_store filename slot stack data).2
    · rw [Function.update_of_ne hne, Function.update_of_ne hne]
      exact hfresh q

/-- The first load, in a heap with room for the program. -/
theorem LoadsProgram.firstProgram {load : Loader} {filename : List UInt8}
    (hload : LoadsProgram load filename c) (h : TopFree st.sched.kernel live n)
    (hn : n + c + 1033 ≤ 25600) (hhead : st.sched.taskHead = 0)
    (hfree : ∀ i, st.processes i = 0) (uninit out : UInt32) :
    ∃ r t, processLoadSwitch load uninit filename out st = some r ∧ FirstProgram st live t r := by
  have hroom : n + 2 + c + 4 + 1027 ≤ 25600 := by omega
  have hget : processGet (processGetFreeSlot st) st = 0 :=
    processGet_processGetFreeSlot (i := 0) (by decide) (hfree _)
  -- the structure of the process
  have htwo : blocksFor 5260 = 2 := by decide
  obtain ⟨p, k₁, live₁, hk₁, h₁, hp, hpnew⟩ :=
    h.kzalloc_grown (show 1 ≤ (5260 : UInt32).toNat by decide) (by omega)
  rw [htwo] at h₁
  have hpne : p ≠ 0 := h₁.top.heap.allocated_ne_zero hp
  -- the file
  obtain ⟨data, own, k₂, live₂, hk₂, hin, h₂, hownnew, hownlive, hmap⟩ := hload h₁.top (by omega)
  -- the stack
  have hfour : blocksFor peachosUserProgramStackSize = 4 := by decide
  obtain ⟨stack, k₃, live₃, hk₃, h₃, hstack, hstacknew⟩ :=
    h₂.top.kzalloc_grown (show 1 ≤ peachosUserProgramStackSize.toNat by decide) (by omega)
  rw [hfour] at h₃
  have hstackne : stack ≠ 0 := h₃.top.heap.allocated_ne_zero hstack
  obtain ⟨slot, hslot⟩ : ∃ slot, slot = processGetFreeSlot st := ⟨_, rfl⟩
  rw [← hslot] at hget
  obtain ⟨hres, hin'⟩ := LoadedData.in_withStack hin filename slot stack
  -- the machine before `task_new`
  obtain ⟨st₃, hst₃⟩ : ∃ st₃, st₃ = (st.setKernel k₃).setProc p
    (withStack filename slot stack (data.store processFullZero)) := ⟨_, rfl⟩
  have hself : st₃.procs p = withStack filename slot stack (data.store processFullZero) := by
    rw [hst₃, Machine.setProc_self]
  have hprocs : st₃.procs = Function.update st.procs p
      (withStack filename slot stack (data.store processFullZero)) := by
    rw [hst₃]
    rfl
  have hkernel₃ : st₃.sched.kernel = k₃ := congrArg (fun s => s.sched.kernel) hst₃
  have hhead₃ : st₃.sched.taskHead = 0 := (congrArg (fun s => s.sched.taskHead) hst₃).trans hhead
  rw [← hkernel₃] at h₃
  obtain ⟨e, he⟩ := hownlive
  obtain ⟨r, t, n', hr, hfirst, hgrown, hown, htask⟩ := hmap.firstTask (p := p) h₃ hroom
    hhead₃ (by rw [hself]; exact hin') (by rw [hself]; exact hstack) ⟨e, h₃.keep _ e he⟩ slot out
  rw [hself] at hown
  have hforSlot : processLoadForSlot load uninit filename slot out st = some r := by
    rw [processLoadForSlot_served hget hk₁ hpne hk₂ hres hk₃ hstackne, ← hst₃]
    exact hr
  rw [hslot] at hforSlot
  have hrecord : t.Record live p sizeofProcess := by
    obtain ⟨f, hf, hlen⟩ := hp
    refine ⟨hpnew, ?_, f, (h₂.trans hgrown).keep _ f hf, ?_⟩
    · rw [hown]
      rintro (heq | heq)
      · rw [heq, hownnew] at hf
        cases hf
      · have hlater := h₂.keep _ f hf
        rw [heq] at hlater
        cases hstacknew.symm.trans hlater
    · rw [hlen, htwo]
      decide
  refine ⟨_, t, processLoadSwitch_loaded hforSlot hfirst.res, hfirst.firstProgram hprocs
    ⟨n', h₁.trans (h₂.trans hgrown)⟩ (fun a ha => ?_) ⟨?_, htask.own, htask.covers⟩ hrecord hpne⟩
  · rw [hown] at ha
    rcases ha with rfl | rfl
    · exact h₁.not_live hownnew
    · exact h₁.not_live (h₂.not_live hstacknew)
  · exact h₁.not_live (h₂.not_live (h₃.not_live htask.fresh))

end FirstLoad

/-! ### The boot -/

/-- The kernel before its page directory is made: from block `n` on the heap is free, there is no
process and no task, and no command and no callback is registered. -/
structure Prepared (st : System) (live : Layout UInt32) (n : ℕ) : Prop where
  heap : TopFree st.machine.sched.kernel live n
  taskHead : st.machine.sched.taskHead = 0
  processes : ∀ i, st.machine.processes i = 0
  fresh : ∀ p, (st.machine.procs p).allocations = processInit.allocations
  commands : st.isr80hCommands = List.replicate peachosMaxIsr80hCommands none
  callbacks : st.interruptCallbacks = List.replicate peachosTotalInterrupts none
  stray : st.mem 0x6e00 &&& heapBlockHasNext = 0

/-- The first task runs in the space `t`, with an empty keyboard ring.  The allocations from before
the boot are there; they are none of the program's, and the records are none of them. -/
structure Started (st : System) (live : Layout UInt32) (t : TaskSpace) (s₀ : SpaceBlocks)
    (st' : System) : Prop where
  launched : t.Launched s₀ st'
  reads : ∃ p, Reads st'.machine p ∧ (st'.machine.procs p).keyboard = keyboardBufferZero
  terminal : st'.terminal = st.terminal
  kept : ∀ a e, live a = some e → t.live a = some e ∧ a ∉ t.own
  records : ∀ a e, live a = some e → ∀ x, InExtent e x → ¬ st'.machine.InRecords x

section Boot

variable {st : System} {live : Layout UInt32} {n c : ℕ} {load : Loader}

/-- What `task_run_first_ever_task` does when the first task is the current one. -/
theorem System.taskRunFirstEverTask_eq (hcurrent : st.machine.sched.currentTask ≠ 0)
    (hhead : st.machine.sched.taskHead = st.machine.sched.currentTask) :
    st.taskRunFirstEverTask = st.taskPage := by
  unfold System.taskRunFirstEverTask
  rw [if_neg hcurrent, hhead]
  rfl

/-- The kernel with its directory, before anything is registered. -/
theorem System.enablePaging_eq {s₀ : SpaceBlocks} {k : Kernel} {f : UInt32 → UInt32}
    (hnew : pagingNew4gb (2 ||| 1 ||| 4) st.machine.sched.kernel = (blockAddr s₀.chunk, k))
    (hrep : Represents k.mem s₀ f) :
    st.enablePaging = { st with
      machine := st.machine.setKernel k
      kernelChunk := blockAddr s₀.chunk
      cr3 := blockAddr s₀.directory
      currentDirectory := blockAddr s₀.directory } := by
  unfold System.enablePaging
  rw [hnew]
  dsimp only
  rw [show paging4gbChunkGetDirectory (blockAddr s₀.chunk) k.mem = blockAddr s₀.directory from
    hrep.tables.chunk]

/-- The boot once the commands are registered and the program is loaded. -/
theorem kernelMain_eq {st₁ : System} {r : LoadResult} {uninit : UInt32}
    (hcommands : isr80hRegisterCommands st.enablePaging = some st₁)
    (hswitch : processLoadSwitch load uninit bootFilename 0 (classicKeyboardInit st₁).machine =
      some r)
    (hres : r.res = 0) (hcurrent : r.st.sched.currentTask ≠ 0)
    (hhead : r.st.sched.taskHead = r.st.sched.currentTask) :
    kernelMain load uninit st =
      ({ classicKeyboardInit st₁ with machine := r.st } : System).taskPage := by
  unfold kernelMain
  simp only [hcommands, hswitch, Option.bind_eq_bind, Option.bind_some]
  rw [if_neg (not_not.mpr hres)]
  exact System.taskRunFirstEverTask_eq hcurrent hhead

section Ready

variable {m : Machine} {t : TaskSpace} {r : LoadResult} {s₀ : SpaceBlocks}

/-- The records of the first task are those of its structure and of that of its process. -/
theorem FirstProgram.inRecords (h : FirstProgram m live t r) {x : UInt32}
    (hx : r.st.InRecords x) : ∃ a n, t.Record live a n ∧ InRange a n x := by
  rcases hx with hx | ⟨a, ha, hx⟩
  · exact ⟨_, _, h.task, hx⟩
  · obtain rfl : a = r.process := by
      rcases ha with rfl | rfl
      · exact h.reads.process
      · exact h.reads.current
    exact ⟨_, _, h.process, hx⟩

/-- The loaded program is ready to run in a kernel whose space was built before it. -/
theorem FirstProgram.ready (h : FirstProgram m live t r)
    (hrep : Represents m.sched.kernel.mem s₀ fun w => w ||| 7)
    (hopen : OpenTables m.sched.kernel.mem s₀)
    (hkernel : ∀ x ∈ s₀.blocks, ∃ a e, live a = some e ∧ e.Has x)
    (hmachine : st.machine = r.st) (hchunk : st.kernelChunk = blockAddr s₀.chunk)
    (hregistered : st.Registered)
    (hfresh : ∀ p, (m.procs p).allocations = processInit.allocations)
    (hstray : m.sched.kernel.mem 0x6e00 &&& heapBlockHasNext = 0) : t.Ready s₀ st := by
  obtain ⟨n, hgrown⟩ := h.grown
  have hsame : ∀ x ∈ s₀.blocks, ∀ y, InBlock x y → t.kernel.mem y = m.sched.kernel.mem y := by
    intro x hx y hy
    obtain ⟨a, e, he, hhas⟩ := hkernel x hx
    exact hgrown.same a e he y ⟨x, hhas, hy⟩
  have hmem : st.mem = t.mem := (congrArg (fun m => m.sched.kernel.mem) hmachine).trans h.mem
  refine ⟨hrep.congr hsame, hopen.congr (hsame _ (Or.inr (Or.inl rfl))), fun x hx => ?_, hmem,
    hchunk, ?_, by rw [hmachine]; exact h.reads.task, hregistered,
    by rw [hmachine]; exact h.fresh hfresh, ?_, fun x hx => ?_⟩
  · obtain ⟨a, e, he, hhas⟩ := hkernel x hx
    refine ⟨a, e, fun ha => ?_, hgrown.keep a e he, hhas⟩
    rw [h.own a ha] at he
    cases he
  · unfold System.task
    rw [hmachine]
    exact h.directory
  · rw [hmem, t.mem_null, hgrown.null]
    exact hstray
  · rw [hmachine] at hx
    obtain ⟨a, n, hrecord, hxa⟩ := h.inRecords hx
    obtain ⟨e, he, hxe⟩ := hrecord.extent hxa
    refine ⟨?_, a, e, hrecord.own, he, hxe⟩
    rintro ⟨b, hb, hxb⟩
    obtain ⟨a', e', he', hhas⟩ := hkernel b hb
    exact hrecord.apart hgrown.keep he' ⟨b, hhas, hxb⟩ hxa

end Ready

/-- **The boot ends in the first task.**  With room in the heap, `kernel_main` panics nowhere. -/
theorem Prepared.kernelMain (h : Prepared st live n) (hload : LoadsProgram load bootFilename c)
    (hn : n + c + 2059 ≤ 25600) (uninit : UInt32) :
    ∃ st' t s₀, PeachOS.kernelMain load uninit st = some st' ∧ Started st live t s₀ st' := by
  obtain ⟨s₀, k₁, live₁, hnew, h₁, htakes, hrep, hopen⟩ := h.heap.pagingNew4gb_grown (by omega)
    (show (2 ||| 1 ||| 4 : UInt8).toUInt32 ||| pagingIsWritable = 7 by decide)
  have hpaged := System.enablePaging_eq hnew hrep
  obtain ⟨commands, hcommands, hregistered⟩ :=
    isr80hRegisterCommands_registered (show st.enablePaging.isr80hCommands = _ from h.commands)
      h.callbacks
  obtain ⟨st₁, hst₁⟩ : ∃ st₁, st₁ = { st.enablePaging with isr80hCommands := commands } := ⟨_, rfl⟩
  rw [← hst₁] at hcommands hregistered
  have hmachine : (classicKeyboardInit st₁).machine = st.machine.setKernel k₁ := by
    rw [hst₁, hpaged]
    rfl
  have htop : TopFree (st.machine.setKernel k₁).sched.kernel live₁ (n + 1026) := h₁.top
  obtain ⟨r, t, hswitch, hfirst⟩ := hload.firstProgram htop (by omega) h.taskHead h.processes
    uninit 0
  rw [← hmachine] at hswitch
  have hmain := kernelMain_eq hcommands hswitch hfirst.res hfirst.reads.task hfirst.head
  -- the state at the switch to the task
  obtain ⟨st₂, hst₂⟩ : ∃ st₂ : System, st₂ = { classicKeyboardInit st₁ with machine := r.st } :=
    ⟨_, rfl⟩
  rw [← hst₂] at hmain
  have hkernel : ∀ x ∈ s₀.blocks, ∃ a e, live₁ a = some e ∧ e.Has x := fun x hx =>
    h₁.top.heap.covered (SpaceBlocks.lt hx) (htakes.taken hx)
  have hready : t.Ready s₀ st₂ := by
    refine hfirst.ready hrep hopen hkernel (by rw [hst₂]) (by rw [hst₂, hst₁, hpaged]; rfl)
      (by rw [hst₂]; exact ⟨hregistered.commands, hregistered.callbacks⟩) h.fresh ?_
    exact (congrArg (· &&& _) h₁.null).trans h.stray
  obtain ⟨hpage, hlaunched⟩ := hready.taskPage (by rw [hst₂, hst₁, hpaged]; rfl)
  obtain ⟨n', hgrown⟩ := hfirst.grown
  refine ⟨_, t, s₀, hmain.trans hpage, hlaunched, ⟨r.process, ?_⟩, ?_, fun a e he => ?_,
    fun a e he x hx hrecord => ?_⟩
  · rw [hst₂]
    exact ⟨hfirst.reads, hfirst.keyboard⟩
  · rw [hst₂, hst₁, hpaged]
    rfl
  · refine ⟨hgrown.keep a e (h₁.keep a e he), fun ha => ?_⟩
    have hnone := h₁.not_live (hfirst.own a ha)
    rw [he] at hnone
    cases hnone
  · rw [hst₂] at hrecord
    obtain ⟨b, m, hr, hxb⟩ := hfirst.inRecords hrecord
    exact hr.apart hgrown.keep (h₁.keep a e he) hx hxb

end Boot

/-! ### What holds from the boot on -/

section Safety

variable {st st' st'' : System} {live : Layout UInt32} {t : TaskSpace} {s₀ : SpaceBlocks} {n : ℕ}

end Safety

/-! ### The program in the repository -/

/-- A buffer on the stack of the kernel, and a frame of zeros. -/
theorem stackBuffer : StackBuffer 0x5FF000 := ⟨by decide, by decide⟩

theorem ShownCall.of_ne {command : ℤ} {buf : UInt32} {st : System} (h1 : command ≠ 1)
    (h3 : command ≠ 3) (frame : InterruptFrame) : ShownCall command frame buf st :=
  fun _ _ _ _ => ⟨fun h => absurd h h1, fun h => absurd h h3⟩

/-- It asks for a key. -/
theorem Confinement.Kept.getkey {c : Confinement} {st : System} {live : Layout UInt32}
    (h : c.Kept st live) (hcr3 : st.cr3 = blockAddr c.task.directory) (frame : InterruptFrame) :
    ∃ st', SystemRun st st' := by
  have hserved : ServedCall st.cr3 2 frame.esp st.mem := fun h4 => absurd h4 (by decide)
  obtain ⟨r, hr, -⟩ := h.isr80hHandler_isSome hcr3 stackBuffer hserved
    (ShownCall.of_ne (by decide) (by decide) frame)
  exact ⟨r.2, Relation.ReflTransGen.single (SystemEvent.call 2 frame _ stackBuffer hserved hr)⟩

end PeachOS
