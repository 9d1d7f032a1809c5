import PeachOS.Keyboard
import PeachOS.ProcessTable
import PeachOS.Terminal

/-! # The current process and the current task

`process_load_switch` sets `current_process`; `task_new`, `task_switch` and
`task_run_first_ever_task` set `current_task`.  A push of the keyboard goes to the first, a
pop reads from the process of the second.

`MachineEvent` is one event of a running machine: the start of the first task, an interrupt or a
system call.  `MachineRun` puts successful `process_load_switch` calls between them.  The page
directory in use is not part of the state; what user memory holds, and what copying and printing
does to the memory of the kernel, are arguments of an event.

Nothing keeps the rows of the terminal on the screen, and from cell 147456 on `terminal_putchar`
stores into the image of the kernel, where its globals are.  The events leave such calls out
(`WritesBelow`), and the vectors that do not go to `interrupt_handler` and back (`Stubbed`). -/

namespace PeachOS

open ByteMemory Extents

/-! ### Switching -/

/-- `process_switch`. -/
def processSwitch (process : UInt32) (st : Machine) : Machine :=
  { st with currentProcess := process }

/-- `process_load_switch`. -/
def processLoadSwitch (load : Loader) (uninit : UInt32) (filename : List UInt8) (out : UInt32)
    (st : Machine) : Option LoadResult :=
  (processLoad load uninit filename out st).map fun r =>
    if r.res = 0 then { r with st := processSwitch r.process r.st } else r

/-- `task_switch`. -/
def taskSwitch (task : UInt32) (st : Machine) : Machine :=
  { st with sched := { st.sched with currentTask := task } }

/-- `task_page`. -/
def taskPage (st : Machine) : Machine := taskSwitch st.sched.currentTask st

/-- `task_run_first_ever_task`; `none` is the panic. -/
def taskRunFirstEverTask (st : Machine) : Option Machine :=
  if st.sched.currentTask = 0 then none else some (taskSwitch st.sched.taskHead st)

/-! ### Interrupts -/

/-- `struct interrupt_frame`. -/
structure InterruptFrame where
  edi : UInt32
  esi : UInt32
  ebp : UInt32
  reserved : UInt32
  ebx : UInt32
  edx : UInt32
  ecx : UInt32
  eax : UInt32
  ip : UInt32
  cs : UInt32
  flags : UInt32
  esp : UInt32
  ss : UInt32

/-- The registers that `task_save_state` copies from a frame. -/
def InterruptFrame.registers (frame : InterruptFrame) : Registers where
  edi := frame.edi
  esi := frame.esi
  ebp := frame.ebp
  ebx := frame.ebx
  edx := frame.edx
  ecx := frame.ecx
  eax := frame.eax
  ip := frame.ip
  cs := frame.cs
  flags := frame.flags
  esp := frame.esp
  ss := frame.ss

/-- `task_current_save_state`; `none` is the panic. -/
def taskCurrentSaveState (frame : InterruptFrame) (st : Machine) : Option Machine :=
  let task := taskCurrent st
  if task = 0 then none
  else
    some { st with sched := { st.sched with
      tasks := Function.update st.sched.tasks task
        { st.sched.tasks task with registers := frame.registers } } }

/-- `keyboard_scan_set_one`. -/
def keyboardScanSetOne : List UInt8 :=
  [0x00, 0x1b] ++ "1234567890-=".toList.map ascii ++ [0x08, 0x09] ++
    "QWERTYUIOP[]".toList.map ascii ++ [0x0d, 0x00] ++ "ASDFGHJKL;".toList.map ascii ++
    -- a quote and a backquote before the shift key, and a backslash behind it
    [0x27, 0x60, 0x00, 0x5c] ++ "ZXCVBNM,./".toList.map ascii ++
    [0x00, ascii '*', 0x00, 0x20] ++ List.replicate 11 0x00 ++
    "789-456+1230.".toList.map ascii

/-- `CLASSIC_KEYBOARD_KEY_RELEASED` and `ISR_KEYBOARD_INTERRUPT`. -/
def classicKeyboardKeyReleased : UInt8 := 0x80
def isrKeyboardInterrupt : ℕ := 0x21

/-- `classic_keyboard_scancode_to_char`; the test lets one scancode through that is behind the
array, where `beyond` is read. -/
def classicKeyboardScancodeToChar (beyond scancode : UInt8) : UInt8 :=
  if scancode.toNat > keyboardScanSetOne.length then 0
  else keyboardScanSetOne.getD scancode.toNat beyond

/-- `classic_keyboard_handle_interrupt`, for the scancode at the port. -/
def classicKeyboardHandleInterrupt (beyond scancode : UInt8) (st : Machine) : Machine :=
  if scancode &&& classicKeyboardKeyReleased ≠ 0 then st
  else
    let c := classicKeyboardScancodeToChar beyond scancode
    taskPage (if c ≠ 0 then keyboardPush c st else st)

/-- The routines of the interrupt descriptor table. -/
inductive IdtRoutine
  | idtZero
  | isr80hWrapper
  | int (interrupt : ℕ)
  deriving DecidableEq

/-- `idt_init`: the entries of the table. -/
def idtInit (interrupt : ℕ) : IdtRoutine :=
  if interrupt = 0x80 then .isr80hWrapper
  else if interrupt = 0 then .idtZero
  else .int interrupt

/-- The exceptions for which the processor pushes an error code, which no routine pops. -/
def errorCodeVectors : List ℕ := [8, 10, 11, 12, 13, 14, 17, 21, 29, 30]

/-- The vectors that go to `interrupt_handler` and come back.  `idt_zero` ends with a `ret`. -/
structure Stubbed (interrupt : ℕ) : Prop where
  vector : interrupt < 256
  routine : idtInit interrupt = .int interrupt
  noErrorCode : interrupt ∉ errorCodeVectors

/-- `interrupt_handler`, which the routines `int` call: the keyboard has the only callback. -/
def interruptHandler (interrupt : ℕ) (frame : InterruptFrame) (beyond scancode : UInt8)
    (st : Machine) : Option Machine :=
  if interrupt = isrKeyboardInterrupt then
    (taskCurrentSaveState frame st).map fun st =>
      taskPage (classicKeyboardHandleInterrupt beyond scancode st)
  else some (taskPage st)

/-! ### System calls -/

/-- Run an allocation routine of `process.c` on the kernel and the processes. -/
def Machine.mapProcs (f : ProcState → ProcState) (st : Machine) : Machine :=
  let s := f ⟨st.sched.kernel, fun p => (st.procs p).toProcess⟩
  { st.setKernel s.kernel with procs := fun p => { st.procs p with toProcess := s.procs p } }

/-- The machine with its terminal. -/
structure RunningMachine extends Machine where
  terminal : Terminal

/-- `isr80h_handle_command`, with the six commands that are registered: `item` is what
`task_get_stack_item` reads on the stack of the task, `text` what `print` reads in its buffer, and
`copy` what copying the string and storing the cells does to the memory of the kernel. -/
def isr80hHandleCommand (command : ℤ) (item : ℕ → UInt32) (text : List UInt8)
    (copy : Kernel → Kernel) (st : RunningMachine) : UInt32 × RunningMachine :=
  let process := (st.sched.tasks (taskCurrent st.toMachine)).process
  if command = 0 then (item 0 + item 1, st)
  else if command = 1 then
    (0, ⟨st.setKernel (copy st.sched.kernel), terminalText text st.terminal⟩)
  else if command = 2 then
    let c := keyboardPop st.toMachine
    (UInt32.ofInt c.1.toInt8.toInt, ⟨c.2, st.terminal⟩)
  else if command = 3 then
    (0, ⟨st.setKernel (copy st.sched.kernel), terminalWritechar (item 0).toUInt8 15 st.terminal⟩)
  else if command = 4 then
    ((processMalloc process (item 0) ⟨st.sched.kernel, fun p => (st.procs p).toProcess⟩).1,
      ⟨st.mapProcs fun s => (processMalloc process (item 0) s).2, st.terminal⟩)
  else if command = 5 then (0, ⟨st.mapProcs (processFree process (item 0)), st.terminal⟩)
  else (0, st)

/-- `isr80h_handler`. -/
def isr80hHandler (command : ℤ) (frame : InterruptFrame) (item : ℕ → UInt32) (text : List UInt8)
    (copy : Kernel → Kernel) (st : RunningMachine) : Option (UInt32 × RunningMachine) :=
  (taskCurrentSaveState frame st.toMachine).map fun saved =>
    let r := isr80hHandleCommand command item text copy ⟨saved, st.terminal⟩
    (r.1, ⟨taskPage r.2.toMachine, r.2.terminal⟩)

/-! ### What a load leaves in the scheduler -/

variable {st st' : Machine} {r : LoadResult} {p out : UInt32} {slot : ℤ}

/-- The cells written lie below the image of the kernel, which starts at 1M. -/
def BelowImage (t : Terminal) : Prop := ∀ i ∈ t.written, 0xB8000 + 2 * i + 2 ≤ 0x100000

/-- The characters of a call go to cells below the image of the kernel. -/
structure WritesBelow (command : ℤ) (item : ℕ → UInt32) (text : List UInt8) (t : Terminal) :
    Prop where
  print : command = 1 → BelowImage (terminalText text t)
  putchar : command = 3 → BelowImage (terminalWritechar (item 0).toUInt8 15 t)

/-- One event of a running machine other than a load. -/
inductive MachineEvent (st : RunningMachine) : RunningMachine → Prop
  | firstTask {st' : Machine} (h : taskRunFirstEverTask st.toMachine = some st') :
      MachineEvent st ⟨st', st.terminal⟩
  | interrupt {st' : Machine} (interrupt : ℕ) (hstub : Stubbed interrupt) (frame : InterruptFrame)
      (beyond scancode : UInt8)
      (h : interruptHandler interrupt frame beyond scancode st.toMachine = some st') :
      MachineEvent st ⟨st', st.terminal⟩
  | command {r : UInt32 × RunningMachine} (command : ℤ) (frame : InterruptFrame)
      (item : ℕ → UInt32) (text : List UInt8) (copy : Kernel → Kernel)
      (hbelow : WritesBelow command item text st.terminal)
      (h : isr80hHandler command frame item text copy st = some r) : MachineEvent st r.2

/-- The two cursors, the head of the list and the processes of all tasks are the same. -/
structure SameCursors (st st' : Machine) : Prop where
  currentTask : st'.sched.currentTask = st.sched.currentTask
  taskHead : st'.sched.taskHead = st.sched.taskHead
  currentProcess : st'.currentProcess = st.currentProcess
  process : ∀ task, (st'.sched.tasks task).process = (st.sched.tasks task).process

theorem SameCursors.refl (st : Machine) : SameCursors st st := ⟨rfl, rfl, rfl, fun _ => rfl⟩

theorem SameCursors.trans {st₁ st₂ st₃ : Machine} (h₁ : SameCursors st₁ st₂)
    (h₂ : SameCursors st₂ st₃) : SameCursors st₁ st₃ where
  currentTask := h₂.currentTask.trans h₁.currentTask
  taskHead := h₂.taskHead.trans h₁.taskHead
  currentProcess := h₂.currentProcess.trans h₁.currentProcess
  process task := (h₂.process task).trans (h₁.process task)

theorem taskPage_sameCursors (st : Machine) : SameCursors st (taskPage st) :=
  ⟨rfl, rfl, rfl, fun _ => rfl⟩

theorem taskCurrentSaveState_sameCursors {frame : InterruptFrame}
    (h : taskCurrentSaveState frame st = some st') : SameCursors st st' := by
  unfold taskCurrentSaveState at h
  dsimp only at h
  split_ifs at h
  obtain rfl := Option.some.inj h
  refine ⟨rfl, rfl, rfl, fun task => ?_⟩
  dsimp only
  rcases eq_or_ne task (taskCurrent st) with rfl | hne
  · rw [Function.update_self]
  · rw [Function.update_of_ne hne]

theorem keyboardPush_sameCursors (c : UInt8) (st : Machine) :
    SameCursors st (keyboardPush c st) := by
  unfold keyboardPush
  dsimp only
  split_ifs
  · exact SameCursors.refl st
  · exact ⟨rfl, rfl, rfl, fun _ => rfl⟩

theorem keyboardPop_sameCursors (st : Machine) : SameCursors st (keyboardPop st).2 := by
  unfold keyboardPop
  split_ifs
  · exact SameCursors.refl st
  · exact ⟨rfl, rfl, rfl, fun _ => rfl⟩

theorem classicKeyboardHandleInterrupt_sameCursors (beyond scancode : UInt8) (st : Machine) :
    SameCursors st (classicKeyboardHandleInterrupt beyond scancode st) := by
  unfold classicKeyboardHandleInterrupt
  dsimp only
  split_ifs
  · exact SameCursors.refl st
  · exact (keyboardPush_sameCursors _ st).trans (taskPage_sameCursors _)
  · exact taskPage_sameCursors st

theorem interruptHandler_sameCursors {interrupt : ℕ} {frame : InterruptFrame}
    {beyond scancode : UInt8} (h : interruptHandler interrupt frame beyond scancode st = some st') :
    SameCursors st st' := by
  unfold interruptHandler at h
  split_ifs at h
  · obtain ⟨saved, hsaved, rfl⟩ := Option.map_eq_some_iff.mp h
    exact ((taskCurrentSaveState_sameCursors hsaved).trans
      (classicKeyboardHandleInterrupt_sameCursors beyond scancode saved)).trans
        (taskPage_sameCursors _)
  · obtain rfl := Option.some.inj h
    exact taskPage_sameCursors st

theorem mapProcs_sameCursors (f : ProcState → ProcState) (st : Machine) :
    SameCursors st (st.mapProcs f) := ⟨rfl, rfl, rfl, fun _ => rfl⟩

theorem isr80hHandleCommand_sameCursors (command : ℤ) (item : ℕ → UInt32) (text : List UInt8)
    (copy : Kernel → Kernel) (st : RunningMachine) :
    SameCursors st.toMachine (isr80hHandleCommand command item text copy st).2.toMachine := by
  unfold isr80hHandleCommand
  dsimp only
  split_ifs
  · exact SameCursors.refl _
  · exact ⟨rfl, rfl, rfl, fun _ => rfl⟩
  · exact keyboardPop_sameCursors st.toMachine
  · exact ⟨rfl, rfl, rfl, fun _ => rfl⟩
  · exact mapProcs_sameCursors (fun s => (processMalloc
      (st.sched.tasks (taskCurrent st.toMachine)).process (item 0) s).2) st.toMachine
  · exact mapProcs_sameCursors _ st.toMachine
  · exact SameCursors.refl _

theorem isr80hHandler_sameCursors {st : RunningMachine} {command : ℤ} {frame : InterruptFrame}
    {item : ℕ → UInt32} {text : List UInt8} {copy : Kernel → Kernel} {r : UInt32 × RunningMachine}
    (h : isr80hHandler command frame item text copy st = some r) :
    SameCursors st.toMachine r.2.toMachine := by
  unfold isr80hHandler at h
  obtain ⟨saved, hsaved, rfl⟩ := Option.map_eq_some_iff.mp h
  exact ((taskCurrentSaveState_sameCursors hsaved).trans
    (isr80hHandleCommand_sameCursors command item text copy ⟨saved, st.terminal⟩)).trans
      (taskPage_sameCursors _)

/-! ### Runs -/

/-- `process_current()` is the process of `task_current()`, or there is neither. -/
def SameProcess (st : Machine) : Prop :=
  if taskCurrent st = 0 then processCurrent st = 0
  else (st.sched.tasks (taskCurrent st)).process = processCurrent st

/-- The current task is the first of the list, and its process is the current one. -/
structure HeadRuns (st : Machine) : Prop where
  current : st.sched.currentTask = st.sched.taskHead
  same : SameProcess st

theorem HeadRuns.congr (h : HeadRuns st) (hsame : SameCursors st st') : HeadRuns st' := by
  refine ⟨?_, ?_⟩
  · rw [hsame.currentTask, hsame.taskHead, h.current]
  · have hprocess := h.same
    unfold SameProcess taskCurrent processCurrent at *
    rw [hsame.currentTask, hsame.currentProcess, hsame.process]
    exact hprocess

theorem HeadRuns.event {st st' : RunningMachine} (h : HeadRuns st.toMachine)
    (he : MachineEvent st st') : HeadRuns st'.toMachine := by
  cases he with
  | firstTask hfirst =>
      unfold taskRunFirstEverTask at hfirst
      split_ifs at hfirst
      obtain rfl := Option.some.inj hfirst
      -- the head is the current task already
      exact h.congr ⟨h.current.symm, rfl, rfl, fun _ => rfl⟩
  | interrupt interrupt hstub frame beyond scancode hint =>
      exact h.congr (interruptHandler_sameCursors hint)
  | command command frame item text copy hbelow hcommand =>
      exact h.congr (isr80hHandler_sameCursors hcommand)

/-- A slot that is free is found. -/
theorem processGet_processGetFreeSlot {i : ℕ} (hi : i < 12) (h : st.processes i = 0) :
    processGet (processGetFreeSlot st) st = 0 := by
  rw [processGet_of_isSlot (processGetFreeSlot_isSlot st)]
  unfold processGetFreeSlot
  split
  · rename_i j hj
    have hp := List.find?_some hj
    exact of_decide_eq_true hp
  · rename_i hnone
    have hall := List.find?_eq_none.mp hnone i (List.mem_range.mpr hi)
    exact absurd h (by simpa using hall)

end PeachOS
