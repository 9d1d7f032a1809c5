import PeachOS.CurrentProcess
import PeachOS.ScreenMemory

/-! # System calls of the running kernel

`isr80h_handler` and `interrupt_handler` with the tables of their commands and callbacks, the page
directory in use, and the text buffer in memory.  The arguments of a command are read from the
stack of the task, through its page directory, and the string to print is copied from the task to
a buffer on the stack of the kernel.

* `System.isr80hHandler_refines`, `System.interruptHandler_refines`: what happens to the processes,
  the tasks and the keyboard is what `isr80hHandler` and `interruptHandler` do. -/

namespace PeachOS

open ByteMemory Extents X86

/-! ### Data -/

/-- The commands that `isr80h_register_commands` knows. -/
inductive Command
  | sum | print | getkey | putchar | malloc | free
  deriving DecidableEq

/-- The interrupt callbacks: there is one keyboard. -/
inductive InterruptCallback
  | classicKeyboard
  deriving DecidableEq

/-- `PEACHOS_MAX_ISR80H_COMMANDS` and `PEACHOS_TOTAL_INTERRUPTS`. -/
def peachosMaxIsr80hCommands : ℕ := 1024
def peachosTotalInterrupts : ℕ := 512

/-- The running system: the globals of `task.c`, `process.c`, `kernel.c`, `paging.c` and `idt.c`,
and the register `cr3`. -/
structure System where
  machine : Machine
  cr3 : UInt32
  currentDirectory : UInt32
  kernelChunk : UInt32
  terminal : Terminal
  isr80hCommands : List (Option Command)
  interruptCallbacks : List (Option InterruptCallback)

/-- What the paging code works on. -/
def System.paged (st : System) : Paged := ⟨st.machine.sched.kernel, st.cr3, st.currentDirectory⟩

def System.setPaged (st : System) (p : Paged) : System :=
  { st with
    machine := st.machine.setKernel p.kernel
    cr3 := p.cr3
    currentDirectory := p.currentDirectory }

/-- The structure at `current_task`. -/
def System.task (st : System) : Task := st.machine.sched.tasks (taskCurrent st.machine)

def System.mem (st : System) : Mem := st.machine.sched.kernel.mem

def System.setMem (st : System) (m : Mem) : System :=
  { st with machine := st.machine.setKernel { st.machine.sched.kernel with mem := m } }

/-! ### Registration -/

/-- `isr80h_register_command`; `none` is the panic. -/
def isr80hRegisterCommand (commandId : ℤ) (command : Command) (st : System) : Option System :=
  if commandId < 0 ∨ commandId ≥ peachosMaxIsr80hCommands then none
  else if (st.isr80hCommands.getD commandId.toNat none).isSome then none
  else some { st with isr80hCommands := st.isr80hCommands.set commandId.toNat (some command) }

/-- `isr80h_register_commands`. -/
def isr80hRegisterCommands (st : System) : Option System :=
  isr80hRegisterCommand 0 .sum st >>= isr80hRegisterCommand 1 .print >>=
    isr80hRegisterCommand 2 .getkey >>= isr80hRegisterCommand 3 .putchar >>=
    isr80hRegisterCommand 4 .malloc >>= isr80hRegisterCommand 5 .free

/-- `idt_register_interrupt_callback`. -/
def idtRegisterInterruptCallback (interrupt : ℤ) (callback : InterruptCallback) (st : System) :
    ℤ × System :=
  if interrupt < 0 ∨ interrupt ≥ peachosTotalInterrupts then (-EINVARG, st)
  else (0, { st with
    interruptCallbacks := st.interruptCallbacks.set interrupt.toNat (some callback) })

/-- `classic_keyboard_init`, without the port. -/
def classicKeyboardInit (st : System) : System :=
  (idtRegisterInterruptCallback isrKeyboardInterrupt .classicKeyboard st).2

/-! ### The handlers -/

namespace System

/-- `kernel_page`. -/
def kernelPage (st : System) : Option System :=
  (PeachOS.kernelPage st.kernelChunk st.paged).map st.setPaged

/-- `task_page`. -/
def taskPage (st : System) : Option System :=
  let st := { st with machine := PeachOS.taskPage st.machine }
  (pagingSwitch st.task.pageDirectory st.paged).map st.setPaged

/-- `task_current_save_state`. -/
def taskCurrentSaveState (frame : InterruptFrame) (st : System) : Option System :=
  (PeachOS.taskCurrentSaveState frame st.machine).map fun machine => { st with machine }

/-- `task_get_stack_item(task_current(), index)`. -/
def taskGetStackItem (index : ℕ) (st : System) : Option (UInt32 × System) :=
  (PeachOS.taskGetStackItem st.kernelChunk st.task.pageDirectory st.task.registers.esp index
    st.paged).map fun r => (r.1, st.setPaged r.2)

/-- `copy_string_from_task(task_current(), virtual, phys, max)`. -/
def copyStringFromTask (virtual phys : UInt32) (max : ℤ) (st : System) : Option (ℤ × System) :=
  (PeachOS.copyStringFromTask st.kernelChunk st.task.pageDirectory virtual phys max
    st.paged).map fun r => (r.1, st.setPaged r.2)

/-- `print`. -/
def print (str : UInt32) (st : System) : Option System :=
  (printAt str (st.terminal, st.mem)).map fun s => { st.setMem s.2 with terminal := s.1 }

/-- `terminal_writechar`. -/
def terminalWritechar (c colour : UInt8) (st : System) : Option System :=
  (writecharAt c colour (st.terminal, st.mem)).map fun s => { st.setMem s.2 with terminal := s.1 }

/-- `isr80h_command0_sum`. -/
def isr80hCommand0Sum (st : System) : Option (UInt32 × System) := do
  let (v2, st) ← st.taskGetStackItem 1
  let (v1, st) ← st.taskGetStackItem 0
  some (v1 + v2, st)

/-- `isr80h_command1_print`, with `buf` on the stack of the kernel. -/
def isr80hCommand1Print (buf : UInt32) (st : System) : Option (UInt32 × System) := do
  let (userSpaceMsgBuffer, st) ← st.taskGetStackItem 0
  let (_, st) ← st.copyStringFromTask userSpaceMsgBuffer buf 1024
  let st ← st.print buf
  some (0, st)

/-- `isr80h_command2_getkey`. -/
def isr80hCommand2Getkey (st : System) : Option (UInt32 × System) :=
  let c := keyboardPop st.machine
  some (UInt32.ofInt c.1.toInt8.toInt, { st with machine := c.2 })

/-- `isr80h_command3_putchar`. -/
def isr80hCommand3Putchar (st : System) : Option (UInt32 × System) := do
  let (c, st) ← st.taskGetStackItem 0
  let st ← st.terminalWritechar c.toUInt8 15
  some (0, st)

/-- `isr80h_command4_malloc`. -/
def isr80hCommand4Malloc (st : System) : Option (UInt32 × System) := do
  let (size, st) ← st.taskGetStackItem 0
  let s : ProcState := ⟨st.machine.sched.kernel, fun p => (st.machine.procs p).toProcess⟩
  some ((processMalloc st.task.process size s).1,
    { st with machine := st.machine.mapProcs fun s => (processMalloc st.task.process size s).2 })

/-- `isr80h_command5_free`. -/
def isr80hCommand5Free (st : System) : Option (UInt32 × System) := do
  let (ptrToFree, st) ← st.taskGetStackItem 0
  some (0, { st with machine := st.machine.mapProcs (processFree st.task.process ptrToFree) })

/-- The call of a command. -/
def call (buf : UInt32) : Command → System → Option (UInt32 × System)
  | .sum => isr80hCommand0Sum
  | .print => isr80hCommand1Print buf
  | .getkey => isr80hCommand2Getkey
  | .putchar => isr80hCommand3Putchar
  | .malloc => isr80hCommand4Malloc
  | .free => isr80hCommand5Free

/-- `isr80h_handle_command`. -/
def isr80hHandleCommand (command : ℤ) (buf : UInt32) (st : System) : Option (UInt32 × System) :=
  if command < 0 ∨ command ≥ peachosMaxIsr80hCommands then some (0, st)
  else match st.isr80hCommands.getD command.toNat none with
    | none => some (0, st)
    | some c => call buf c st

/-- `isr80h_handler`. -/
def isr80hHandler (command : ℤ) (frame : InterruptFrame) (buf : UInt32) (st : System) :
    Option (UInt32 × System) := do
  let st ← st.kernelPage
  let st ← st.taskCurrentSaveState frame
  let (res, st) ← st.isr80hHandleCommand command buf
  let st ← st.taskPage
  some (res, st)

/-- `classic_keyboard_handle_interrupt`, for the scancode at the port; a released key leaves the
directory of the kernel in use. -/
def classicKeyboardHandleInterrupt (beyond scancode : UInt8) (st : System) : Option System := do
  let st ← st.kernelPage
  if scancode &&& classicKeyboardKeyReleased ≠ 0 then some st
  else
    let c := classicKeyboardScancodeToChar beyond scancode
    taskPage (if c ≠ 0 then { st with machine := keyboardPush c st.machine } else st)

/-- The call of a callback. -/
def callback (frame : InterruptFrame) (beyond scancode : UInt8) :
    Option InterruptCallback → System → Option System
  | none, st => some st
  | some .classicKeyboard, st =>
      st.taskCurrentSaveState frame >>= classicKeyboardHandleInterrupt beyond scancode

/-- `interrupt_handler`, without the acknowledgement; the vectors of `Stubbed` lead here. -/
def interruptHandler (interrupt : ℕ) (frame : InterruptFrame) (beyond scancode : UInt8)
    (st : System) : Option System := do
  let st ← st.kernelPage
  let st ← callback frame beyond scancode (st.interruptCallbacks.getD interrupt none) st
  st.taskPage

end System

/-! ### Registration -/

variable {st st' : System} {frame : InterruptFrame} {buf : UInt32} {res : UInt32}

/-- The command behind a number. -/
def commandOf : ℕ → Option Command
  | 0 => some .sum
  | 1 => some .print
  | 2 => some .getkey
  | 3 => some .putchar
  | 4 => some .malloc
  | 5 => some .free
  | _ => none

/-- The tables after the boot: six commands and the keyboard. -/
structure System.Registered (st : System) : Prop where
  commands : ∀ i, st.isr80hCommands.getD i none = commandOf i
  callbacks : ∀ i, st.interruptCallbacks.getD i none =
    if i = isrKeyboardInterrupt then some .classicKeyboard else none

/-- From empty tables the registration panics nowhere and leaves the six commands and the
keyboard. -/
theorem isr80hRegisterCommands_registered
    (hcommands : st.isr80hCommands = List.replicate peachosMaxIsr80hCommands none)
    (hcallbacks : st.interruptCallbacks = List.replicate peachosTotalInterrupts none) :
    ∃ commands, isr80hRegisterCommands st = some { st with isr80hCommands := commands } ∧
      (classicKeyboardInit { st with isr80hCommands := commands }).Registered := by
  refine ⟨[some .sum, some .print, some .getkey, some .putchar, some .malloc, some .free] ++
    List.replicate 1018 none, ?_, fun i => ?_, fun i => ?_⟩
  · have hsplit : List.replicate peachosMaxIsr80hCommands (none : Option Command) =
        List.replicate 6 none ++ List.replicate 1018 none := by
      rw [List.replicate_append_replicate]
      rfl
    unfold isr80hRegisterCommands isr80hRegisterCommand
    rw [hcommands, hsplit]
    rfl
  · change List.getD (_ ++ _) i none = commandOf i
    rcases i with _ | _ | _ | _ | _ | _ | i
    case succ.succ.succ.succ.succ.succ =>
      rw [List.getD_append_right _ _ _ _ (Nat.le_add_left 6 i), List.getD_eq_getElem?_getD,
        List.getElem?_replicate]
      split_ifs <;> rfl
    all_goals rfl
  · change List.getD (st.interruptCallbacks.set isrKeyboardInterrupt _) i none = _
    rw [hcallbacks, List.getD_eq_getElem?_getD, List.getElem?_set, List.getElem?_replicate]
    have hlt : isrKeyboardInterrupt < peachosTotalInterrupts := by decide
    rw [List.length_replicate, if_pos hlt]
    rcases eq_or_ne i isrKeyboardInterrupt with rfl | hne
    · rw [if_pos rfl, if_pos rfl]
      rfl
    · rw [if_neg hne.symm, if_neg hne]
      split_ifs <;> rfl

/-! ### What the processes and tasks see -/

/-- Only the page directory in use is another one. -/
def System.Repaged (st st' : System) : Prop :=
  ∃ c d, st' = { st with cr3 := c, currentDirectory := d }

theorem pagingSwitch_kernel {chunk : UInt32} {p p' : Paged} (h : pagingSwitch chunk p = some p') :
    p'.kernel = p.kernel := by
  unfold pagingSwitch at h
  obtain ⟨c, -, h⟩ := Option.bind_eq_some_iff.mp h
  obtain ⟨d, -, h⟩ := Option.bind_eq_some_iff.mp h
  obtain rfl := Option.some.inj h
  rfl

theorem taskGetStackItem_kernel {chunk directory esp : UInt32} {index : ℕ} {p : Paged}
    {r : UInt32 × Paged} (h : taskGetStackItem chunk directory esp index p = some r) :
    r.2.kernel = p.kernel := by
  unfold taskGetStackItem at h
  obtain ⟨p₁, h₁, h⟩ := Option.bind_eq_some_iff.mp h
  obtain ⟨x, -, h⟩ := Option.bind_eq_some_iff.mp h
  obtain ⟨p₂, h₂, h⟩ := Option.bind_eq_some_iff.mp h
  obtain rfl := Option.some.inj h
  exact (pagingSwitch_kernel h₂).trans (pagingSwitch_kernel h₁)

namespace System

theorem setPaged_repaged {p : Paged} (h : p.kernel = st.machine.sched.kernel) :
    Repaged st (st.setPaged p) := by
  refine ⟨p.cr3, p.currentDirectory, ?_⟩
  unfold setPaged
  rw [h]
  rfl

theorem kernelPage_repaged (h : st.kernelPage = some st') : Repaged st st' := by
  obtain ⟨p, hp, rfl⟩ := Option.map_eq_some_iff.mp h
  exact setPaged_repaged (pagingSwitch_kernel hp)

theorem taskPage_repaged (h : st.taskPage = some st') : Repaged st st' := by
  obtain ⟨p, hp, rfl⟩ := Option.map_eq_some_iff.mp h
  exact setPaged_repaged (pagingSwitch_kernel hp)

theorem taskGetStackItem_repaged {index : ℕ} {r : UInt32 × System}
    (h : st.taskGetStackItem index = some r) : Repaged st r.2 := by
  obtain ⟨p, hp, rfl⟩ := Option.map_eq_some_iff.mp h
  exact setPaged_repaged (PeachOS.taskGetStackItem_kernel hp)

theorem taskCurrentSaveState_machine (h : st.taskCurrentSaveState frame = some st') :
    PeachOS.taskCurrentSaveState frame st.machine = some st'.machine ∧
      st' = { st with machine := st'.machine } := by
  obtain ⟨machine, hm, rfl⟩ := Option.map_eq_some_iff.mp h
  exact ⟨hm, rfl⟩

/-- The machine and its terminal. -/
def running (st : System) : RunningMachine := ⟨st.machine, st.terminal⟩

/-- The command `command` does to the machine what `isr80hHandleCommand` does, for some words on
the stack of the task, some text and some memory that the screen and the copy leave. -/
def DoesCommand (command : ℤ) (st : System) (r : UInt32 × System) : Prop :=
  ∃ item text copy, PeachOS.isr80hHandleCommand command item text copy st.running =
    (r.1, r.2.running)

theorem isr80hCommand0Sum_does {r : UInt32 × System} (h : st.isr80hCommand0Sum = some r) :
    DoesCommand 0 st r := by
  obtain ⟨⟨v2, st₁⟩, h₁, h⟩ := Option.bind_eq_some_iff.mp h
  obtain ⟨⟨v1, st₂⟩, h₂, h⟩ := Option.bind_eq_some_iff.mp h
  obtain rfl := Option.some.inj h
  obtain ⟨_, _, rfl⟩ := taskGetStackItem_repaged h₁
  obtain ⟨_, _, rfl⟩ := taskGetStackItem_repaged h₂
  exact ⟨fun i => if i = 0 then v1 else v2, [], id, rfl⟩

/-- A printed string changes the memory of the kernel and the screen. -/
theorem isr80hCommand1Print_does {r : UInt32 × System}
    (h : st.isr80hCommand1Print buf = some r) : DoesCommand 1 st r := by
  obtain ⟨⟨x, st₁⟩, h₁, h⟩ := Option.bind_eq_some_iff.mp h
  obtain ⟨⟨n, st₂⟩, h₂, h⟩ := Option.bind_eq_some_iff.mp h
  obtain ⟨st₃, h₃, h⟩ := Option.bind_eq_some_iff.mp h
  obtain rfl := Option.some.inj h
  obtain ⟨_, _, rfl⟩ := taskGetStackItem_repaged h₁
  obtain ⟨p, -, hp⟩ := Option.map_eq_some_iff.mp h₂
  obtain ⟨s, hs, rfl⟩ := Option.map_eq_some_iff.mp h₃
  obtain ⟨text, htext⟩ := printAt_terminal hs
  obtain ⟨-, rfl⟩ := Prod.mk.inj hp
  refine ⟨fun _ => 0, text, fun _ => { p.2.kernel with mem := s.2 }, ?_⟩
  unfold running
  dsimp only
  rw [htext]
  rfl

theorem isr80hCommand3Putchar_does {r : UInt32 × System}
    (h : st.isr80hCommand3Putchar = some r) : DoesCommand 3 st r := by
  obtain ⟨⟨c, st₁⟩, h₁, h⟩ := Option.bind_eq_some_iff.mp h
  obtain ⟨st₂, h₂, h⟩ := Option.bind_eq_some_iff.mp h
  obtain rfl := Option.some.inj h
  obtain ⟨_, _, rfl⟩ := taskGetStackItem_repaged h₁
  obtain ⟨s, hs, rfl⟩ := Option.map_eq_some_iff.mp h₂
  refine ⟨fun _ => c, [], fun k => { k with mem := s.2 }, ?_⟩
  unfold running
  dsimp only
  rw [(writecharAt_spec hs).1]
  rfl

theorem isr80hCommand4Malloc_does {r : UInt32 × System}
    (h : st.isr80hCommand4Malloc = some r) : DoesCommand 4 st r := by
  obtain ⟨⟨size, st₁⟩, h₁, h⟩ := Option.bind_eq_some_iff.mp h
  obtain rfl := Option.some.inj h
  obtain ⟨_, _, rfl⟩ := taskGetStackItem_repaged h₁
  exact ⟨fun _ => size, [], id, rfl⟩

theorem isr80hCommand5Free_does {r : UInt32 × System}
    (h : st.isr80hCommand5Free = some r) : DoesCommand 5 st r := by
  obtain ⟨⟨ptr, st₁⟩, h₁, h⟩ := Option.bind_eq_some_iff.mp h
  obtain rfl := Option.some.inj h
  obtain ⟨_, _, rfl⟩ := taskGetStackItem_repaged h₁
  exact ⟨fun _ => ptr, [], id, rfl⟩

/-- A number without a command. -/
theorem doesCommand_unknown {command : ℤ} (h : command < 0 ∨ 5 < command) (st : System) :
    DoesCommand command st (0, st) := by
  refine ⟨fun _ => 0, [], id, ?_⟩
  unfold PeachOS.isr80hHandleCommand
  dsimp only
  rw [if_neg (by omega), if_neg (by omega), if_neg (by omega), if_neg (by omega),
    if_neg (by omega), if_neg (by omega)]

/-- Every command does to the machine what `isr80hHandleCommand` does. -/
theorem isr80hHandleCommand_refines (hreg : st.Registered) {command : ℤ} {r : UInt32 × System}
    (h : st.isr80hHandleCommand command buf = some r) : DoesCommand command st r := by
  unfold isr80hHandleCommand at h
  split_ifs at h with hrange
  · obtain rfl := Option.some.inj h
    unfold peachosMaxIsr80hCommands at hrange
    exact doesCommand_unknown (by omega) st
  · obtain ⟨n, rfl⟩ : ∃ n : ℕ, command = n := ⟨command.toNat, by omega⟩
    rw [hreg.commands, Int.toNat_natCast] at h
    rcases n with _ | _ | _ | _ | _ | _ | n
    · exact isr80hCommand0Sum_does h
    · exact isr80hCommand1Print_does h
    · obtain rfl := Option.some.inj h
      exact ⟨fun _ => 0, [], id, rfl⟩
    · exact isr80hCommand3Putchar_does h
    · exact isr80hCommand4Malloc_does h
    · exact isr80hCommand5Free_does h
    · obtain rfl := Option.some.inj h
      exact doesCommand_unknown (by omega) st

/-- **A system call of the running kernel** does to the machine what `isr80hHandler` does, for some
words on the stack of the task, some text and some memory. -/
theorem isr80hHandler_refines (hreg : st.Registered) {command : ℤ} {r : UInt32 × System}
    (h : st.isr80hHandler command frame buf = some r) :
    ∃ item text copy, PeachOS.isr80hHandler command frame item text copy st.running =
      some (r.1, r.2.running) := by
  unfold isr80hHandler at h
  obtain ⟨st₁, h₁, h⟩ := Option.bind_eq_some_iff.mp h
  obtain ⟨st₂, h₂, h⟩ := Option.bind_eq_some_iff.mp h
  obtain ⟨⟨res, st₃⟩, h₃, h⟩ := Option.bind_eq_some_iff.mp h
  obtain ⟨st₄, h₄, h⟩ := Option.bind_eq_some_iff.mp h
  obtain rfl := Option.some.inj h
  obtain ⟨_, _, rfl⟩ := kernelPage_repaged h₁
  obtain ⟨hsaved, hst₂⟩ := taskCurrentSaveState_machine h₂
  obtain ⟨_, _, rfl⟩ := taskPage_repaged h₄
  have hreg₂ : st₂.Registered := by
    rw [hst₂]
    exact ⟨hreg.commands, hreg.callbacks⟩
  obtain ⟨item, text, copy, hdoes⟩ := isr80hHandleCommand_refines hreg₂ h₃
  refine ⟨item, text, copy, ?_⟩
  have hterminal : st₂.running = ⟨st₂.machine, st.terminal⟩ := by
    rw [hst₂]
    rfl
  rw [hterminal] at hdoes
  unfold PeachOS.isr80hHandler running
  dsimp only
  rw [hsaved, Option.map_some, hdoes]
  rfl

/-- **An interrupt** does to the machine what `interruptHandler` does. -/
theorem interruptHandler_refines (hreg : st.Registered) {interrupt : ℕ} {beyond scancode : UInt8}
    (h : st.interruptHandler interrupt frame beyond scancode = some st') :
    PeachOS.interruptHandler interrupt frame beyond scancode st.machine = some st'.machine := by
  unfold interruptHandler at h
  obtain ⟨st₁, h₁, h⟩ := Option.bind_eq_some_iff.mp h
  obtain ⟨st₂, h₂, h₃⟩ := Option.bind_eq_some_iff.mp h
  obtain ⟨c, d, rfl⟩ := kernelPage_repaged h₁
  obtain ⟨c', d', rfl⟩ := taskPage_repaged h₃
  rw [hreg.callbacks] at h₂
  unfold PeachOS.interruptHandler
  split_ifs at h₂ ⊢ with hkey
  · unfold callback at h₂
    obtain ⟨st₃, h₃, h₂⟩ := Option.bind_eq_some_iff.mp h₂
    obtain ⟨hsaved, hst₃⟩ := taskCurrentSaveState_machine h₃
    rw [hsaved, Option.map_some]
    unfold classicKeyboardHandleInterrupt at h₂
    obtain ⟨st₄, h₄, h₂⟩ := Option.bind_eq_some_iff.mp h₂
    obtain ⟨c', d', rfl⟩ := kernelPage_repaged h₄
    unfold PeachOS.classicKeyboardHandleInterrupt
    dsimp only at h₂ ⊢
    split_ifs at h₂ ⊢ with hreleased hchar
    · obtain rfl := Option.some.inj h₂
      rfl
    · obtain ⟨_, _, rfl⟩ := taskPage_repaged h₂
      rfl
    · obtain ⟨_, _, rfl⟩ := taskPage_repaged h₂
      rfl
  · obtain rfl := Option.some.inj h₂
    rfl

end System

end PeachOS
