import PeachOS.Task

/-! # The state of processes and tasks

`Machine` joins the globals of `task.c` and `process.c`.  A `struct process` in full is
`ProcessFull`: the part the memory management uses, and the identifier, the file name and
the keyboard buffer. -/

namespace PeachOS

open ByteMemory

/-- `PEACHOS_KEYBOARD_BUFFER_SIZE`. -/
def peachosKeyboardBufferSize : ℕ := 1024

/-- `struct keyboard_buffer`; `tail` and `head` are words that wrap around. -/
structure KeyboardBuffer where
  buffer : List UInt8
  length_buffer : buffer.length = peachosKeyboardBufferSize
  tail : UInt32
  head : UInt32

/-- A zeroed keyboard buffer. -/
def keyboardBufferZero : KeyboardBuffer where
  buffer := List.replicate peachosKeyboardBufferSize 0
  length_buffer := List.length_replicate
  tail := 0
  head := 0

/-- Store a byte in a slot of the buffer. -/
def KeyboardBuffer.setSlot (kb : KeyboardBuffer) (i : ℕ) (c : UInt8) : KeyboardBuffer :=
  { kb with
    buffer := kb.buffer.set i c
    length_buffer := by rw [List.length_set]; exact kb.length_buffer }

/-- `struct process`. -/
structure ProcessFull extends Process where
  id : UInt16
  filename : List UInt8
  keyboard : KeyboardBuffer

/-- A zeroed `struct process`. -/
def processFullZero : ProcessFull := ⟨processInit, 0, [], keyboardBufferZero⟩

/-- The tasks, the processes by address, `current_process`, and the array `processes` with
what lies around it in memory: only the indexes from 0 to 11 belong to it. -/
structure Machine where
  sched : TaskState
  procs : UInt32 → ProcessFull
  currentProcess : UInt32
  processes : ℤ → UInt32

/-- Replace the process structure at `p`. -/
def Machine.setProc (st : Machine) (p : UInt32) (process : ProcessFull) : Machine :=
  { st with procs := Function.update st.procs p process }

@[simp] theorem Machine.setProc_self (st : Machine) (p : UInt32) (process : ProcessFull) :
    (st.setProc p process).procs p = process := Function.update_self ..

@[simp] theorem Machine.setProc_sched (st : Machine) (p : UInt32) (process : ProcessFull) :
    (st.setProc p process).sched = st.sched := rfl

/-- `process_current`. -/
def processCurrent (st : Machine) : UInt32 := st.currentProcess

/-- `task_current`. -/
def taskCurrent (st : Machine) : UInt32 := st.sched.currentTask

end PeachOS
