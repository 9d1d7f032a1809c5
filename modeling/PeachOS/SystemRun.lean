import PeachOS.HeldBlocks
import PeachOS.SystemCall

/-! # Runs of a task under the kernel

A task runs: it stores wherever its page directory lets it, it makes system calls with arbitrary
numbers, registers and stack contents, and interrupts arrive.  A `Confinement` says which blocks
the kernel holds, the page tables of both address spaces among them, and which blocks the program
may write.

* `Confinement.Kept.intact`: whatever the task does, the blocks that the kernel holds keep their
  contents; the address space of the task stays the same map, and the heap stays well formed.
* `Confinement.Kept.returns`: no system call panics or faults; each returns to the task under its
  own page directory.

The image and the stack of the kernel, and the structures of the current task and process, are not
followed: their bytes may change in any way between two events (`System.Untracked`).

Some steps are left out: a request that fits nowhere while the last block is free (`ServedCall`), a
freed null pointer where the byte at `0x6e00` says that more blocks follow (`HeldInv.stray`),
characters for cells behind the video memory (`ShownCall`), and the vectors that do not go to
`interrupt_handler` and come back (`Stubbed`). -/

namespace PeachOS

open ByteMemory Extents X86

/-! ### Switching between the address spaces -/

section Switching

variable {st : System} {s₀ s : SpaceBlocks} {f : UInt32 → UInt32}

/-- The address spaces of the kernel and of the current task. -/
structure System.Hosts (st : System) (s₀ s : SpaceBlocks) (f : UInt32 → UInt32) : Prop where
  spaces : Spaces st.mem s₀ s f
  kernelChunk : st.kernelChunk = blockAddr s₀.chunk
  pageDirectory : st.task.pageDirectory = blockAddr s.chunk

/-- The system with the directory of `s` in use. -/
def System.under (st : System) (s : SpaceBlocks) : System :=
  { st with cr3 := blockAddr s.directory, currentDirectory := blockAddr s.directory }

/-- One of the two address spaces is in use. -/
def System.Under (st : System) (s₀ s : SpaceBlocks) : Prop :=
  st.cr3 = blockAddr s₀.directory ∨ st.cr3 = blockAddr s.directory

theorem System.Hosts.kernelPage (h : st.Hosts s₀ s f) (hcr3 : st.Under s₀ s) :
    st.kernelPage = some (st.under s₀) := by
  have hspaces : Spaces st.machine.sched.kernel.mem s₀ s f := h.spaces
  unfold System.kernelPage System.paged
  rw [h.kernelChunk]
  cases hcr3 with
  | inl hkernel =>
      rw [hkernel, hspaces.kernelAgain]
      rfl
  | inr htask =>
      rw [htask, hspaces.toKernel]
      rfl

theorem System.Hosts.taskPage (h : st.Hosts s₀ s f) (hcr3 : st.Under s₀ s) :
    st.taskPage = some (st.under s) := by
  have hspaces : Spaces st.machine.sched.kernel.mem s₀ s f := h.spaces
  unfold System.taskPage
  change (pagingSwitch st.task.pageDirectory st.paged).map st.setPaged = _
  unfold System.paged
  rw [h.pageDirectory]
  cases hcr3 with
  | inl hkernel =>
      rw [hkernel, hspaces.toTask]
      rfl
  | inr htask =>
      rw [htask, hspaces.taskAgain]
      rfl

theorem System.Hosts.taskGetStackItem (h : st.Hosts s₀ s f)
    (hcr3 : st.cr3 = blockAddr s₀.directory) {index : ℕ} {x : UInt32}
    (hword : loadWord .supervisor (blockAddr s.directory)
      (off st.task.registers.esp (4 * index)) st.mem = some x) :
    st.taskGetStackItem index = some (x, st.under s₀) := by
  have hspaces : Spaces st.paged.kernel.mem s₀ s f := h.spaces
  have hitem := taskGetStackItem_eq hspaces hcr3 hword
  unfold System.taskGetStackItem
  rw [h.kernelChunk, h.pageDirectory, hitem]
  rfl

end Switching

/-! ### Events -/

/-- A request for memory, read from the stack at `esp`, is served. -/
def ServedCall (cr3 : UInt32) (command : ℤ) (esp : UInt32) (m : Mem) : Prop :=
  command = 4 → ∀ size, loadWord .supervisor cr3 esp m = some size → Served size m

/-- The characters of a command go to the video memory: those that `print` finds in its buffer
after the copy, and that of `putchar`. -/
structure ShownCommand (command : ℤ) (buf : UInt32) (st : System) : Prop where
  print : command = 1 → ∀ v st₁ r, st.taskGetStackItem 0 = some (v, st₁) →
    st₁.copyStringFromTask v buf 1024 = some r → ∀ text, TextAt r.2.mem buf text →
      ShownIn text st.terminal
  putchar : command = 3 → ∀ c st₁, st.taskGetStackItem 0 = some (c, st₁) →
    ShownIn [c.toUInt8] st.terminal

/-- The same for a call, whose command comes behind the switch and the saved registers. -/
def ShownCall (command : ℤ) (frame : InterruptFrame) (buf : UInt32) (st : System) : Prop :=
  ∀ st₁ st₂, st.kernelPage = some st₁ → st₁.taskCurrentSaveState frame = some st₂ →
    ShownCommand command buf st₂

/-- A buffer on the stack of the kernel. -/
def StackBuffer (buf : UInt32) : Prop := 0x5F0000 ≤ buf.toNat ∧ buf.toNat + 1024 ≤ 0x600000

theorem StackBuffer.range {buf x : UInt32} {n : ℕ} (h : StackBuffer buf) (hn : n ≤ 1024)
    (hx : InRange buf n x) : 57856 ≤ x.toNat ∧ x.toNat < 16777216 ∧ KernelByte x := by
  obtain ⟨hlow, hhigh⟩ := h
  rw [inRange_iff (by omega)] at hx
  unfold KernelByte
  omega

/-- `sizeof(struct task)`. -/
def sizeofTask : ℕ := 64

/-- A byte of the structures of the current task, of its process, and of the current process. -/
def Machine.InRecords (m : Machine) (x : UInt32) : Prop :=
  InRange (taskCurrent m) sizeofTask x ∨
    InStructures {(m.sched.tasks (taskCurrent m)).process, processCurrent m} x

theorem Machine.InRecords.congr {m m' : Machine} {x : UInt32} (h : m'.InRecords x)
    (hsame : SameCursors m m') : m.InRecords x := by
  unfold Machine.InRecords taskCurrent processCurrent at *
  rwa [hsame.currentTask, hsame.currentProcess, hsame.process] at h

/-- A byte that is not followed. -/
def System.Untracked (st : System) (x : UInt32) : Prop := KernelByte x ∨ st.machine.InRecords x

/-- One event while a task runs: a store of the task through its page directory, a system call,
an interrupt, or a change of what is not followed. -/
inductive SystemEvent : System → System → Prop
  | store {st : System} (v : UInt32) (a : UInt8) {m : Mem}
      (h : storeByte .userWrite st.cr3 v a st.mem = some m) : SystemEvent st (st.setMem m)
  | call {st : System} {r : UInt32 × System} (command : ℤ) (frame : InterruptFrame)
      (buf : UInt32) (hbuf : StackBuffer buf) (hserved : ServedCall st.cr3 command frame.esp st.mem)
      (h : st.isr80hHandler command frame buf = some r) : SystemEvent st r.2
  | interrupt {st st' : System} (interrupt : ℕ) (hstub : Stubbed interrupt) (frame : InterruptFrame)
      (beyond scancode : UInt8)
      (h : st.interruptHandler interrupt frame beyond scancode = some st') : SystemEvent st st'
  | untracked {st : System} {m : Mem} (h : ∀ x, ¬ st.Untracked x → m x = st.mem x) :
      SystemEvent st (st.setMem m)

abbrev SystemRun : System → System → Prop := Relation.ReflTransGen SystemEvent

/-! ### Confinement -/

/-- The address spaces of the kernel and of a task, the map of the task, the blocks that the
kernel holds, the blocks of the program, and the records of the task and the process among those
that are held.  Every page of the task is present, and the pages it may write are in the blocks of
the program. -/
structure Confinement where
  kernel : SpaceBlocks
  task : SpaceBlocks
  map : UInt32 → UInt32
  held : Set ℕ
  image : Set ℕ
  records : UInt32 → Prop
  spaces_held : ∀ b, b ∈ kernel.blocks ∨ b ∈ task.blocks → b ∈ held
  image_apart : ∀ b ∈ image, b ∉ held
  records_held : ∀ x, records x → InBlocks held x
  records_apart : ∀ x, records x → ¬ kernel.InSpace x ∧ ¬ task.InSpace x
  present : ∀ v, (viewOf .supervisor map v).isSome
  userWrite : ∀ v x, viewOf .userWrite map v = some x → InBlocks image x

namespace Confinement

/-- The blocks that no system call touches. -/
def blocks (c : Confinement) : Set ℕ := c.held ∪ c.image

/-- The bytes that the kernel relies on. -/
def Fixed (c : Confinement) (x : UInt32) : Prop :=
  InTable x ∨ x = 0x6e00 ∨ c.kernel.InSpace x ∨ c.task.InSpace x

/-- The bytes of the held blocks but for the records. -/
def Steady (c : Confinement) (x : UInt32) : Prop := InBlocks c.held x ∧ ¬ c.records x

end Confinement

/-- The allocations of the processes. -/
def System.procState (st : System) : ProcState :=
  ⟨st.machine.sched.kernel, fun p => (st.machine.procs p).toProcess⟩

/-- The invariant of a running task. -/
structure Confinement.Kept (c : Confinement) (st : System) (live : Layout UInt32) : Prop where
  procs : HeldInv c.blocks st.procState live
  hosts : st.Hosts c.kernel c.task c.map
  current : taskCurrent st.machine ≠ 0
  registered : st.Registered
  records : ∀ x, st.machine.InRecords x → c.records x

/-- What a piece of kernel code leaves: the invariant, the directory of the kernel, and the
contents of the blocks. -/
structure Confinement.Leaves (c : Confinement) (st st' : System) : Prop where
  kept : ∃ live, c.Kept st' live
  cr3 : st'.cr3 = blockAddr c.kernel.directory
  same : SameOn (InBlocks c.blocks) st.mem st'.mem

namespace Confinement

variable {c : Confinement} {st st' : System} {live : Layout UInt32} {buf x : UInt32}

theorem Kept.heap (h : c.Kept st live) : HeapInv kernelHeap st.mem live := h.procs.heap

theorem Kept.lt (h : c.Kept st live) {b : ℕ} (hb : b ∈ c.blocks) : b < 25600 :=
  h.procs.held.lt h.procs.heap hb

theorem Kept.not_free (h : c.Kept st live) {b : ℕ} (hb : b ∈ c.blocks) :
    ¬ EntryFree kernelHeap st.mem b :=
  h.procs.held.not_free h.procs.heap hb

theorem Kept.spaces_held (h : c.Kept st live) : Spaces.Held c.kernel c.task st.mem :=
  fun _ hb => h.not_free (Or.inl (c.spaces_held _ hb))

/-- Only the machine, its memory and the tables matter. -/
theorem Kept.of_machine (h : c.Kept st live) (hmachine : st'.machine = st.machine)
    (hchunk : st'.kernelChunk = st.kernelChunk) (hcommands : st'.isr80hCommands = st.isr80hCommands)
    (hcallbacks : st'.interruptCallbacks = st.interruptCallbacks) : c.Kept st' live where
  procs := by
    unfold System.procState
    rw [hmachine]
    exact h.procs
  hosts := by
    refine ⟨?_, hchunk.trans h.hosts.kernelChunk, ?_⟩
    · unfold System.mem
      rw [hmachine]
      exact h.hosts.spaces
    · unfold System.task
      rw [hmachine]
      exact h.hosts.pageDirectory
  current := by
    rw [hmachine]
    exact h.current
  registered := by
    refine ⟨?_, ?_⟩
    · rw [hcommands]
      exact h.registered.commands
    · rw [hcallbacks]
      exact h.registered.callbacks
  records := by
    rw [hmachine]
    exact h.records

/-- The kernel changes outside the bytes it relies on. -/
theorem Kept.setKernel (h : c.Kept st live) {k : Kernel} (hsame : SameOn c.Fixed st.mem k.mem) :
    c.Kept { st with machine := st.machine.setKernel k } live where
  procs := h.procs.congr fun x hx => hsame x (hx.imp_right Or.inl)
  hosts := by
    refine ⟨h.hosts.spaces.congr fun b hb x hx => hsame x (Or.inr (Or.inr ?_)),
      h.hosts.kernelChunk, h.hosts.pageDirectory⟩
    exact hb.imp (fun hb => ⟨b, hb, hx⟩) fun hb => ⟨b, hb, hx⟩
  current := h.current
  registered := ⟨h.registered.commands, h.registered.callbacks⟩
  records := h.records

theorem Kept.under (h : c.Kept st live) (s : SpaceBlocks) : c.Kept (st.under s) live :=
  h.of_machine rfl rfl rfl rfl

/-- Every word can be read through the directory of the task. -/
theorem Kept.loadWord (h : c.Kept st live) (v : UInt32) :
    ∃ w, X86.loadWord .supervisor (blockAddr c.task.directory) v st.mem = some w := by
  have hshow := h.hosts.spaces.task.shows h.hosts.spaces.taskOpen .supervisor
  have hbyte : ∀ v, ∃ b, X86.loadByte .supervisor (blockAddr c.task.directory) v st.mem =
      some b := by
    intro v
    obtain ⟨x, hx⟩ := Option.isSome_iff_exists.mp (c.present v)
    exact ⟨_, hshow.loadByte hx⟩
  obtain ⟨b₀, h₀⟩ := hbyte v
  obtain ⟨b₁, h₁⟩ := hbyte (off v 1)
  obtain ⟨b₂, h₂⟩ := hbyte (off v 2)
  obtain ⟨b₃, h₃⟩ := hbyte (off v 3)
  unfold X86.loadWord
  simp only [h₀, h₁, h₂, h₃, Option.bind_eq_bind, Option.bind_some]
  exact ⟨_, rfl⟩

/-- A stack item of the task. -/
theorem Kept.taskGetStackItem (h : c.Kept st live)
    (hcr3 : st.cr3 = blockAddr c.kernel.directory) (index : ℕ) :
    ∃ w, X86.loadWord .supervisor (blockAddr c.task.directory)
        (off st.task.registers.esp (4 * index)) st.mem = some w ∧
      st.taskGetStackItem index = some (w, st.under c.kernel) := by
  obtain ⟨w, hw⟩ := h.loadWord (off st.task.registers.esp (4 * index))
  exact ⟨w, hw, h.hosts.taskGetStackItem hcr3 hw⟩

theorem Leaves.refl (h : c.Kept st live) (hcr3 : st.cr3 = blockAddr c.kernel.directory) :
    c.Leaves st st := ⟨⟨live, h⟩, hcr3, SameOn.refl _ _⟩

/-! ### The commands -/

theorem Leaves.trans {st₁ st₂ st₃ : System} (h₁ : c.Leaves st₁ st₂) (h₂ : c.Leaves st₂ st₃) :
    c.Leaves st₁ st₃ := ⟨h₂.kept, h₂.cr3, h₁.same.trans h₂.same⟩

theorem Kept.not_inBlocks_of_lt (h : c.Kept st live) (hx : x.toNat < 16777216) :
    ¬ InBlocks c.blocks x := by
  rintro ⟨b, hb, hxb⟩
  exact not_inBlock_low hx (h.lt hb) hxb

theorem held_subset (c : Confinement) : c.held ⊆ c.blocks := Set.subset_union_left

/-- The bytes of the spaces are in held blocks. -/
theorem inBlocks_of_inSpace (hx : c.kernel.InSpace x ∨ c.task.InSpace x) : InBlocks c.held x := by
  rcases hx with ⟨b, hb, hxb⟩ | ⟨b, hb, hxb⟩
  · exact ⟨b, c.spaces_held b (Or.inl hb), hxb⟩
  · exact ⟨b, c.spaces_held b (Or.inr hb), hxb⟩

/-- A change below the heap, away from the block table and the byte of null. -/
theorem Kept.setKernel_low (h : c.Kept st live) {k : Kernel} {P : UInt32 → Prop}
    (hP : ∀ x, P x → 57856 ≤ x.toNat ∧ x.toNat < 16777216)
    (hsame : ∀ x, ¬ P x → k.mem x = st.mem x) :
    c.Kept { st with machine := st.machine.setKernel k } live ∧
      SameOn (InBlocks c.blocks) st.mem k.mem := by
  have hblocks : SameOn (InBlocks c.blocks) st.mem k.mem := fun x hx =>
    hsame x fun hp => h.not_inBlocks_of_lt (hP x hp).2 hx
  refine ⟨h.setKernel fun x hx => ?_, hblocks⟩
  rcases hx with htable | rfl | hspace
  · refine hsame x fun hp => ?_
    rw [inTable_iff] at htable
    have := hP x hp
    omega
  · refine hsame _ fun hp => absurd (hP _ hp).1 (by decide)
  · exact hblocks x (InBlocks.mono (inBlocks_of_inSpace hspace) c.held_subset)

theorem Kept.isr80hCommand0Sum (h : c.Kept st live) (hcr3 : st.cr3 = blockAddr c.kernel.directory) :
    ∃ r, st.isr80hCommand0Sum = some r ∧ c.Leaves st r.2 := by
  obtain ⟨v2, -, h₂⟩ := h.taskGetStackItem hcr3 1
  obtain ⟨v1, -, h₁⟩ := (h.under c.kernel).taskGetStackItem rfl 0
  unfold System.isr80hCommand0Sum
  simp only [h₂, h₁, Option.bind_eq_bind, Option.bind_some]
  exact ⟨_, rfl, ⟨live, (h.under _).under _⟩, rfl, SameOn.refl _ _⟩

/-- The keyboard buffer of a process changes. -/
theorem Kept.setKeyboard (h : c.Kept st live) (p : UInt32) (kb : KeyboardBuffer) :
    c.Kept { st with machine :=
      st.machine.setProc p { st.machine.procs p with keyboard := kb } } live where
  procs := by
    have hprocs : (fun q => ((st.machine.setProc p { st.machine.procs p with
        keyboard := kb }).procs q).toProcess) = fun q => (st.machine.procs q).toProcess := by
      funext q
      unfold Machine.setProc
      dsimp only
      rcases eq_or_ne q p with rfl | hne
      · rw [Function.update_self]
      · rw [Function.update_of_ne hne]
    unfold System.procState
    dsimp only
    rw [hprocs]
    exact h.procs
  hosts := ⟨h.hosts.spaces, h.hosts.kernelChunk, h.hosts.pageDirectory⟩
  current := h.current
  registered := ⟨h.registered.commands, h.registered.callbacks⟩
  records := h.records

theorem Leaves.under (h : c.Kept st live) : c.Leaves st (st.under c.kernel) :=
  ⟨⟨live, h.under _⟩, rfl, SameOn.refl _ _⟩

theorem Kept.keyboardPop (h : c.Kept st live) :
    c.Kept { st with machine := (PeachOS.keyboardPop st.machine).2 } live := by
  unfold PeachOS.keyboardPop
  split_ifs
  · exact h
  · exact h.setKeyboard _ _

theorem Kept.keyboardPush (h : c.Kept st live) (a : UInt8) :
    c.Kept { st with machine := PeachOS.keyboardPush a st.machine } live := by
  unfold PeachOS.keyboardPush
  dsimp only
  split_ifs
  · exact h
  · exact h.setKeyboard _ _

theorem keyboardPop_sched (m : Machine) : (PeachOS.keyboardPop m).2.sched = m.sched := by
  unfold PeachOS.keyboardPop
  split_ifs <;> rfl

theorem keyboardPush_sched (a : UInt8) (m : Machine) :
    (PeachOS.keyboardPush a m).sched = m.sched := by
  unfold PeachOS.keyboardPush
  dsimp only
  split_ifs <;> rfl

theorem Kept.isr80hCommand2Getkey (h : c.Kept st live)
    (hcr3 : st.cr3 = blockAddr c.kernel.directory) :
    ∃ r, st.isr80hCommand2Getkey = some r ∧ c.Leaves st r.2 := by
  refine ⟨_, rfl, ⟨live, h.keyboardPop⟩, hcr3, ?_⟩
  have hsched := keyboardPop_sched st.machine
  intro x _
  unfold System.mem
  dsimp only
  rw [hsched]

/-- Stores to the video memory. -/
theorem Kept.setScreen (h : c.Kept st live) (hcr3 : st.cr3 = blockAddr c.kernel.directory)
    {s : Terminal × Mem} (hsame : ∀ x, ¬ ScreenByte x → s.2 x = st.mem x) :
    c.Leaves st { st.setMem s.2 with terminal := s.1 } := by
  obtain ⟨hkept, hblocks⟩ := h.setKernel_low (P := ScreenByte)
    (k := { st.machine.sched.kernel with mem := s.2 })
    (fun x hx => by unfold ScreenByte at hx; omega) hsame
  exact ⟨⟨live, hkept.of_machine rfl rfl rfl rfl⟩, hcr3, hblocks⟩

theorem Kept.isr80hCommand3Putchar (h : c.Kept st live)
    (hcr3 : st.cr3 = blockAddr c.kernel.directory) {r : UInt32 × System}
    (hr : st.isr80hCommand3Putchar = some r) : c.Leaves st r.2 := by
  obtain ⟨a, -, ha⟩ := h.taskGetStackItem hcr3 0
  unfold System.isr80hCommand3Putchar at hr
  simp only [ha, Option.bind_eq_bind, Option.bind_some] at hr
  obtain ⟨st', hst', hr⟩ := Option.bind_eq_some_iff.mp hr
  obtain rfl := Option.some.inj hr
  obtain ⟨s, hs, rfl⟩ := Option.map_eq_some_iff.mp hst'
  exact (Leaves.under h).trans
    ((h.under c.kernel).setScreen rfl fun x hx => writecharAt_frame hs hx)

theorem Kept.isr80hCommand3Putchar_isSome (h : c.Kept st live)
    (hcr3 : st.cr3 = blockAddr c.kernel.directory) (hshown : ShownCommand 3 buf st) :
    st.isr80hCommand3Putchar.isSome := by
  obtain ⟨a, -, ha⟩ := h.taskGetStackItem hcr3 0
  obtain ⟨s, hs⟩ := Option.isSome_iff_exists.mp
    ((writecharAt_isSome_iff a.toUInt8 (st.terminal, st.mem)).mpr (hshown.putchar rfl a _ ha))
  have hwrite : writecharAt a.toUInt8 15
      ((st.under c.kernel).terminal, (st.under c.kernel).mem) = some s := hs
  unfold System.isr80hCommand3Putchar System.terminalWritechar
  simp only [ha, Option.bind_eq_bind, Option.bind_some, hwrite, Option.map_some]
  rfl

/-- An allocation or a release by the process of the task. -/
theorem Kept.mapProcs (h : c.Kept st live) (hcr3 : st.cr3 = blockAddr c.kernel.directory)
    {g : ProcState → ProcState} {live' : Layout UInt32}
    (hg : HeldInv c.blocks (g st.procState) live')
    (hsame : SameOn (InBlocks c.blocks) st.mem (g st.procState).kernel.mem) :
    c.Leaves st { st with machine := st.machine.mapProcs g } := by
  refine ⟨⟨live', hg, ?_, h.current, ⟨h.registered.commands, h.registered.callbacks⟩, h.records⟩,
    hcr3, hsame⟩
  refine ⟨h.hosts.spaces.congr fun b hb x hx => ?_, h.hosts.kernelChunk, h.hosts.pageDirectory⟩
  exact hsame x ⟨b, Or.inl (c.spaces_held b hb), hx⟩

theorem Kept.isr80hCommand4Malloc (h : c.Kept st live)
    (hcr3 : st.cr3 = blockAddr c.kernel.directory)
    (hserved : ∀ size, X86.loadWord .supervisor (blockAddr c.task.directory)
      st.task.registers.esp st.mem = some size → Served size st.mem) :
    ∃ r, st.isr80hCommand4Malloc = some r ∧ c.Leaves st r.2 := by
  obtain ⟨size, hload, hsize⟩ := h.taskGetStackItem hcr3 0
  rw [Nat.mul_zero, off_zero] at hload
  obtain ⟨live', hmalloc, hsame⟩ := h.procs.malloc st.task.process (hserved size hload)
  unfold System.isr80hCommand4Malloc
  simp only [hsize, Option.bind_eq_bind, Option.bind_some]
  have hleaves := (h.under c.kernel).mapProcs rfl
    (g := fun s => (processMalloc st.task.process size s).2) hmalloc hsame
  exact ⟨_, rfl, (Leaves.under h).trans hleaves⟩

theorem Kept.isr80hCommand5Free (h : c.Kept st live)
    (hcr3 : st.cr3 = blockAddr c.kernel.directory) :
    ∃ r, st.isr80hCommand5Free = some r ∧ c.Leaves st r.2 := by
  obtain ⟨ptr, -, hptr⟩ := h.taskGetStackItem hcr3 0
  obtain ⟨live', hfree, hsame⟩ := h.procs.free st.task.process ptr
  unfold System.isr80hCommand5Free
  simp only [hptr, Option.bind_eq_bind, Option.bind_some]
  have hleaves := (h.under c.kernel).mapProcs rfl (g := processFree st.task.process ptr) hfree
    hsame
  exact ⟨_, rfl, (Leaves.under h).trans hleaves⟩

/-- The entry of page 0 in the tables of the kernel has a byte that is zero. -/
theorem Kept.zero (h : c.Kept st live) : ∃ x, st.mem x = 0 ∧ 16777216 ≤ x.toNat := by
  have hpage := h.hosts.spaces.kernel.page 0 (by decide)
  rw [show (0 : UInt32) ||| 7 = 7 from rfl] at hpage
  have hword := congrArg UInt32.toNat hpage
  refine ⟨off (c.kernel.slot 0) 1, UInt8.toNat.inj ?_, ?_⟩
  · have h₀ := (st.mem (c.kernel.slot 0)).toNat_lt
    have h₁ := (st.mem (off (c.kernel.slot 0) 1)).toNat_lt
    have h₂ := (st.mem (off (c.kernel.slot 0) 2)).toNat_lt
    have h₃ := (st.mem (off (c.kernel.slot 0) 3)).toNat_lt
    unfold Mem.read32 at hword
    rw [UInt32.toNat_ofNat', show (7 : UInt32).toNat = 7 from rfl] at hword
    rw [UInt8.toNat_zero]
    omega
  · obtain ⟨i, hi, hx⟩ := inTables_of_slot (s := c.kernel) (w := 0)
      (inRange_off (p := c.kernel.slot 0) (k := 1) (show 1 < 4 by decide))
    rw [inBlock_iff (c.kernel.table_lt i hi)] at hx
    omega

/-- A string is copied to a buffer of the kernel. -/
theorem Kept.copyStringFromTask (h : c.Kept st live) (hbuf : StackBuffer buf)
    (hcr3 : st.cr3 = blockAddr c.kernel.directory) (virtual : UInt32) :
    ∃ r, st.copyStringFromTask virtual buf 1024 = some r ∧ c.Leaves st r.2 ∧
      r.2.terminal = st.terminal := by
  have hrange : ∀ x, InRange buf 1024 x → 57856 ≤ x.toNat ∧ x.toNat < 16777216 := fun _ hx =>
    ⟨(hbuf.range le_rfl hx).1, (hbuf.range le_rfl hx).2.1⟩
  have hphys : ∀ b < 25600, EntryFree kernelHeap st.mem b → ∀ x, InRange buf 1024 x →
      ApartFrom c.kernel c.task b x :=
    fun b hb _ x hx => apartFrom_low (hrange x hx).1 (hrange x hx).2 hb
  have hspaces : Spaces st.paged.kernel.mem c.kernel c.task c.map := h.hosts.spaces
  obtain ⟨res, p, b, hcopy, hcases⟩ : ∃ res p b, PeachOS.copyStringFromTask
      (blockAddr c.kernel.chunk) (blockAddr c.task.chunk) virtual buf 1024 st.paged =
        some (res, p) ∧ _ :=
    copyStringFromTask_frame h.heap hspaces h.spaces_held hcr3 (by decide) (by decide) c.present
      hphys
  have hreturn : st.copyStringFromTask virtual buf 1024 = some (res, st.setPaged p) := by
    unfold System.copyStringFromTask
    rw [h.hosts.kernelChunk, h.hosts.pageDirectory, hcopy]
    rfl
  refine ⟨_, hreturn, ?_, rfl⟩
  rcases hcases with ⟨-, rfl⟩ | ⟨-, hb, hfree, -, hcr3', -, hsame⟩
  · have hkept := h.setKernel (k := ⟨st.mem, true⟩) (SameOn.refl _ _)
    exact ⟨⟨live, hkept.of_machine rfl rfl rfl rfl⟩, hcr3, SameOn.refl _ _⟩
  · have hblocks : SameOn (InBlocks c.blocks) st.mem p.kernel.mem := by
      rintro x ⟨e, he, hx⟩
      refine hsame x (fun hr => ?_) fun hxb => ?_
      · exact h.not_inBlocks_of_lt (hrange x hr).2 ⟨e, he, hx⟩
      · exact h.not_free he (InBlock.unique hb (h.lt he) hxb hx ▸ hfree)
    have hfixed : SameOn c.Fixed st.mem p.kernel.mem := by
      rintro x (htable | rfl | hspace)
      · refine hsame x (fun hr => ?_) fun hxb => hxb.not_inTable hb htable
        have := hrange x hr
        rw [inTable_iff] at htable
        omega
      · exact hsame _ (fun hr => absurd (hrange _ hr).1 (by decide)) fun hxb => hxb.ne_null hb rfl
      · exact hblocks x (InBlocks.mono (inBlocks_of_inSpace hspace) c.held_subset)
    exact ⟨⟨live, (h.setKernel hfixed).of_machine rfl rfl rfl rfl⟩, hcr3', hblocks⟩

/-- `print` writes the text in its buffer. -/
theorem Kept.print_eq (h : c.Kept st live) (hbuf : StackBuffer buf) :
    ∃ text, TextAt st.mem buf text ∧
      ∀ t, printAt buf (t, st.mem) = writeText text (t, st.mem) := by
  obtain ⟨x, hx, hhigh⟩ := h.zero
  obtain ⟨hlow, hend⟩ := hbuf
  have hle : buf.toNat ≤ x.toNat := by omega
  obtain ⟨text, htext, hlen⟩ := exists_textAt hx hle
  have hxlt := toNat_lt x
  refine ⟨text, htext, fun t => printAt_eq htext (by omega) (fun j hj hscreen => ?_) t⟩
  unfold ScreenByte at hscreen
  rw [toNat_off_of_lt (by omega)] at hscreen
  omega

theorem Kept.print (h : c.Kept st live) (hcr3 : st.cr3 = blockAddr c.kernel.directory)
    (hbuf : StackBuffer buf) (hprint : st.print buf = some st') : c.Leaves st st' := by
  obtain ⟨text, -, heq⟩ := h.print_eq hbuf
  unfold System.print at hprint
  obtain ⟨s, hs, rfl⟩ := Option.map_eq_some_iff.mp hprint
  rw [heq] at hs
  exact h.setScreen hcr3 fun x hx => writeText_frame hx hs

theorem Kept.isr80hCommand1Print (h : c.Kept st live) (hbuf : StackBuffer buf)
    (hcr3 : st.cr3 = blockAddr c.kernel.directory) {r : UInt32 × System}
    (hr : st.isr80hCommand1Print buf = some r) : c.Leaves st r.2 := by
  obtain ⟨w, -, hw⟩ := h.taskGetStackItem hcr3 0
  obtain ⟨r₁, hr₁, hcopied, -⟩ := (h.under c.kernel).copyStringFromTask hbuf rfl w
  obtain ⟨live', h'⟩ := hcopied.kept
  unfold System.isr80hCommand1Print at hr
  simp only [hw, hr₁, Option.bind_eq_bind, Option.bind_some] at hr
  obtain ⟨st', hst', hr⟩ := Option.bind_eq_some_iff.mp hr
  obtain rfl := Option.some.inj hr
  exact ((Leaves.under h).trans hcopied).trans (h'.print hcopied.cr3 hbuf hst')

theorem Kept.isr80hCommand1Print_isSome (h : c.Kept st live) (hbuf : StackBuffer buf)
    (hcr3 : st.cr3 = blockAddr c.kernel.directory) (hshown : ShownCommand 1 buf st) :
    (st.isr80hCommand1Print buf).isSome := by
  obtain ⟨w, -, hw⟩ := h.taskGetStackItem hcr3 0
  obtain ⟨r₁, hr₁, hcopied, hterminal⟩ := (h.under c.kernel).copyStringFromTask hbuf rfl w
  obtain ⟨live', h'⟩ := hcopied.kept
  obtain ⟨text, htext, heq⟩ := h'.print_eq hbuf
  have hshow : ShownIn text r₁.2.terminal := by
    rw [hterminal]
    exact hshown.print rfl w _ r₁ hw hr₁ text htext
  obtain ⟨s, hs⟩ := Option.isSome_iff_exists.mp
    ((writeText_isSome_iff text (r₁.2.terminal, r₁.2.mem)).mpr hshow)
  unfold System.isr80hCommand1Print System.print
  simp only [hw, hr₁, Option.bind_eq_bind, Option.bind_some, heq, hs, Option.map_some]
  rfl

/-! ### The handlers -/

/-- Every command keeps the invariant. -/
theorem Kept.isr80hHandleCommand (h : c.Kept st live) (hbuf : StackBuffer buf)
    (hcr3 : st.cr3 = blockAddr c.kernel.directory) {command : ℤ}
    (hserved : ServedCall (blockAddr c.task.directory) command st.task.registers.esp st.mem)
    {r : UInt32 × System} (hr : st.isr80hHandleCommand command buf = some r) : c.Leaves st r.2 := by
  -- a command that always has a result
  have hof : ∀ {x : Option (UInt32 × System)}, (∃ r, x = some r ∧ c.Leaves st r.2) →
      x = some r → c.Leaves st r.2 := by
    rintro x ⟨r', hr', hleaves⟩ hx
    obtain rfl := Option.some.inj (hr'.symm.trans hx)
    exact hleaves
  unfold System.isr80hHandleCommand at hr
  split_ifs at hr with hrange
  · obtain rfl := Option.some.inj hr
    exact Leaves.refl h hcr3
  · obtain ⟨n, rfl⟩ : ∃ n : ℕ, command = n := ⟨command.toNat, by omega⟩
    rw [h.registered.commands, Int.toNat_natCast] at hr
    rcases n with _ | _ | _ | _ | _ | _ | n
    · exact hof (h.isr80hCommand0Sum hcr3) hr
    · exact h.isr80hCommand1Print hbuf hcr3 hr
    · exact hof (h.isr80hCommand2Getkey hcr3) hr
    · exact h.isr80hCommand3Putchar hcr3 hr
    · exact hof (h.isr80hCommand4Malloc hcr3 (hserved rfl)) hr
    · exact hof (h.isr80hCommand5Free hcr3) hr
    · obtain rfl := Option.some.inj hr
      exact Leaves.refl h hcr3

/-- Every command whose characters go to the video memory returns. -/
theorem Kept.isr80hHandleCommand_isSome (h : c.Kept st live) (hbuf : StackBuffer buf)
    (hcr3 : st.cr3 = blockAddr c.kernel.directory) {command : ℤ}
    (hserved : ServedCall (blockAddr c.task.directory) command st.task.registers.esp st.mem)
    (hshown : ShownCommand command buf st) : (st.isr80hHandleCommand command buf).isSome := by
  have hof : ∀ {x : Option (UInt32 × System)}, (∃ r, x = some r ∧ c.Leaves st r.2) →
      x.isSome := by
    rintro x ⟨r, rfl, -⟩
    rfl
  unfold System.isr80hHandleCommand
  split_ifs with hrange
  · rfl
  · obtain ⟨n, rfl⟩ : ∃ n : ℕ, command = n := ⟨command.toNat, by omega⟩
    rw [h.registered.commands, Int.toNat_natCast]
    rcases n with _ | _ | _ | _ | _ | _ | n
    · exact hof (h.isr80hCommand0Sum hcr3)
    · exact h.isr80hCommand1Print_isSome hbuf hcr3 hshown
    · exact hof (h.isr80hCommand2Getkey hcr3)
    · exact h.isr80hCommand3Putchar_isSome hcr3 hshown
    · exact hof (h.isr80hCommand4Malloc hcr3 (hserved rfl))
    · exact hof (h.isr80hCommand5Free hcr3)
    · rfl

/-- The registers of the task are saved. -/
theorem Kept.taskCurrentSaveState (h : c.Kept st live) (frame : InterruptFrame) :
    ∃ st', st.taskCurrentSaveState frame = some st' ∧ c.Kept st' live ∧ st'.cr3 = st.cr3 ∧
      st'.mem = st.mem ∧ st'.task.registers = frame.registers := by
  unfold System.taskCurrentSaveState PeachOS.taskCurrentSaveState
  dsimp only
  rw [if_neg h.current]
  have hsave : PeachOS.taskCurrentSaveState frame st.machine = some _ := if_neg h.current
  refine ⟨_, rfl, ⟨h.procs, ⟨h.hosts.spaces, h.hosts.kernelChunk, ?_⟩, h.current,
    ⟨h.registered.commands, h.registered.callbacks⟩, fun x hx => h.records x
      (hx.congr (taskCurrentSaveState_sameCursors hsave))⟩, rfl, rfl, ?_⟩
  · unfold System.task
    dsimp only [taskCurrent]
    rw [Function.update_self]
    exact h.hosts.pageDirectory
  · unfold System.task
    dsimp only [taskCurrent]
    rw [Function.update_self]

/-- What a handler leaves when it returns to the task. -/
structure Returns (c : Confinement) (st st' : System) : Prop where
  kept : ∃ live, c.Kept st' live
  cr3 : st'.cr3 = blockAddr c.task.directory
  same : SameOn (InBlocks c.blocks) st.mem st'.mem

/-- The switch to the kernel and the saved registers, and what they leave of the conditions. -/
theorem Kept.enter (h : c.Kept st live) (hcr3 : st.cr3 = blockAddr c.task.directory)
    {command : ℤ} (frame : InterruptFrame) (hserved : ServedCall st.cr3 command frame.esp st.mem) :
    ∃ st₂, st.kernelPage = some (st.under c.kernel) ∧
      (st.under c.kernel).taskCurrentSaveState frame = some st₂ ∧ c.Kept st₂ live ∧
      st₂.cr3 = blockAddr c.kernel.directory ∧ st₂.mem = st.mem ∧
      ServedCall (blockAddr c.task.directory) command st₂.task.registers.esp st₂.mem := by
  obtain ⟨st₂, hsave, h₂, hcr3₂, hmem₂, hregs⟩ := (h.under c.kernel).taskCurrentSaveState frame
  rw [hcr3, ← show st₂.task.registers.esp = frame.esp by rw [hregs]; rfl,
    ← show st₂.mem = st.mem from hmem₂] at hserved
  exact ⟨st₂, h.hosts.kernelPage (Or.inr hcr3), hsave, h₂, hcr3₂, hmem₂, hserved⟩

/-- **A system call keeps the kernel.**  Under the directory of the task, a call with any number and
any registers leaves the heap well formed, the page tables the same, and so all blocks of the kernel
and of the program. -/
theorem Kept.isr80hHandler (h : c.Kept st live) (hcr3 : st.cr3 = blockAddr c.task.directory)
    {command : ℤ} {frame : InterruptFrame} (hbuf : StackBuffer buf)
    (hserved : ServedCall st.cr3 command frame.esp st.mem) {r : UInt32 × System}
    (hr : st.isr80hHandler command frame buf = some r) : c.Returns st r.2 := by
  obtain ⟨st₂, henter, hsave, h₂, hcr3₂, hmem₂, hserved₂⟩ := h.enter hcr3 frame hserved
  unfold System.isr80hHandler at hr
  simp only [henter, hsave, Option.bind_eq_bind, Option.bind_some] at hr
  obtain ⟨⟨res, st₃⟩, h₃, hr⟩ := Option.bind_eq_some_iff.mp hr
  have hleaves := h₂.isr80hHandleCommand hbuf hcr3₂ hserved₂ h₃
  obtain ⟨live', h'⟩ := hleaves.kept
  have hleave := h'.hosts.taskPage (Or.inl hleaves.cr3)
  simp only [hleave, Option.bind_some] at hr
  obtain rfl := Option.some.inj hr
  exact ⟨⟨live', h'.under _⟩, rfl, fun x hx => (hleaves.same x hx).trans (congrFun hmem₂ x)⟩

/-- **No system call panics or faults** whose characters go to the video memory. -/
theorem Kept.isr80hHandler_isSome (h : c.Kept st live) (hcr3 : st.cr3 = blockAddr c.task.directory)
    {command : ℤ} {frame : InterruptFrame} (hbuf : StackBuffer buf)
    (hserved : ServedCall st.cr3 command frame.esp st.mem)
    (hshown : ShownCall command frame buf st) :
    ∃ r, st.isr80hHandler command frame buf = some r ∧ c.Returns st r.2 := by
  obtain ⟨st₂, henter, hsave, h₂, hcr3₂, -, hserved₂⟩ := h.enter hcr3 frame hserved
  obtain ⟨r₃, h₃⟩ := Option.isSome_iff_exists.mp
    (h₂.isr80hHandleCommand_isSome hbuf hcr3₂ hserved₂ (hshown _ _ henter hsave))
  have hleaves := h₂.isr80hHandleCommand hbuf hcr3₂ hserved₂ h₃
  obtain ⟨live', h'⟩ := hleaves.kept
  have hleave := h'.hosts.taskPage (Or.inl hleaves.cr3)
  obtain ⟨r, hr⟩ : ∃ r, st.isr80hHandler command frame buf = some r := by
    unfold System.isr80hHandler
    simp only [henter, hsave, h₃, hleave, Option.bind_eq_bind, Option.bind_some]
    exact ⟨_, rfl⟩
  exact ⟨r, hr, h.isr80hHandler hcr3 hbuf hserved hr⟩

/-- The keyboard handler ends under either directory. -/
theorem Kept.classicKeyboardHandleInterrupt (h : c.Kept st live)
    (hcr3 : st.cr3 = blockAddr c.kernel.directory) (beyond scancode : UInt8) :
    ∃ st', st.classicKeyboardHandleInterrupt beyond scancode = some st' ∧ c.Kept st' live ∧
      st'.Under c.kernel c.task ∧ st'.mem = st.mem := by
  have henter := h.hosts.kernelPage (Or.inl hcr3)
  have hkernel := h.under c.kernel
  unfold System.classicKeyboardHandleInterrupt
  simp only [henter, Option.bind_eq_bind, Option.bind_some]
  split_ifs with hreleased hchar
  · exact ⟨_, rfl, hkernel, Or.inl rfl, rfl⟩
  · have hpush := hkernel.keyboardPush (classicKeyboardScancodeToChar beyond scancode)
    refine ⟨_, hpush.hosts.taskPage (Or.inl rfl), hpush.under _, Or.inr rfl, ?_⟩
    change (PeachOS.keyboardPush _ st.machine).sched.kernel.mem = _
    rw [keyboardPush_sched]
    rfl
  · exact ⟨_, hkernel.hosts.taskPage (Or.inl rfl), hkernel.under _, Or.inr rfl, rfl⟩

theorem Kept.interruptHandler (h : c.Kept st live) (hcr3 : st.cr3 = blockAddr c.task.directory)
    (interrupt : ℕ) (frame : InterruptFrame) (beyond scancode : UInt8) :
    ∃ st', st.interruptHandler interrupt frame beyond scancode = some st' ∧ c.Returns st st' := by
  have henter := h.hosts.kernelPage (Or.inr hcr3)
  have hkernel := h.under c.kernel
  unfold System.interruptHandler
  simp only [henter, Option.bind_eq_bind, Option.bind_some]
  cases hcallback : (st.under c.kernel).interruptCallbacks.getD interrupt none with
  | none =>
      unfold System.callback
      simp only [Option.bind_some]
      have hleave := hkernel.hosts.taskPage (Or.inl rfl)
      exact ⟨_, hleave, ⟨live, hkernel.under _⟩, rfl, SameOn.refl _ _⟩
  | some callback =>
      obtain ⟨st₂, hsave, h₂, hcr3₂, hmem₂, -⟩ := hkernel.taskCurrentSaveState frame
      obtain ⟨st₃, hkey, h₃, hunder, hmem₃⟩ := h₂.classicKeyboardHandleInterrupt hcr3₂ beyond
        scancode
      have hleave := h₃.hosts.taskPage hunder
      unfold System.callback
      simp only [hsave, hkey, Option.bind_eq_bind, Option.bind_some]
      exact ⟨_, hleave, ⟨live, h₃.under _⟩, rfl, fun x _ => congrFun (hmem₃.trans hmem₂) x⟩

/-! ### Runs -/

/-- A store of the task reaches the blocks of its program only. -/
theorem Kept.store (h : c.Kept st live) (hcr3 : st.cr3 = blockAddr c.task.directory)
    {v : UInt32} {a : UInt8} {m : Mem}
    (hstore : X86.storeByte .userWrite st.cr3 v a st.mem = some m) :
    c.Kept (st.setMem m) live ∧ SameOn (InBlocks c.held) st.mem m := by
  rw [hcr3] at hstore
  obtain ⟨x, hx, rfl⟩ := (h.hosts.spaces.task.shows h.hosts.spaces.taskOpen
    .userWrite).of_storeByte hstore
  obtain ⟨b, hb, hxb⟩ := c.userWrite v x hx
  have hlt := h.lt (Or.inr hb)
  have hheld : SameOn (InBlocks c.held) st.mem (st.mem.write x a) := by
    rintro y ⟨e, he, hy⟩
    refine Mem.write_ne _ _ ?_
    rintro rfl
    exact c.image_apart b hb (InBlock.unique hlt (h.lt (Or.inl he)) hxb hy ▸ he)
  refine ⟨h.setKernel (k := { st.machine.sched.kernel with mem := st.mem.write x a }) ?_, hheld⟩
  rintro y (htable | rfl | hy)
  · refine Mem.write_ne _ _ ?_
    rintro rfl
    exact hxb.not_inTable hlt htable
  · exact Mem.write_ne _ _ (hxb.ne_null hlt).symm
  · exact hheld y (inBlocks_of_inSpace hy)

/-- The bytes that are not followed are none of those that the kernel relies on, and none of the
program. -/
theorem Kept.untracked (h : c.Kept st live) {m : Mem}
    (hsame : ∀ x, ¬ st.Untracked x → m x = st.mem x) :
    c.Kept (st.setMem m) live ∧ SameOn c.Steady st.mem m ∧
      SameOn (InBlocks c.image) st.mem m := by
  have hkernel : ∀ x, InBlocks c.blocks x → ¬ KernelByte x := by
    rintro x ⟨b, hb, hx⟩ hbyte
    rw [inBlock_iff (h.lt hb)] at hx
    unfold KernelByte at hbyte
    omega
  refine ⟨h.setKernel (k := { st.machine.sched.kernel with mem := m }) ?_, fun x hx => ?_,
    fun x hx => ?_⟩
  · intro x hx
    refine hsame x ?_
    rintro (hbyte | hrecord)
    · rcases hx with htable | rfl | hspace
      · rw [inTable_iff] at htable
        unfold KernelByte at hbyte
        omega
      · exact absurd hbyte (by unfold KernelByte; decide)
      · exact hkernel x (InBlocks.mono (inBlocks_of_inSpace hspace) c.held_subset) hbyte
    · have hr := h.records x hrecord
      obtain ⟨b, hb, hxb⟩ := c.records_held x hr
      rcases hx with htable | rfl | hspace | hspace
      · exact hxb.not_inTable (h.lt (Or.inl hb)) htable
      · exact hxb.ne_null (h.lt (Or.inl hb)) rfl
      · exact (c.records_apart x hr).1 hspace
      · exact (c.records_apart x hr).2 hspace
  · refine hsame x ?_
    rintro (hbyte | hrecord)
    · exact hkernel x (InBlocks.mono hx.1 c.held_subset) hbyte
    · exact hx.2 (h.records x hrecord)
  · refine hsame x ?_
    rintro (hbyte | hrecord)
    · exact hkernel x (InBlocks.mono hx Set.subset_union_right) hbyte
    · obtain ⟨b, hb, hxb⟩ := c.records_held x (h.records x hrecord)
      obtain ⟨e, he, hxe⟩ := hx
      exact c.image_apart e he
        (InBlock.unique (h.lt (Or.inl hb)) (h.lt (Or.inr he)) hxb hxe ▸ hb)

/-- One event keeps the invariant and the blocks of the kernel. -/
theorem Kept.event (h : c.Kept st live) (hcr3 : st.cr3 = blockAddr c.task.directory)
    (he : SystemEvent st st') : (∃ live', c.Kept st' live') ∧
      st'.cr3 = blockAddr c.task.directory ∧ SameOn c.Steady st.mem st'.mem := by
  cases he with
  | store v a hstore =>
      obtain ⟨hkept, hsame⟩ := h.store hcr3 hstore
      exact ⟨⟨live, hkept⟩, hcr3, fun x hx => hsame x hx.1⟩
  | call command frame buf hbuf hserved hcall =>
      have hreturns := h.isr80hHandler hcr3 hbuf hserved hcall
      exact ⟨hreturns.kept, hreturns.cr3, fun x hx =>
        hreturns.same x (InBlocks.mono hx.1 c.held_subset)⟩
  | interrupt interrupt _ frame beyond scancode hint =>
      obtain ⟨st₁, hst₁, hreturns⟩ := h.interruptHandler hcr3 interrupt frame beyond scancode
      obtain rfl := Option.some.inj (hst₁.symm.trans hint)
      exact ⟨hreturns.kept, hreturns.cr3, fun x hx =>
        hreturns.same x (InBlocks.mono hx.1 c.held_subset)⟩
  | untracked hsame =>
      obtain ⟨hkept, hsteady, -⟩ := h.untracked hsame
      exact ⟨⟨live, hkept⟩, hcr3, hsteady⟩

theorem Kept.run (h : c.Kept st live) (hcr3 : st.cr3 = blockAddr c.task.directory)
    (hrun : SystemRun st st') : (∃ live', c.Kept st' live') ∧
      st'.cr3 = blockAddr c.task.directory ∧ SameOn c.Steady st.mem st'.mem := by
  induction hrun with
  | refl => exact ⟨⟨live, h⟩, hcr3, SameOn.refl _ _⟩
  | tail _ he ih =>
      obtain ⟨⟨live₁, h₁⟩, hcr3₁, hsame₁⟩ := ih
      obtain ⟨hkept, hcr3₂, hsame₂⟩ := h₁.event hcr3₁ he
      exact ⟨hkept, hcr3₂, hsame₁.trans hsame₂⟩

end Confinement

end PeachOS
