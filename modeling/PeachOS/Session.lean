import PeachOS.Boot

/-! # The session of a task

`Session` is what a task sees of the machine: its memory, the characters printed so far, and those
that were typed and not read.  `Session.answer` is the answer to a request.  `Sees` relates a
session to the text buffer in memory and to the keyboard ring of the process, `Keeps` to the memory
of the program.

`Confinement.Kept.session`: over every run of a task, with stores, system calls and interrupts in
any order, the machine is such a session.  The task reads what it stored; nothing printed or typed
is lost, doubled or out of order, and every request is answered as the session answers it. -/

namespace PeachOS

open ByteMemory Extents X86

/-! ### The session -/

/-- What a task asks for. -/
inductive Request
  | sum (v1 v2 : UInt32)
  | print (text : List UInt8)
  | getkey
  | putchar (c : UInt8)
  | malloc
  | free
  | unknown

/-- The memory of the program, the characters printed, and those typed and not read. -/
structure Session where
  memory : Mem
  output : List UInt8
  unread : List UInt8

namespace Session

/-- The answer; which address `malloc` returns is left open. -/
def answer (k : Session) : Request → Option UInt32 × Session
  | .sum v1 v2 => (some (v1 + v2), k)
  | .print text => (some 0, { k with output := k.output ++ text })
  | .getkey =>
      (some (UInt32.ofInt (k.unread.headD 0).toInt8.toInt), { k with unread := k.unread.tail })
  | .putchar c => (some 0, { k with output := k.output ++ [c] })
  | .malloc => (none, k)
  | .free => (some 0, k)
  | .unknown => (some 0, k)

/-- The store of a byte at the physical address that the map `f` gives for `v`. -/
def store (k : Session) (f : UInt32 → UInt32) (v : UInt32) (a : UInt8) : Session :=
  match viewOf .userWrite f v with
  | none => k
  | some x => { k with memory := k.memory.write x a }

theorem store_of_some (k : Session) {f : UInt32 → UInt32} {v x : UInt32} (a : UInt8)
    (h : viewOf .userWrite f v = some x) :
    k.store f v a = { k with memory := k.memory.write x a } := by
  unfold store
  rw [h]

/-- A key with the character `c`. -/
def type (k : Session) (c : UInt8) : Session :=
  if c = 0 then k else { k with unread := k.unread ++ [c] }

end Session

/-- The character of a scancode; 0 for a key that is released. -/
def keyCharacter (beyond scancode : UInt8) : UInt8 :=
  if scancode &&& classicKeyboardKeyReleased ≠ 0 then 0
  else classicKeyboardScancodeToChar beyond scancode

variable {p : UInt32} {t t₀ : Terminal} {st st' : System} {k : Session} {m m' : Mem}

/-- A byte of a cell that was written. -/
def OnScreen (t : Terminal) (x : UInt32) : Prop := ∃ i ∈ t.written, InRange (cellAddr i) 2 x

/-- The terminal shows the output, and the ring of the process `p` holds what is unread. -/
structure Sees (p : UInt32) (t₀ : Terminal) (st : System) (k : Session) : Prop where
  terminal : st.terminal = terminalText k.output t₀
  screen : Displays st.terminal st.mem
  reads : Reads st.machine p
  keyboard : ∃ n, (st.machine.procs p).keyboard.Queue n k.unread

theorem Displays.screenByte (h : Displays t m) {x : UInt32} (hx : OnScreen t x) : ScreenByte x := by
  obtain ⟨i, hi, hx⟩ := hx
  have hlt := (h i hi).1
  rw [inCell_iff hlt] at hx
  unfold videoCells at hlt
  unfold ScreenByte
  omega

theorem Displays.congr (h : Displays t m) (hsame : ∀ x, OnScreen t x → m' x = m x) :
    Displays t m' := by
  intro i hi
  obtain ⟨hlt, hcell⟩ := h i hi
  exact ⟨hlt, (cellAt_congr fun x hx => hsame x ⟨i, hi, hx⟩).trans hcell⟩

theorem Reads.congr {m m' : Machine} (h : Reads m p) (hsame : SameCursors m m') : Reads m' p := by
  have htask : taskCurrent m' = taskCurrent m := hsame.currentTask
  refine ⟨h.nonzero, hsame.currentProcess.trans h.current, ?_, ?_⟩
  · rw [htask]
    exact h.task
  · rw [htask, hsame.process]
    exact h.process

/-- A change off the screen, the cursors and the ring. -/
theorem Sees.congr (h : Sees p t₀ st k) (hterminal : st'.terminal = st.terminal)
    (hmem : ∀ x, OnScreen st.terminal x → st'.mem x = st.mem x)
    (hcursors : SameCursors st.machine st'.machine)
    (hkeyboard : (st'.machine.procs p).keyboard = (st.machine.procs p).keyboard) :
    Sees p t₀ st' k where
  terminal := hterminal.trans h.terminal
  screen := by
    rw [hterminal]
    exact h.screen.congr hmem
  reads := h.reads.congr hcursors
  keyboard := by
    rw [hkeyboard]
    exact h.keyboard

theorem Sees.under (h : Sees p t₀ st k) (s : SpaceBlocks) : Sees p t₀ (st.under s) k :=
  ⟨h.terminal, h.screen, h.reads, h.keyboard⟩

/-- The bytes of the program are those of the session. -/
def Confinement.Keeps (c : Confinement) (m : Mem) (k : Session) : Prop :=
  ∀ x, InBlocks c.image x → m x = k.memory x

/-- The result `r` is the answer to `q`, and the state shows it. -/
structure Answered (p : UInt32) (t₀ : Terminal) (k : Session) (q : Request)
    (r : UInt32 × System) : Prop where
  result : ∀ x, (k.answer q).1 = some x → r.1 = x
  sees : Sees p t₀ r.2 (k.answer q).2

theorem Answered.of_eq {q : Request} {r : UInt32 × System} {x : UInt32}
    (hx : (k.answer q).1 = some x) (hr : r.1 = x) (hsees : Sees p t₀ r.2 (k.answer q).2) :
    Answered p t₀ k q r :=
  ⟨fun _ hy => hr.trans (Option.some.inj (hx.symm.trans hy)), hsees⟩

/-! ### Keys and characters -/

variable {kb : KeyboardBuffer} {n : ℕ} {u : List UInt8} {a : UInt8}

/-- What a pop delivers and leaves. -/
theorem KeyboardBuffer.Queue.pop_tail (h : kb.Queue n u) :
    kb.pop.1 = u.headD 0 ∧ ∃ n', kb.pop.2.Queue n' u.tail := by
  cases u with
  | nil =>
      rw [h.pop_nil]
      exact ⟨rfl, n, h⟩
  | cons a u =>
      obtain ⟨ha, hqueue⟩ := h.pop_cons
      exact ⟨ha, n + 1, hqueue⟩

/-- A key finds room in the ring. -/
theorem KeyboardBuffer.Queue.push_type (h : kb.Queue n k.unread)
    (hroom : k.unread.length < peachosKeyboardBufferSize) (a : UInt8) :
    (kb.push a).Queue n (k.type a).unread := by
  unfold Session.type
  split_ifs with ha
  · rw [ha, KeyboardBuffer.push_zero]
    exact h
  · exact h.push hroom ha

theorem Sees.getkey (h : Sees p t₀ st k) {r : UInt32 × System}
    (hr : st.isr80hCommand2Getkey = some r) : Answered p t₀ k .getkey r := by
  obtain ⟨n, hqueue⟩ := h.keyboard
  obtain ⟨hchar, n', hqueue'⟩ := hqueue.pop_tail
  unfold System.isr80hCommand2Getkey at hr
  rw [h.reads.pop] at hr
  obtain rfl := Option.some.inj hr
  refine Answered.of_eq rfl (by rw [hchar]) ⟨h.terminal, h.screen, h.reads.setProc _, n', ?_⟩
  dsimp only
  rw [Machine.setProc_self]
  exact hqueue'

theorem terminalText_append (v w : List UInt8) (t : Terminal) :
    terminalText (v ++ w) t = terminalText w (terminalText v t) := List.foldl_append

theorem Sees.terminalWritechar (h : Sees p t₀ st k) {a : UInt8}
    (hwrite : st.terminalWritechar a 15 = some st') :
    Sees p t₀ st' { k with output := k.output ++ [a] } := by
  obtain ⟨s, hs, rfl⟩ := Option.map_eq_some_iff.mp hwrite
  have hdisplays : Displays (st.terminal, st.mem).1 (st.terminal, st.mem).2 := h.screen
  refine ⟨?_, hdisplays.writecharAt hs, h.reads.congr ⟨rfl, rfl, rfl, fun _ => rfl⟩, h.keyboard⟩
  rw [terminalText_concat, ← h.terminal]
  exact (writecharAt_spec hs).1

/-- Saving the registers of the task changes no process and no memory. -/
theorem taskCurrentSaveState_frame {frame : InterruptFrame} {s s' : Machine}
    (h : taskCurrentSaveState frame s = some s') :
    s'.procs = s.procs ∧ s'.sched.kernel = s.sched.kernel := by
  unfold taskCurrentSaveState at h
  dsimp only at h
  split_ifs at h
  obtain rfl := Option.some.inj h
  exact ⟨rfl, rfl⟩

theorem Sees.taskCurrentSaveState (h : Sees p t₀ st k) {frame : InterruptFrame}
    (hsave : st.taskCurrentSaveState frame = some st') : Sees p t₀ st' k := by
  obtain ⟨hmachine, hst⟩ := System.taskCurrentSaveState_machine hsave
  obtain ⟨hprocs, hkernel⟩ := taskCurrentSaveState_frame hmachine
  refine h.congr (by rw [hst]) (fun x _ => ?_) (taskCurrentSaveState_sameCursors hmachine) ?_
  · unfold System.mem
    rw [hkernel]
  · rw [hprocs]

/-- An interrupt of the keyboard pushes the character of the key. -/
theorem interruptHandler_key {frame : InterruptFrame} {beyond scancode : UInt8} {s s' : Machine}
    (h : Reads s p)
    (hint : interruptHandler isrKeyboardInterrupt frame beyond scancode s = some s') :
    (s'.procs p).keyboard = (s.procs p).keyboard.push (keyCharacter beyond scancode) := by
  unfold interruptHandler at hint
  rw [if_pos rfl] at hint
  obtain ⟨saved, hsaved, rfl⟩ := Option.map_eq_some_iff.mp hint
  have hreads := h.congr (taskCurrentSaveState_sameCursors hsaved)
  rw [← (taskCurrentSaveState_frame hsaved).1]
  change ((classicKeyboardHandleInterrupt beyond scancode saved).procs p).keyboard = _
  unfold classicKeyboardHandleInterrupt keyCharacter
  dsimp only
  split_ifs with hreleased hchar
  · rw [KeyboardBuffer.push_zero]
  · change ((keyboardPush _ saved).procs p).keyboard = _
    rw [hreads.push, Machine.setProc_self]
  · rw [not_not.mp hchar, KeyboardBuffer.push_zero]
    rfl

theorem interruptHandler_kernel {interrupt : ℕ} {frame : InterruptFrame}
    {beyond scancode : UInt8} {s s' : Machine}
    (h : interruptHandler interrupt frame beyond scancode s = some s') :
    s'.sched.kernel = s.sched.kernel := by
  unfold interruptHandler at h
  split_ifs at h
  · obtain ⟨saved, hsaved, rfl⟩ := Option.map_eq_some_iff.mp h
    rw [← (taskCurrentSaveState_frame hsaved).2]
    change (classicKeyboardHandleInterrupt beyond scancode saved).sched.kernel = _
    unfold classicKeyboardHandleInterrupt keyboardPush
    dsimp only
    split_ifs <;> rfl
  · obtain rfl := Option.some.inj h
    rfl

theorem System.callback_terminal {frame : InterruptFrame} {beyond scancode : UInt8}
    {callback : Option InterruptCallback}
    (h : System.callback frame beyond scancode callback st = some st') :
    st'.terminal = st.terminal := by
  cases callback with
  | none =>
      obtain rfl := Option.some.inj h
      rfl
  | some callback =>
      obtain ⟨st₁, h₁, h⟩ := Option.bind_eq_some_iff.mp h
      have hst₁ : st₁.terminal = st.terminal := by
        rw [(System.taskCurrentSaveState_machine h₁).2]
      unfold System.classicKeyboardHandleInterrupt at h
      obtain ⟨st₂, h₂, h⟩ := Option.bind_eq_some_iff.mp h
      obtain ⟨_, _, rfl⟩ := System.kernelPage_repaged h₂
      dsimp only at h
      split_ifs at h
      · obtain rfl := Option.some.inj h
        exact hst₁
      · obtain ⟨_, _, rfl⟩ := System.taskPage_repaged h
        exact hst₁
      · obtain ⟨_, _, rfl⟩ := System.taskPage_repaged h
        exact hst₁

theorem System.interruptHandler_terminal {interrupt : ℕ} {frame : InterruptFrame}
    {beyond scancode : UInt8}
    (h : st.interruptHandler interrupt frame beyond scancode = some st') :
    st'.terminal = st.terminal := by
  unfold System.interruptHandler at h
  obtain ⟨st₁, h₁, h⟩ := Option.bind_eq_some_iff.mp h
  obtain ⟨st₂, h₂, h₃⟩ := Option.bind_eq_some_iff.mp h
  obtain ⟨_, _, rfl⟩ := System.kernelPage_repaged h₁
  obtain ⟨_, _, rfl⟩ := System.taskPage_repaged h₃
  have hterminal := System.callback_terminal h₂
  exact hterminal

/-- A key is typed. -/
theorem Sees.key (h : Sees p t₀ st k) (hreg : st.Registered)
    (hroom : k.unread.length < peachosKeyboardBufferSize) {frame : InterruptFrame}
    {beyond scancode : UInt8}
    (hint : st.interruptHandler isrKeyboardInterrupt frame beyond scancode = some st') :
    Sees p t₀ st' (k.type (keyCharacter beyond scancode)) := by
  have hmachine := System.interruptHandler_refines hreg hint
  have hterminal := System.interruptHandler_terminal hint
  have hmem : st'.mem = st.mem := congrArg Kernel.mem (interruptHandler_kernel hmachine)
  obtain ⟨n, hqueue⟩ := h.keyboard
  refine ⟨?_, ?_, h.reads.congr (interruptHandler_sameCursors hmachine), n, ?_⟩
  · rw [hterminal, h.terminal]
    unfold Session.type
    split_ifs <;> rfl
  · rw [hterminal, hmem]
    exact h.screen
  · rw [interruptHandler_key h.reads hmachine]
    exact hqueue.push_type hroom _

/-- Another interrupt. -/
theorem Sees.interrupt (h : Sees p t₀ st k) (hreg : st.Registered) {interrupt : ℕ}
    (hne : interrupt ≠ isrKeyboardInterrupt) {frame : InterruptFrame} {beyond scancode : UInt8}
    (hint : st.interruptHandler interrupt frame beyond scancode = some st') :
    Sees p t₀ st' k := by
  have hmachine := System.interruptHandler_refines hreg hint
  have hmem : st'.mem = st.mem := congrArg Kernel.mem (interruptHandler_kernel hmachine)
  refine h.congr (System.interruptHandler_terminal hint) (fun x _ => congrFun hmem x)
    (interruptHandler_sameCursors hmachine) ?_
  unfold interruptHandler at hmachine
  rw [if_neg hne] at hmachine
  rw [← Option.some.inj hmachine]
  rfl

/-- The screen is apart from the block table and from the heap. -/
theorem ScreenByte.apart {x : UInt32} (h : ScreenByte x) :
    ¬ InTable x ∧ x ≠ 0x6e00 ∧ x.toNat < 16777216 := by
  unfold ScreenByte at h
  refine ⟨by rw [inTable_iff]; omega, ?_, by omega⟩
  rintro rfl
  rw [show (0x6e00 : UInt32).toNat = 28160 from rfl] at h
  omega

/-- An allocation or a release leaves the screen and the ring alone. -/
theorem Sees.mapProcs (h : Sees p t₀ st k) {g : ProcState → ProcState}
    (hmem : ∀ x, ScreenByte x → (g st.procState).kernel.mem x = st.mem x) :
    Sees p t₀ { st with machine := st.machine.mapProcs g } k :=
  h.congr rfl (fun x hx => hmem x (h.screen.screenByte hx)) (mapProcs_sameCursors g st.machine) rfl

/-! ### Requests -/

namespace Confinement

variable {c : Confinement} {live : Layout UInt32} {buf esp v : UInt32} {text : List UInt8}
  {command : ℤ} {q : Request} {frame : InterruptFrame}

/-- A byte of the image or the stack of the kernel, or of the records. -/
def Untracked (c : Confinement) (x : UInt32) : Prop := KernelByte x ∨ c.records x

/-- The word number `i` on the stack of the task, which is none of the kernel's. -/
structure Item (c : Confinement) (m : Mem) (esp : UInt32) (i : ℕ) (w : UInt32) : Prop where
  load : X86.loadWord .supervisor (blockAddr c.task.directory) (off esp (4 * i)) m = some w
  tracked : ∀ j < 4, ∀ x, viewOf .supervisor c.map (off (off esp (4 * i)) j) = some x →
    ¬ c.Untracked x

/-- A place that a copy from the task does not use meanwhile, and that the kernel does not
change. -/
structure Settled (c : Confinement) (m : Mem) (x : UInt32) : Prop where
  table : ¬ InTable x
  block : ∀ b < 25600, EntryFree kernelHeap m b → ¬ InBlock b x
  space : ¬ c.task.InSpace x
  tracked : ¬ c.Untracked x

/-- The task has `text` at `v`: a string, or the first 1023 characters of a longer one. -/
structure StringAt (c : Confinement) (m : Mem) (v : UInt32) (text : List UInt8) : Prop where
  behind : TextBehind (viewOf .supervisor c.map) m v 1023 (fun x => ¬ c.Settled m x) text
  address : ∀ i ≤ text.length, ∀ b < 25600, EntryFree kernelHeap m b → ¬ InBlock b (off v i)

/-- The request that the number of a call makes, with the words at `esp` and the string behind
the first of them.  For a string some block must be free, and characters go to the video memory. -/
inductive Requests (c : Confinement) (m : Mem) (t : Terminal) (esp : UInt32) : ℤ → Request → Prop
  | sum {v1 v2 : UInt32} (h1 : c.Item m esp 0 v1) (h2 : c.Item m esp 1 v2) :
      Requests c m t esp 0 (.sum v1 v2)
  | print {v : UInt32} {text : List UInt8} (hv : c.Item m esp 0 v) (htext : c.StringAt m v text)
      (hfree : ∃ b < 25600, EntryFree kernelHeap m b) (hshown : ShownIn text t) :
      Requests c m t esp 1 (.print text)
  | getkey : Requests c m t esp 2 .getkey
  | putchar {v : UInt32} (hv : c.Item m esp 0 v) (hshown : ShownIn [v.toUInt8] t) :
      Requests c m t esp 3 (.putchar v.toUInt8)
  | malloc {size : UInt32} (hsize : c.Item m esp 0 size) (hserved : Served size m) :
      Requests c m t esp 4 .malloc
  | free : Requests c m t esp 5 .free
  | unknown {command : ℤ} (h : command < 0 ∨ 5 < command) : Requests c m t esp command .unknown

/-- A step of a task and its session.  A key is typed while there is room in the ring. -/
inductive Step (c : Confinement) : System × Session → System × Session → Prop
  | store {st : System} {k : Session} (v : UInt32) (a : UInt8) {m : Mem}
      (h : X86.storeByte .userWrite st.cr3 v a st.mem = some m) :
      Step c (st, k) (st.setMem m, k.store c.map v a)
  | call {st : System} {k : Session} {q : Request} {r : UInt32 × System} (command : ℤ)
      (frame : InterruptFrame) (buf : UInt32) (hbuf : StackBuffer buf)
      (hq : c.Requests st.mem st.terminal frame.esp command q)
      (h : st.isr80hHandler command frame buf = some r) : Step c (st, k) (r.2, (k.answer q).2)
  | key {st st' : System} {k : Session} (frame : InterruptFrame) (beyond scancode : UInt8)
      (hroom : k.unread.length < peachosKeyboardBufferSize)
      (h : st.interruptHandler isrKeyboardInterrupt frame beyond scancode = some st') :
      Step c (st, k) (st', k.type (keyCharacter beyond scancode))
  | interrupt {st st' : System} {k : Session} (interrupt : ℕ) (hstub : Stubbed interrupt)
      (frame : InterruptFrame) (beyond scancode : UInt8) (hne : interrupt ≠ isrKeyboardInterrupt)
      (h : st.interruptHandler interrupt frame beyond scancode = some st') : Step c (st, k) (st', k)
  | untracked {st : System} {k : Session} {m : Mem}
      (h : ∀ x, ¬ st.Untracked x → m x = st.mem x) : Step c (st, k) (st.setMem m, k)

/-! ### The commands -/

/-- An item that the stack has. -/
theorem Kept.item (h : c.Kept st live) (hcr3 : st.cr3 = blockAddr c.kernel.directory) {i : ℕ}
    {w : UInt32} (hw : c.Item st.mem st.task.registers.esp i w) :
    st.taskGetStackItem i = some (w, st.under c.kernel) :=
  h.hosts.taskGetStackItem hcr3 hw.load

theorem Kept.sum_answered (h : c.Kept st live) (hcr3 : st.cr3 = blockAddr c.kernel.directory)
    (hsees : Sees p t₀ st k) {v1 v2 : UInt32} (h1 : c.Item st.mem st.task.registers.esp 0 v1)
    (h2 : c.Item st.mem st.task.registers.esp 1 v2) {r : UInt32 × System}
    (hr : st.isr80hCommand0Sum = some r) : Answered p t₀ k (.sum v1 v2) r := by
  unfold System.isr80hCommand0Sum at hr
  simp only [h.item hcr3 h2, (h.under c.kernel).item rfl h1, Option.bind_eq_bind,
    Option.bind_some] at hr
  obtain rfl := Option.some.inj hr
  exact Answered.of_eq rfl rfl ((hsees.under _).under _)

theorem Kept.putchar_answered (h : c.Kept st live)
    (hcr3 : st.cr3 = blockAddr c.kernel.directory) (hsees : Sees p t₀ st k)
    (hv : c.Item st.mem st.task.registers.esp 0 v) {r : UInt32 × System}
    (hr : st.isr80hCommand3Putchar = some r) : Answered p t₀ k (.putchar v.toUInt8) r := by
  unfold System.isr80hCommand3Putchar at hr
  simp only [h.item hcr3 hv, Option.bind_eq_bind, Option.bind_some] at hr
  obtain ⟨st', hst', hr⟩ := Option.bind_eq_some_iff.mp hr
  obtain rfl := Option.some.inj hr
  exact Answered.of_eq rfl rfl ((hsees.under c.kernel).terminalWritechar hst')

theorem Kept.malloc_answered (h : c.Kept st live)
    (hcr3 : st.cr3 = blockAddr c.kernel.directory) (hsees : Sees p t₀ st k) {size : UInt32}
    (hsize : c.Item st.mem st.task.registers.esp 0 size) (hserved : Served size st.mem)
    {r : UInt32 × System} (hr : st.isr80hCommand4Malloc = some r) :
    Answered p t₀ k .malloc r := by
  unfold System.isr80hCommand4Malloc at hr
  simp only [h.item hcr3 hsize, Option.bind_eq_bind, Option.bind_some] at hr
  obtain rfl := Option.some.inj hr
  refine ⟨fun x hx => (nomatch hx), ?_⟩
  refine Sees.mapProcs (hsees.under c.kernel)
    (g := fun s => (processMalloc st.task.process size s).2) fun x hx => ?_
  obtain ⟨htable, -, hlow⟩ := hx.apart
  exact h.procs.malloc_frame st.task.process hserved htable fun b hb => not_inBlock_low hlow hb

theorem Kept.free_answered (h : c.Kept st live)
    (hcr3 : st.cr3 = blockAddr c.kernel.directory) (hsees : Sees p t₀ st k)
    {r : UInt32 × System} (hr : st.isr80hCommand5Free = some r) : Answered p t₀ k .free r := by
  obtain ⟨ptr, -, hptr⟩ := h.taskGetStackItem hcr3 0
  unfold System.isr80hCommand5Free at hr
  simp only [hptr, Option.bind_eq_bind, Option.bind_some] at hr
  obtain rfl := Option.some.inj hr
  refine Answered.of_eq rfl rfl ?_
  refine Sees.mapProcs (hsees.under c.kernel) (g := processFree st.task.process ptr) fun x hx => ?_
  obtain ⟨htable, hnull, -⟩ := hx.apart
  exact h.procs.free_frame st.task.process ptr htable (Or.inl hnull)

/-! ### A printed string -/

theorem Settled.not_borrowed {b : ℕ} {x : UInt32} (h : c.Settled m x) (hb : b < 25600)
    (hfree : EntryFree kernelHeap m b) : ¬ Borrowed c.task b x := by
  rintro (rfl | hx | hx)
  · exact h.table (inRange_off hb)
  · exact h.block b hb hfree hx
  · exact h.space (inTables_of_slot hx).inSpace

/-- The string of the task comes to the buffer of the kernel. -/
theorem Kept.copyString (h : c.Kept st live) (hbuf : StackBuffer buf)
    (hcr3 : st.cr3 = blockAddr c.kernel.directory) (htext : c.StringAt st.mem v text)
    (hfree : ∃ b < 25600, EntryFree kernelHeap st.mem b) :
    ∃ k, st.copyStringFromTask v buf 1024 = some (0,
        st.setPaged ⟨k, blockAddr c.kernel.directory, blockAddr c.kernel.directory⟩) ∧
      TextAt k.mem buf text ∧
      ∀ x, ¬ InRange buf 1024 x → x.toNat < 16777216 → k.mem x = st.mem x := by
  obtain ⟨b, hb, hfree⟩ := hfree
  have hone : blocksFor (UInt32.ofInt 1024) = 1 := by decide
  have hfit : FreeRun kernelHeap st.mem (blocksFor (UInt32.ofInt 1024)) := by
    rw [hone]
    refine ⟨b, by rw [kernelHeap_total]; omega, fun j hj => ?_⟩
    obtain rfl : j = 0 := by omega
    exact hfree
  obtain ⟨e, k', hk, -, hlen, hin, -⟩ := kzalloc_spec h.heap (by decide) (by decide) hfit
  have he : e.start < 25600 := by omega
  obtain ⟨k₁, hk₁, htake, -⟩ := kzalloc_tmp (k := st.paged.kernel) (by decide)
    (show (1024 : ℤ) < 4096 by decide) he (congrArg Prod.fst hk)
  have hborrow : Borrows st.paged c.kernel c.task c.map e.start k₁ :=
    ⟨h.hosts.spaces.toTwoSpaces, h.spaces_held, hcr3, htake⟩
  have hentry : EntryFree kernelHeap st.mem e.start := htake.free _ rfl
  have hlen := htext.behind.length_le
  obtain ⟨k₂, hcopy, -, hchars, hkeep⟩ := hborrow.copyStringFromTask_text h.hosts.spaces h.heap
    (show (1024 : ℤ) < 4096 by decide) hk₁
    (htext.behind.mono fun x hx hset => hset.not_borrowed he hentry hx)
    (fun i hi => htext.address i hi _ he hentry) fun x hx =>
      apartFrom_low (hbuf.range (by omega) hx).1 (hbuf.range (by omega) hx).2.1 he
  refine ⟨k₂, ?_, ⟨fun i hi => ?_, ?_, htext.behind.zero_notMem⟩, fun x hx hlow => ?_⟩
  · unfold System.copyStringFromTask
    rw [h.hosts.kernelChunk, h.hosts.pageDirectory, hcopy]
    rfl
  · rw [hchars i hi.le, List.getD_eq_getElem _ _ hi]
  · rw [hchars _ le_rfl, List.getD_eq_default _ _ le_rfl]
  · refine hkeep x (fun hr => hx ?_) (not_inBlock_low hlow he)
    exact Nat.lt_of_lt_of_le hr (by omega)

/-- The buffer is not in video memory. -/
theorem printAt_buffer (hbuf : StackBuffer buf) (htext : TextAt m buf text)
    (hlen : text.length < 1024) (t : Terminal) : printAt buf (t, m) = writeText text (t, m) := by
  obtain ⟨hlow, hend⟩ := hbuf
  refine printAt_eq htext (by omega) (fun j hj hscreen => ?_) t
  unfold ScreenByte at hscreen
  rw [toNat_off_of_lt (by omega)] at hscreen
  omega

theorem Kept.print_answered (h : c.Kept st live) (hbuf : StackBuffer buf)
    (hcr3 : st.cr3 = blockAddr c.kernel.directory) (hsees : Sees p t₀ st k)
    (hv : c.Item st.mem st.task.registers.esp 0 v) (htext : c.StringAt st.mem v text)
    (hfree : ∃ b < 25600, EntryFree kernelHeap st.mem b) {r : UInt32 × System}
    (hr : st.isr80hCommand1Print buf = some r) : Answered p t₀ k (.print text) r := by
  obtain ⟨k₂, hcopy, htextAt, hsame⟩ := (h.under c.kernel).copyString hbuf rfl htext hfree
  have hlen := htext.behind.length_le
  have hscreen : Displays st.terminal k₂.mem := by
    refine hsees.screen.congr fun x hx => hsame x (fun hr => ?_) ?_
    · have hbyte := (hbuf.range le_rfl hr).2.2
      have hvideo := hsees.screen.screenByte hx
      unfold KernelByte at hbyte
      unfold ScreenByte at hvideo
      omega
    · exact (hsees.screen.screenByte hx).apart.2.2
  unfold System.isr80hCommand1Print System.print at hr
  simp only [h.item hcr3 hv, hcopy, Option.bind_eq_bind, Option.bind_some] at hr
  obtain ⟨st', hst', hr⟩ := Option.bind_eq_some_iff.mp hr
  obtain ⟨s, hs, rfl⟩ := Option.map_eq_some_iff.mp hst'
  have hwrite : writeText text (st.terminal, k₂.mem) = some s := by
    rw [← printAt_buffer hbuf htextAt (by omega)]
    exact hs
  have hdisplays : Displays (st.terminal, k₂.mem).1 (st.terminal, k₂.mem).2 := hscreen
  obtain rfl := Option.some.inj hr
  refine Answered.of_eq rfl rfl ⟨?_, hdisplays.writeText hwrite,
    hsees.reads.congr ⟨rfl, rfl, rfl, fun _ => rfl⟩, hsees.keyboard⟩
  change s.1 = terminalText (k.output ++ text) t₀
  rw [terminalText_append, ← hsees.terminal]
  exact writeText_terminal hwrite

/-! ### Calls -/

/-- Every command is answered. -/
theorem Kept.command_answered (h : c.Kept st live) (hbuf : StackBuffer buf)
    (hcr3 : st.cr3 = blockAddr c.kernel.directory) (hsees : Sees p t₀ st k)
    (hq : c.Requests st.mem st.terminal st.task.registers.esp command q)
    {r : UInt32 × System} (hr : st.isr80hHandleCommand command buf = some r) :
    Answered p t₀ k q r := by
  unfold System.isr80hHandleCommand at hr
  rw [h.registered.commands] at hr
  cases hq with
  | sum h1 h2 => exact h.sum_answered hcr3 hsees h1 h2 hr
  | print hv htext hfree _ => exact h.print_answered hbuf hcr3 hsees hv htext hfree hr
  | getkey => exact hsees.getkey hr
  | putchar hv _ => exact h.putchar_answered hcr3 hsees hv hr
  | malloc hsize hserved => exact h.malloc_answered hcr3 hsees hsize hserved hr
  | free => exact h.free_answered hcr3 hsees hr
  | unknown hcommand =>
      have hzero : r = (0, st) := by
        split_ifs at hr with hrange
        · exact (Option.some.inj hr).symm
        · obtain ⟨n, rfl⟩ : ∃ n : ℕ, command = n := ⟨command.toNat, by omega⟩
          rw [Int.toNat_natCast] at hr
          rcases n with _ | _ | _ | _ | _ | _ | n
          case succ.succ.succ.succ.succ.succ => exact (Option.some.inj hr).symm
          all_goals omega
      subst hzero
      exact Answered.of_eq rfl rfl hsees

/-- A request for memory is served. -/
theorem Requests.served {t : Terminal} (hq : c.Requests m t esp command q) :
    ServedCall (blockAddr c.task.directory) command esp m := by
  intro h4 size hsize
  cases hq with
  | malloc hsize' hserved =>
      have hload := hsize'.load
      rw [Nat.mul_zero, off_zero] at hload
      obtain rfl := Option.some.inj (hload.symm.trans hsize)
      exact hserved
  | unknown h => omega
  | _ => exact absurd h4 (by decide)

/-- The characters of a request go to the video memory. -/
theorem Kept.shownCommand (h : c.Kept st live) (hbuf : StackBuffer buf)
    (hcr3 : st.cr3 = blockAddr c.kernel.directory)
    (hq : c.Requests st.mem st.terminal st.task.registers.esp command q) :
    ShownCommand command buf st := by
  cases hq with
  | print hv htext hfree hshown =>
      refine ⟨fun _ v st₁ r hitem hcopy text' htext' => ?_, fun h3 => absurd h3 (by decide)⟩
      obtain ⟨rfl, rfl⟩ := Prod.mk.inj (Option.some.inj ((h.item hcr3 hv).symm.trans hitem))
      obtain ⟨k₂, hcopied, htextAt, -⟩ := (h.under c.kernel).copyString hbuf rfl htext hfree
      obtain rfl := Option.some.inj (hcopied.symm.trans hcopy)
      rwa [TextAt.unique htextAt htext']
  | putchar hv hshown =>
      refine ⟨fun h1 => absurd h1 (by decide), fun _ a st₁ hitem => ?_⟩
      obtain ⟨rfl, -⟩ := Prod.mk.inj (Option.some.inj ((h.item hcr3 hv).symm.trans hitem))
      exact hshown
  | unknown hcommand => exact ⟨fun h1 => by omega, fun h3 => by omega⟩
  | _ => exact ⟨fun h1 => absurd h1 (by decide), fun h3 => absurd h3 (by decide)⟩

/-- A system call of the task is answered. -/
theorem Kept.answered (h : c.Kept st live) (hcr3 : st.cr3 = blockAddr c.task.directory)
    (hsees : Sees p t₀ st k) (hbuf : StackBuffer buf)
    (hq : c.Requests st.mem st.terminal frame.esp command q) :
    ∃ r, st.isr80hHandler command frame buf = some r ∧ c.Returns st r.2 ∧
      Answered p t₀ k q r := by
  have hserved : ServedCall st.cr3 command frame.esp st.mem := hcr3 ▸ hq.served
  have henter := h.hosts.kernelPage (Or.inr hcr3)
  obtain ⟨st₂, hsave, h₂, hcr3₂, hmem₂, hregs⟩ := (h.under c.kernel).taskCurrentSaveState frame
  have hsees₂ := (hsees.under c.kernel).taskCurrentSaveState hsave
  have hterminal : st₂.terminal = st.terminal := by
    rw [(System.taskCurrentSaveState_machine hsave).2]
    rfl
  have hq₂ : c.Requests st₂.mem st₂.terminal st₂.task.registers.esp command q := by
    rw [hmem₂, hterminal, hregs]
    exact hq
  have hshown : ShownCall command frame buf st := by
    intro s₁ s₂ h₁ hs₂
    obtain rfl := Option.some.inj (henter.symm.trans h₁)
    obtain rfl := Option.some.inj (hsave.symm.trans hs₂)
    exact h₂.shownCommand hbuf hcr3₂ hq₂
  obtain ⟨r, hr, hreturns⟩ := h.isr80hHandler_isSome hcr3 hbuf hserved hshown
  refine ⟨r, hr, hreturns, ?_⟩
  unfold System.isr80hHandler at hr
  simp only [henter, hsave, Option.bind_eq_bind, Option.bind_some] at hr
  obtain ⟨r₃, h₃, hr⟩ := Option.bind_eq_some_iff.mp hr
  obtain ⟨st₄, h₄, hr⟩ := Option.bind_eq_some_iff.mp hr
  obtain rfl := Option.some.inj hr
  obtain ⟨cr3, directory, rfl⟩ := System.taskPage_repaged h₄
  obtain ⟨hresult, hsees₃⟩ := h₂.command_answered hbuf hcr3₂ hsees₂ hq₂ h₃
  exact ⟨hresult, hsees₃.terminal, hsees₃.screen, hsees₃.reads, hsees₃.keyboard⟩

/-! ### Runs -/

theorem Keeps.same (h : c.Keeps st.mem k) (hsame : SameOn (InBlocks c.blocks) st.mem m)
    {k' : Session} (hk : k'.memory = k.memory) : c.Keeps m k' := by
  intro x hx
  rw [hk, ← h x hx]
  exact hsame x (InBlocks.mono hx Set.subset_union_right)

/-- A store of the task goes to its memory. -/
theorem Kept.store_sees (h : c.Kept st live) (hcr3 : st.cr3 = blockAddr c.task.directory)
    (hsees : Sees p t₀ st k) (hkeeps : c.Keeps st.mem k) {a : UInt8}
    (hstore : X86.storeByte .userWrite st.cr3 v a st.mem = some m) :
    Sees p t₀ (st.setMem m) (k.store c.map v a) ∧ c.Keeps m (k.store c.map v a) := by
  rw [hcr3] at hstore
  obtain ⟨x, hx, rfl⟩ := (h.hosts.spaces.task.shows h.hosts.spaces.taskOpen
    .userWrite).of_storeByte hstore
  obtain ⟨b, hb, hxb⟩ := c.userWrite v x hx
  rw [k.store_of_some a hx]
  constructor
  · have hsame : ∀ y, OnScreen st.terminal y → st.mem.write x a y = st.mem y := by
      refine fun y hy => Mem.write_ne _ _ ?_
      rintro rfl
      exact not_inBlock_low (hsees.screen.screenByte hy).apart.2.2 (h.lt (Or.inr hb)) hxb
    exact ⟨hsees.terminal, hsees.screen.congr hsame,
      hsees.reads.congr ⟨rfl, rfl, rfl, fun _ => rfl⟩, hsees.keyboard⟩
  · intro y hy
    change st.mem.write x a y = k.memory.write x a y
    rcases eq_or_ne y x with rfl | hne
    · rw [Mem.write_same, Mem.write_same]
    · rw [Mem.write_ne _ _ hne, Mem.write_ne _ _ hne]
      exact hkeeps y hy

/-- What is not followed is not on the screen. -/
theorem Kept.untracked_sees (h : c.Kept st live) (hsees : Sees p t₀ st k)
    (hsame : ∀ x, ¬ st.Untracked x → m x = st.mem x) : Sees p t₀ (st.setMem m) k := by
  refine ⟨hsees.terminal, hsees.screen.congr fun x hx => hsame x ?_,
    hsees.reads.congr ⟨rfl, rfl, rfl, fun _ => rfl⟩, hsees.keyboard⟩
  have hvideo := hsees.screen.screenByte hx
  rintro (hbyte | hrecord)
  · unfold KernelByte at hbyte
    unfold ScreenByte at hvideo
    omega
  · obtain ⟨b, hb, hxb⟩ := c.records_held x (h.records x hrecord)
    exact not_inBlock_low hvideo.apart.2.2 (h.lt (Or.inl hb)) hxb

/-- No request changes the memory of the program. -/
theorem answer_memory (k : Session) (q : Request) : (k.answer q).2.memory = k.memory := by
  cases q <;> rfl

theorem type_memory (k : Session) (a : UInt8) : (k.type a).memory = k.memory := by
  unfold Session.type
  split_ifs <;> rfl

/-- The state shows the session, and the task is confined. -/
structure Showing (c : Confinement) (p : UInt32) (t₀ : Terminal) (st : System) (k : Session) :
    Prop where
  kept : ∃ live, c.Kept st live
  cr3 : st.cr3 = blockAddr c.task.directory
  sees : Sees p t₀ st k
  keeps : c.Keeps st.mem k

/-- One step of the task is one step of the session. -/
theorem Showing.step {s s' : System × Session} (h : c.Showing p t₀ s.1 s.2) (hstep : c.Step s s') :
    c.Showing p t₀ s'.1 s'.2 := by
  obtain ⟨⟨live, hkept⟩, hcr3, hsees, hkeeps⟩ := h
  cases hstep with
  | store v a hstore =>
      obtain ⟨hsees', hkeeps'⟩ := hkept.store_sees hcr3 hsees hkeeps hstore
      exact ⟨⟨live, (hkept.store hcr3 hstore).1⟩, hcr3, hsees', hkeeps'⟩
  | call command frame buf hbuf hq hcall =>
      obtain ⟨r, hr, hreturns, hanswered⟩ := hkept.answered hcr3 hsees hbuf hq
      obtain rfl := Option.some.inj (hr.symm.trans hcall)
      exact ⟨hreturns.kept, hreturns.cr3, hanswered.sees,
        hkeeps.same hreturns.same (answer_memory _ _)⟩
  | key frame beyond scancode hroom hint =>
      obtain ⟨st', hst', hreturns⟩ := hkept.interruptHandler hcr3 isrKeyboardInterrupt frame beyond
        scancode
      obtain rfl := Option.some.inj (hst'.symm.trans hint)
      exact ⟨hreturns.kept, hreturns.cr3, hsees.key hkept.registered hroom hint,
        hkeeps.same hreturns.same (type_memory _ _)⟩
  | interrupt interrupt _ frame beyond scancode hne hint =>
      obtain ⟨st', hst', hreturns⟩ := hkept.interruptHandler hcr3 interrupt frame beyond scancode
      obtain rfl := Option.some.inj (hst'.symm.trans hint)
      exact ⟨hreturns.kept, hreturns.cr3, hsees.interrupt hkept.registered hne hint,
        hkeeps.same hreturns.same rfl⟩
  | untracked hsame =>
      obtain ⟨hkept', -, himage⟩ := hkept.untracked hsame
      refine ⟨⟨live, hkept'⟩, hcr3, hkept.untracked_sees hsees hsame, fun x hx => ?_⟩
      exact (himage x hx).trans (hkeeps x hx)

theorem Showing.run {s s' : System × Session} (h : c.Showing p t₀ s.1 s.2)
    (hrun : Relation.ReflTransGen c.Step s s') : c.Showing p t₀ s'.1 s'.2 := by
  induction hrun with
  | refl => exact h
  | tail _ hstep ih => exact ih.step hstep

end Confinement

end PeachOS
