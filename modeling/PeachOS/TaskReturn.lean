import PeachOS.X86

/-! # Saving and restoring the registers of a task

`task_save_state` of `task.c` and the routines of `task.asm`, at the level of bytes:
`struct interrupt_frame` and `struct registers` have the same fields in two different
orders, and the assembly addresses them by offsets. -/

namespace PeachOS

open ByteMemory X86

/-! ### The code -/

/-- The fields that a task saves. -/
inductive SavedField
  | edi | esi | ebp | ebx | edx | ecx | eax | ip | cs | flags | esp | ss
  deriving DecidableEq

/-- The position in `struct registers`. -/
def SavedField.registersIndex : SavedField → ℕ
  | edi => 0 | esi => 1 | ebp => 2 | ebx => 3 | edx => 4 | ecx => 5 | eax => 6
  | ip => 7 | cs => 8 | flags => 9 | esp => 10 | ss => 11

/-- The position in `struct interrupt_frame`, whose fourth word is `reserved`. -/
def SavedField.frameIndex : SavedField → ℕ
  | edi => 0 | esi => 1 | ebp => 2 | ebx => 4 | edx => 5 | ecx => 6 | eax => 7
  | ip => 8 | cs => 9 | flags => 10 | esp => 11 | ss => 12

/-- A field of the `struct registers` at `regs`. -/
def registersField (m : Mem) (regs : UInt32) (f : SavedField) : UInt32 :=
  m.read32 (off regs (4 * f.registersIndex))

/-- A field of the `struct interrupt_frame` at `frame`. -/
def frameField (m : Mem) (frame : UInt32) (f : SavedField) : UInt32 :=
  m.read32 (off frame (4 * f.frameIndex))

/-- `&task->registers`: the field behind `page_directory`. -/
def taskRegisters (task : UInt32) : UInt32 := off task 4

/-- One assignment of `task_save_state`. -/
def saveField (task frame : UInt32) (m : Mem) (f : SavedField) : Mem :=
  m.write32 (off (taskRegisters task) (4 * f.registersIndex)) (frameField m frame f)

/-- `task_save_state`, in the order of its assignments. -/
def taskSaveState (task frame : UInt32) (m : Mem) : Mem :=
  [SavedField.ip, .cs, .flags, .esp, .ss, .eax, .ebp, .ebx, .ecx, .edi, .edx, .esi].foldl
    (saveField task frame) m

/-- `task_return` up to its call. -/
def taskReturnOps : List Op :=
  [.mov .ebp .esp,
   .load .ebx .ebp 4,
   .pushMem .ebx 44,
   .pushMem .ebx 40,
   .pushf,
   .pop .eax,
   .or .eax 0x200,
   .push .eax,
   .pushMem .ebx 32,
   .pushMem .ebx 28,
   .load16 .eax .ebx 44,
   .movSeg .ds .eax,
   .movSeg .es .eax,
   .movSeg .fs .eax,
   .movSeg .gs .eax,
   .pushMem .ebp 4]

/-- `task_return`, with the address of `restore_general_purpose_registers`. -/
def taskReturn (restore : UInt32) : List Instr :=
  taskReturnOps.map .op ++ [.call restore, .op (.add .esp 4), .iretd]

/-- The loads of `restore_general_purpose_registers`. -/
def restoreLoads : List Op :=
  [.mov .ebp .esp,
   .load .ebx .ebp 8,
   .load .edi .ebx 0,
   .load .esi .ebx 4,
   .load .ebp .ebx 8,
   .load .edx .ebx 16,
   .load .ecx .ebx 20,
   .load .eax .ebx 24,
   .load .ebx .ebx 12]

/-- `restore_general_purpose_registers`. -/
def restoreGeneralPurposeRegisters : List Instr :=
  (Op.push .ebp :: (restoreLoads ++ [Op.pop .ebp])).map .op ++ [.ret]

/-! ### Saving -/

theorem registersIndex_lt (f : SavedField) : f.registersIndex < 12 := by cases f <;> decide

theorem frameIndex_lt (f : SavedField) : f.frameIndex < 13 := by cases f <;> decide

theorem registersIndex_inj {f g : SavedField} (h : f.registersIndex = g.registersIndex) :
    f = g := by
  revert h
  cases f <;> cases g <;> decide

/-- The registers of the task and the frame are apart. -/
def FrameApart (task frame : UInt32) : Prop :=
  ∀ x, InRange frame 52 x → ¬ InRange (taskRegisters task) 48 x

theorem inRange_registersField {regs x : UInt32} {f : SavedField}
    (hx : InRange (off regs (4 * f.registersIndex)) 4 x) : InRange regs 48 x :=
  inRange_word (n := 12) (registersIndex_lt f) hx

theorem inRange_frameField {frame x : UInt32} {f : SavedField}
    (hx : InRange (off frame (4 * f.frameIndex)) 4 x) : InRange frame 52 x :=
  inRange_word (n := 13) (frameIndex_lt f) hx

/-- What a series of assignments leaves behind. -/
theorem foldl_saveField {task frame : UInt32} (hapart : FrameApart task frame) :
    ∀ (fs : List SavedField) (m : Mem),
      (∀ g, frameField (fs.foldl (saveField task frame) m) frame g = frameField m frame g) ∧
        ∀ g, registersField (fs.foldl (saveField task frame) m) (taskRegisters task) g =
          if g ∈ fs then frameField m frame g else registersField m (taskRegisters task) g
  | [], _ => ⟨fun _ => rfl, fun _ => rfl⟩
  | f :: fs, m => by
      obtain ⟨ihf, ihr⟩ := foldl_saveField hapart fs (saveField task frame m f)
      have hframe : ∀ g, frameField (saveField task frame m f) frame g = frameField m frame g :=
        fun g => Mem.read32_congr fun x hx => Mem.write32_apply_of_not_inRange _ _ fun hx' =>
          hapart x (inRange_frameField hx) (inRange_registersField hx')
      refine ⟨fun g => (ihf g).trans (hframe g), fun g => ?_⟩
      rw [List.foldl_cons, ihr g, hframe g]
      by_cases hgf : g = f
      · subst hgf
        have hself : registersField (saveField task frame m g) (taskRegisters task) g =
            frameField m frame g := Mem.read32_write32 _ _ _
        rw [hself, ite_self, if_pos List.mem_cons_self]
      · have hother : registersField (saveField task frame m f) (taskRegisters task) g =
            registersField m (taskRegisters task) g :=
          Mem.read32_congr fun x hx => Mem.write32_apply_of_not_inRange _ _
            (not_inRange_word (by have := registersIndex_lt g; omega)
              (by have := registersIndex_lt f; omega) (fun e => hgf (registersIndex_inj e)) hx)
        rw [hother]
        simp only [List.mem_cons, hgf, false_or]

/-- `task_save_state` copies every field. -/
theorem taskSaveState_spec {task frame : UInt32} (hapart : FrameApart task frame) (m : Mem)
    (f : SavedField) :
    registersField (taskSaveState task frame m) (taskRegisters task) f = frameField m frame f := by
  unfold taskSaveState
  rw [(foldl_saveField hapart _ m).2 f, if_pos]
  cases f <;> decide

/-! ### Restoring -/

/-- `task_return` is entered with its argument `regs` above the return address; the 32 bytes
below the stack pointer, from `b` on, are free and do not meet the registers. -/
structure Entered (b regs : UInt32) (c : Cpu) : Prop where
  esp : c.reg .esp = off b 32
  arg : c.mem.read32 (off b 36) = regs
  apart : ∀ x, InRange regs 48 x → ¬ InRange b 32 x

/-- Inside `task_return`: the words pushed so far and the two base registers. -/
structure Returning (b regs : UInt32) (c₀ c : Cpu) (l : List UInt32) : Prop where
  stack : Stack b 8 c₀.mem c l
  ebp : c.reg .ebp = off b 32
  ebx : c.reg .ebx = regs
  cs : c.seg .cs = c₀.seg .cs

variable {b regs v : UInt32} {c₀ c : Cpu} {l : List UInt32}

/-- The fields of the registers are not disturbed by the stack. -/
theorem Stack.registersField {l : List UInt32} {n : ℕ} {m : Mem} (h : Stack b n m c l)
    (hn : 4 * n = 32) (hapart : ∀ x, InRange regs 48 x → ¬ InRange b 32 x) (f : SavedField) :
    PeachOS.registersField c.mem regs f = PeachOS.registersField m regs f :=
  h.read32 fun x hx => hn ▸ hapart x (inRange_registersField hx)

theorem Returning.push (h : Returning b regs c₀ c l) (hroom : l.length < 8) (v : UInt32) :
    Returning b regs c₀ (c.push v) (v :: l) where
  stack := h.stack.push hroom v
  ebp := h.ebp
  ebx := h.ebx
  cs := h.cs

/-- `push dword [ebx+disp]`. -/
theorem Returning.pushField (h : Returning b regs c₀ c l) (he : Entered b regs c₀)
    (hroom : l.length < 8) (f : SavedField) {disp : ℕ} (hdisp : disp = 4 * f.registersIndex) :
    Returning b regs c₀ (Op.exec c (.pushMem .ebx disp)) (registersField c₀.mem regs f :: l) := by
  have hword : c.mem.read32 (off (c.reg .ebx) disp) = registersField c₀.mem regs f := by
    rw [h.ebx, hdisp]
    exact Stack.registersField h.stack rfl he.apart f
  rw [← hword]
  exact h.push hroom _

/-- `push dword [ebp+4]`. -/
theorem Returning.pushArg (h : Returning b regs c₀ c l) (he : Entered b regs c₀)
    (hroom : l.length < 8) : Returning b regs c₀ (Op.exec c (.pushMem .ebp 4)) (regs :: l) := by
  have hword : c.mem.read32 (off (c.reg .ebp) 4) = regs := by
    rw [h.ebp, off_off, ← he.arg]
    exact h.stack.read32 fun x hx => not_inRange_above (n := 8) (j := 9) (by omega) (by omega) hx
  have hexec : Op.exec c (.pushMem .ebp 4) = c.push regs := congrArg c.push hword
  rw [hexec]
  exact h.push hroom regs

/-- `pop eax`, `or eax, 0x200`, `push eax`. -/
theorem Returning.forceInterrupts (h : Returning b regs c₀ c (v :: l)) (hroom : l.length < 8) :
    Returning b regs c₀
      (Op.exec (Op.exec (Op.exec c (.pop .eax)) (.or .eax 0x200)) (.push .eax))
      ((v ||| 0x200) :: l) := by
  have hpop : Returning b regs c₀ (Op.exec (Op.exec c (.pop .eax)) (.or .eax 0x200)) l :=
    ⟨h.stack.drop.congr rfl rfl, h.ebp, h.ebx, h.cs⟩
  have heax : (Op.exec (Op.exec c (.pop .eax)) (.or .eax 0x200)).reg .eax = v ||| 0x200 :=
    congrArg (· ||| 0x200) h.stack.top
  have hexec : Op.exec (Op.exec (Op.exec c (.pop .eax)) (.or .eax 0x200)) (.push .eax) =
      (Op.exec (Op.exec c (.pop .eax)) (.or .eax 0x200)).push (v ||| 0x200) :=
    congrArg (Cpu.push _) heax
  rw [hexec]
  exact hpop.push hroom (v ||| 0x200)

/-- `mov ax, [ebx+disp]`. -/
theorem Returning.load16 (h : Returning b regs c₀ c l) (disp : ℕ) :
    Returning b regs c₀ (Op.exec c (.load16 .eax .ebx disp)) l :=
  ⟨h.stack.congr rfl rfl, h.ebp, h.ebx, h.cs⟩

theorem Returning.movSeg (h : Returning b regs c₀ c l) (g : Seg) (hg : Seg.cs ≠ g) :
    Returning b regs c₀ (Op.exec c (.movSeg g .eax)) l :=
  ⟨h.stack.congr rfl rfl, h.ebp, h.ebx, (Function.update_of_ne hg _ _).trans h.cs⟩

/-- The words that `task_return` has pushed when it calls. -/
def returnWords (regs flags : UInt32) (m : Mem) : List UInt32 :=
  [regs, registersField m regs .ip, registersField m regs .cs, flags &&& 0x00fcffff ||| 0x200,
    registersField m regs .esp, registersField m regs .ss]

/-- `task_return` up to its call. -/
theorem taskReturnOps_spec (he : Entered b regs c) :
    Returning b regs c (execAll taskReturnOps c) (returnWords regs c.eflags c.mem) := by
  have hempty : Stack b 8 c.mem c [] := Stack.empty (by decide) he.esp
  have hstart : Returning b regs c (execAll [.mov .ebp .esp, .load .ebx .ebp 4] c) [] := by
    refine ⟨hempty.congr rfl rfl, he.esp, ?_, rfl⟩
    change c.mem.read32 (off (c.reg .esp) 4) = regs
    rw [he.esp, off_off]
    exact he.arg
  have hss := hstart.pushField he (by simp) .ss rfl
  have hesp := hss.pushField he (by simp) .esp rfl
  have hflags := (hesp.push (by simp) (c.eflags &&& 0x00fcffff)).forceInterrupts (by simp)
  have hcs := hflags.pushField he (by simp) .cs rfl
  have hip := hcs.pushField he (by simp) .ip rfl
  have hgs := (((((hip.load16 44).movSeg .ds (by decide)).movSeg .es (by decide)).movSeg .fs
    (by decide)).movSeg .gs (by decide))
  exact hgs.pushArg he (by simp)

/-- The general registers that `restore_general_purpose_registers` leaves behind: the saved
ones, but for `ebp`, which its last `pop` takes from the stack again. -/
structure Reloaded (m : Mem) (regs ebp : UInt32) (c : Cpu) : Prop where
  edi : c.reg .edi = registersField m regs .edi
  esi : c.reg .esi = registersField m regs .esi
  ebp : c.reg .ebp = ebp
  ebx : c.reg .ebx = registersField m regs .ebx
  edx : c.reg .edx = registersField m regs .edx
  ecx : c.reg .ecx = registersField m regs .ecx
  eax : c.reg .eax = registersField m regs .eax

theorem Reloaded.congr {m : Mem} {ebp : UInt32} {c' : Cpu} (h : Reloaded m regs ebp c)
    (hreg : ∀ r, r ≠ .esp → c'.reg r = c.reg r) : Reloaded m regs ebp c' where
  edi := (hreg .edi (by decide)).trans h.edi
  esi := (hreg .esi (by decide)).trans h.esi
  ebp := (hreg .ebp (by decide)).trans h.ebp
  ebx := (hreg .ebx (by decide)).trans h.ebx
  edx := (hreg .edx (by decide)).trans h.edx
  ecx := (hreg .ecx (by decide)).trans h.ecx
  eax := (hreg .eax (by decide)).trans h.eax

theorem restoreLoads_spec {m : Mem} (hregs : c.mem.read32 (off (c.reg .esp) 8) = regs)
    (hfield : ∀ f, registersField c.mem regs f = registersField m regs f) (ebp : UInt32) :
    Reloaded m regs ebp ((execAll restoreLoads c).setReg .ebp ebp) ∧
      (execAll restoreLoads c).reg .esp = c.reg .esp ∧ (execAll restoreLoads c).mem = c.mem ∧
      (execAll restoreLoads c).seg = c.seg := by
  have hload : ∀ (f : SavedField) (disp : ℕ), disp = 4 * f.registersIndex →
      c.mem.read32 (off regs disp) = registersField m regs f := by
    rintro f _ rfl
    exact hfield f
  refine ⟨⟨?_, ?_, ?_, ?_, ?_, ?_, ?_⟩, ?_, ?_, ?_⟩
  all_goals
    simp [-off_zero, restoreLoads, execAll, Op.exec, hregs, hload .edi 0 rfl, hload .esi 4 rfl,
      hload .ebx 12 rfl, hload .edx 16 rfl, hload .ecx 20 rfl, hload .eax 24 rfl]

/-- `restore_general_purpose_registers` up to its `ret`. -/
theorem restore_spec {m : Mem} {ret : UInt32} (h : Stack b 8 m c (ret :: regs :: l))
    (hlen : l.length = 5) (hapart : ∀ x, InRange regs 48 x → ¬ InRange b 32 x) :
    ∃ c', execAll (Op.push .ebp :: (restoreLoads ++ [Op.pop .ebp])) c = c' ∧
      Stack b 8 m c' (ret :: regs :: l) ∧ Reloaded m regs (c.reg .ebp) c' ∧ c'.seg = c.seg := by
  have hpush := h.push (by simp [hlen]) (c.reg .ebp)
  obtain ⟨c₁, hc₁⟩ : ∃ c₁, c₁ = c.push (c.reg .ebp) := ⟨_, rfl⟩
  rw [← hc₁] at hpush
  have hregs : c₁.mem.read32 (off (c₁.reg .esp) 8) = regs := by
    have hword := hpush.words 2 (by simp)
    have hesp := hpush.esp
    simp only [List.length_cons, hlen] at hword hesp
    rw [hesp, off_off]
    exact hword
  obtain ⟨hloaded, hesp, hmem, hseg⟩ := restoreLoads_spec hregs
    (fun f => Stack.registersField hpush rfl hapart f) (c.reg .ebp)
  have hstack := hpush.congr hesp hmem
  refine ⟨(execAll restoreLoads c₁).drop.setReg .ebp (c.reg .ebp), ?_,
    hstack.drop.congr rfl rfl, hloaded.congr fun r hr => ?_, ?_⟩
  · rw [execAll_cons, execAll_append, execAll_cons, ← hstack.top, hc₁]
    rfl
  · rw [Cpu.setReg_reg, Cpu.setReg_reg, Cpu.drop, Cpu.setReg_reg, if_neg hr]
  · rw [Cpu.setReg_seg, Cpu.drop, Cpu.setReg_seg, hseg, hc₁]
    rfl

/-! ### Entering user mode -/

/-- The state in which `task_return` enters user mode. -/
structure InUser (m : Mem) (regs ebp flags : UInt32) (s : State) : Prop where
  loaded : Reloaded m regs ebp s.cpu
  eip : s.eip = registersField m regs .ip
  cs : s.cpu.seg .cs = (registersField m regs .cs).toUInt16
  eflags : s.cpu.eflags = flags &&& 0x00fcffff ||| 0x200
  esp : s.cpu.reg .esp = registersField m regs .esp
  ss : s.cpu.seg .ss = (registersField m regs .ss).toUInt16

/-- `iretd` on the words that `task_return` has pushed. -/
theorem iretd_spec {m : Mem} {ip cs flags esp ss : UInt32}
    (h : Stack b 8 m c [ip, cs, flags, esp, ss]) (hcpl : c.seg .cs &&& 3 < cs.toUInt16 &&& 3) :
    (iretd c).eip = ip ∧ (iretd c).cpu.seg .cs = cs.toUInt16 ∧ (iretd c).cpu.eflags = flags ∧
      (iretd c).cpu.reg .esp = esp ∧ (iretd c).cpu.seg .ss = ss.toUInt16 ∧
      ∀ r, r ≠ .esp → (iretd c).cpu.reg r = c.reg r := by
  have h₁ := h.drop
  have h₂ := h₁.drop
  have h₃ := h₂.drop
  unfold iretd
  dsimp only
  rw [h₁.top, if_pos hcpl]
  refine ⟨h.top, rfl, h₂.top, ?_, ?_, fun r hr => ?_⟩
  · exact h₃.top
  · exact congrArg UInt32.toUInt16 h₃.drop.top
  · simp [Cpu.drop, hr]

/-- `task_return` reaches user mode, with the registers at `regs` but for `ebp` and the flags. -/
theorem taskReturn_reaches {code : Code} {entry restore end₁ end₂ : UInt32}
    (hentry : Located code entry (taskReturn restore) end₁)
    (hrestore : Located code restore restoreGeneralPurposeRegisters end₂)
    (he : Entered b regs c) (hkernel : c.seg .cs &&& 3 = 0)
    (huser : (registersField c.mem regs .cs).toUInt16 &&& 3 = 3) :
    ∃ s', ReachesUser code ⟨c, entry⟩ s' ∧ InUser c.mem regs (off b 32) c.eflags s' := by
  obtain ⟨a₁, hops₁, next, hcall, a₂, hadd, end₁, hiret, -⟩ := hentry.append
  obtain ⟨a₃, hops₂, end₂, hret, -⟩ := hrestore.append
  have hcalled := taskReturnOps_spec he
  obtain ⟨c₁, hc₁⟩ : ∃ c₁, c₁ = execAll taskReturnOps c := ⟨_, rfl⟩
  rw [← hc₁] at hcalled
  obtain ⟨c₂, hc₂, hstack, hloaded, hseg⟩ :=
    restore_spec (hcalled.stack.push (by simp [returnWords]) next) rfl he.apart
  -- behind the `ret` and behind `add esp, 4`
  obtain ⟨c₄, hc₄⟩ : ∃ c₄, c₄ = Op.exec c₂.drop (.add .esp 4) := ⟨_, rfl⟩
  have hstack₄ : Stack b 8 c.mem c₄ (returnWords regs c.eflags c.mem).tail := by
    rw [hc₄]
    exact hstack.drop.drop.congr rfl rfl
  have hloaded₄ : Reloaded c.mem regs (off b 32) c₄ := by
    have hebp : (c₁.push next).reg .ebp = off b 32 := hcalled.ebp
    rw [hebp] at hloaded
    rw [hc₄]
    refine hloaded.congr fun r hr => ?_
    simp [Op.exec, Cpu.drop, hr]
  have hcs₂ : c₂.seg .cs &&& 3 = 0 := by
    rw [hseg]
    exact hcalled.cs ▸ hkernel
  have hcs₄ : c₄.seg .cs &&& 3 = 0 := by
    rw [hc₄]
    exact hcs₂
  obtain ⟨heip, hcs, hflags, hesp, hss, hreg⟩ := iretd_spec hstack₄
    (by rw [hcs₄, huser]; decide)
  refine ⟨iretd c₄, ?_, hloaded₄.congr hreg, heip, hcs, hflags, hesp, hss⟩
  have hne : ∀ {x : UInt16}, x = 0 → x ≠ 3 := fun h => by rw [h]; decide
  refine .ops hops₁ (hne hkernel) (by decide) ?_
  rw [← hc₁]
  refine .instr hcall (hne (hcalled.cs ▸ hkernel)) (.ops hops₂ (hne (hcalled.cs ▸ hkernel)) ?_ ?_)
  · decide
  · rw [hc₂]
    refine .instr hret (hne hcs₂) ?_
    change ReachesUser code ⟨c₂.drop, c₂.top⟩ _
    rw [hstack.top]
    refine .instr hadd (hne hcs₂) ?_
    rw [hc₄] at hcs₄ ⊢
    refine .instr hiret (hne hcs₄) (.here ?_)
    rw [hc₄] at hcs
    exact (congrArg (· &&& 3) hcs).trans huser

/-! ### The round trip -/

/-- The user-mode state `s` has the registers of the frame, with interrupts enabled. -/
structure Restored (m : Mem) (frame : UInt32) (s : State) : Prop where
  edi : s.cpu.reg .edi = frameField m frame .edi
  esi : s.cpu.reg .esi = frameField m frame .esi
  ebp : s.cpu.reg .ebp = frameField m frame .ebp
  ebx : s.cpu.reg .ebx = frameField m frame .ebx
  edx : s.cpu.reg .edx = frameField m frame .edx
  ecx : s.cpu.reg .ecx = frameField m frame .ecx
  eax : s.cpu.reg .eax = frameField m frame .eax
  eip : s.eip = frameField m frame .ip
  cs : s.cpu.seg .cs = (frameField m frame .cs).toUInt16
  esp : s.cpu.reg .esp = frameField m frame .esp
  ss : s.cpu.seg .ss = (frameField m frame .ss).toUInt16
  eflags : s.cpu.eflags = frameField m frame .flags ||| 0x200

/-- The memory holds the registers that `task_save_state` has saved. -/
def Saved (task frame : UInt32) (m m' : Mem) : Prop :=
  ∀ x, InRange (taskRegisters task) 48 x → m' x = taskSaveState task frame m x

theorem Saved.field {task frame : UInt32} {m m' : Mem} (h : Saved task frame m m')
    (hapart : FrameApart task frame) (f : SavedField) :
    registersField m' (taskRegisters task) f = frameField m frame f := by
  rw [← taskSaveState_spec hapart m f]
  exact Mem.read32_congr fun x hx => h x (inRange_registersField hx)

/-- What a user-mode state entered by `task_return` has of the frame. -/
theorem InUser.restored_iff {task frame : UInt32} {m m' : Mem} {ebp flags : UInt32} {s : State}
    (h : InUser m' (taskRegisters task) ebp flags s) (hsaved : Saved task frame m m')
    (hapart : FrameApart task frame) :
    Restored m frame s ↔ frameField m frame .ebp = ebp ∧
      frameField m frame .flags ||| 0x200 = flags &&& 0x00fcffff ||| 0x200 := by
  have hfield := hsaved.field hapart
  refine ⟨fun hr => ⟨hr.ebp.symm.trans h.loaded.ebp, hr.eflags.symm.trans h.eflags⟩,
    fun ⟨hebp, hflags⟩ => ?_⟩
  exact {
    edi := h.loaded.edi.trans (hfield _)
    esi := h.loaded.esi.trans (hfield _)
    ebp := h.loaded.ebp.trans hebp.symm
    ebx := h.loaded.ebx.trans (hfield _)
    edx := h.loaded.edx.trans (hfield _)
    ecx := h.loaded.ecx.trans (hfield _)
    eax := h.loaded.eax.trans (hfield _)
    eip := h.eip.trans (hfield _)
    cs := h.cs.trans (congrArg _ (hfield _))
    esp := h.esp.trans (hfield _)
    ss := h.ss.trans (congrArg _ (hfield _))
    eflags := h.eflags.trans hflags.symm }

/-- **When a saved context comes back.**  After `task_save_state` of a frame that was pushed on
entry from user mode, `task_return` reaches user mode, and it restores the frame exactly if the
saved `ebp` happens to be the kernel stack pointer at the entry of `task_return` and the saved
flags are the current ones. -/
theorem taskReturn_restores_iff {code : Code} {entry restore end₁ end₂ : UInt32}
    (hentry : Located code entry (taskReturn restore) end₁)
    (hrestore : Located code restore restoreGeneralPurposeRegisters end₂)
    {task frame b : UInt32} {m : Mem} {c : Cpu} (hapart : FrameApart task frame)
    (hsaved : Saved task frame m c.mem) (he : Entered b (taskRegisters task) c)
    (hkernel : c.seg .cs &&& 3 = 0) (huser : (frameField m frame .cs).toUInt16 &&& 3 = 3) :
    ∃ s', ReachesUser code ⟨c, entry⟩ s' ∧
      (Restored m frame s' ↔ frameField m frame .ebp = c.reg .esp ∧
        frameField m frame .flags ||| 0x200 = c.eflags &&& 0x00fcffff ||| 0x200) := by
  obtain ⟨s', hreach, hs'⟩ := taskReturn_reaches hentry hrestore he hkernel
    (by rw [hsaved.field hapart]; exact huser)
  refine ⟨s', hreach, ?_⟩
  rw [hs'.restored_iff hsaved hapart, he.esp]

/-! ### One frame -/

/-- The routines, with one address for each instruction. -/
def sampleCode : Code := fun a =>
  ((taskReturn 0x2000)[(a - 0x1000).toNat]? <|>
    restoreGeneralPurposeRegisters[(a - 0x2000).toNat]?).map fun i => (i, a + 1)

theorem sampleCode_taskReturn : Located sampleCode 0x1000 (taskReturn 0x2000) 0x1013 :=
  ⟨_, rfl, _, rfl, _, rfl, _, rfl, _, rfl, _, rfl, _, rfl, _, rfl, _, rfl, _, rfl, _, rfl, _, rfl,
    _, rfl, _, rfl, _, rfl, _, rfl, _, rfl, _, rfl, _, rfl, rfl⟩

theorem sampleCode_restore :
    Located sampleCode 0x2000 restoreGeneralPurposeRegisters 0x200c :=
  ⟨_, rfl, _, rfl, _, rfl, _, rfl, _, rfl, _, rfl, _, rfl, _, rfl, _, rfl, _, rfl, _, rfl, _, rfl,
    rfl⟩

/-- A frame at `0x5000` with the given `ebp` and the user segments. -/
def sampleMem (ebp : UInt32) : Mem :=
  let zeros : Mem := fun _ => 0
  ((zeros.write32 0x5008 ebp).write32 0x5024 0x1b).write32 0x5030 0x23

/-- The kernel at the entry of `task_return`, its stack pointer at `0x8020`. -/
def sampleCpu (ebp : UInt32) : Cpu where
  reg := fun r => if r = .esp then 0x8020 else 0
  seg := fun _ => 0x8
  eflags := 0
  mem := (taskSaveState 0x3000 0x5000 (sampleMem ebp)).write32 0x8024 0x3004

theorem sample_frameApart : FrameApart 0x3000 0x5000 := by
  intro x hx hx'
  rw [inRange_iff (by decide)] at hx
  rw [inRange_iff (by decide)] at hx'
  have h₁ : (0x5000 : UInt32).toNat = 0x5000 := rfl
  have h₂ : (taskRegisters 0x3000).toNat = 0x3004 := rfl
  omega

theorem sample_saved (ebp : UInt32) :
    Saved 0x3000 0x5000 (sampleMem ebp) (sampleCpu ebp).mem := fun x hx => by
  refine Mem.write32_apply_of_not_inRange _ _ fun hx' => ?_
  rw [inRange_iff (by decide)] at hx
  rw [inRange_iff (by decide)] at hx'
  have h₁ : (0x8024 : UInt32).toNat = 0x8024 := rfl
  have h₂ : (taskRegisters 0x3000).toNat = 0x3004 := rfl
  omega

theorem sample_entered (ebp : UInt32) : Entered 0x8000 (taskRegisters 0x3000) (sampleCpu ebp) where
  esp := rfl
  arg := Mem.read32_write32 _ _ _
  apart := by
    intro x hx hx'
    rw [inRange_iff (by decide)] at hx
    rw [inRange_iff (by decide)] at hx'
    have h₁ : (0x8000 : UInt32).toNat = 0x8000 := rfl
    have h₂ : (taskRegisters 0x3000).toNat = 0x3004 := rfl
    omega

/-- A frame whose `ebp` is the kernel stack pointer. -/
theorem taskReturn_restores_sample :
    ∃ s', ReachesUser sampleCode ⟨sampleCpu 0x8020, 0x1000⟩ s' ∧
      (Restored (sampleMem 0x8020) 0x5000 s' ↔
        frameField (sampleMem 0x8020) 0x5000 .ebp = (sampleCpu 0x8020).reg .esp ∧
          frameField (sampleMem 0x8020) 0x5000 .flags ||| 0x200 =
            (sampleCpu 0x8020).eflags &&& 0x00fcffff ||| 0x200) :=
  taskReturn_restores_iff sampleCode_taskReturn sampleCode_restore sample_frameApart
    (sample_saved 0x8020) (sample_entered 0x8020) rfl rfl

/-- A frame with `ebp = 0x3ff000` comes back with another `ebp`. -/
theorem taskReturn_loses_ebp :
    FrameApart 0x3000 0x5000 ∧ Saved 0x3000 0x5000 (sampleMem 0x3ff000) (sampleCpu 0x3ff000).mem ∧
      (frameField (sampleMem 0x3ff000) 0x5000 .cs).toUInt16 &&& 3 = 3 ∧
      ∀ s', ReachesUser sampleCode ⟨sampleCpu 0x3ff000, 0x1000⟩ s' →
        ¬ Restored (sampleMem 0x3ff000) 0x5000 s' := by
  have huser : (frameField (sampleMem 0x3ff000) 0x5000 .cs).toUInt16 &&& 3 = 3 := rfl
  have hsaved := sample_saved 0x3ff000
  obtain ⟨s₀, hreach₀, hs₀⟩ := taskReturn_reaches sampleCode_taskReturn sampleCode_restore
    (sample_entered 0x3ff000) rfl (by rw [hsaved.field sample_frameApart]; exact huser)
  refine ⟨sample_frameApart, hsaved, huser, fun s' hreach hr => ?_⟩
  rw [hreach.unique hreach₀, hs₀.restored_iff hsaved sample_frameApart] at hr
  have hebp : frameField (sampleMem 0x3ff000) 0x5000 .ebp = 0x3ff000 := rfl
  rw [hebp] at hr
  exact absurd hr.1 (by decide)

end PeachOS
