import PeachOS.BinarySpace
import PeachOS.CString
import PeachOS.Machine

/-! # The process table

`process_load_for_slot` of `process.c` and the functions around it.  The table is an array of
12 pointers; a new process goes to the slot that the caller asks for, if `process_get` finds
nothing there, and `process_get` answers null for a free slot and for a number that is no slot.

What `process_load_data` does with the file system is a `Loader`: any result and any effect on
the kernel.  `LoadRun` is any sequence of loading calls that satisfy a condition. -/

namespace PeachOS

open ByteMemory Extents

/-! ### Loading the file -/

/-- What `process_load_data` reports and stores in the process. -/
inductive LoadedData
  | unchanged (res : ℤ)
  | elf (elfFile : ElfFile)
  | binary (ptr size : UInt32)

/-- The result of `process_load_data`. -/
def LoadedData.res : LoadedData → ℤ
  | unchanged res => res
  | _ => 0

/-- The process with what was stored. -/
def LoadedData.store : LoadedData → ProcessFull → ProcessFull
  | unchanged _, process => process
  | elf elfFile, process => { process with filetype := processFiletypeElf, elfFile := elfFile }
  | binary ptr size, process =>
      { process with filetype := processFiletypeBinary, ptr := ptr, size := size }

/-- `process_load_data` as a function of the file name. -/
abbrev Loader := List UInt8 → Kernel → LoadedData × Kernel

/-- `process_load_elf`, for what the file system answers. -/
def processLoadElf (file : FileAccess) (k : Kernel) : LoadedData × Kernel :=
  let r := elfLoad file k
  (if r.1 < 0 then .unchanged r.1 else .elf r.2.1, r.2.2)

/-- `process_load_binary`. -/
def processLoadBinary (file : FileAccess) (k : Kernel) : LoadedData × Kernel :=
  if file.fopen = 0 then (.unchanged (- EIO), k)
  else if file.fstat ≠ 0 then (.unchanged file.fstat, k)
  else
    let programData := kzalloc file.filesize k
    if programData.1 = 0 then (.unchanged (-ENOMEM), programData.2)
    else if file.fread ≠ 1 then (.unchanged (- EIO), programData.2)
    else
      (.binary programData.1 file.filesize, { programData.2 with
        mem := writeBytes programData.2.mem programData.1 file.data file.filesize.toNat })

/-- `process_load_data`. -/
def processLoadData (files : List UInt8 → FileAccess) : Loader := fun filename k =>
  let r := processLoadElf (files filename) k
  if r.1.res = -EINFORMAT then processLoadBinary (files filename) r.2 else r

/-! ### The table -/

/-- `PEACHOS_MAX_PROCESSES`. -/
def peachosMaxProcesses : ℤ := 12

/-- `EISTKN`. -/
def EISTKN : ℤ := 8

/-- `process_get`. -/
def processGet (processId : ℤ) (st : Machine) : UInt32 :=
  if processId < 0 ∨ processId ≥ peachosMaxProcesses then 0 else st.processes processId

/-- `process_get_free_slot`: a full table is reported with a positive code. -/
def processGetFreeSlot (st : Machine) : ℤ :=
  match (List.range 12).find? fun (i : ℕ) => st.processes (i : ℤ) = 0 with
  | some i => i
  | none => EISTKN

/-- Replace the kernel. -/
def Machine.setKernel (st : Machine) (k : Kernel) : Machine :=
  { st with sched := { st.sched with kernel := k } }

/-- What a loading call returns: its result, the value of `*process`, and the state. -/
structure LoadResult where
  res : ℤ
  process : UInt32
  st : Machine

/-- The label `out` of `process_load_for_slot`, with `_process` and the value of `*process`. -/
def processLoadOut (res : ℤ) (p out : UInt32) (st : Machine) : LoadResult :=
  if res < 0 ∧ p ≠ 0 ∧ (st.procs p).task ≠ 0 then
    ⟨res, out, { st with sched := taskFree (st.procs p).task st.sched }⟩
  else ⟨res, out, st⟩

/-- `process_load_for_slot` from `process_map_memory` on; `none` is a panic. -/
def processLoadMap (p : UInt32) (slot : ℤ) (out : UInt32) (st : Machine) : Option LoadResult :=
  let process := st.procs p
  (processMapMemory process.toProcess (st.sched.tasks process.task) st.sched.kernel.mem).map
    fun r =>
      let st := st.setKernel { st.sched.kernel with mem := r.2 }
      if r.1 < 0 then processLoadOut r.1 p out st
      else ⟨r.1, p, { st with processes := Function.update st.processes slot p }⟩

/-- `process_load_for_slot` from `task_new` on. -/
def processLoadTask (p : UInt32) (slot : ℤ) (out : UInt32) (st : Machine) : Option LoadResult :=
  let task := taskNew p (st.procs p).toProcess st.sched
  let st := { st with sched := task.2 }
  -- an error is a pointer that is not null
  if task.1 = 0 then some (processLoadOut 0 p out st)
  else processLoadMap p slot out (st.setProc p { st.procs p with task := task.1 })

/-- `process_load_for_slot` from the allocation of the stack on. -/
def processLoadStack (filename : List UInt8) (p : UInt32) (slot : ℤ) (out : UInt32)
    (st : Machine) : Option LoadResult :=
  let stack := kzalloc peachosUserProgramStackSize st.sched.kernel
  let st := st.setKernel stack.2
  if stack.1 = 0 then some (processLoadOut (-ENOMEM) p out st)
  else
    processLoadTask p slot out (st.setProc p { st.procs p with
      filename := strncpy filename peachosMaxPath
      stack := stack.1
      id := UInt16.ofInt slot })

/-- The process once it has its stack. -/
def withStack (filename : List UInt8) (slot : ℤ) (stack : UInt32) (process : ProcessFull) :
    ProcessFull :=
  { process with
    filename := strncpy filename peachosMaxPath
    stack := stack
    id := UInt16.ofInt slot }

/-- `process_load_for_slot`; `uninit` is the value of `_process` before it is assigned, and
`out` that of `*process`. -/
def processLoadForSlot (load : Loader) (uninit : UInt32) (filename : List UInt8) (slot : ℤ)
    (out : UInt32) (st : Machine) : Option LoadResult :=
  if processGet slot st ≠ 0 then some (processLoadOut (-EISTKN) uninit out st)
  else
    -- `sizeof(struct process)`
    let p := kzalloc 5260 st.sched.kernel
    if p.1 = 0 then some (processLoadOut (-ENOMEM) 0 out (st.setKernel p.2))
    else
      let data := load filename p.2
      let st := (st.setKernel data.2).setProc p.1 (data.1.store processFullZero)
      if data.1.res < 0 then some (processLoadOut data.1.res p.1 out st)
      else processLoadStack filename p.1 slot out st

/-- `process_load`. -/
def processLoad (load : Loader) (uninit : UInt32) (filename : List UInt8) (out : UInt32)
    (st : Machine) : Option LoadResult :=
  let slot := processGetFreeSlot st
  if slot < 0 then some ⟨-EISTKN, out, st⟩
  else processLoadForSlot load uninit filename slot out st

/-! ### What one call does -/

/-- Only the process at `p` is changed, and the table gets at most the entry `slot`, which is
then `p` with its number. -/
structure LoadEffect (p : UInt32) (slot : ℤ) (st : Machine) (r : LoadResult) : Prop where
  others : ∀ q, q ≠ p → r.st.procs q = st.procs q
  table : r.st.processes = st.processes ∨ (0 ≤ r.res ∧
    r.st.processes = Function.update st.processes slot p ∧ (r.st.procs p).id = UInt16.ofInt slot)

variable {p out : UInt32} {slot : ℤ} {st st' : Machine} {r : LoadResult}

/-- What was done before the table is written does not count. -/
theorem LoadEffect.of_before (h : LoadEffect p slot st' r) (hprocs : ∀ q, q ≠ p →
    st'.procs q = st.procs q) (htable : st'.processes = st.processes) :
    LoadEffect p slot st r := by
  refine ⟨fun q hq => (h.others q hq).trans (hprocs q hq), ?_⟩
  rw [← htable]
  exact h.table

theorem processLoadOut_effect (res : ℤ) (q p out : UInt32) (slot : ℤ) (st : Machine) :
    LoadEffect p slot st (processLoadOut res q out st) := by
  unfold processLoadOut
  split_ifs
  · exact ⟨fun _ _ => rfl, Or.inl rfl⟩
  · exact ⟨fun _ _ => rfl, Or.inl rfl⟩

theorem Machine.setProc_of_ne (st : Machine) (process : ProcessFull) {q : UInt32} (h : q ≠ p) :
    (st.setProc p process).procs q = st.procs q := Function.update_of_ne h _ _

theorem processLoadMap_effect (hid : (st.procs p).id = UInt16.ofInt slot)
    (h : processLoadMap p slot out st = some r) : LoadEffect p slot st r := by
  unfold processLoadMap at h
  obtain ⟨m, -, rfl⟩ := Option.map_eq_some_iff.mp h
  dsimp only
  split_ifs with hneg
  · exact (processLoadOut_effect m.1 p p out slot _).of_before (fun _ _ => rfl) rfl
  · exact ⟨fun _ _ => rfl, Or.inr ⟨Int.not_lt.mp hneg, rfl, hid⟩⟩

theorem processLoadTask_effect (hid : (st.procs p).id = UInt16.ofInt slot)
    (h : processLoadTask p slot out st = some r) : LoadEffect p slot st r := by
  unfold processLoadTask at h
  dsimp only at h
  split_ifs at h
  · obtain rfl := Option.some.inj h
    exact (processLoadOut_effect 0 p p out slot _).of_before (fun _ _ => rfl) rfl
  · refine (processLoadMap_effect ?_ h).of_before (fun q hq => Machine.setProc_of_ne _ _ hq) rfl
    rw [Machine.setProc_self]
    exact hid

theorem processLoadStack_effect {filename : List UInt8}
    (h : processLoadStack filename p slot out st = some r) : LoadEffect p slot st r := by
  unfold processLoadStack at h
  dsimp only at h
  split_ifs at h
  · obtain rfl := Option.some.inj h
    exact (processLoadOut_effect _ p p out slot _).of_before (fun _ _ => rfl) rfl
  · refine (processLoadTask_effect ?_ h).of_before (fun q hq => Machine.setProc_of_ne _ _ hq) rfl
    rw [Machine.setProc_self]

/-- A call changes no process but the new one, in the block that it allocates. -/
theorem processLoadForSlot_effect {load : Loader} {uninit : UInt32} {filename : List UInt8}
    (h : processLoadForSlot load uninit filename slot out st = some r) :
    (r.st.procs = st.procs ∧ r.st.processes = st.processes) ∨
      ∃ b < 25600, (kzalloc 5260 st.sched.kernel).1 = blockAddr b ∧
        EntryFree kernelHeap st.sched.kernel.mem b ∧ processGet slot st = 0 ∧
        LoadEffect (blockAddr b) slot st r := by
  unfold processLoadForSlot at h
  split_ifs at h with hget
  · obtain rfl := Option.some.inj h
    exact Or.inl (by unfold processLoadOut; split_ifs <;> exact ⟨rfl, rfl⟩)
  dsimp only at h
  split_ifs at h with hp hres
  · obtain rfl := Option.some.inj h
    exact Or.inl (by unfold processLoadOut; split_ifs <;> exact ⟨rfl, rfl⟩)
  all_goals
    obtain ⟨b, hb, haddr, hfree, -⟩ := kzalloc_start (by decide) (by decide) hp
    rw [haddr] at h
    refine Or.inr ⟨b, hb, haddr, hfree, not_not.mp hget, ?_⟩
  · obtain rfl := Option.some.inj h
    exact (processLoadOut_effect _ _ _ _ _ _).of_before
      (fun q hq => Machine.setProc_of_ne _ _ hq) rfl
  · exact (processLoadStack_effect h).of_before (fun q hq => Machine.setProc_of_ne _ _ hq) rfl

/-! ### Runs -/

/-- A loading call with its loader, the uninitialised `_process`, the file name and `*process`;
`slot` is `none` for `process_load`. -/
structure LoadCall where
  load : Loader
  uninit : UInt32
  filename : List UInt8
  slot : Option ℤ
  out : UInt32

/-- The call. -/
def LoadCall.exec (c : LoadCall) (st : Machine) : Option LoadResult :=
  match c.slot with
  | none => processLoad c.load c.uninit c.filename c.out st
  | some slot => processLoadForSlot c.load c.uninit c.filename slot c.out st

/-- `i` is an index of the table. -/
def IsSlot (i : ℤ) : Prop := 0 ≤ i ∧ i < peachosMaxProcesses

/-- The structures of the processes in the table are still taken in the heap. -/
def ProcessesTaken (st : Machine) : Prop :=
  ∀ i, IsSlot i → st.processes i ≠ 0 →
    ∃ b < 25600, st.processes i = blockAddr b ∧ ¬ EntryFree kernelHeap st.sched.kernel.mem b

/-- A slot that the caller chooses is a slot, and the processes still own their blocks. -/
structure LoadCall.Meets (c : LoadCall) (st : Machine) : Prop where
  slot : ∀ i, c.slot = some i → IsSlot i
  taken : ProcessesTaken st

/-- Any sequence of loading calls that meet the condition and do not panic. -/
inductive LoadRun (st₀ : Machine) : Machine → Prop
  | start : LoadRun st₀ st₀
  | call {st : Machine} {r : LoadResult} (c : LoadCall) (hrun : LoadRun st₀ st)
      (hc : c.Meets st) (h : c.exec st = some r) : LoadRun st₀ r.st

/-- Each process in the table has the number of its slot, and no process is there twice. -/
structure TableOk (st : Machine) : Prop where
  id : ∀ i, IsSlot i → st.processes i ≠ 0 → ((st.procs (st.processes i)).id.toNat : ℤ) = i
  once : ∀ i j, IsSlot i → IsSlot j → st.processes i ≠ 0 → st.processes i = st.processes j → i = j

theorem processGetFreeSlot_isSlot (st : Machine) : IsSlot (processGetFreeSlot st) := by
  unfold processGetFreeSlot
  split
  · rename_i i hi
    have hlt := List.mem_range.mp (List.mem_of_find?_eq_some hi)
    exact ⟨Int.natCast_nonneg i, by unfold peachosMaxProcesses; omega⟩
  · exact ⟨by decide, by decide⟩

theorem processGet_of_isSlot {i : ℤ} (hi : IsSlot i) : processGet i st = st.processes i :=
  if_neg (by have := hi.1; have := hi.2; omega)

/-- A call under the condition: nothing is changed in the table or the processes, or a free
slot is the one entry that may get a process with its number, which is in no other slot. -/
theorem LoadCall.Meets.effect {c : LoadCall} (hc : c.Meets st) (h : c.exec st = some r) :
    (r.st.procs = st.procs ∧ r.st.processes = st.processes) ∨
      ∃ slot p, IsSlot slot ∧ st.processes slot = 0 ∧ LoadEffect p slot st r ∧
        ∀ i, IsSlot i → st.processes i ≠ 0 → st.processes i ≠ p := by
  have hnew : ∀ b, EntryFree kernelHeap st.sched.kernel.mem b → b < 25600 → ∀ i, IsSlot i →
      st.processes i ≠ 0 → st.processes i ≠ blockAddr b := by
    intro b hfree hb i hi hne heq
    obtain ⟨b', hb', haddr, htaken⟩ := hc.taken i hi hne
    rw [heq] at haddr
    exact htaken (blockAddr_inj hb hb' haddr ▸ hfree)
  have hload : ∀ slot, IsSlot slot →
      processLoadForSlot c.load c.uninit c.filename slot c.out st = some r →
      (r.st.procs = st.procs ∧ r.st.processes = st.processes) ∨
        ∃ slot p, IsSlot slot ∧ st.processes slot = 0 ∧ LoadEffect p slot st r ∧
          ∀ i, IsSlot i → st.processes i ≠ 0 → st.processes i ≠ p := by
    intro slot hslot h
    rcases processLoadForSlot_effect h with hsame | ⟨b, hb, -, hfree, hget, heffect⟩
    · exact Or.inl hsame
    · rw [processGet_of_isSlot hslot] at hget
      exact Or.inr ⟨slot, blockAddr b, hslot, hget, heffect, hnew b hfree hb⟩
  unfold LoadCall.exec at h
  cases hslot : c.slot with
  | none =>
      rw [hslot] at h
      dsimp only at h
      unfold processLoad at h
      have hfree := processGetFreeSlot_isSlot st
      rw [if_neg (Int.not_lt.mpr hfree.1)] at h
      exact hload _ hfree h
  | some slot =>
      rw [hslot] at h
      exact hload slot (hc.slot slot hslot) h

/-- What the claim says about one call. -/
structure CallOk (st : Machine) (r : LoadResult) : Prop where
  outside : ∀ i, ¬ IsSlot i → r.st.processes i = st.processes i
  occupied : ∀ i, IsSlot i → st.processes i ≠ 0 → r.st.processes i = st.processes i
  failed : r.res < 0 → r.st.processes = st.processes

theorem LoadCall.Meets.callOk {c : LoadCall} (hc : c.Meets st) (h : c.exec st = some r) :
    CallOk st r := by
  rcases hc.effect h with ⟨-, hsame⟩ | ⟨slot, p, hslot, hzero, heffect, -⟩
  · exact ⟨fun i _ => by rw [hsame], fun i _ _ => by rw [hsame], fun _ => hsame⟩
  rcases heffect.table with hsame | ⟨hres, htable, -⟩
  · exact ⟨fun i _ => by rw [hsame], fun i _ _ => by rw [hsame], fun _ => hsame⟩
  · refine ⟨fun i hi => ?_, fun i hi hne => ?_, fun hneg => absurd hres (Int.not_le.mpr hneg)⟩
    · rw [htable, Function.update_of_ne fun e : i = slot => hi (by rw [e]; exact hslot)]
    · rw [htable, Function.update_of_ne fun e : i = slot => hne (by rw [e]; exact hzero)]

theorem LoadCall.Meets.tableOk {c : LoadCall} (hc : c.Meets st) (h : c.exec st = some r)
    (hok : TableOk st) : TableOk r.st := by
  rcases hc.effect h with ⟨hprocs, hsame⟩ | ⟨slot, p, hslot, hzero, heffect, hnew⟩
  · constructor
    · rw [hprocs, hsame]
      exact hok.id
    · rw [hsame]
      exact hok.once
  have hold : ∀ i, IsSlot i → st.processes i ≠ 0 →
      r.st.procs (st.processes i) = st.procs (st.processes i) :=
    fun i hi hne => heffect.others _ (hnew i hi hne)
  rcases heffect.table with hsame | ⟨-, htable, hid⟩
  · constructor
    · intro i hi hne
      rw [hsame] at hne ⊢
      rw [hold i hi hne]
      exact hok.id i hi hne
    · rw [hsame]
      exact hok.once
  · have hself : r.st.processes slot = p := by rw [htable, Function.update_self]
    have hother : ∀ i, i ≠ slot → r.st.processes i = st.processes i := fun i hi => by
      rw [htable, Function.update_of_ne hi]
    have hslotid : ((UInt16.ofInt slot).toNat : ℤ) = slot := by
      obtain ⟨h₁, h₂⟩ := hslot
      unfold peachosMaxProcesses at h₂
      interval_cases slot <;> decide
    refine ⟨fun i hi hne => ?_, fun i j hi hj hne heq => ?_⟩
    · rcases eq_or_ne i slot with rfl | his
      · rw [hself, hid, hslotid]
      · rw [hother i his] at hne ⊢
        rw [hold i hi hne]
        exact hok.id i hi hne
    · rcases eq_or_ne i slot with rfl | his
      · rcases eq_or_ne j i with rfl | hji
        · rfl
        · rw [hother j hji] at heq
          rw [heq] at hne
          exact absurd (heq.symm.trans hself) (hnew j hj hne)
      · rw [hother i his] at hne heq
        rcases eq_or_ne j slot with rfl | hjs
        · exact absurd (heq.trans hself) (hnew i hi hne)
        · rw [hother j hjs] at heq
          exact hok.once i j hi hj hne heq

/-- By induction on the run. -/
theorem LoadRun.tableOk {st₀ : Machine} (hempty : ∀ i, IsSlot i → st₀.processes i = 0)
    (hrun : LoadRun st₀ st) : TableOk st := by
  induction hrun with
  | start =>
      exact ⟨fun i hi hne => absurd (hempty i hi) hne,
        fun i j hi _ hne => absurd (hempty i hi) hne⟩
  | call c _ hc h ih => exact hc.tableOk h ih

/-- **The process table.**  In every state reached from an empty table by calls that meet the
condition, nothing outside the 12 entries has been written, each occupied entry holds a process
with its number and none holds the process of another, and a further such call overwrites no
occupied entry and changes the table only if it succeeds. -/
theorem process_table {st₀ : Machine} (hempty : ∀ i, IsSlot i → st₀.processes i = 0)
    (hrun : LoadRun st₀ st) :
    (∀ i, ¬ IsSlot i → st.processes i = st₀.processes i) ∧ TableOk st ∧
      ∀ c : LoadCall, c.Meets st → ∀ r, c.exec st = some r → CallOk st r := by
  refine ⟨?_, hrun.tableOk hempty, fun c hc r h => hc.callOk h⟩
  induction hrun with
  | start => exact fun i _ => rfl
  | call c _ hc h ih => exact fun i hi => ((hc.callOk h).outside i hi).trans (ih i hi)

/-! ### A load that succeeds -/

/-- A file of 16 zero bytes, which is not an ELF file. -/
def zeroFile : FileAccess := ⟨1, 0, 16, 1, fun _ => 0⟩

variable {k : Kernel} {live : Layout UInt32} {n : ℕ}

theorem TopFree.writeBytes {a : UInt32} {b size : ℕ} (h : TopFree k live n) (hb : b < 25600)
    (ha : a = blockAddr b) (hsize : size ≤ 4096) (data : ℕ → UInt8) :
    TopFree ⟨ByteMemory.writeBytes k.mem a data size, k.oom⟩ live n := by
  refine h.write h.ok fun x hx => ?_
  dsimp only
  rw [writeBytes_apply _ _ _ _ _ (by omega), if_neg]
  intro hin
  rw [ha] at hin
  exact InBlock.not_inTable hb (lt_of_lt_of_le hin hsize) hx

/-- It is loaded as a flat binary. -/
theorem processLoadData_zeroFile (h : TopFree k live n) (hn : n + 3 ≤ 25600)
    (filename : List UInt8) :
    ∃ a k' live', processLoadData (fun _ => zeroFile) filename k = (.binary a 16, k') ∧
      TopFree k' live' (n + 3) ∧ Allocated live' 16 a ∧
        ∀ a e, live a = some e → live' a = some e := by
  have hone : blocksFor 132 = 1 ∧ blocksFor 16 = 1 := by decide
  obtain ⟨c, k₁, live₁, hk₁, h₁, -, -, hkeep₁⟩ := h.kzalloc 132 (by decide) (by omega)
  rw [hone.1] at h₁
  obtain ⟨buffer, k₂, live₂, hk₂, h₂, halloc₂, -, hkeep₂⟩ := h₁.kzalloc 16 (by decide) (by omega)
  rw [hone.2] at h₂
  obtain ⟨b, hb, hbuffer⟩ := h₂.heap.allocated_block halloc₂
  have h₂' := h₂.writeBytes hb hbuffer (show 16 ≤ 4096 by decide) fun _ => 0
  obtain ⟨a, k₃, live₃, hk₃, h₃, halloc₃, -, hkeep₃⟩ := h₂'.kzalloc 16 (by decide) (by omega)
  rw [hone.2] at h₃
  obtain ⟨b', hb', ha⟩ := h₃.heap.allocated_block halloc₃
  have h₃' := h₃.writeBytes hb' ha (show 16 ≤ 4096 by decide) fun _ => 0
  obtain ⟨elfFile, helf⟩ : ∃ elfFile, elfLoad zeroFile k = (-EINFORMAT, elfFile,
      ⟨ByteMemory.writeBytes k₂.mem buffer (fun _ => 0) 16, k₂.oom⟩) := by
    have hzero : ByteMemory.writeBytes k₂.mem buffer (fun _ => 0) 16 buffer ≠ 0x7f := by
      rw [writeBytes_apply _ _ _ _ _ (by decide), if_pos (by simp [InRange])]
      decide
    refine ⟨{ elfFileZero with elfMemory := buffer }, ?_⟩
    unfold elfLoad
    rw [if_neg (by decide), if_neg (by decide), hk₁, show zeroFile.filesize = 16 from rfl]
    dsimp only
    rw [hk₂, if_neg (by decide)]
    dsimp only
    rw [elfProcessLoaded_of_ne hzero]
    rfl
  have hload : processLoadElf zeroFile k = (.unchanged (-EINFORMAT),
      ⟨ByteMemory.writeBytes k₂.mem buffer (fun _ => 0) 16, k₂.oom⟩) := by
    unfold processLoadElf
    dsimp only
    rw [helf]
    dsimp only
    rw [if_pos (by decide)]
  refine ⟨a, _, live₃, ?_, h₃', halloc₃, fun a e hae => hkeep₃ a e (hkeep₂ a e (hkeep₁ a e hae))⟩
  have hne : a ≠ 0 := by rw [ha]; exact blockAddr_ne_zero hb'
  unfold processLoadData
  dsimp only
  rw [hload]
  dsimp only
  rw [if_pos (show (LoadedData.unchanged (-EINFORMAT)).res = -EINFORMAT from rfl)]
  unfold processLoadBinary
  rw [if_neg (by decide), if_neg (by decide)]
  dsimp only
  rw [show zeroFile.filesize = 16 from rfl, hk₃]
  dsimp only
  rw [if_neg hne, if_neg (by decide)]
  rfl

/-- A flat binary is mapped and entered in the table. -/
theorem processLoadMap_binary (slot : ℤ) (out : UInt32) {s : SpaceBlocks} {f : UInt32 → UInt32}
    (h : TopFree st.sched.kernel live n) (hfile : (st.procs p).filetype = processFiletypeBinary)
    (himage : Allocated live (st.procs p).size (st.procs p).ptr)
    (hstack : Allocated live peachosUserProgramStackSize (st.procs p).stack)
    (hrep : Represents st.sched.kernel.mem s f)
    (hdir : (st.sched.tasks (st.procs p).task).pageDirectory = blockAddr s.chunk) :
    ∃ r k, processLoadMap p slot out st = some r ∧ r.res = 0 ∧ r.process = p ∧
      r.st.processes slot = p ∧ TopFree k live n ∧ r.st.sched = { st.sched with kernel := k } ∧
      r.st.procs = st.procs := by
  obtain ⟨m', hmap, -, hframe⟩ := processMapMemory_binary h.heap hfile himage hstack hrep hdir
  unfold processLoadMap
  dsimp only
  rw [hmap]
  have hwrite : ∀ x, InTable x → m' x = st.sched.kernel.mem x := by
    intro x hx
    apply hframe
    rintro ⟨i, hi, hxi⟩
    exact hxi.not_inTable (s.table_lt i hi) hx
  exact ⟨_, { st.sched.kernel with mem := m' }, rfl, rfl, rfl, Function.update_self ..,
    h.write h.ok hwrite, rfl, rfl⟩

/-- The layout has grown, and the allocation at `a` is new. -/
structure NewIn (live live' : Layout UInt32) (a : UInt32) : Prop where
  before : live a = none
  after : ∃ e, live' a = some e
  keep : ∀ x e, live x = some e → live' x = some e

theorem NewIn.mono {live₀ live live' live₁ : Layout UInt32} {a : UInt32} (h : NewIn live live' a)
    (h₀ : ∀ x e, live₀ x = some e → live x = some e)
    (h₁ : ∀ x e, live' x = some e → live₁ x = some e) : NewIn live₀ live₁ a where
  before := by
    cases ha : live₀ a with
    | none => rfl
    | some e =>
        have hlive := h₀ a e ha
        rw [h.before] at hlive
        cases hlive
  after := h.after.imp fun e he => h₁ a e he
  keep x e hx := h₁ x e (h.keep x e (h₀ x e hx))

/-- What was new before is not new again. -/
theorem NewIn.ne {live₁ live₂ live₃ : Layout UInt32} {a b : UInt32} (ha : NewIn live₁ live₂ a)
    (hb : NewIn live₂ live₃ b) : a ≠ b := by
  rintro rfl
  obtain ⟨e, he⟩ := ha.after
  rw [hb.before] at he
  cases he

theorem processLoadTask_binary (slot : ℤ) (out : UInt32) (h : TopFree st.sched.kernel live n)
    (hn : n + 1027 ≤ 25600)
    (hfile : (st.procs p).filetype = processFiletypeBinary)
    (himage : Allocated live (st.procs p).size (st.procs p).ptr)
    (hstack : Allocated live peachosUserProgramStackSize (st.procs p).stack) :
    ∃ r live' task, processLoadTask p slot out st = some r ∧ r.res = 0 ∧ r.process = p ∧
      r.st.processes slot = p ∧ TopFree r.st.sched.kernel live' (n + 1027) ∧
      NewIn live live' task ∧ AppendsTask p task st.sched r.st.sched ∧
      (r.st.procs p).task = task := by
  obtain ⟨live', h', hnone, hlive, hkeep⟩ := h.taskNew hn p (st.procs p).toProcess
  obtain ⟨b, s, t, k, htask, -, hnew⟩ := taskNew_ok h'.ok
  unfold processLoadTask
  rw [hnew] at h' hnone hlive ⊢
  dsimp only at h' hnone hlive ⊢
  rw [if_neg (blockAddr_ne_zero htask.lt)]
  have hsame := (taskAppend_sameTask (blockAddr b)
    { st.sched with kernel := k, tasks := Function.update st.sched.tasks (blockAddr b) t }
    (blockAddr b)).1
  dsimp only at hsame
  rw [Function.update_self, htask.pageDirectory] at hsame
  have hkernel := taskAppend_kernel (blockAddr b)
    { st.sched with kernel := k, tasks := Function.update st.sched.tasks (blockAddr b) t }
  dsimp only at hkernel
  have happend : ∀ k', AppendsTask p (blockAddr b) st.sched { taskAppend (blockAddr b)
      { st.sched with kernel := k, tasks := Function.update st.sched.tasks (blockAddr b) t } with
      kernel := k' } :=
    fun k' => ⟨blockAddr_ne_zero htask.lt, k, k', t, htask.process, rfl⟩
  generalize taskAppend (blockAddr b) { st.sched with
    kernel := k, tasks := Function.update st.sched.tasks (blockAddr b) t } = sched
    at h' hsame hkernel happend ⊢
  obtain ⟨process, hprocess⟩ : ∃ process : ProcessFull,
      process = { st.procs p with task := blockAddr b } := ⟨_, rfl⟩
  rw [← hprocess]
  have hself := Machine.setProc_self { st with sched := sched } p process
  obtain ⟨st', hst'⟩ : ∃ st', st' = ({ st with sched := sched } : Machine).setProc p process :=
    ⟨_, rfl⟩
  rw [← hst'] at hself ⊢
  have hsched : st'.sched = sched := by rw [hst', Machine.setProc_sched]
  rw [← hsched] at h' hsame hkernel happend
  obtain ⟨r, k', hr, hres, hp, hentry, hfinal, hrs, hprocs⟩ := processLoadMap_binary slot out h'
    (by rw [hself, hprocess]; exact hfile) (by rw [hself, hprocess]; exact himage.mono hkeep)
    (by rw [hself, hprocess]; exact hstack.mono hkeep) (by rw [hkernel]; exact htask.space)
    (by rw [hself, hprocess]; exact hsame)
  refine ⟨r, live', blockAddr b, hr, hres, hp, hentry, ?_, ⟨hnone, hlive, hkeep⟩, ?_, ?_⟩
  · rw [hrs]
    exact hfinal
  · rw [hrs]
    exact happend k'
  · rw [hprocs, hself, hprocess]

theorem processLoadStack_binary (h : TopFree st.sched.kernel live n) (hn : n + 1031 ≤ 25600)
    (filename : List UInt8) (slot : ℤ) (out : UInt32)
    (hfile : (st.procs p).filetype = processFiletypeBinary)
    (himage : Allocated live (st.procs p).size (st.procs p).ptr) :
    ∃ r live' task, processLoadStack filename p slot out st = some r ∧ r.res = 0 ∧
      r.process = p ∧ r.st.processes slot = p ∧ TopFree r.st.sched.kernel live' (n + 1031) ∧
      NewIn live live' task ∧ AppendsTask p task st.sched r.st.sched ∧
      (r.st.procs p).task = task := by
  have hsize : blocksFor peachosUserProgramStackSize = 4 := by decide
  obtain ⟨stack, k₁, live₁, hk₁, h₁, hstack, -, hkeep₁⟩ :=
    h.kzalloc peachosUserProgramStackSize (by decide) (by omega)
  rw [hsize] at h₁
  have hne : stack ≠ 0 := h₁.heap.allocated_ne_zero hstack
  unfold processLoadStack
  rw [hk₁]
  dsimp only
  rw [if_neg hne]
  have hself := Machine.setProc_self (st.setKernel k₁) p { st.procs p with
    filename := strncpy filename peachosMaxPath, stack := stack, id := UInt16.ofInt slot }
  obtain ⟨st', hst'⟩ : ∃ st', st' = (st.setKernel k₁).setProc p { st.procs p with
    filename := strncpy filename peachosMaxPath, stack := stack, id := UInt16.ofInt slot } :=
    ⟨_, rfl⟩
  have hkernel : st'.sched.kernel = k₁ := by rw [hst']; rfl
  have hsched : st'.sched = { st.sched with kernel := k₁ } := by rw [hst']; rfl
  rw [← hst'] at hself
  change ∃ r live' task, processLoadTask p slot out ((st.setKernel k₁).setProc p { st.procs p with
    filename := strncpy filename peachosMaxPath, stack := stack, id := UInt16.ofInt slot }) =
      some r ∧ _
  rw [← hst']
  rw [← hkernel] at h₁
  obtain ⟨r, live', task, hr, hres, hp, hentry, hfinal, hin, htask, hself⟩ := processLoadTask_binary
    slot out h₁ (by omega) (by rw [hself]; exact hfile) (by rw [hself]; exact himage.mono hkeep₁)
    (by rw [hself]; exact hstack)
  rw [hsched] at htask
  exact ⟨r, live', task, hr, hres, hp, hentry, hfinal, hin.mono hkeep₁ fun _ _ h => h,
    htask.of_kernel k₁, hself⟩

/-- Loading the file into a free entry while there is room at the top of the heap. -/
theorem processLoadForSlot_zeroFile (h : TopFree st.sched.kernel live n) (hn : n + 1036 ≤ 25600)
    (hget : processGet slot st = 0) (uninit : UInt32) (filename : List UInt8) (out : UInt32) :
    ∃ r live' task, processLoadForSlot (processLoadData fun _ => zeroFile) uninit filename slot
        out st = some r ∧ r.res = 0 ∧ r.process ≠ 0 ∧ r.st.processes slot = r.process ∧
      TopFree r.st.sched.kernel live' (n + 1036) ∧ NewIn live live' r.process ∧
      NewIn live live' task ∧ AppendsTask r.process task st.sched r.st.sched ∧
      (r.st.procs r.process).task = task := by
  have hsize : blocksFor 5260 = 2 := by decide
  obtain ⟨p, k₁, live₁, hk₁, h₁, halloc, hnew, hkeep₁⟩ := h.kzalloc 5260 (by decide) (by omega)
  rw [hsize] at h₁
  have hp : p ≠ 0 := h₁.heap.allocated_ne_zero halloc
  obtain ⟨a, k₂, live₂, hk₂, h₂, himage, hkeep₂⟩ :=
    processLoadData_zeroFile h₁ (by omega) filename
  unfold processLoadForSlot
  rw [if_neg (not_not.mpr hget)]
  dsimp only
  rw [hk₁]
  dsimp only
  rw [if_neg hp, hk₂]
  dsimp only
  rw [if_neg (show ¬ (LoadedData.binary a 16).res < 0 from lt_irrefl 0)]
  have hself := Machine.setProc_self (st.setKernel k₂) p
    ((LoadedData.binary a 16).store processFullZero)
  obtain ⟨st', hst'⟩ : ∃ st', st' = (st.setKernel k₂).setProc p
    ((LoadedData.binary a 16).store processFullZero) := ⟨_, rfl⟩
  have hkernel : st'.sched.kernel = k₂ := by rw [hst']; rfl
  have hsched : st'.sched = { st.sched with kernel := k₂ } := by rw [hst']; rfl
  rw [← hst'] at hself ⊢
  rw [← hkernel] at h₂
  obtain ⟨r, live', task, hr, hres, hrp, hentry, hfinal, hin, htask, hown⟩ :=
    processLoadStack_binary h₂
    (by omega) filename slot out (by rw [hself]; rfl) (by rw [hself]; exact himage)
  obtain ⟨e, he, -⟩ := halloc
  have hkeep : ∀ x e, live x = some e → live₂ x = some e :=
    fun x e hx => hkeep₂ x e (hkeep₁ x e hx)
  rw [hsched] at htask
  rw [← hrp] at htask hnew he hentry hp hown
  exact ⟨r, live', task, hr, hres, hp, hentry, hfinal,
    ⟨hnew, ⟨e, hin.keep _ e (hkeep₂ _ e he)⟩, fun x e hx => hin.keep x e (hkeep x e hx)⟩,
    hin.mono hkeep fun _ _ h => h, htask.of_kernel k₂, hown⟩

/-- A machine that has just started. -/
def freshMachine : Machine := ⟨⟨freshKernel, fun _ => taskZero, 0, 0, 0⟩, fun _ => processFullZero,
  0, fun _ => 0⟩

/-- The first process of a fresh machine: the run is not empty, and the table is as stated. -/
theorem process_table_first :
    ∃ r, processLoad (processLoadData fun _ => zeroFile) 0 [] 0 freshMachine = some r ∧
      r.st.processes 0 ≠ 0 ∧ TableOk r.st := by
  have hslot : processGetFreeSlot freshMachine = 0 := by decide
  have hget : processGet 0 freshMachine = 0 := rfl
  obtain ⟨r, -, -, hr, -, hne, hentry, -⟩ :=
    processLoadForSlot_zeroFile freshKernel_topFree (by decide) hget 0 [] 0
  have hload : processLoad (processLoadData fun _ => zeroFile) 0 [] 0 freshMachine = some r := by
    unfold processLoad
    dsimp only
    rw [hslot, if_neg (by decide)]
    exact hr
  refine ⟨r, hload, by rw [hentry]; exact hne, ?_⟩
  have hrun : LoadRun freshMachine r.st :=
    LoadRun.call ⟨processLoadData (fun _ => zeroFile), 0, [], none, 0⟩ LoadRun.start
      ⟨fun i hi => (nomatch hi), fun i _ hi => absurd rfl hi⟩ hload
  exact (process_table (fun _ _ => rfl) hrun).2.1

/-- `process_load_for_slot` with slot 12 on a fresh machine writes behind the table. -/
theorem processLoadForSlot_outside :
    ∃ r, processLoadForSlot (processLoadData fun _ => zeroFile) 0 [] 12 0 freshMachine = some r ∧
      ¬ IsSlot 12 ∧ r.st.processes 12 ≠ freshMachine.processes 12 := by
  have hget : processGet 12 freshMachine = 0 := rfl
  obtain ⟨r, -, -, hr, -, hne, hentry, -⟩ :=
    processLoadForSlot_zeroFile freshKernel_topFree (by decide) hget 0 [] 0
  refine ⟨r, hr, fun h => absurd h.2 (by decide), ?_⟩
  rw [hentry]
  exact hne

end PeachOS
