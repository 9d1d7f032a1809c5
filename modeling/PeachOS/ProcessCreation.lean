import PeachOS.ElfSpace
import PeachOS.ProcessLeak

/-! # Which processes are registered

`process_load_for_slot`, `task_new`, `task_init` and `paging_new_4gb` signal a failure in three
ways: a null pointer, a negative status, and a negative status cast to a pointer.  Beside the
model of the call stands the record of what it does with pointers (`PointerTrace`): the results
of its `kzalloc` calls, and the pointers that it follows up to the end of `task_new`.

`processLoadForSlot_complete_iff` says when the call registers only what was created completely. -/

namespace PeachOS

open ByteMemory Extents WriteHistory

/-! ### The ghost bit -/

variable {k k' : Kernel} {size : UInt32}

theorem kzalloc_oom_iff (size : UInt32) (k : Kernel) :
    (kzalloc size k).2.oom = false ↔ k.oom = false ∧ (kzalloc size k).1 ≠ 0 := by
  unfold kzalloc kmalloc
  dsimp only
  split_ifs with h <;> simp [h]

/-- What a request does to memory does not depend on what failed before. -/
theorem kzalloc_congr (size : UInt32) (h : k'.mem = k.mem) :
    (kzalloc size k').1 = (kzalloc size k).1 ∧
      (kzalloc size k').2.mem = (kzalloc size k).2.mem := by
  unfold kzalloc kmalloc
  dsimp only
  rw [h]
  split_ifs <;> exact ⟨rfl, rfl⟩

theorem pagingNewTables_congr (directory : UInt32) (flags : UInt8) (h : k'.mem = k.mem) : ∀ i,
    (pagingNewTables directory flags i k').1 = (pagingNewTables directory flags i k).1 ∧
      (pagingNewTables directory flags i k').2.mem = (pagingNewTables directory flags i k).2.mem
  | 0 => ⟨rfl, h⟩
  | i + 1 => by
      obtain ⟨hoffset, hmem⟩ := pagingNewTables_congr directory flags h i
      obtain ⟨hentry, hmem'⟩ := kzalloc_congr 4096 hmem
      simp only [pagingNewTables]
      rw [hoffset, hentry, hmem']
      exact ⟨rfl, rfl⟩

theorem pagingNew4gb_congr (flags : UInt8) (h : k'.mem = k.mem) :
    (pagingNew4gb flags k').1 = (pagingNew4gb flags k).1 ∧
      (pagingNew4gb flags k').2.mem = (pagingNew4gb flags k).2.mem := by
  -- the number of tables is kept from being computed with
  obtain ⟨n, hn⟩ : ∃ n, n = 1024 := ⟨_, rfl⟩
  obtain ⟨hdirectory, hmem⟩ := kzalloc_congr 4096 h
  obtain ⟨-, hmem'⟩ := pagingNewTables_congr (kzalloc 4096 k).1 flags hmem n
  obtain ⟨hchunk, hmem''⟩ := kzalloc_congr 4 hmem'
  unfold pagingNew4gb
  rw [← hn]
  dsimp only
  rw [hdirectory, hchunk, hmem'']
  exact ⟨rfl, rfl⟩

/-! ### Pointers -/

/-- The results of the `kzalloc` calls of a function, in order, and the pointers that it follows,
each given by the pointer itself and not by the address inside the object. -/
structure PointerTrace where
  allocs : List UInt32
  derefs : List UInt32

/-- A null pointer, or an error code cast to a pointer. -/
def BadPointer (a : UInt32) : Prop := a = 0 ∨ i32 a.toNat < 0

/-- The blocks for the first tables of `paging_new_4gb`. -/
def pagingNewEntries (directory : UInt32) (flags : UInt8) : ℕ → Kernel → List UInt32
  | 0, _ => []
  | i + 1, k => pagingNewEntries directory flags i k ++
      [(kzalloc 4096 (pagingNewTables directory flags i k).2).1]

/-- The blocks of `paging_new_4gb`; each of them is written to, and no result is looked at. -/
def pagingNewPointers (flags : UInt8) (k : Kernel) : List UInt32 :=
  let directory := kzalloc 4096 k
  let tables := pagingNewTables directory.1 flags 1024 directory.2
  directory.1 :: pagingNewEntries directory.1 flags 1024 directory.2 ++ [(kzalloc 4 tables.2).1]

/-- The pointers that `task_free` follows. -/
def taskFreeDerefs (task : UInt32) (st : TaskState) : List UInt32 :=
  let chunk := (st.tasks task).pageDirectory
  task :: chunk :: st.kernel.mem.read32 chunk ::
    if (st.tasks task).prev ≠ 0 then [(st.tasks task).prev] else []

/-- The pointers of `task_new` and `task_init`. -/
def taskNewTrace (p : UInt32) (process : Process) (st : TaskState) : PointerTrace :=
  let task := kzalloc 64 st.kernel
  if task.1 = 0 then ⟨[0], taskFreeDerefs 0 { st with kernel := task.2 }⟩
  else
    let pointers := pagingNewPointers (1 ||| 4) task.2
    let init := taskInit p process task.2
    let st := { st with kernel := init.2, tasks := Function.update st.tasks task.1 init.1.2 }
    ⟨task.1 :: pointers, task.1 :: pointers ++
      if init.1.1 ≠ 0 then taskFreeDerefs task.1 st
      else
        p :: (if process.filetype = processFiletypeElf then [elfHeader process.elfFile] else []) ++
          if st.taskHead = 0 then [] else [st.taskTail]⟩

/-- The pointers of `process_load_for_slot` from the allocation of the stack to the end of
`task_new`. -/
def processLoadStackTrace (filename : List UInt8) (p : UInt32) (slot : ℤ) (st : Machine) :
    PointerTrace :=
  let stack := kzalloc peachosUserProgramStackSize st.sched.kernel
  if stack.1 = 0 then ⟨[0], [p]⟩
  else
    let st := (st.setKernel stack.2).setProc p (withStack filename slot stack.1 (st.procs p))
    let task := taskNewTrace p (st.procs p).toProcess st.sched
    ⟨stack.1 :: task.allocs, p :: task.derefs⟩

/-- The pointers of a call for a free slot. -/
def processLoadForSlotTrace (load : Loader) (filename : List UInt8) (slot : ℤ) (st : Machine) :
    PointerTrace :=
  let p := kzalloc 5260 st.sched.kernel
  if p.1 = 0 then ⟨[0], []⟩
  else
    let data := load filename p.2
    if data.1.res < 0 then ⟨[p.1], [p.1]⟩
    else
      let st := (st.setKernel data.2).setProc p.1 (data.1.store processFullZero)
      let rest := processLoadStackTrace filename p.1 slot st
      ⟨p.1 :: rest.allocs, p.1 :: rest.derefs⟩

/-! ### A task is made -/

theorem pagingNewEntries_oom_iff (directory : UInt32) (flags : UInt8) : ∀ (i : ℕ) (k : Kernel),
    (pagingNewTables directory flags i k).2.oom = false ↔
      k.oom = false ∧ 0 ∉ pagingNewEntries directory flags i k
  | 0, _ => by simp [pagingNewTables, pagingNewEntries]
  | i + 1, k => by
      have hstep : (pagingNewTables directory flags (i + 1) k).2.oom =
          (kzalloc 4096 (pagingNewTables directory flags i k).2).2.oom := rfl
      rw [hstep, kzalloc_oom_iff, pagingNewEntries_oom_iff directory flags i k, pagingNewEntries,
        List.mem_append, List.mem_singleton, not_or, and_assoc, ne_comm]

theorem pagingNewPointers_oom_iff (flags : UInt8) (k : Kernel) :
    (pagingNew4gb flags k).2.oom = false ↔ k.oom = false ∧ 0 ∉ pagingNewPointers flags k := by
  obtain ⟨n, hn⟩ : ∃ n, n = 1024 := ⟨_, rfl⟩
  unfold pagingNew4gb pagingNewPointers
  rw [← hn]
  dsimp only
  rw [kzalloc_oom_iff, pagingNewEntries_oom_iff, kzalloc_oom_iff, List.cons_append,
    List.mem_cons, List.mem_append, List.mem_singleton, not_or, not_or, and_assoc, and_assoc,
    ne_comm, ne_comm (b := (0 : UInt32))]

theorem pagingNewEntries_congr (directory : UInt32) (flags : UInt8) (h : k'.mem = k.mem) : ∀ i,
    pagingNewEntries directory flags i k' = pagingNewEntries directory flags i k
  | 0 => rfl
  | i + 1 => by
      unfold pagingNewEntries
      rw [pagingNewEntries_congr directory flags h i,
        (kzalloc_congr 4096 (pagingNewTables_congr directory flags h i).2).1]

theorem pagingNewPointers_congr (flags : UInt8) (h : k'.mem = k.mem) :
    pagingNewPointers flags k' = pagingNewPointers flags k := by
  obtain ⟨n, hn⟩ : ∃ n, n = 1024 := ⟨_, rfl⟩
  obtain ⟨hdirectory, hmem⟩ := kzalloc_congr 4096 h
  obtain ⟨-, hmem'⟩ := pagingNewTables_congr (kzalloc 4096 k).1 flags hmem n
  unfold pagingNewPointers
  rw [← hn]
  dsimp only
  rw [hdirectory, pagingNewEntries_congr _ flags hmem, (kzalloc_congr 4 hmem').1]

/-- If no result is null, `paging_new_4gb` builds a directory, whatever failed before. -/
theorem pagingNew4gb_of_pointers {flags : UInt8} (h : 0 ∉ pagingNewPointers flags k) :
    ∃ s : SpaceBlocks, (pagingNew4gb flags k).1 = blockAddr s.chunk ∧
      Takes k (pagingNew4gb flags k).2 s.blocks ∧
      Represents (pagingNew4gb flags k).2.mem s fun w => w ||| flags.toUInt32 := by
  have hmem : k.mem = (⟨k.mem, false⟩ : Kernel).mem := rfl
  rw [pagingNewPointers_congr flags hmem] at h
  obtain ⟨hchunk, hnew⟩ := pagingNew4gb_congr flags hmem
  obtain ⟨s, haddr, htakes, hrep⟩ :=
    pagingNew4gb_spec ((pagingNewPointers_oom_iff flags ⟨k.mem, false⟩).mpr ⟨rfl, h⟩)
  rw [← hchunk] at haddr
  rw [← hnew] at hrep
  refine ⟨s, haddr, ⟨htakes.lt, htakes.free, ?_, ?_, ?_⟩, hrep⟩ <;> rw [hnew]
  · exact htakes.single
  · exact htakes.entries
  · exact htakes.frame

variable {p out : UInt32} {process : Process}

theorem taskNewTrace_of_ne {st : TaskState} (h : (kzalloc 64 st.kernel).1 ≠ 0) :
    ∃ rest, taskNewTrace p process st =
      ⟨(kzalloc 64 st.kernel).1 :: pagingNewPointers (1 ||| 4) (kzalloc 64 st.kernel).2,
        (kzalloc 64 st.kernel).1 :: pagingNewPointers (1 ||| 4) (kzalloc 64 st.kernel).2 ++
          rest⟩ := by
  unfold taskNewTrace
  dsimp only
  rw [if_neg h]
  exact ⟨_, rfl⟩

theorem taskNewTrace_of_null {st : TaskState} (h : (kzalloc 64 st.kernel).1 = 0) :
    ∃ rest, taskNewTrace p process st = ⟨[0], 0 :: rest⟩ := by
  unfold taskNewTrace
  dsimp only
  rw [if_pos h]
  exact ⟨_, rfl⟩

/-- If no result is null, `task_new` makes a task, whatever failed before. -/
theorem taskNew_of_allocs {st : TaskState} (h : 0 ∉ (taskNewTrace p process st).allocs) :
    ∃ b s t k, NewTask p st.kernel k b s t ∧ taskNew p process st = (blockAddr b,
      taskAppend (blockAddr b)
        { st with kernel := k, tasks := Function.update st.tasks (blockAddr b) t }) := by
  by_cases hnull : (kzalloc 64 st.kernel).1 = 0
  · obtain ⟨rest, htrace⟩ := @taskNewTrace_of_null p process st hnull
    rw [htrace] at h
    exact absurd (List.mem_singleton_self 0) h
  · obtain ⟨rest, htrace⟩ := @taskNewTrace_of_ne p process st hnull
    rw [htrace] at h
    have hpointers := fun hmem => h (List.mem_cons_of_mem _ hmem)
    rcases hk : kzalloc 64 st.kernel with ⟨a, k₁⟩
    rw [hk] at hnull hpointers
    dsimp only at hnull hpointers
    rcases kzalloc_block (show 1 ≤ (64 : UInt32).toNat by decide) (by decide) st.kernel with
      ⟨b, hb, htake, -, -⟩ | ⟨hnone, -⟩
    · rw [hk] at hb htake
      dsimp only at hb htake
      obtain ⟨s, hchunk, htakes, hrep⟩ := pagingNew4gb_of_pointers hpointers
      rcases hnew : pagingNew4gb (1 ||| 4) k₁ with ⟨chunk, k₂⟩
      rw [hnew] at hchunk htakes hrep
      dsimp only at hchunk htakes hrep
      have hne : chunk ≠ 0 := by rw [hchunk]; exact blockAddr_ne_zero s.chunk_lt
      obtain ⟨hres, hdir, hprocess, hnext, hprev⟩ :=
        taskInitRegisters_of_ne p process k₂.mem hne
      refine ⟨b, s, (taskInitRegisters p process chunk k₂.mem).2, k₂,
        ⟨?_, fun hmem => htake.taken rfl (htakes.free b hmem), hrep, hdir.trans hchunk, hprocess,
          hnext, hprev⟩, ?_⟩
      · rw [Set.insert_eq]
        exact htake.trans htakes
      · rw [taskNew_of_ne hk hnull (taskInit_eq hnew), if_neg (not_not.mpr hres), hb]
    · rw [hk] at hnone
      exact absurd (congrArg Prod.fst hnone) hnull

/-- A null result is followed. -/
theorem taskNewTrace_null {st : TaskState} (h : 0 ∈ (taskNewTrace p process st).allocs) :
    0 ∈ (taskNewTrace p process st).derefs := by
  by_cases hnull : (kzalloc 64 st.kernel).1 = 0
  · obtain ⟨rest, htrace⟩ := @taskNewTrace_of_null p process st hnull
    rw [htrace]
    exact List.mem_cons_self
  · obtain ⟨rest, htrace⟩ := @taskNewTrace_of_ne p process st hnull
    rw [htrace] at h ⊢
    exact List.mem_append_left _ h

theorem not_badPointer_blockAddr {b : ℕ} (hb : b < 25600) : ¬ BadPointer (blockAddr b) := by
  rintro (h | h)
  · exact blockAddr_ne_zero hb h
  · rw [toNat_blockAddr hb, i32_of_range (by omega) (by omega)] at h
    omega

/-! ### The maps of a process -/

/-- The pages of the image: those of every program header in order, or the blocks of a flat
binary; `m` is the memory in which the headers are read. -/
def imageHistory (process : Process) (task : Task) (m : Mem) : List (UInt32 × UInt32) :=
  if process.filetype = processFiletypeElf then
    (processMapElfHeaders process.elfFile task (elfHeader process.elfFile)
      (elfPheader m (elfHeader process.elfFile)) 0 m).flatMap (phdrHistory process.elfFile)
  else
    sweep (fun i => off peachosProgramVirtualAddress (4096 * i))
      (fun i => off process.ptr (4096 * i) ||| pageFlagsWrite) (blocksFor process.size)

/-- The image and the stack are mapped in the directory of the task: it is the identity, with
their pages written over it. -/
def MapsInstalled (process : Process) (task : Task) (m : Mem) : Prop :=
  ∃ (s : SpaceBlocks) (m₀ : Mem), task.pageDirectory = blockAddr s.chunk ∧ OnlyTables s m₀ m ∧
    Represents m s (replay (fun w => w ||| pageFlagsRead)
      (imageHistory process task m₀ ++ stackHistory process))

/-- The blocks of a flat binary end before the end of the address space. -/
def RangeFits (process : Process) : Prop :=
  process.filetype = processFiletypeBinary →
    process.ptr.toNat + 4096 * blocksFor process.size < 4294967296

/-- Some program header that is read cannot be mapped. -/
def MapRefused (process : Process) (task : Task) (m : Mem) : Prop :=
  process.filetype = processFiletypeElf ∧
    ∃ phdr ∈ processMapElfHeaders process.elfFile task (elfHeader process.elfFile)
      (elfPheader m (elfHeader process.elfFile)) 0 m, ¬ PhdrInOrder process.elfFile phdr

variable {m m' : Mem} {s : SpaceBlocks} {f : UInt32 → UInt32} {task : Task}

/-- The loop of `process_map_elf` fails exactly on a header that cannot be mapped. -/
theorem processMapElfLoop_neg_iff {elfFile : ElfFile} {header phdrs : UInt32} (i : ℕ) (res : ℤ)
    (m : Mem) (hdir : task.pageDirectory = blockAddr s.chunk) (h : PageTables m s)
    (hres : 0 ≤ res) :
    (processMapElfLoop elfFile task header phdrs i res m).1 < 0 ↔
      ∃ phdr ∈ processMapElfHeaders elfFile task header phdrs i m, ¬ PhdrInOrder elfFile phdr := by
  have hrep : ∀ {m : Mem}, PageTables m s → Represents m s fun w => m.read32 (s.slot w) :=
    fun h => ⟨h, fun _ _ => rfl⟩
  fun_induction processMapElfLoop elfFile task header phdrs i res m with
  | case1 i res m hi r =>
      rename_i hneg
      rw [processMapElfHeaders, dif_pos hi]
      refine iff_of_true hneg ⟨_, List.mem_cons_self, fun horder => ?_⟩
      obtain ⟨m₁, hmap, -, -⟩ := processMapPhdr_spec hdir (hrep h) horder
      have hr : r = (0, m₁) := hmap
      rw [hr] at hneg
      exact lt_irrefl 0 hneg
  | case2 i res m hi r =>
      rename_i hneg ih
      have horder : PhdrInOrder elfFile (readElf32Phdr m (off phdrs (32 * i))) := by
        by_contra hno
        have hr : r = (-EINVARG, m) := processMapPhdr_refused hno m
        rw [hr] at hneg
        exact hneg (show -EINVARG < 0 by decide)
      obtain ⟨m₁, hmap, hrep₁, -⟩ := processMapPhdr_spec hdir (hrep h) horder
      have hr : r = (0, m₁) := hmap
      rw [hr] at ih ⊢
      have hrest : (processMapElfLoop elfFile task header phdrs (i + 1) 0 m₁).1 < 0 ↔ _ :=
        ih hrep₁.tables le_rfl
      rw [processMapElfHeaders, dif_pos hi]
      dsimp only
      rw [hmap, if_neg (lt_irrefl 0), List.exists_mem_cons_iff,
        or_iff_right (not_not.mpr horder)]
      exact hrest
  | case3 i res m hi =>
      rw [processMapElfHeaders, dif_neg hi]
      refine iff_of_false (not_lt.mpr hres) ?_
      rintro ⟨phdr, hmem, -⟩
      exact absurd hmem List.not_mem_nil

/-- Two readings of one directory agree. -/
theorem Represents.unique {s' : SpaceBlocks} {f' : UInt32 → UInt32} (h : Represents m s f)
    (h' : Represents m s' f') (hchunk : blockAddr s.chunk = blockAddr s'.chunk) {w : UInt32}
    (hw : PageAligned w) : f w = f' w := by
  have hdirectory : blockAddr s.directory = blockAddr s'.directory := by
    rw [← h.tables.chunk, ← h'.tables.chunk, hchunk]
  rw [← pagingGet_spec h hw, ← pagingGet_spec h' hw, hdirectory]

/-- The `paging_map_to` call for a flat binary: its blocks are mapped if they end before the end
of the address space, and otherwise nothing is. -/
theorem pagingMapTo_image (h : Represents m s f) {b : ℕ} (hb : b < 25600) {ptr : UInt32}
    (hptr : ptr = blockAddr b) (size : UInt32) :
    ∃ q, pagingMapTo (blockAddr s.chunk) peachosProgramVirtualAddress ptr
        (pagingAlignAddress (ptr + size)) pageFlagsWrite m = q ∧
      (ptr.toNat + 4096 * blocksFor size < 4294967296 →
        Represents q.2 s (replay f (sweep (fun i => off peachosProgramVirtualAddress (4096 * i))
          (fun i => off ptr (4096 * i) ||| pageFlagsWrite) (blocksFor size)))) ∧
      (¬ ptr.toNat + 4096 * blocksFor size < 4294967296 → Represents q.2 s f) := by
  have haddr : ptr.toNat = 16777216 + 4096 * b := by rw [hptr, toNat_blockAddr hb]
  have haligned : PageAligned ptr := by
    unfold PageAligned
    omega
  have hsize := toNat_lt size
  have hend : (pagingAlignAddress (ptr + size)).toNat =
      (ptr.toNat + 4096 * blocksFor size) % 4294967296 := by
    rw [toNat_pagingAlignAddress, UInt32.toNat_add]
    unfold blocksFor
    omega
  have hblocks : 4096 * blocksFor size ≤ 4294967296 := by
    unfold blocksFor
    omega
  refine ⟨_, rfl, fun hfits => ?_, fun hno => ?_⟩
  · rw [Nat.mod_eq_of_lt hfits] at hend
    have hle : ¬ pagingAlignAddress (ptr + size) < ptr := by
      rw [UInt32.lt_iff_toNat_lt, hend]
      omega
    have hpages : ((pagingAlignAddress (ptr + size) - ptr) / pagingPageSize).toNat =
        blocksFor size := by
      rw [UInt32.toNat_div, UInt32.toNat_sub_of_le _ _ (UInt32.not_lt.mp hle), hend,
        show pagingPageSize.toNat = 4096 from rfl]
      omega
    obtain ⟨m', hmap, hrep, -⟩ := pagingMapTo_spec h
      (show PageAligned peachosProgramVirtualAddress by decide) haligned
      (pageAligned_pagingAlignAddress _) hle pageFlagsWrite
    rw [hmap]
    unfold mapHistory at hrep
    rwa [hpages] at hrep
  · by_cases hlt : pagingAlignAddress (ptr + size) < ptr
    · rw [pagingMapTo_of_lt (by decide) haligned hlt]
      exact h
    · -- the end is the start again: no page is mapped
      have hsame : pagingAlignAddress (ptr + size) = ptr := by
        apply UInt32.toNat.inj
        rw [UInt32.lt_iff_toNat_lt] at hlt
        omega
      obtain ⟨m', hmap, hrep, -⟩ := pagingMapTo_spec h
        (show PageAligned peachosProgramVirtualAddress by decide) haligned
        (pageAligned_pagingAlignAddress _) hlt pageFlagsWrite
      rw [hmap]
      unfold mapHistory at hrep
      rwa [hsame, sub_self, show ((0 : UInt32) / pagingPageSize).toNat = 0 from rfl] at hrep

/-- The page of the program is not written by the stack. -/
theorem lastWrite_stackHistory_program (process : Process) {b : ℕ} (hb : b < 25600)
    (hstack : process.stack = blockAddr b) :
    PageAligned process.stack ∧
      ¬ pagingAlignAddress (process.stack + peachosUserProgramStackSize) < process.stack ∧
      lastWrite (stackHistory process) peachosProgramVirtualAddress = none := by
  have haddr : process.stack.toNat = 16777216 + 4096 * b := by rw [hstack, toNat_blockAddr hb]
  have hend : (pagingAlignAddress (process.stack + peachosUserProgramStackSize)).toNat =
      process.stack.toNat + 16384 := by
    rw [toNat_pagingAlignAddress, UInt32.toNat_add,
      show peachosUserProgramStackSize.toNat = 16384 from rfl]
    omega
  have hle : ¬ pagingAlignAddress (process.stack + peachosUserProgramStackSize) <
      process.stack := by
    rw [UInt32.lt_iff_toNat_lt, hend]
    omega
  refine ⟨?_, hle, ?_⟩
  · unfold PageAligned
    omega
  · unfold stackHistory
    rw [lastWrite_mapHistory_eq_none_iff, UInt32.toNat_div,
      UInt32.toNat_sub_of_le _ _ (UInt32.not_lt.mp hle), hend,
      show peachosProgramVirtualStackAddressEnd = 0x3FB000 by decide]
    intro i hi
    refine stackPage_ne (by decide) i ?_
    rw [show pagingPageSize.toNat = 4096 from rfl] at hi
    omega

theorem processMapStack_res (process : Process) (task : Task) (r : ℤ × Mem) :
    (processMapStack process task r).1 = r.1 := by
  unfold processMapStack
  split_ifs <;> rfl

/-- `process_map_memory` fails exactly on a program header that cannot be mapped. -/
theorem processMapMemory_neg_iff (hdir : task.pageDirectory = blockAddr s.chunk)
    (h : PageTables m s) {q : ℤ × Mem} (hq : processMapMemory process task m = some q) :
    q.1 < 0 ↔ MapRefused process task m := by
  unfold processMapMemory at hq
  unfold MapRefused
  split_ifs at hq with hself hbin
  · obtain rfl := Option.some.inj hq
    rw [processMapStack_res, and_iff_right hself]
    exact processMapElfLoop_neg_iff 0 0 m hdir h le_rfl
  · obtain rfl := Option.some.inj hq
    rw [processMapStack_res]
    exact iff_of_false (lt_irrefl 0) fun hrefused => hself hrefused.1

theorem processMapStack_spec (hdir : task.pageDirectory = blockAddr s.chunk) {b : ℕ}
    (hb : b < 25600) (hstack : process.stack = blockAddr b) {r : ℤ × Mem}
    (hrep : Represents r.2 s f) (hres : 0 ≤ r.1) :
    Represents (processMapStack process task r).2 s (replay f (stackHistory process)) := by
  obtain ⟨haligned, hle, -⟩ := lastWrite_stackHistory_program process hb hstack
  obtain ⟨m', hmap, hrep', -⟩ := pagingMapTo_spec hrep
    (show PageAligned peachosProgramVirtualStackAddressEnd by decide) haligned
    (pageAligned_pagingAlignAddress _) hle pageFlagsWrite
  unfold processMapStack
  rw [if_neg (not_lt.mpr hres), hdir, hmap]
  exact hrep'

/-- When `process_map_memory` succeeds on a new directory, the maps are installed unless the
range of a flat binary does not fit into the address space. -/
theorem mapsInstalled_iff (hdir : task.pageDirectory = blockAddr s.chunk)
    (hrep : Represents m s fun w => w ||| pageFlagsRead) {b : ℕ} (hb : b < 25600)
    (hstack : process.stack = blockAddr b)
    (hptr : process.filetype = processFiletypeBinary → ∃ c < 25600, process.ptr = blockAddr c)
    {q : ℤ × Mem} (hq : processMapMemory process task m = some q) (hres : 0 ≤ q.1) :
    MapsInstalled process task q.2 ↔ RangeFits process := by
  have htables := processMapMemory_onlyTables hdir hrep.tables hq
  unfold processMapMemory at hq
  split_ifs at hq with hself hbin
  · obtain rfl := Option.some.inj hq
    rw [processMapStack_res] at hres
    have hheaders := (processMapElfLoop_headers hdir hrep hres).1
    have hspace := processMapStack_spec hdir hb hstack hheaders hres
    rw [← replay_append] at hspace
    refine iff_of_true ⟨s, m, hdir, htables, ?_⟩ fun hbin => ?_
    · unfold imageHistory
      rw [if_pos hself]
      exact hspace
    · rw [hself] at hbin
      exact absurd hbin (by decide)
  · obtain rfl := Option.some.inj hq
    obtain ⟨c, hc, haddr⟩ := hptr hbin
    obtain ⟨r, hmap, hfits, hunfit⟩ := pagingMapTo_image hrep hc haddr process.size
    have hbinary : processMapBinary process task m = (0, r.2) := by
      unfold processMapBinary
      rw [hdir, hmap]
    rw [hbinary] at htables ⊢
    have himage : ∀ m₀, imageHistory process task m₀ =
        sweep (fun i => off peachosProgramVirtualAddress (4096 * i))
          (fun i => off process.ptr (4096 * i) ||| pageFlagsWrite) (blocksFor process.size) :=
      fun m₀ => if_neg hself
    constructor
    · rintro ⟨s', m₀, hdir', -, hrep'⟩ -
      by_contra hno
      -- the first page of the program still has its identity entry
      have hactual := processMapStack_spec (r := (0, r.2)) hdir hb hstack (hunfit hno) le_rfl
      have hsame := hactual.unique hrep' (hdir.symm.trans hdir')
        (show PageAligned peachosProgramVirtualAddress by decide)
      obtain ⟨haligned, -, hnone⟩ := lastWrite_stackHistory_program process hb hstack
      have hblocks : 0 < blocksFor process.size ∧ blocksFor process.size ≤ 1048576 := by
        have := toNat_lt process.ptr
        have := toNat_lt process.size
        unfold blocksFor at hno ⊢
        omega
      have hfirst : lastWrite (sweep (fun i => off peachosProgramVirtualAddress (4096 * i))
          (fun i => off process.ptr (4096 * i) ||| pageFlagsWrite) (blocksFor process.size))
          (off peachosProgramVirtualAddress (4096 * 0)) =
            some (off process.ptr (4096 * 0) ||| pageFlagsWrite) :=
        lastWrite_sweep (off_page_inj hblocks.2 peachosProgramVirtualAddress) hblocks.1
      rw [mul_zero, off_zero, off_zero] at hfirst
      rw [himage, replay_apply, replay_apply, lastWrite_append, hnone, hfirst] at hsame
      have hptrAligned : PageAligned process.ptr := by
        unfold PageAligned
        rw [haddr, toNat_blockAddr hc]
        omega
      refine not_userWritable_read
        (show PageAligned peachosProgramVirtualAddress by decide) ?_
      rw [show peachosProgramVirtualAddress ||| pageFlagsRead = process.ptr ||| pageFlagsWrite from
        hsame]
      exact userWritable_write hptrAligned
    · intro hrange
      refine ⟨s, m, hdir, htables, ?_⟩
      rw [himage, replay_append]
      exact processMapStack_spec (r := (0, r.2)) hdir hb hstack (hfits (hrange hbin)) le_rfl

/-! ### The states of a call -/

section Call

variable (load : Loader) (filename : List UInt8) (slot : ℤ) (st : Machine)

/-- The process structure, and the kernel that the file is loaded with. -/
def newProcess : UInt32 := (kzalloc 5260 st.sched.kernel).1
def newKernel : Kernel := (kzalloc 5260 st.sched.kernel).2

/-- The state once the file is loaded. -/
def dataState : Machine :=
  let data := load filename (newKernel st)
  (st.setKernel data.2).setProc (newProcess st) (data.1.store processFullZero)

/-- The stack, and the state once it is allocated. -/
def newStack : UInt32 :=
  (kzalloc peachosUserProgramStackSize (dataState load filename st).sched.kernel).1

def stackState : Machine :=
  let st' := dataState load filename st
  (st'.setKernel (kzalloc peachosUserProgramStackSize st'.sched.kernel).2).setProc (newProcess st)
    (withStack filename slot (newStack load filename st) (st'.procs (newProcess st)))

/-- The task, and the state once `task_new` has returned it. -/
def newTask : UInt32 × TaskState :=
  let st' := stackState load filename slot st
  taskNew (newProcess st) (st'.procs (newProcess st)).toProcess st'.sched

def taskState : Machine :=
  let st' := stackState load filename slot st
  ({ st' with sched := (newTask load filename slot st).2 } : Machine).setProc (newProcess st)
    { st'.procs (newProcess st) with task := (newTask load filename slot st).1 }

/-- The process that is mapped, and its task. -/
def mappedProcess : Process := ((taskState load filename slot st).procs (newProcess st)).toProcess
def mappedTask : Task :=
  (taskState load filename slot st).sched.tasks (mappedProcess load filename slot st).task

end Call

/-! ### Complete processes -/

/-- The file was loaded into memory that was allocated for it; `k` is the kernel that it was
loaded with. -/
def DataCreated (k : Kernel) : LoadedData → Prop
  | .unchanged _ => False
  -- `elf_load` looks at neither of its two allocations
  | .elf elfFile => (kzalloc 132 k).1 ≠ 0 ∧ elfFile.elfMemory ≠ 0
  | .binary ptr _ => ptr ≠ 0

/-- The process that a call returned was created completely. -/
structure Created (load : Loader) (filename : List UInt8) (st : Machine) (r : LoadResult) :
    Prop where
  data : DataCreated (newKernel st) (load filename (newKernel st)).1
  stack : (r.st.procs r.process).stack ≠ 0
  task : ∃ b < 25600, (r.st.procs r.process).task = blockAddr b ∧
    ¬ EntryFree kernelHeap r.st.sched.kernel.mem b
  maps : MapsInstalled (r.st.procs r.process).toProcess
    (r.st.sched.tasks (r.st.procs r.process).task) r.st.sched.kernel.mem

/-- A call in which an allocation fails returns a negative status, follows no bad pointer, and
leaves the table, `*process` and the tasks unchanged; and a call with another status has created
the process completely. -/
structure RegistersComplete (load : Loader) (filename : List UInt8) (slot : ℤ) (out : UInt32)
    (st : Machine) (r : LoadResult) : Prop where
  failed : 0 ∈ (processLoadForSlotTrace load filename slot st).allocs →
    r.res < 0 ∧ (∀ a ∈ (processLoadForSlotTrace load filename slot st).derefs, ¬ BadPointer a) ∧
      r.st.processes = st.processes ∧ r.process = out ∧
      r.st.sched = { st.sched with kernel := r.st.sched.kernel }
  complete : 0 ≤ r.res → Created load filename st r

/-- The allocations that are not looked at succeed: the call ends before `task_new`; or no
allocation of `task_new` and `task_init` fails, and the file is in memory that was allocated for
it and fits into the address space, or cannot be mapped. -/
def Supplied (load : Loader) (filename : List UInt8) (slot : ℤ) (st : Machine) : Prop :=
  newProcess st = 0 ∨ (load filename (newKernel st)).1.res < 0 ∨ newStack load filename st = 0 ∨
    0 ∉ (taskNewTrace (newProcess st)
      ((stackState load filename slot st).procs (newProcess st)).toProcess
      (stackState load filename slot st).sched).allocs ∧
    (DataCreated (newKernel st) (load filename (newKernel st)).1 ∧
        RangeFits (mappedProcess load filename slot st) ∨
      MapRefused (mappedProcess load filename slot st) (mappedTask load filename slot st)
        (taskState load filename slot st).sched.kernel.mem)

/-- A flat binary lies in a block. -/
theorem processLoadData_binary {files : List UInt8 → FileAccess} {filename : List UInt8}
    {ptr size : UInt32} (h : (processLoadData files filename k).1 = .binary ptr size) :
    ∃ b < 25600, ptr = blockAddr b := by
  unfold processLoadData at h
  dsimp only at h
  split_ifs at h with hformat
  · generalize (processLoadElf (files filename) k).2 = k₁ at h
    unfold processLoadBinary at h
    dsimp only at h
    split_ifs at h with hopen hstat hnull hread
    obtain ⟨rfl, rfl⟩ := LoadedData.binary.inj h
    rcases foundBlock_cases (files filename).filesize k₁.mem with hneg | ⟨b, hfound⟩
    · exact absurd (kzalloc_unfound hneg).1 hnull
    · exact ⟨b, hfound.lt, (kzalloc_found hfound).1⟩
  · unfold processLoadElf at h
    dsimp only at h
    split_ifs at h

/-! ### The call, state by state -/

variable {load : Loader} {filename : List UInt8} {slot : ℤ} {st : Machine} {uninit : UInt32}
  {r : LoadResult}

/-- The process at each state. -/
theorem dataState_process :
    ((dataState load filename st).procs (newProcess st)) =
      (load filename (newKernel st)).1.store processFullZero := Machine.setProc_self _ _ _

theorem taskState_process : (taskState load filename slot st).procs (newProcess st) =
    { withStack filename slot (newStack load filename st)
        ((load filename (newKernel st)).1.store processFullZero) with
      task := (newTask load filename slot st).1 } := by
  unfold taskState stackState dataState
  simp only [Machine.setProc_self]

theorem store_task (data : LoadedData) : (data.store processFullZero).task = 0 := by
  cases data <;> rfl

/-- The call by its states. -/
theorem processLoadForSlot_eq (hget : processGet slot st = 0) :
    processLoadForSlot load uninit filename slot out st =
      if newProcess st = 0 then some ⟨-ENOMEM, out, st.setKernel (newKernel st)⟩
      else if (load filename (newKernel st)).1.res < 0 then
        some ⟨(load filename (newKernel st)).1.res, out, dataState load filename st⟩
      else
        processLoadStack filename (newProcess st) slot out (dataState load filename st) := by
  have hnull : processLoadOut (-ENOMEM) 0 out (st.setKernel (newKernel st)) =
      ⟨-ENOMEM, out, st.setKernel (newKernel st)⟩ := if_neg fun h => h.2.1 rfl
  have hdata : processLoadOut (load filename (newKernel st)).1.res (newProcess st) out
      (dataState load filename st) =
        ⟨(load filename (newKernel st)).1.res, out, dataState load filename st⟩ :=
    processLoadOut_of_no_task _ _ (by rw [dataState_process]; exact store_task _)
  unfold processLoadForSlot
  rw [if_neg (not_not.mpr hget), ← hnull, ← hdata]
  rfl

theorem processLoadStack_eq :
    processLoadStack filename (newProcess st) slot out (dataState load filename st) =
      if newStack load filename st = 0 then
        some ⟨-ENOMEM, out, (dataState load filename st).setKernel
          (kzalloc peachosUserProgramStackSize (dataState load filename st).sched.kernel).2⟩
      else processLoadTask (newProcess st) slot out (stackState load filename slot st) := by
  have htask : ((dataState load filename st).procs (newProcess st)).task = 0 := by
    rw [dataState_process]
    exact store_task _
  have hnull : processLoadOut (-ENOMEM) (newProcess st) out ((dataState load filename st).setKernel
      (kzalloc peachosUserProgramStackSize (dataState load filename st).sched.kernel).2) =
      ⟨-ENOMEM, out, (dataState load filename st).setKernel
        (kzalloc peachosUserProgramStackSize (dataState load filename st).sched.kernel).2⟩ :=
    processLoadOut_of_no_task _ _ htask
  rw [← hnull]
  rfl

theorem processLoadTask_eq (htask : (newTask load filename slot st).1 ≠ 0) :
    processLoadTask (newProcess st) slot out (stackState load filename slot st) =
      processLoadMap (newProcess st) slot out (taskState load filename slot st) := by
  unfold processLoadTask
  exact if_neg htask

/-- What the states hold once `task_new` has made a task. -/
structure TaskMade (load : Loader) (filename : List UInt8) (slot : ℤ) (st : Machine) (b : ℕ)
    (s : SpaceBlocks) : Prop where
  lt : b < 25600
  task : (mappedProcess load filename slot st).task = blockAddr b
  directory : (mappedTask load filename slot st).pageDirectory = blockAddr s.chunk
  space : Represents (taskState load filename slot st).sched.kernel.mem s
    fun w => w ||| pageFlagsRead
  taken : ¬ EntryFree kernelHeap (taskState load filename slot st).sched.kernel.mem b

theorem taskMade_of_allocs (h : 0 ∉ (taskNewTrace (newProcess st)
    ((stackState load filename slot st).procs (newProcess st)).toProcess
    (stackState load filename slot st).sched).allocs) :
    (newTask load filename slot st).1 ≠ 0 ∧ ∃ b s, TaskMade load filename slot st b s := by
  obtain ⟨b, s, t, k, hnew, heq⟩ := taskNew_of_allocs h
  obtain ⟨-, own, hblocks, hheld⟩ := hnew.exists_holds rfl
  have hlt := hnew.lt
  have htask : newTask load filename slot st = (blockAddr b, taskAppend (blockAddr b)
      { (stackState load filename slot st).sched with
        kernel := k
        tasks := Function.update (stackState load filename slot st).sched.tasks (blockAddr b)
          t }) :=
    heq
  have hsched : (taskState load filename slot st).sched = (newTask load filename slot st).2 := rfl
  have hprocess : (mappedProcess load filename slot st).task = blockAddr b := by
    unfold mappedProcess
    rw [taskState_process, htask]
  have hmem : (taskState load filename slot st).sched.kernel = k := by
    rw [hsched, htask]
    exact taskAppend_kernel _ _
  refine ⟨by rw [htask]; exact blockAddr_ne_zero hlt, b, s, hlt, hprocess, ?_, ?_, ?_⟩
  · have hsame := (taskAppend_sameTask (blockAddr b)
      { (stackState load filename slot st).sched with
        kernel := k
        tasks := Function.update (stackState load filename slot st).sched.tasks (blockAddr b) t }
      (blockAddr b)).1
    dsimp only at hsame
    rw [Function.update_self, hnew.pageDirectory] at hsame
    unfold mappedTask
    rw [hprocess, hsched, htask]
    exact hsame
  · rw [hmem]
    exact hnew.space
  · rw [hmem]
    exact hnew.takes.taken (Set.mem_insert b _)

/-- The mapping and the entry in the table, for a task that was made. -/
theorem TaskMade.created_iff {b : ℕ} {s : SpaceBlocks} (hmade : TaskMade load filename slot st b s)
    (hbinary : ∀ ptr size, (load filename (newKernel st)).1 = .binary ptr size →
      ∃ c < 25600, ptr = blockAddr c)
    (hstack : newStack load filename st ≠ 0)
    (h : processLoadMap (newProcess st) slot out (taskState load filename slot st) = some r) :
    (0 ≤ r.res → Created load filename st r) ↔
      DataCreated (newKernel st) (load filename (newKernel st)).1 ∧
          RangeFits (mappedProcess load filename slot st) ∨
        MapRefused (mappedProcess load filename slot st) (mappedTask load filename slot st)
          (taskState load filename slot st).sched.kernel.mem := by
  obtain ⟨c, hc, haddr, -, -⟩ :=
    kzalloc_start (show 1 ≤ peachosUserProgramStackSize.toNat by decide) (by decide) hstack
  have hstackAddr : (mappedProcess load filename slot st).stack = blockAddr c := by
    unfold mappedProcess
    rw [taskState_process]
    exact haddr
  have hptr : (mappedProcess load filename slot st).filetype = processFiletypeBinary →
      ∃ d < 25600, (mappedProcess load filename slot st).ptr = blockAddr d := by
    unfold mappedProcess
    rw [taskState_process]
    intro hfile
    have hne : processFiletypeElf ≠ processFiletypeBinary := by decide
    cases hdata : (load filename (newKernel st)).1 with
    | unchanged res =>
        rw [hdata] at hfile
        exact absurd hfile hne
    | elf elfFile =>
        rw [hdata] at hfile
        exact absurd hfile hne
    | binary ptr size => exact hbinary ptr size hdata
  unfold processLoadMap at h
  obtain ⟨q, hq, rfl⟩ := Option.map_eq_some_iff.mp h
  change processMapMemory (mappedProcess load filename slot st) (mappedTask load filename slot st)
    (taskState load filename slot st).sched.kernel.mem = some q at hq
  have hneg := processMapMemory_neg_iff hmade.directory hmade.space.tables hq
  have htables := processMapMemory_onlyTables hmade.directory hmade.space.tables hq
  dsimp only
  by_cases hres : q.1 < 0
  · rw [if_pos hres]
    refine iff_of_true (fun hpos => ?_) (Or.inr (hneg.mp hres))
    have hout : ∀ st', (processLoadOut q.1 (newProcess st) out st').res = q.1 := by
      intro st'
      unfold processLoadOut
      split_ifs <;> rfl
    rw [hout] at hpos
    exact absurd hres (Int.not_lt.mpr hpos)
  · rw [if_neg hres, or_iff_left (hneg.not.mp hres)]
    have hinstalled := mapsInstalled_iff hmade.directory hmade.space hc hstackAddr hptr hq
      (not_lt.mp hres)
    constructor
    · intro hcreated
      have hcreated := hcreated (not_lt.mp hres)
      exact ⟨hcreated.data, hinstalled.mp hcreated.maps⟩
    · rintro ⟨hdata, hfits⟩ -
      refine ⟨hdata, ?_, ⟨b, hmade.lt, hmade.task, fun hfree => hmade.taken ?_⟩,
        hinstalled.mpr hfits⟩
      · change (mappedProcess load filename slot st).stack ≠ 0
        rw [hstackAddr]
        exact blockAddr_ne_zero hc
      · unfold EntryFree Heap.entry at hfree ⊢
        rwa [← htables _ fun hin => hin.not_inTable (by
          rw [kernelHeap_entries]
          exact inRange_off hmade.lt)]

theorem newProcess_blockAddr (hne : newProcess st ≠ 0) :
    ∃ b < 25600, newProcess st = blockAddr b := by
  obtain ⟨b, hb, haddr, -, -⟩ :=
    kzalloc_start (show 1 ≤ (5260 : UInt32).toNat by decide) (by decide) hne
  exact ⟨b, hb, haddr⟩

/-- The pointers of the call by its states. -/
theorem processLoadForSlotTrace_eq : processLoadForSlotTrace load filename slot st =
    if newProcess st = 0 then ⟨[0], []⟩
    else if (load filename (newKernel st)).1.res < 0 then ⟨[newProcess st], [newProcess st]⟩
    else if newStack load filename st = 0 then
      ⟨[newProcess st, 0], [newProcess st, newProcess st]⟩
    else
      let task := taskNewTrace (newProcess st)
        ((stackState load filename slot st).procs (newProcess st)).toProcess
        (stackState load filename slot st).sched
      ⟨newProcess st :: newStack load filename st :: task.allocs,
        newProcess st :: newProcess st :: task.derefs⟩ := by
  have hrest : processLoadStackTrace filename (newProcess st) slot (dataState load filename st) =
      if newStack load filename st = 0 then ⟨[0], [newProcess st]⟩
      else
        let task := taskNewTrace (newProcess st)
          ((stackState load filename slot st).procs (newProcess st)).toProcess
          (stackState load filename slot st).sched
        ⟨newStack load filename st :: task.allocs, newProcess st :: task.derefs⟩ := rfl
  have hwhole : processLoadForSlotTrace load filename slot st =
      if newProcess st = 0 then ⟨[0], []⟩
      else if (load filename (newKernel st)).1.res < 0 then ⟨[newProcess st], [newProcess st]⟩
      else
        let rest := processLoadStackTrace filename (newProcess st) slot (dataState load filename st)
        ⟨newProcess st :: rest.allocs, newProcess st :: rest.derefs⟩ := rfl
  rw [hwhole, hrest]
  split_ifs <;> rfl

/-! ### The call returns -/

/-- With a file type that `process_map_memory` knows the rest of the call does not panic. -/
theorem processLoadTask_returns {p : UInt32} (out : UInt32)
    (hfile : (st.procs p).filetype = processFiletypeElf ∨
      (st.procs p).filetype = processFiletypeBinary) :
    ∃ r, processLoadTask p slot out st = some r := by
  have hmap : ∀ {st : Machine}, ((st.procs p).filetype = processFiletypeElf ∨
      (st.procs p).filetype = processFiletypeBinary) →
        ∃ r, processLoadMap p slot out st = some r := by
    intro st hfile
    unfold processLoadMap processMapMemory
    dsimp only
    by_cases helf : (st.procs p).toProcess.filetype = processFiletypeElf
    · rw [if_pos helf]
      exact ⟨_, rfl⟩
    · rw [if_neg helf, if_pos (hfile.resolve_left helf)]
      exact ⟨_, rfl⟩
  unfold processLoadTask
  dsimp only
  split_ifs
  · exact ⟨_, rfl⟩
  · refine hmap ?_
    rw [Machine.setProc_self]
    exact hfile

/-- Whatever was loaded, the file type is one of the two; a zeroed structure has the first. -/
theorem store_filetype (data : LoadedData) :
    (data.store processFullZero).filetype = processFiletypeElf ∨
      (data.store processFullZero).filetype = processFiletypeBinary := by
  cases data with
  | unchanged res => exact Or.inl rfl
  | elf elfFile => exact Or.inl rfl
  | binary ptr size => exact Or.inr rfl

/-- A call for a free slot never panics. -/
theorem processLoadForSlot_returns (uninit out : UInt32) (hget : processGet slot st = 0) :
    ∃ r, processLoadForSlot load uninit filename slot out st = some r := by
  rw [processLoadForSlot_eq hget, processLoadStack_eq]
  split_ifs with hprocess hdata hstack
  · exact ⟨_, rfl⟩
  · exact ⟨_, rfl⟩
  · exact ⟨_, rfl⟩
  · refine processLoadTask_returns out ?_
    unfold stackState
    rw [Machine.setProc_self, dataState_process]
    exact store_filetype _

/-! ### When a call registers only complete processes -/

/-- What a call that returns has done, followed to each of its ends. -/
theorem registersComplete_iff {files : List UInt8 → FileAccess} (hslot : IsSlot slot)
    (hfree : st.processes slot = 0)
    (h : processLoadForSlot (processLoadData files) uninit filename slot out st = some r) :
    RegistersComplete (processLoadData files) filename slot out st r ↔
      Supplied (processLoadData files) filename slot st := by
  have hget : processGet slot st = 0 := (processGet_of_isSlot hslot).trans hfree
  have htrace := @processLoadForSlotTrace_eq (processLoadData files) filename slot st
  rw [processLoadForSlot_eq hget] at h
  by_cases hprocess : newProcess st = 0
  · rw [if_pos hprocess] at h htrace
    obtain rfl := Option.some.inj h
    refine iff_of_true ⟨fun _ => ⟨show -ENOMEM < 0 by decide, ?_, rfl, rfl, rfl⟩, fun hres => ?_⟩
      (Or.inl hprocess)
    · rw [htrace]
      exact fun a ha => absurd ha List.not_mem_nil
    · exact absurd hres (show ¬ 0 ≤ -ENOMEM by decide)
  · rw [if_neg hprocess] at h htrace
    obtain ⟨b, hb, haddr⟩ := newProcess_blockAddr hprocess
    by_cases hdata : (processLoadData files filename (newKernel st)).1.res < 0
    · rw [if_pos hdata] at h htrace
      obtain rfl := Option.some.inj h
      refine iff_of_true ⟨fun hnull => ?_, fun hres => absurd hdata (Int.not_lt.mpr hres)⟩
        (Or.inr (Or.inl hdata))
      rw [htrace, List.mem_singleton] at hnull
      exact absurd hnull.symm hprocess
    · rw [if_neg hdata] at h htrace
      rw [processLoadStack_eq] at h
      by_cases hstack : newStack (processLoadData files) filename st = 0
      · rw [if_pos hstack] at h htrace
        obtain rfl := Option.some.inj h
        refine iff_of_true ⟨fun _ => ⟨show -ENOMEM < 0 by decide, ?_, rfl, rfl, rfl⟩,
          fun hres => ?_⟩ (Or.inr (Or.inr (Or.inl hstack)))
        · rw [htrace, haddr]
          intro a ha
          obtain rfl : a = blockAddr b := by simpa using ha
          exact not_badPointer_blockAddr hb
        · exact absurd hres (show ¬ 0 ≤ -ENOMEM by decide)
      · rw [if_neg hstack] at h htrace
        dsimp only at htrace
        by_cases hallocs : 0 ∈ (taskNewTrace (newProcess st)
            ((stackState (processLoadData files) filename slot st).procs (newProcess st)).toProcess
            (stackState (processLoadData files) filename slot st).sched).allocs
        · -- a null result of `task_new` or `paging_new_4gb` is followed
          refine iff_of_false (fun hreg => ?_) ?_
          · have hnull : (0 : UInt32) ∈
                (processLoadForSlotTrace (processLoadData files) filename slot st).allocs := by
              rw [htrace]
              exact List.mem_cons_of_mem _ (List.mem_cons_of_mem _ hallocs)
            refine (hreg.failed hnull).2.1 0 ?_ (Or.inl rfl)
            rw [htrace]
            exact List.mem_cons_of_mem _ (List.mem_cons_of_mem _ (taskNewTrace_null hallocs))
          · rintro (hno | hno | hno | ⟨hno, -⟩)
            · exact hprocess hno
            · exact hdata hno
            · exact hstack hno
            · exact hno hallocs
        · obtain ⟨htask, c, s, hmade⟩ := taskMade_of_allocs hallocs
          rw [processLoadTask_eq htask] at h
          have hiff := hmade.created_iff (fun _ _ => processLoadData_binary) hstack h
          constructor
          · intro hreg
            exact Or.inr (Or.inr (Or.inr ⟨hallocs, hiff.mp hreg.complete⟩))
          · rintro (hno | hno | hno | ⟨-, hcond⟩)
            · exact absurd hno hprocess
            · exact absurd hno hdata
            · exact absurd hno hstack
            · refine ⟨fun hnull => ?_, hiff.mpr hcond⟩
              rw [htrace, List.mem_cons, List.mem_cons] at hnull
              rcases hnull with hnull | hnull | hnull
              · exact absurd hnull.symm hprocess
              · exact absurd hnull.symm hstack
              · exact absurd hnull hallocs

/-- **Which processes are registered.**  A call for a free slot returns, and it registers only
what was created completely, and undoes what a failed allocation leaves, exactly if the
allocations that it does not check succeed. -/
theorem processLoadForSlot_complete_iff {files : List UInt8 → FileAccess} (hslot : IsSlot slot)
    (hfree : st.processes slot = 0) :
    ∃ r, processLoadForSlot (processLoadData files) uninit filename slot out st = some r ∧
      (RegistersComplete (processLoadData files) filename slot out st r ↔
        Supplied (processLoadData files) filename slot st) := by
  obtain ⟨r, hr⟩ := @processLoadForSlot_returns (processLoadData files) filename slot st uninit out
    ((processGet_of_isSlot hslot).trans hfree)
  exact ⟨r, hr, registersComplete_iff hslot hfree hr⟩

/-! ### A load with and without memory -/

/-- Loading a flat binary up to its stack, while there is room at the top of the heap. -/
theorem stackState_zeroFile {live : Layout UInt32} {n : ℕ}
    (htop : TopFree st.sched.kernel live n) (hn : n + 9 ≤ 25600) (filename : List UInt8)
    (slot : ℤ) {load : Loader} (hload : load = processLoadData fun _ => zeroFile) :
    ∃ a live', newProcess st ≠ 0 ∧ (∃ b < 25600, a = blockAddr b) ∧
      (load filename (newKernel st)).1 = .binary a 16 ∧ newStack load filename st ≠ 0 ∧
      TopFree (stackState load filename slot st).sched.kernel live' (n + 9) ∧
      ∀ x e, live x = some e → live' x = some e := by
  have htwo : blocksFor 5260 = 2 := by decide
  have hfour : blocksFor peachosUserProgramStackSize = 4 := by decide
  obtain ⟨p, k₁, live₁, hk₁, htop₁, halloc, -, hkeep₁⟩ :=
    htop.kzalloc 5260 (by decide) (by rw [htwo]; omega)
  rw [htwo] at htop₁
  have hp : newProcess st = p := congrArg Prod.fst hk₁
  have hnew : newKernel st = k₁ := congrArg Prod.snd hk₁
  have hne := htop₁.heap.allocated_ne_zero halloc
  obtain ⟨a, k₂, live₂, hk₂, htop₂, himage, hkeep₂⟩ :=
    processLoadData_zeroFile htop₁ (by omega) filename
  rw [← hload, ← hnew] at hk₂
  have hdata : (dataState load filename st).sched.kernel = k₂ := congrArg Prod.snd hk₂
  rw [← hdata] at htop₂
  obtain ⟨stack, k₃, live₃, hk₃, htop₃, hstackAlloc, -, hkeep₃⟩ :=
    htop₂.kzalloc peachosUserProgramStackSize (by decide) (by rw [hfour]; omega)
  have hlast : (stackState load filename slot st).sched.kernel = k₃ := congrArg Prod.snd hk₃
  rw [hfour, ← hlast] at htop₃
  refine ⟨a, live₃, ?_, ?_, congrArg Prod.fst hk₂, ?_, htop₃,
    fun x e he => hkeep₃ x e (hkeep₂ x e (hkeep₁ x e he))⟩
  · rwa [hp]
  · rw [hdata] at htop₂
    exact htop₂.heap.allocated_block himage
  · unfold newStack
    rw [hk₃]
    exact htop₃.heap.allocated_ne_zero hstackAlloc

/-- With that room no allocation of `task_new` fails. -/
theorem taskNewTrace_of_top {st : TaskState} {live : Layout UInt32} {n : ℕ}
    (htop : TopFree st.kernel live n) (hn : n + 1027 ≤ 25600) :
    0 ∉ (taskNewTrace p process st).allocs := by
  have hone : blocksFor 64 = 1 := by decide
  obtain ⟨a, k₁, live₁, hk₁, htop₁, halloc, -⟩ := htop.kzalloc 64 (by decide) (by omega)
  have hne : (kzalloc 64 st.kernel).1 ≠ 0 := by
    rw [hk₁]
    exact htop₁.heap.allocated_ne_zero halloc
  rw [hone] at htop₁
  obtain ⟨chunk, k₂, live₂, hk₂, -, htop₂, -⟩ := htop₁.pagingNew4gb (1 ||| 4) (by omega)
  obtain ⟨rest, htrace⟩ := @taskNewTrace_of_ne p process st hne
  rw [htrace, List.mem_cons, not_or]
  refine ⟨hne.symm, ((pagingNewPointers_oom_iff (1 ||| 4) (kzalloc 64 st.kernel).2).mp ?_).2⟩
  rw [hk₁, hk₂]
  exact htop₂.ok

/-- In a machine that has just started a flat binary is registered, and on a full heap nothing
is. -/
theorem processLoadForSlot_complete_iff_started :
    (∃ r, processLoadForSlot (processLoadData fun _ => zeroFile) 0 [] 0 0 freshMachine = some r ∧
      r.res = 0 ∧ RegistersComplete (processLoadData fun _ => zeroFile) [] 0 0 freshMachine r) ∧
    ∃ r, processLoadForSlot (processLoadData fun _ => zeroFile) 0 [] 0 0
        (freshMachine.setKernel ⟨fun _ => 0x41, false⟩) = some r ∧
      RegistersComplete (processLoadData fun _ => zeroFile) [] 0 0
        (freshMachine.setKernel ⟨fun _ => 0x41, false⟩) r := by
  constructor
  · obtain ⟨st, hst⟩ : ∃ st, st = freshMachine := ⟨_, rfl⟩
    have hfree : st.processes 0 = 0 := by
      rw [hst]
      rfl
    have htop : TopFree st.sched.kernel Extents.empty 0 := by
      rw [hst]
      exact freshKernel_topFree
    rw [← hst]
    obtain ⟨load, hload⟩ : ∃ load : Loader, load = processLoadData fun _ => zeroFile := ⟨_, rfl⟩
    obtain ⟨r, -, -, hr, hres, -⟩ := processLoadForSlot_zeroFile htop (by decide)
      ((processGet_of_isSlot (i := 0) ⟨le_rfl, by decide⟩).trans hfree) 0 [] 0
    obtain ⟨r', hr', hiff⟩ := @processLoadForSlot_complete_iff 0 [] 0 st 0 (fun _ => zeroFile)
      ⟨le_rfl, by decide⟩ hfree
    obtain rfl : r' = r := Option.some.inj (hr'.symm.trans hr)
    refine ⟨r', hr, hres, hiff.mpr (Or.inr (Or.inr (Or.inr ?_)))⟩
    obtain ⟨a, live, -, ⟨b, hb, ha⟩, hdata, -, htop', -⟩ :=
      stackState_zeroFile htop (by decide) [] 0 hload
    rw [← hload]
    refine ⟨taskNewTrace_of_top htop' (by decide), Or.inl ⟨?_, fun _ => ?_⟩⟩
    · rw [hdata]
      exact ha ▸ blockAddr_ne_zero hb
    · have hptr : (mappedProcess load [] 0 st).ptr = a ∧
          (mappedProcess load [] 0 st).size = 16 := by
        unfold mappedProcess
        rw [taskState_process, hdata]
        exact ⟨rfl, rfl⟩
      have hone : blocksFor 16 = 1 := by decide
      rw [hptr.1, hptr.2, ha, hone, toNat_blockAddr hb]
      omega
  · obtain ⟨st, hst⟩ : ∃ st, st = freshMachine.setKernel ⟨fun _ => 0x41, false⟩ := ⟨_, rfl⟩
    have hfree : st.processes 0 = 0 := by
      rw [hst]
      rfl
    have hnull : newProcess st = 0 := by
      unfold newProcess
      rw [hst]
      exact kzalloc_full_null 5260
    rw [← hst]
    obtain ⟨r, hr, hiff⟩ := @processLoadForSlot_complete_iff 0 [] 0 st 0 (fun _ => zeroFile)
      ⟨le_rfl, by decide⟩ hfree
    exact ⟨r, hr, hiff.mpr (Or.inl hnull)⟩

/-! ### A task without memory -/

/-- The blocks of an allocation are not free. -/
theorem freeBlocks_card_add_le {live : Layout UInt32} (hheap : HeapInv kernelHeap k.mem live)
    {a : UInt32} {e : Extent} (he : live a = some e) : (freeBlocks k).card + e.len ≤ 25600 := by
  have hin := hheap.encodes.packed.inside a e he
  rw [kernelHeap_total] at hin
  have hdisj : Disjoint (freeBlocks k) (Finset.Ico e.start (e.start + e.len)) := by
    rw [Finset.disjoint_left]
    intro b hb hmem
    rw [mem_freeBlocks] at hb
    rw [Finset.mem_Ico] at hmem
    exact hheap.taken he ⟨hmem.1, hmem.2⟩ hb.2
  have hsub : freeBlocks k ∪ Finset.Ico e.start (e.start + e.len) ⊆ Finset.range 25600 := by
    intro b hb
    rw [Finset.mem_union, mem_freeBlocks, Finset.mem_Ico] at hb
    rw [Finset.mem_range]
    omega
  have hcard := Finset.card_le_card hsub
  rw [Finset.card_union_of_disjoint hdisj, Nat.card_Ico, Finset.card_range] at hcard
  omega

/-- A task and its directory need more than 1024 free blocks. -/
theorem taskNewTrace_null_of_card {st : TaskState} (h : (freeBlocks st.kernel).card < 1024) :
    0 ∈ (taskNewTrace p process st).allocs := by
  by_contra hno
  obtain ⟨b, s, t, k, hnew, -⟩ := taskNew_of_allocs hno
  have hsub : (Finset.range 1024).image s.table ⊆ freeBlocks st.kernel := by
    intro c hc
    obtain ⟨i, hi, rfl⟩ := Finset.mem_image.mp hc
    have hi := Finset.mem_range.mp hi
    exact mem_freeBlocks.mpr ⟨s.table_lt i hi,
      hnew.takes.free _ (Or.inr (Or.inr (Or.inr ⟨i, hi, rfl⟩)))⟩
  have hcard := Finset.card_le_card hsub
  rw [Finset.card_image_of_injOn, Finset.card_range] at hcard
  · omega
  · intro i hi j hj hij
    exact s.table_inj i (Finset.mem_range.mp hi) j (Finset.mem_range.mp hj) hij

/-- A machine with 500 free blocks. -/
theorem exists_short_heap : ∃ (k : Kernel) (live : Layout UInt32) (a : UInt32) (e : Extent),
    k = (kzalloc 102809600 freshKernel).2 ∧ TopFree k live 25100 ∧ live a = some e ∧
      e.len = 25100 := by
  obtain ⟨a, k, live, hk, htop, ⟨e, he, hlen⟩, -, -⟩ :=
    freshKernel_topFree.kzalloc 102809600 (by decide) (by decide)
  have hblocks : blocksFor 102809600 = 25100 := by decide
  rw [hblocks] at htop hlen
  exact ⟨k, live, a, e, by rw [hk], htop, he, hlen⟩

/-- The process, the file and the stack fit, and the task or its directory do not. -/
theorem processLoadForSlot_incomplete :
    ∃ r, processLoadForSlot (processLoadData fun _ => zeroFile) 0 [] 0 0
        (freshMachine.setKernel (kzalloc 102809600 freshKernel).2) = some r ∧
      ¬ RegistersComplete (processLoadData fun _ => zeroFile) [] 0 0
        (freshMachine.setKernel (kzalloc 102809600 freshKernel).2) r := by
  obtain ⟨k, live, x, e, hk, htop, hx, hlen⟩ := exists_short_heap
  rw [← hk]
  obtain ⟨st, hst⟩ : ∃ st, st = freshMachine.setKernel k := ⟨_, rfl⟩
  have hget : processGet 0 st = 0 := by
    rw [hst]
    rfl
  have hkernel : st.sched.kernel = k := by
    rw [hst]
    rfl
  rw [← hst]
  rw [← hkernel] at htop
  obtain ⟨load, hload⟩ : ∃ load : Loader, load = processLoadData fun _ => zeroFile := ⟨_, rfl⟩
  rw [← hload]
  obtain ⟨a, live', hprocess, -, hdata, hstack, htop', hkeep⟩ :=
    stackState_zeroFile htop (by decide) [] 0 hload
  have hres : ¬ (load [] (newKernel st)).1.res < 0 := by
    rw [hdata]
    exact lt_irrefl 0
  -- the allocation of 25100 blocks is still there
  have hcard := freeBlocks_card_add_le htop'.heap (hkeep x e hx)
  have hnull := @taskNewTrace_null_of_card (newProcess st)
    ((stackState load [] 0 st).procs (newProcess st)).toProcess (stackState load [] 0 st).sched
    (by omega)
  obtain ⟨r, hr⟩ := @processLoadForSlot_returns load [] 0 st 0 0 hget
  refine ⟨r, hr, fun hreg => ?_⟩
  · have htrace := @processLoadForSlotTrace_eq load [] 0 st
    rw [if_neg hprocess, if_neg hres, if_neg hstack] at htrace
    have halloc : (0 : UInt32) ∈ (processLoadForSlotTrace load [] 0 st).allocs := by
      rw [htrace]
      exact List.mem_cons_of_mem _ (List.mem_cons_of_mem _ hnull)
    refine (hreg.failed halloc).2.1 0 ?_ (Or.inl rfl)
    rw [htrace]
    exact List.mem_cons_of_mem _ (List.mem_cons_of_mem _ (taskNewTrace_null hnull))

end PeachOS
