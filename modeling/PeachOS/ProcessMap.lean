import PeachOS.PagingMap
import PeachOS.Task

/-! # The address space of a process

`process_map_memory` of `process.c`, on the page directory that `task_init` just built.  The
directory starts as the identity, not writable; the image (or each program header) and then
the stack are mapped over it.  `MappedSpace` is what holds of it before the mapping: the
directory is the identity, and it lies in blocks that were free when the process owned its
memory already. -/

namespace PeachOS

open ByteMemory Extents WriteHistory

/-! ### The code -/

/-- `PEACHOS_USER_PROGRAM_STACK_SIZE`. -/
def peachosUserProgramStackSize : UInt32 := 1024 * 16

/-- `PEACHOS_PROGRAM_VIRTUAL_STACK_ADDRESS_END`. -/
def peachosProgramVirtualStackAddressEnd : UInt32 :=
  peachosProgramVirtualStackAddressStart - 1024 * 16

/-- The flags of a user page, and of one that may be written. -/
def pageFlagsRead : UInt32 := pagingIsPresent ||| pagingAccessFromAll
def pageFlagsWrite : UInt32 := pagingIsPresent ||| pagingAccessFromAll ||| pagingIsWritable

/-- `process_map_binary`: the result of `paging_map_to` is dropped. -/
def processMapBinary (process : Process) (task : Task) (m : Mem) : ℤ × Mem :=
  (0, (pagingMapTo task.pageDirectory peachosProgramVirtualAddress process.ptr
    (pagingAlignAddress (process.ptr + process.size)) pageFlagsWrite m).2)

/-- The flags `process_map_elf` gives the pages of a program header. -/
def phdrFlags (phdr : Elf32Phdr) : UInt32 :=
  if phdr.flags &&& pfW ≠ 0 then pageFlagsRead ||| pagingIsWritable else pageFlagsRead

/-- The `paging_map_to` call of `process_map_elf` for one program header. -/
def processMapPhdr (elfFile : ElfFile) (task : Task) (phdr : Elf32Phdr) (m : Mem) : ℤ × Mem :=
  let phdrPhysAddress := elfPhdrPhysAddress elfFile phdr
  pagingMapTo task.pageDirectory (pagingAlignToLowerPage phdr.vaddr)
    (pagingAlignToLowerPage phdrPhysAddress) (pagingAlignAddress (phdrPhysAddress + phdr.memsz))
    (phdrFlags phdr) m

/-- The loop of `process_map_elf` from round `i` on; `header` and `phdrs` are pointers into
memory, which the mapping changes. -/
def processMapElfLoop (elfFile : ElfFile) (task : Task) (header phdrs : UInt32) (i : ℕ) (res : ℤ)
    (m : Mem) : ℤ × Mem :=
  if h : i < (readElfHeader m header).phnum.toNat then
    let r := processMapPhdr elfFile task (readElf32Phdr m (off phdrs (32 * i))) m
    if r.1 < 0 then r else processMapElfLoop elfFile task header phdrs (i + 1) r.1 r.2
  else (res, m)
termination_by 65536 - i
decreasing_by
  have := (readElfHeader m header).phnum.toNat_lt
  omega

/-- `process_map_elf`. -/
def processMapElf (process : Process) (task : Task) (m : Mem) : ℤ × Mem :=
  let elfFile := process.elfFile
  let header := elfHeader elfFile
  let phdrs := elfPheader m header
  processMapElfLoop elfFile task header phdrs 0 0 m

/-- The part of `process_map_memory` after the switch. -/
def processMapStack (process : Process) (task : Task) (r : ℤ × Mem) : ℤ × Mem :=
  if r.1 < 0 then r
  else (r.1, (pagingMapTo task.pageDirectory peachosProgramVirtualStackAddressEnd process.stack
    (pagingAlignAddress (process.stack + peachosUserProgramStackSize)) pageFlagsWrite r.2).2)

/-- `process_map_memory` with `task` the task of the process; `none` is the panic on an
invalid file type. -/
def processMapMemory (process : Process) (task : Task) (m : Mem) : Option (ℤ × Mem) :=
  if process.filetype = processFiletypeElf then
    some (processMapStack process task (processMapElf process task m))
  else if process.filetype = processFiletypeBinary then
    some (processMapStack process task (processMapBinary process task m))
  else none

/-! ### The new directory -/

/-- A page that a user program can write to. -/
def UserWritable (entry : UInt32) : Prop :=
  entry &&& pagingAccessFromAll ≠ 0 ∧ entry &&& pagingIsWritable ≠ 0

/-- The frame of an entry. -/
def frameOf (entry : UInt32) : UInt32 := entry &&& 0xfffff000

/-- `a` is a frame of some user-writable page of the directory. -/
def WritableFrame (directory : UInt32) (m : Mem) (a : UInt32) : Prop :=
  ∃ w, PageAligned w ∧ UserWritable (pagingGet directory w m) ∧
    frameOf (pagingGet directory w m) = a

/-- The situation in which a process is mapped: its allocations were live in `k`, and since
then `task_init` has taken free blocks for the directory, which is still the identity. -/
structure MappedSpace (k : Kernel) (live : Layout UInt32) (task : Task) (m : Mem)
    (s : SpaceBlocks) : Prop where
  heap : HeapInv kernelHeap k.mem live
  directory : task.pageDirectory = blockAddr s.chunk
  free : ∀ b ∈ s.blocks, EntryFree kernelHeap k.mem b
  same : ∀ b < 25600, ¬ EntryFree kernelHeap k.mem b → ∀ x, InBlock b x → m x = k.mem x
  identity : Represents m s fun w => w ||| pageFlagsRead

variable {k k' : Kernel} {live : Layout UInt32} {process : Process} {task : Task} {p : UInt32}
  {m m' : Mem} {s : SpaceBlocks}

/-- `task_init` builds such a directory when its allocations succeed. -/
theorem taskInit_spec (hheap : HeapInv kernelHeap k.mem live) {res : ℤ}
    (htask : taskInit p process k = ((res, task), k')) (hok : k'.oom = false) :
    res = 0 ∧ ∃ s, MappedSpace k live task k'.mem s := by
  rcases hnew : pagingNew4gb (1 ||| 4) k with ⟨chunk, k₁⟩
  rw [taskInit_eq hnew] at htask
  obtain ⟨hinit, rfl⟩ := Prod.mk.inj htask
  have hok' : (pagingNew4gb (1 ||| 4) k).2.oom = false := by rw [hnew]; exact hok
  obtain ⟨s, hchunk, htake, hrep⟩ := pagingNew4gb_spec hok'
  rw [hnew] at hchunk htake hrep
  simp only at hchunk htake hrep
  have hne : chunk ≠ 0 := by
    rw [hchunk]
    exact blockAddr_ne_zero s.chunk_lt
  obtain ⟨hres, hdir, -⟩ := taskInitRegisters_of_ne p process k₁.mem hne
  rw [hinit] at hres hdir
  exact ⟨hres, s, hheap, hdir.trans hchunk, htake.free,
    fun b hb hbt x hx => htake.same hb hbt hx, hrep⟩

/-! ### Entries -/

theorem and_two_pow_ne_zero_iff (x : UInt32) {f : UInt32} {i : ℕ} (hf : f.toNat = 2 ^ i) :
    x &&& f ≠ 0 ↔ x.toNat / 2 ^ i % 2 = 1 := by
  rw [ne_eq, ← UInt32.toNat_inj, UInt32.toNat_and, hf, Nat.and_two_pow, UInt32.toNat_zero,
    Nat.testBit_eq_decide_div_mod_eq]
  by_cases h : x.toNat / 2 ^ i % 2 = 1 <;> simp [h]

theorem userWritable_iff (x : UInt32) :
    UserWritable x ↔ x.toNat / 4 % 2 = 1 ∧ x.toNat / 2 % 2 = 1 :=
  and_congr (and_two_pow_ne_zero_iff (i := 2) x rfl) (and_two_pow_ne_zero_iff (i := 1) x rfl)

theorem not_userWritable_read {w : UInt32} (hw : PageAligned w) :
    ¬ UserWritable (w ||| pageFlagsRead) := by
  have hflags : pageFlagsRead.toNat = 5 := rfl
  unfold PageAligned at hw
  rw [userWritable_iff, toNat_or_of_aligned hw (by omega)]
  omega

theorem userWritable_write {w : UInt32} (hw : PageAligned w) :
    UserWritable (w ||| pageFlagsWrite) := by
  have hflags : pageFlagsWrite.toNat = 7 := rfl
  unfold PageAligned at hw
  rw [userWritable_iff, toNat_or_of_aligned hw (by omega)]
  omega

theorem frameOf_write {w : UInt32} (hw : PageAligned w) : frameOf (w ||| pageFlagsWrite) = w :=
  or_and_frame hw (by decide)

/-! ### Mapping a whole allocation -/

/-- The range that `process_map_memory` maps for an allocation: exactly its blocks. -/
theorem allocation_range (hheap : HeapInv kernelHeap k.mem live) {size a : UInt32}
    (ha : Allocated live size a) :
    PageAligned a ∧ ¬ pagingAlignAddress (a + size) < a ∧
      ((pagingAlignAddress (a + size) - a) / pagingPageSize).toNat = blocksFor size ∧
      blocksFor size ≤ 25600 ∧
      ∀ i < blocksFor size, InAllocation live a (off a (4096 * i)) := by
  obtain ⟨e, he, hlen⟩ := ha
  have hin := hheap.encodes.packed.inside a e he
  have haddr : a = blockAddr e.start := hheap.address a e he
  have hpos := e.len_pos
  rw [kernelHeap_total] at hin
  have hnat : a.toNat = 16777216 + 4096 * e.start := by
    rw [haddr, toNat_blockAddr (by omega)]
  have hend : (pagingAlignAddress (a + size)).toNat = a.toNat + 4096 * e.len := by
    rw [toNat_pagingAlignAddress, UInt32.toNat_add]
    unfold blocksFor at hlen
    omega
  refine ⟨?_, ?_, ?_, by omega, fun i hi => ⟨e, he, ?_⟩⟩
  · unfold PageAligned
    omega
  · rw [UInt32.lt_iff_toNat_lt]
    omega
  · rw [UInt32.toNat_div, toNat_sub', hend, show pagingPageSize.toNat = 4096 from rfl]
    omega
  · rw [haddr]
    exact inExtent_of_inRange hin le_rfl (inRange_off (by omega))

end PeachOS
