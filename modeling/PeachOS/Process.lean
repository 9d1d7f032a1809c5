import PeachOS.ElfLoader
import PeachOS.SlotTable

/-! # User allocations of a process

`process_malloc` and `process_free` of `process.c`.  A process records what it allocated in
a fixed array; an empty slot holds the null pointer, and the ownership test of
`process_free` is a search of that array.

A `Process` is kept as a record next to physical memory rather than inside it: its fields
are only reached through the pointer the kernel holds.  The union of `ptr` and `elf_file` is
kept as two fields, each read only under its own file type. -/

namespace PeachOS

open ByteMemory Extents SlotTable

/-! ### Data -/

/-- `PEACHOS_MAX_PROGRAM_ALLOCATIONS`. -/
def peachosMaxProgramAllocations : ℕ := 1024

/-- `PROCESS_FILETYPE_ELF` and `PROCESS_FILETYPE_BINARY`. -/
def processFiletypeElf : UInt8 := 0
def processFiletypeBinary : UInt8 := 1

/-- `struct process`, the fields the memory management uses. -/
structure Process where
  task : UInt32
  /-- The slots of `allocations`. -/
  allocations : List UInt32
  length_allocations : allocations.length = peachosMaxProgramAllocations
  filetype : UInt8
  ptr : UInt32
  elfFile : ElfFile
  stack : UInt32
  size : UInt32

/-- `process_init`: a zeroed structure. -/
def processInit : Process where
  task := 0
  allocations := List.replicate peachosMaxProgramAllocations 0
  length_allocations := List.length_replicate
  filetype := 0
  ptr := 0
  elfFile := elfFileZero
  stack := 0
  size := 0

/-- Store a pointer in a slot of `allocations`. -/
def Process.setAllocation (process : Process) (i : ℕ) (a : UInt32) : Process :=
  { process with
    allocations := process.allocations.set i a
    length_allocations := by rw [List.length_set]; exact process.length_allocations }

/-- The kernel and the process structures, by address. -/
structure ProcState where
  kernel : Kernel
  procs : UInt32 → Process

/-- Replace the structure at `p`. -/
def ProcState.setProc (s : ProcState) (p : UInt32) (process : Process) : ProcState :=
  { s with procs := Function.update s.procs p process }

@[simp] theorem ProcState.setProc_self (s : ProcState) (p : UInt32) (process : Process) :
    (s.setProc p process).procs p = process := by simp [ProcState.setProc]

theorem ProcState.setProc_of_ne (s : ProcState) {p q : UInt32} (process : Process) (h : q ≠ p) :
    (s.setProc p process).procs q = s.procs q := by simp [ProcState.setProc, h]

/-! ### `process_malloc` -/

/-- `process_find_free_allocation_index`. -/
def processFindFreeAllocationIndex (process : Process) : ℤ :=
  match freeIndex 0 process.allocations with
  | some i => i
  | none => -ENOMEM

/-- `process_malloc` for the process at `p`. -/
def processMalloc (p size : UInt32) (s : ProcState) : UInt32 × ProcState :=
  let (ptr, k) := kzalloc size s.kernel
  let s := { s with kernel := k }
  if ptr = 0 then (0, s)
  else
    let index := processFindFreeAllocationIndex (s.procs p)
    -- a full array: the block stays allocated
    if index < 0 then (0, s)
    else (ptr, s.setProc p ((s.procs p).setAllocation index.toNat ptr))

/-! ### `process_free` -/

/-- `process_is_process_pointer`. -/
def processIsProcessPointer (process : Process) (ptr : UInt32) : Bool :=
  process.allocations.any fun a => a == ptr

/-- `process_allocation_unjoin`: every slot that holds `ptr` is emptied. -/
def processAllocationUnjoin (process : Process) (ptr : UInt32) : Process :=
  { process with
    allocations := clear 0 process.allocations ptr
    length_allocations := by rw [length_clear]; exact process.length_allocations }

/-- `process_free` for the process at `p`. -/
def processFree (p ptr : UInt32) (s : ProcState) : ProcState :=
  if !processIsProcessPointer (s.procs p) ptr then s
  else
    let s := s.setProc p (processAllocationUnjoin (s.procs p) ptr)
    { s with kernel := kfree ptr s.kernel }

/-! ### What the two calls do -/

theorem processIsProcessPointer_iff (process : Process) (ptr : UInt32) :
    processIsProcessPointer process ptr = true ↔ ptr ∈ process.allocations := by
  unfold processIsProcessPointer
  simp

/-- The cases of `process_malloc`. -/
theorem processMalloc_cases (p size : UInt32) (s : ProcState) :
    ((processMalloc p size s).1 = 0 ∧
      (processMalloc p size s).2 = { s with kernel := (kzalloc size s.kernel).2 } ∧
      ((kzalloc size s.kernel).1 = 0 ∨ 0 ∉ (s.procs p).allocations)) ∨
    ∃ i, (kzalloc size s.kernel).1 ≠ 0 ∧ (s.procs p).allocations[i]? = some 0 ∧
      processMalloc p size s = ((kzalloc size s.kernel).1,
        ({ s with kernel := (kzalloc size s.kernel).2 } : ProcState).setProc p
          ((s.procs p).setAllocation i (kzalloc size s.kernel).1)) := by
  unfold processMalloc
  dsimp only
  by_cases hnull : (kzalloc size s.kernel).1 = 0
  · rw [if_pos hnull]
    exact Or.inl ⟨rfl, rfl, Or.inl hnull⟩
  · rw [if_neg hnull]
    unfold processFindFreeAllocationIndex
    cases hi : freeIndex 0 (s.procs p).allocations with
    | none =>
        rw [if_pos (by decide)]
        exact Or.inl ⟨rfl, rfl, Or.inr (freeIndex_eq_none.mp hi)⟩
    | some i =>
        rw [if_neg (by simp)]
        exact Or.inr ⟨i, hnull, freeIndex_eq_some hi, rfl⟩

/-- A pointer that is not in the array is refused. -/
theorem processFree_of_not_mem {p ptr : UInt32} {s : ProcState}
    (h : ptr ∉ (s.procs p).allocations) : processFree p ptr s = s := by
  unfold processFree
  rw [if_pos]
  rw [Bool.not_eq_true', Bool.eq_false_iff]
  exact fun h' => h ((processIsProcessPointer_iff _ _).mp h')

/-- A pointer that is in the array is cleared there and freed. -/
theorem processFree_of_mem {p ptr : UInt32} {s : ProcState} (h : ptr ∈ (s.procs p).allocations) :
    processFree p ptr s =
      ⟨kfree ptr s.kernel,
        (s.setProc p (processAllocationUnjoin (s.procs p) ptr)).procs⟩ := by
  unfold processFree
  rw [(processIsProcessPointer_iff _ _).mpr h]
  rfl

end PeachOS
