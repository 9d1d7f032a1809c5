import PeachOS.KernelHeap

/-! # The ELF loader

`elfloader.c`.  The file is kept in memory as it was read; the loader only checks its header
and notes the bounds of the loaded segments.  Headers are records decoded from the bytes at
their address, with the fields at the offsets of the packed structures of `elf.h`; a
`struct elf_file` is kept as a record next to memory.

What `fopen`, `fstat` and `fread` do with the file name is a parameter, `FileAccess`. -/

namespace PeachOS

open ByteMemory Extents

/-- `EINFORMAT`. -/
def EINFORMAT : ℤ := 9

/-- `PEACHOS_PROGRAM_VIRTUAL_ADDRESS`. -/
def peachosProgramVirtualAddress : UInt32 := 0x400000

/-! ### Headers -/

/-- The little-endian half word at `a`. -/
def read16 (m : Mem) (a : UInt32) : UInt16 :=
  UInt16.ofNat ((m a).toNat + 256 * (m (off a 1)).toNat)

/-- `struct elf_header`, the fields the loader reads. -/
structure ElfHeader where
  /-- `e_ident[EI_CLASS]`. -/
  identClass : UInt8
  /-- `e_ident[EI_DATA]`. -/
  identData : UInt8
  type : UInt16
  entry : UInt32
  phoff : UInt32
  phnum : UInt16
deriving DecidableEq, Repr

/-- The header at the address `a`. -/
def readElfHeader (m : Mem) (a : UInt32) : ElfHeader where
  identClass := m (off a 4)
  identData := m (off a 5)
  type := read16 m (off a 16)
  entry := m.read32 (off a 24)
  phoff := m.read32 (off a 28)
  phnum := read16 m (off a 44)

/-- `struct elf32_phdr`, the fields the loader reads. -/
structure Elf32Phdr where
  type : UInt32
  offset : UInt32
  vaddr : UInt32
  filesz : UInt32
  memsz : UInt32
  flags : UInt32
deriving DecidableEq, Repr

/-- The program header at the address `a`. -/
def readElf32Phdr (m : Mem) (a : UInt32) : Elf32Phdr where
  type := m.read32 a
  offset := m.read32 (off a 4)
  vaddr := m.read32 (off a 8)
  filesz := m.read32 (off a 16)
  memsz := m.read32 (off a 20)
  flags := m.read32 (off a 24)

/-- `PF_W` and `PT_LOAD`. -/
def pfW : UInt32 := 0x02
def ptLoad : UInt32 := 0x01

/-- `struct elf_file`: where the loaded file is, and the bounds found in its headers. -/
structure ElfFile where
  elfMemory : UInt32
  virtualBaseAddress : UInt32
  virtualEndAddress : UInt32
  physicalBaseAddress : UInt32
  physicalEndAddress : UInt32
deriving DecidableEq, Repr

/-- A zeroed `struct elf_file`. -/
def elfFileZero : ElfFile := ⟨0, 0, 0, 0, 0⟩

/-- `elf_memory`. -/
def elfMemory (file : ElfFile) : UInt32 := file.elfMemory

/-- `elf_header`: the header is at the start of the file. -/
def elfHeader (file : ElfFile) : UInt32 := file.elfMemory

/-- `elf_pheader`. -/
def elfPheader (m : Mem) (header : UInt32) : UInt32 :=
  let phoff := (readElfHeader m header).phoff
  if phoff = 0 then 0 else header + phoff

/-- `elf_program_header`. -/
def elfProgramHeader (m : Mem) (header : UInt32) (index : ℕ) : UInt32 :=
  off (elfPheader m header) (32 * index)

/-- `elf_phdr_phys_address`. -/
def elfPhdrPhysAddress (file : ElfFile) (phdr : Elf32Phdr) : UInt32 := elfMemory file + phdr.offset

/-! ### Validation -/

/-- `memcmp` of `count` bytes from byte `i` on; bytes are compared as signed. -/
def memcmp (c1 c2 : ℕ → UInt8) : ℕ → ℕ → ℤ
  | _, 0 => 0
  | i, count + 1 =>
      if c1 i ≠ c2 i then if (c1 i).toInt8 < (c2 i).toInt8 then -1 else 1
      else memcmp c1 c2 (i + 1) count

/-- `elf_signature`. -/
def elfSignature : List UInt8 := [0x7f, 0x45, 0x4c, 0x46]

/-- `elf_valid_signature`. -/
def elfValidSignature (m : Mem) (buffer : UInt32) : Bool :=
  memcmp (fun i => m (off buffer i)) (fun i => elfSignature.getD i 0) 0 elfSignature.length = 0

/-- `elf_valid_class`. -/
def elfValidClass (header : ElfHeader) : Bool := header.identClass = 0 ∨ header.identClass = 1

/-- `elf_valid_encoding`. -/
def elfValidEncoding (header : ElfHeader) : Bool := header.identData = 0 ∨ header.identData = 1

/-- `elf_has_program_header`. -/
def elfHasProgramHeader (header : ElfHeader) : Bool := header.phoff ≠ 0

/-- `elf_validate_loaded`. -/
def elfValidateLoaded (m : Mem) (header : UInt32) : ℤ :=
  if elfValidSignature m header && elfValidClass (readElfHeader m header) &&
      elfValidEncoding (readElfHeader m header) && elfHasProgramHeader (readElfHeader m header)
  then 0 else -EINFORMAT

/-! ### Segments -/

/-- `elf_process_phdr_pt_load`. -/
def elfProcessPhdrPtLoad (elfFile : ElfFile) (phdr : Elf32Phdr) : ElfFile :=
  let elfFile :=
    if elfFile.virtualBaseAddress ≥ phdr.vaddr ∨ elfFile.virtualBaseAddress = 0 then
      { elfFile with
        virtualBaseAddress := phdr.vaddr
        physicalBaseAddress := elfMemory elfFile + phdr.offset }
    else elfFile
  let endVirtualAddress := phdr.vaddr + phdr.filesz
  if elfFile.virtualEndAddress ≤ endVirtualAddress ∨ elfFile.virtualEndAddress = 0 then
    { elfFile with
      virtualEndAddress := endVirtualAddress
      physicalEndAddress := elfMemory elfFile + phdr.offset + phdr.filesz }
  else elfFile

/-- `elf_process_pheader`; its result is always 0. -/
def elfProcessPheader (elfFile : ElfFile) (phdr : Elf32Phdr) : ElfFile :=
  if phdr.type = ptLoad then elfProcessPhdrPtLoad elfFile phdr else elfFile

/-- The first rounds of the loop of `elf_process_pheaders`; none of them fails. -/
def elfProcessPheadersLoop (m : Mem) (elfFile : ElfFile) : ℕ → ElfFile
  | 0 => elfFile
  | i + 1 =>
      let elfFile := elfProcessPheadersLoop m elfFile i
      elfProcessPheader elfFile (readElf32Phdr m (elfProgramHeader m (elfHeader elfFile) i))

/-- `elf_process_pheaders`. -/
def elfProcessPheaders (m : Mem) (elfFile : ElfFile) : ElfFile :=
  elfProcessPheadersLoop m elfFile (readElfHeader m (elfHeader elfFile)).phnum.toNat

/-- `elf_process_loaded`. -/
def elfProcessLoaded (m : Mem) (elfFile : ElfFile) : ℤ × ElfFile :=
  let res := elfValidateLoaded m (elfHeader elfFile)
  if res < 0 then (res, elfFile) else (0, elfProcessPheaders m elfFile)

/-- What does not start with the first byte of the signature is refused. -/
theorem elfProcessLoaded_of_ne {m : Mem} {elfFile : ElfFile} (h : m elfFile.elfMemory ≠ 0x7f) :
    elfProcessLoaded m elfFile = (-EINFORMAT, elfFile) := by
  have hsig : elfValidSignature m elfFile.elfMemory = false := by
    unfold elfValidSignature
    rw [decide_eq_false_iff_not]
    unfold elfSignature
    simp only [List.length_cons, memcmp, off_zero, List.getD_cons_zero]
    rw [if_pos h]
    split_ifs <;> decide
  unfold elfProcessLoaded elfValidateLoaded elfHeader
  rw [hsig]
  rfl

/-! ### Loading -/

/-- What `fopen`, `fstat` and `fread` answer for a file name, and the bytes `fread` delivers. -/
structure FileAccess where
  fopen : ℤ
  fstat : ℤ
  filesize : UInt32
  fread : ℤ
  data : ℕ → UInt8

/-- `elf_load`: the result, the file structure, which is handed out only on success, and the
kernel afterwards. -/
def elfLoad (file : FileAccess) (k : Kernel) : ℤ × ElfFile × Kernel :=
  -- `sizeof(struct elf_file)` is 132; the structure itself is kept as a record
  let k := (kzalloc 132 k).2
  if file.fopen < 0 then (file.fopen, elfFileZero, k)
  else if file.fstat < 0 then (file.fstat, elfFileZero, k)
  else
    let buffer := kzalloc file.filesize k
    let elfFile := { elfFileZero with elfMemory := buffer.1 }
    if file.fread < 0 then (file.fread, elfFile, buffer.2)
    else
      let m := writeBytes buffer.2.mem buffer.1 file.data file.filesize.toNat
      let loaded := elfProcessLoaded m elfFile
      (loaded.1, loaded.2, ⟨m, buffer.2.oom⟩)

end PeachOS
