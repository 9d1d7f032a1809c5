import PeachOS.PathText

/-! # Files

`file.c`: the table of file descriptors and the calls `fopen`, `fstat`, `fclose`, `fseek` and
`fread`, over any file system.  `δ` is the private data of a disk, `σ` what a file system keeps
between calls and `π` its private data for an open file.

Structures that are allocated on the heap are values that carry their address.  A call has no
result where the file system has none, or where the list of parts of a path does not end. -/

namespace PeachOS

open ByteMemory

/-! ### Types -/

/-- `PEACHOS_MAX_FILE_DESCRIPTORS`. -/
def peachosMaxFileDescriptors : ℕ := 512

/-- The values of `FILE_MODE`. -/
inductive FileMode
  | read
  | write
  | append
  | invalid
deriving DecidableEq, Repr

/-- The values of `FILE_SEEK_MODE` that have a name. -/
def SEEK_SET : UInt32 := 0
def SEEK_CURRENT : UInt32 := 1
def SEEK_END : UInt32 := 2

/-- `FILE_STAT_READ_ONLY`. -/
def fileStatReadOnly : UInt32 := 1

/-- `struct file_stat`. -/
structure FileStat where
  flags : UInt32
  filesize : UInt32
deriving DecidableEq, Repr

/-- `struct filesystem`.  `fsOpen` takes the strings of the parts of a path; its error is the
value that `ERROR` makes a pointer of. -/
structure Filesystem (δ σ π : Type) where
  fsOpen : δ → List (List UInt8) → FileMode → σ → Kernel → Option (Except ℤ π × σ × Kernel)
  fsRead : δ → π → UInt32 → UInt32 → UInt32 → σ → Mem → Option (ℤ × σ × Mem)
  fsSeek : π → UInt32 → UInt32 → Option (ℤ × π)
  fsStat : δ → π → FileStat → Option (ℤ × FileStat)
  fsClose : π → Kernel → ℤ × Kernel

/-- `struct disk`: its file system, none for null, and the private data of that. -/
structure Disk (δ σ π : Type) where
  filesystem : Option (Filesystem δ σ π)
  fsPrivate : δ

/-- `struct file_descriptor`, allocated at `ptr`. -/
structure FileDescriptor (δ σ π : Type) where
  ptr : UInt32
  index : ℤ
  filesystem : Filesystem δ σ π
  privateData : π
  disk : δ

/-- The table `file_descriptors`, what the file system keeps, and the kernel. -/
structure FileState (δ σ π : Type) where
  fileDescriptors : List (Option (FileDescriptor δ σ π))
  streams : σ
  kernel : Kernel

variable {δ σ π : Type}

/-! ### Reading a parsed path -/

/-- The string at `a`, its first `n` characters at most. -/
def readString (m : Mem) : ℕ → UInt32 → List UInt8
  | 0, _ => []
  | n + 1, a => if m a = 0 then [] else m a :: readString m n (off a 1)

/-- The strings of the list of parts at `a`; none if there are more than `n` parts. -/
def readParts (m : Mem) : ℕ → UInt32 → Option (List (List UInt8))
  | 0, a => if a = 0 then some [] else none
  | n + 1, a =>
      if a = 0 then some []
      else
        (readParts m n (m.read32 (off a 4))).map fun parts =>
          readString m peachosMaxPath (m.read32 (off a 0)) :: parts

/-! ### The table -/

/-- `file_free_descriptor`. -/
def fileFreeDescriptor (desc : FileDescriptor δ σ π) (f : FileState δ σ π) : FileState δ σ π :=
  { f with
    fileDescriptors := f.fileDescriptors.set (desc.index - 1).toNat none
    kernel := kfree desc.ptr f.kernel }

/-- The slot that `file_new_descriptor` takes. -/
def freeSlot (descriptors : List (Option (FileDescriptor δ σ π))) : Option ℕ :=
  descriptors.findIdx? Option.isNone

/-- `file_new_descriptor` and the three fields that `fopen` sets behind it: the index, or the
error.  A null address is stored like any other. -/
def fileNewDescriptor (filesystem : Filesystem δ σ π) (privateData : π) (disk : δ)
    (f : FileState δ σ π) : ℤ × FileState δ σ π :=
  match freeSlot f.fileDescriptors with
  | none => (- ENOMEM, f)
  | some i =>
      let desc := kzalloc 16 f.kernel
      let value : Option (FileDescriptor δ σ π) :=
        if desc.1 = 0 then none else some ⟨desc.1, (i : ℤ) + 1, filesystem, privateData, disk⟩
      ((i : ℤ) + 1, { f with fileDescriptors := f.fileDescriptors.set i value, kernel := desc.2 })

/-- `file_get_descriptor`. -/
def fileGetDescriptor (fd : ℤ) (f : FileState δ σ π) : Option (FileDescriptor δ σ π) :=
  if fd ≤ 0 ∨ fd ≥ peachosMaxFileDescriptors then none
  else (f.fileDescriptors[(fd - 1).toNat]?).join

/-- The descriptor `fd` with other private data. -/
def FileState.setPrivate (f : FileState δ σ π) (fd : ℤ) (desc : FileDescriptor δ σ π)
    (privateData : π) : FileState δ σ π :=
  { f with
    fileDescriptors := f.fileDescriptors.set (fd - 1).toNat (some { desc with privateData }) }

/-! ### Calls -/

/-- `disk_get`: there is one disk. -/
def diskGet (disk : Disk δ σ π) (index : ℤ) : Option (Disk δ σ π) :=
  if index ≠ 0 then none else some disk

/-- `file_get_mode_by_string`. -/
def fileGetModeByString (str : List UInt8) : FileMode :=
  if strncmp str [ascii 'r'] 1 = 0 then FileMode.read
  else if strncmp str [ascii 'w'] 1 = 0 then FileMode.write
  else if strncmp str [ascii 'a'] 1 = 0 then FileMode.append
  else FileMode.invalid

/-- The label `out` of `fopen`. -/
def fopenOut (r : ℤ × FileState δ σ π) : ℤ × FileState δ σ π :=
  (if r.1 < 0 then 0 else r.1, r.2)

/-- `fopen`. -/
def fopen (disk : Disk δ σ π) (filename modeStr : List UInt8) (f : FileState δ σ π) :
    Option (ℤ × FileState δ σ π) :=
  let rootPath := pathparserParse filename f.kernel
  let f := { f with kernel := rootPath.2 }
  let first := f.kernel.mem.read32 (off rootPath.1 4)
  let driveNo := i32 (f.kernel.mem.read32 (off rootPath.1 0)).toNat
  if rootPath.1 = 0 then some (fopenOut (- EINVARG, f))
  else if first = 0 then some (fopenOut (- EINVARG, f))
  else
    match diskGet disk driveNo with
    | none => some (fopenOut (- EIO, f))
    | some disk =>
        match disk.filesystem with
        | none => some (fopenOut (- EIO, f))
        | some filesystem =>
            let mode := fileGetModeByString modeStr
            if mode = FileMode.invalid then some (fopenOut (- EINVARG, f))
            else
              (readParts f.kernel.mem peachosMaxPath first).bind fun path =>
                (filesystem.fsOpen disk.fsPrivate path mode f.streams f.kernel).map fun r =>
                  let f := { f with streams := r.2.1, kernel := r.2.2 }
                  match r.1 with
                  | Except.error e => fopenOut (e, f)
                  | Except.ok privateData =>
                      fopenOut (fileNewDescriptor filesystem privateData disk.fsPrivate f)

/-- `fstat`. -/
def fstat (fd : ℤ) (stat : FileStat) (f : FileState δ σ π) : Option (ℤ × FileStat) :=
  match fileGetDescriptor fd f with
  | none => some (- EIO, stat)
  | some desc => desc.filesystem.fsStat desc.disk desc.privateData stat

/-- `fclose`. -/
def fclose (fd : ℤ) (f : FileState δ σ π) : ℤ × FileState δ σ π :=
  match fileGetDescriptor fd f with
  | none => (- EIO, f)
  | some desc =>
      let r := desc.filesystem.fsClose desc.privateData f.kernel
      let f := { f with kernel := r.2 }
      (r.1, if r.1 = 0 then fileFreeDescriptor desc f else f)

/-- `fseek`. -/
def fseek (fd offset : ℤ) (whence : UInt32) (f : FileState δ σ π) :
    Option (ℤ × FileState δ σ π) :=
  match fileGetDescriptor fd f with
  | none => some (- EIO, f)
  | some desc =>
      (desc.filesystem.fsSeek desc.privateData (UInt32.ofInt offset) whence).map fun r =>
        (r.1, f.setPrivate fd desc r.2)

/-- `fread`, into the memory of the kernel. -/
def fread (ptr size nmemb : UInt32) (fd : ℤ) (f : FileState δ σ π) :
    Option (ℤ × FileState δ σ π) :=
  if size = 0 ∨ nmemb = 0 ∨ fd < 1 then some (- EINVARG, f)
  else
    match fileGetDescriptor fd f with
    | none => some (- EINVARG, f)
    | some desc =>
        (desc.filesystem.fsRead desc.disk desc.privateData size nmemb ptr f.streams
          f.kernel.mem).map fun r =>
            (r.1, { f with streams := r.2.1, kernel := { f.kernel with mem := r.2.2 } })

end PeachOS
