import PeachOS.Fat16Path
import PeachOS.File

/-! # FAT16: files

The functions of `fat16.c` behind the calls of `file.c`, as one file system: `fat16Fs`. -/

namespace PeachOS

open ByteMemory

def ERDONLY : ℤ := 6
def EUNIMP : ℤ := 7

/-- `struct fat_file_descriptor`, allocated at `ptr`. -/
structure FatFileDescriptor where
  ptr : UInt32
  item : FatItem
  pos : UInt32

/-- The item that the union of a descriptor points to, none if it is a directory. -/
def FatItem.directoryItem (item : FatItem) : Option FatDirectoryItem :=
  match item.content with
  | FatItemUnion.item _ value => some value
  | FatItemUnion.directory _ => none

/-! ### Opening and closing -/

/-- `fat16_open`: the descriptor, or the error. -/
def fat16Open (volume : FatVolume) (path : List (List UInt8)) (mode : FileMode)
    (streams : FatStreams) (k : Kernel) :
    Option (Except ℤ FatFileDescriptor × FatStreams × Kernel) :=
  if mode ≠ FileMode.read then some (Except.error (- ERDONLY), streams, k)
  else
    let descriptor := kzalloc 8 k
    if descriptor.1 = 0 then some (Except.error (- ENOMEM), streams, descriptor.2)
    else
      (fat16GetDirectoryEntry volume path ⟨streams, descriptor.2⟩).map fun r =>
        match r.1 with
        | none => (Except.error (- EIO), r.2.streams, r.2.kernel)
        | some item => (Except.ok ⟨descriptor.1, item, 0⟩, r.2.streams, r.2.kernel)

/-- `fat16_free_file_descriptor`. -/
def fat16FreeFileDescriptor (desc : FatFileDescriptor) (k : Kernel) : Kernel :=
  kfree desc.ptr (fat16FatItemFree desc.item k)

/-- `fat16_close`. -/
def fat16Close (desc : FatFileDescriptor) (k : Kernel) : ℤ × Kernel :=
  (0, fat16FreeFileDescriptor desc k)

/-! ### Status, reading and seeking -/

/-- `fat16_stat`. -/
def fat16Stat (_ : FatVolume) (descriptor : FatFileDescriptor) (stat : FileStat) :
    Option (ℤ × FileStat) :=
  if descriptor.item.type ≠ FatItemType.file then some (- EINVARG, stat)
  else
    descriptor.item.directoryItem.map fun ritem =>
      let readOnly := ritem.attributes &&& fatFileReadOnly ≠ 0
      (0, ⟨if readOnly then 0 ||| fileStatReadOnly else 0, ritem.filesize⟩)

/-- The loop of `fat16_read` over the members that are left. -/
def fat16ReadLoop (volume : FatVolume) (item : FatDirectoryItem) (size : UInt32) :
    ℕ → ℤ → UInt32 → FatStreams → Mem → Option (ℤ × FatStreams × Mem)
  | 0, _, _, streams, m => some (0, streams, m)
  | n + 1, offset, out, streams, m =>
      (fat16ReadInternal volume (i32 (fat16GetFirstCluster item).toNat) offset
        (i32 size.toNat) out m streams).bind fun r =>
          if r.1.1 < 0 then some (r.1.1, r.2, r.1.2)
          else
            fat16ReadLoop volume item size n (i32 (offset + size.toNat)) (out + size) r.2 r.1.2

/-- `fat16_read`: the number of members, or the error. -/
def fat16Read (volume : FatVolume) (descriptor : FatFileDescriptor) (size nmemb out : UInt32)
    (streams : FatStreams) (m : Mem) : Option (ℤ × FatStreams × Mem) :=
  descriptor.item.directoryItem.bind fun item =>
    (fat16ReadLoop volume item size nmemb.toNat (i32 descriptor.pos.toNat) out streams m).map
      fun r => if r.1 < 0 then r else (i32 nmemb.toNat, r.2)

/-- `fat16_seek`. -/
def fat16Seek (desc : FatFileDescriptor) (offset seekMode : UInt32) :
    Option (ℤ × FatFileDescriptor) :=
  if desc.item.type ≠ FatItemType.file then some (- EINVARG, desc)
  else
    desc.item.directoryItem.map fun ritem =>
      if offset ≥ ritem.filesize then (- EIO, desc)
      else if seekMode = SEEK_SET then (0, { desc with pos := offset })
      else if seekMode = SEEK_END then (- EUNIMP, desc)
      else if seekMode = SEEK_CURRENT then (0, { desc with pos := desc.pos + offset })
      else (- EINVARG, desc)

/-- `fat16_fs`. -/
def fat16Fs : Filesystem FatVolume FatStreams FatFileDescriptor where
  fsOpen := fat16Open
  fsRead := fat16Read
  fsSeek := fat16Seek
  fsStat := fat16Stat
  fsClose := fat16Close

/-- The descriptor `fd` is one of a file on `volume`, in the state `desc`. -/
def OpenFile (f : FileState FatVolume FatStreams FatFileDescriptor) (fd : ℤ) (volume : FatVolume)
    (desc : FatFileDescriptor) : Prop :=
  ∃ ptr index, fileGetDescriptor fd f = some ⟨ptr, index, fat16Fs, desc, volume⟩

end PeachOS
