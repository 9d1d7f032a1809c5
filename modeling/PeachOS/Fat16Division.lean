import PeachOS.Fat16Mount
import PeachOS.Fat16Read
import PeachOS.FileOpen

/-! # FAT16: the divisions by the size of a cluster

The size of a cluster is a product with a byte of the boot sector, `sectors_per_cluster`, and
`fat16_get_cluster_for_offset` and `fat16_read_internal_from_stream` divide by it.  A list of
divisors is what a call divides by on its way, in the order of the code, up to the point where
the call ends or gets stuck; all other divisions of the file system are by constants.

`fat16_resolve` looks at neither this byte nor `bytes_per_sector`: `fat16Resolve_geometry`. -/

namespace PeachOS

open ByteMemory

/-! ### The divisors of a call -/

/-- The divisors of `fat16_read_internal`. -/
def fat16ReadInternalDivisors (volume : FatVolume) (cluster offset total : ℤ) (out : UInt32)
    (m : Mem) (streams : FatStreams) : List ℤ :=
  let size := volume.sizeOfClusterBytes
  -- `offset / size_of_cluster_bytes`
  size ::
    if size ≤ 0 then []
    else
      match fat16GetClusterForOffset volume cluster offset streams with
      | none => []
      | some found =>
          let clusterToUse := found.1
          if clusterToUse < 0 then []
          else
            let offsetFromCluster := offset.tmod size
            let startingSector := fat16ClusterToSector volume clusterToUse
            let startingPos := i32 (i32 (startingSector * peachosSectorSize) + offsetFromCluster)
            let totalToRead := if total > size then size else total
            let sought := diskstreamerSeek found.2.clusterReadStream startingPos
            -- `offset % size_of_cluster_bytes`
            size ::
              if sought.1 ≠ 0 then []
              else
                match diskstreamerRead volume.device sought.2 out totalToRead m with
                | none => []
                | some r =>
                    if r.1 ≠ 0 then []
                    else if total - totalToRead > 0 then
                      fat16ReadInternalDivisors volume cluster (i32 (offset + totalToRead))
                        (total - totalToRead) (off out totalToRead.toNat) r.2.2
                        { found.2 with clusterReadStream := r.2.1 }
                    else []
termination_by total.toNat
decreasing_by
  rename_i hsize _ _ _ hmore
  have hread : totalToRead = if total > size then size else total := rfl
  have hmore' : total - totalToRead > 0 := hmore
  have hsize' : ¬ size ≤ 0 := hsize
  change (total - totalToRead).toNat < total.toNat
  clear_value totalToRead size
  split_ifs at hread <;> omega

/-- The divisors of `fat16_load_fat_directory`. -/
def fat16LoadFatDirectoryDivisors (volume : FatVolume) (item : FatDirectoryItem) (st : FatState) :
    List ℤ :=
  if item.attributes &&& fatFileSubdirectory = 0 then []
  else
    let directory := kzalloc 16 st.kernel
    if directory.1 = 0 then []
    else
      let cluster := i32 (fat16GetFirstCluster item).toNat
      let clusterSector := fat16ClusterToSector volume cluster
      match fat16GetTotalItemsForDirectory volume.device (UInt32.ofInt clusterSector)
        st.streams with
      | none => []
      | some r =>
          let directorySize := UInt32.ofInt (r.1 * 32)
          let items := kzalloc directorySize directory.2
          if items.1 = 0 then []
          else
            fat16ReadInternalDivisors volume cluster 0 (i32 directorySize.toNat) items.1
              items.2.mem r.2

/-- The divisors of `fat16_new_fat_item_for_directory_item`. -/
def fat16NewFatItemDivisors (volume : FatVolume) (item : FatDirectoryItem) (st : FatState) :
    List ℤ :=
  let fItem := kzalloc 8 st.kernel
  if fItem.1 = 0 then []
  else if item.attributes &&& fatFileSubdirectory ≠ 0 then
    fat16LoadFatDirectoryDivisors volume item { st with kernel := fItem.2 }
  else []

/-- The divisors of the loop of `fat16_find_item_in_directory`. -/
def fat16FindItemLoopDivisors (volume : FatVolume) (directory : FatDirectory)
    (name : List UInt8) : ℕ → ℕ → FatState → List ℤ
  | 0, _, _ => []
  | n + 1, i, st =>
      let item := itemOf (directory.itemBytes i)
      match fat16GetFullRelativeFilename (directory.itemBytes i) peachosMaxPath with
      | none => []
      | some tmpFilename =>
          if istrncmp tmpFilename name peachosMaxPath = 0 then
            fat16NewFatItemDivisors volume item st ++
              match fat16NewFatItemForDirectoryItem volume item st with
              | none => []
              | some r => fat16FindItemLoopDivisors volume directory name n (i + 1) r.2
          else fat16FindItemLoopDivisors volume directory name n (i + 1) st

/-- The divisors of `fat16_find_item_in_directory`. -/
def fat16FindItemDivisors (volume : FatVolume) (directory : FatDirectory) (name : List UInt8)
    (st : FatState) : List ℤ :=
  fat16FindItemLoopDivisors volume directory name directory.total.toNat 0 st

/-- The divisors of the loop of `fat16_get_directory_entry`. -/
def fat16WalkLoopDivisors (volume : FatVolume) : List (List UInt8) → FatItem → FatState → List ℤ
  | [], _, _ => []
  | part :: nextPart, currentItem, st =>
      if currentItem.type ≠ FatItemType.directory then []
      else
        match currentItem.content with
        | FatItemUnion.directory (some directory) =>
            fat16FindItemDivisors volume directory part st ++
              match fat16FindItemInDirectory volume directory part st with
              | none => []
              | some r =>
                  match r.1 with
                  | none => []
                  | some item =>
                      fat16WalkLoopDivisors volume nextPart item
                        { r.2 with kernel := fat16FatItemFree currentItem r.2.kernel }
        | _ => []

/-- The divisors of `fat16_get_directory_entry`. -/
def fat16GetDirectoryEntryDivisors (volume : FatVolume) (path : List (List UInt8))
    (st : FatState) : List ℤ :=
  match path with
  | [] => []
  | part :: nextPart =>
      fat16FindItemDivisors volume volume.rootDirectory part st ++
        match fat16FindItemInDirectory volume volume.rootDirectory part st with
        | none => []
        | some r =>
            match r.1 with
            | none => []
            | some item => fat16WalkLoopDivisors volume nextPart item r.2

/-- The divisors of `fopen` on the disk with the volume; `fat16_open` has none of its own. -/
def fopenDivisors (volume : FatVolume) (filename modeStr : List UInt8) (f : FatFileState) :
    List ℤ :=
  let rootPath := pathparserParse filename f.kernel
  let first := rootPath.2.mem.read32 (off rootPath.1 4)
  let driveNo := i32 (rootPath.2.mem.read32 (off rootPath.1 0)).toNat
  if rootPath.1 = 0 ∨ first = 0 ∨ driveNo ≠ 0 then []
  else if fileGetModeByString modeStr ≠ FileMode.read then []
  else
    match readParts rootPath.2.mem peachosMaxPath first with
    | none => []
    | some path =>
        let descriptor := kzalloc 8 rootPath.2
        if descriptor.1 = 0 then []
        else fat16GetDirectoryEntryDivisors volume path ⟨f.streams, descriptor.2⟩

/-- The divisors of the loop of `fat16_read`. -/
def fat16ReadLoopDivisors (volume : FatVolume) (item : FatDirectoryItem) (size : UInt32) :
    ℕ → ℤ → UInt32 → FatStreams → Mem → List ℤ
  | 0, _, _, _, _ => []
  | n + 1, offset, out, streams, m =>
      let cluster := i32 (fat16GetFirstCluster item).toNat
      fat16ReadInternalDivisors volume cluster offset (i32 size.toNat) out m streams ++
        match fat16ReadInternal volume cluster offset (i32 size.toNat) out m streams with
        | none => []
        | some r =>
            if r.1.1 < 0 then []
            else
              fat16ReadLoopDivisors volume item size n (i32 (offset + size.toNat)) (out + size)
                r.2 r.1.2

/-- The divisors of `fread` of an open file on the volume. -/
def freadDivisors (volume : FatVolume) (desc : FatFileDescriptor) (ptr size nmemb : UInt32)
    (f : FatFileState) : List ℤ :=
  if size = 0 ∨ nmemb = 0 then []
  else
    match desc.item.directoryItem with
    | none => []
    | some item =>
        fat16ReadLoopDivisors volume item size nmemb.toNat (i32 desc.pos.toNat) ptr f.streams
          f.kernel.mem

/-- A directory load, an `fopen` or an `fread` on the volume divides by `d`. -/
inductive FatVolume.Divides (volume : FatVolume) (d : ℤ) : Prop
  | load (item : FatDirectoryItem) (st : FatState)
      (h : d ∈ fat16LoadFatDirectoryDivisors volume item st)
  | fopen (filename modeStr : List UInt8) (f : FatFileState)
      (h : d ∈ fopenDivisors volume filename modeStr f)
  | fread (fd : ℤ) (desc : FatFileDescriptor) (ptr size nmemb : UInt32) (f : FatFileState)
      (hopen : OpenFile f fd volume desc) (h : d ∈ freadDivisors volume desc ptr size nmemb f)

/-! ### Every divisor is the size of a cluster -/

variable {volume : FatVolume} {d : ℤ}

theorem mem_fat16ReadInternalDivisors {cluster offset total : ℤ} {out : UInt32} {m : Mem}
    {streams : FatStreams}
    (h : d ∈ fat16ReadInternalDivisors volume cluster offset total out m streams) :
    d = volume.sizeOfClusterBytes := by
  fun_induction fat16ReadInternalDivisors volume cluster offset total out m streams with
  | case1 offset total out m streams size ih =>
      rcases List.mem_cons.mp h with rfl | h
      · rfl
      split at h
      · exact absurd h List.not_mem_nil
      · rename_i hsize
        split at h
        · exact absurd h List.not_mem_nil
        · rename_i found _
          dsimp only at h
          split at h
          · exact absurd h List.not_mem_nil
          · rcases List.mem_cons.mp h with rfl | h
            · rfl
            split at h
            · exact absurd h List.not_mem_nil
            · split at h
              · exact absurd h List.not_mem_nil
              · rename_i r _
                split at h
                · exact absurd h List.not_mem_nil
                · by_cases hmore : (total - if total > size then size else total) > 0
                  · rw [if_pos hmore] at h
                    exact ih hsize found r hmore h
                  · rw [if_neg hmore] at h
                    exact absurd h List.not_mem_nil

theorem mem_fat16LoadFatDirectoryDivisors {item : FatDirectoryItem} {st : FatState}
    (h : d ∈ fat16LoadFatDirectoryDivisors volume item st) : d = volume.sizeOfClusterBytes := by
  unfold fat16LoadFatDirectoryDivisors at h
  dsimp only at h
  split at h
  · exact absurd h List.not_mem_nil
  split at h
  · exact absurd h List.not_mem_nil
  split at h
  · exact absurd h List.not_mem_nil
  split at h
  · exact absurd h List.not_mem_nil
  exact mem_fat16ReadInternalDivisors h

theorem mem_fat16NewFatItemDivisors {item : FatDirectoryItem} {st : FatState}
    (h : d ∈ fat16NewFatItemDivisors volume item st) : d = volume.sizeOfClusterBytes := by
  unfold fat16NewFatItemDivisors at h
  dsimp only at h
  split at h
  · exact absurd h List.not_mem_nil
  split at h
  · exact mem_fat16LoadFatDirectoryDivisors h
  · exact absurd h List.not_mem_nil

theorem mem_fat16FindItemLoopDivisors {directory : FatDirectory} {name : List UInt8} :
    ∀ {n i : ℕ} {st : FatState}, d ∈ fat16FindItemLoopDivisors volume directory name n i st →
      d = volume.sizeOfClusterBytes
  | 0, _, _, h => absurd h List.not_mem_nil
  | n + 1, i, st, h => by
      unfold fat16FindItemLoopDivisors at h
      dsimp only at h
      split at h
      · exact absurd h List.not_mem_nil
      split at h
      · rcases List.mem_append.mp h with h | h
        · exact mem_fat16NewFatItemDivisors h
        · split at h
          · exact absurd h List.not_mem_nil
          · exact mem_fat16FindItemLoopDivisors h
      · exact mem_fat16FindItemLoopDivisors h

theorem mem_fat16WalkLoopDivisors : ∀ {path : List (List UInt8)} {currentItem : FatItem}
    {st : FatState}, d ∈ fat16WalkLoopDivisors volume path currentItem st →
      d = volume.sizeOfClusterBytes
  | [], _, _, h => absurd h List.not_mem_nil
  | part :: nextPart, currentItem, st, h => by
      unfold fat16WalkLoopDivisors at h
      split at h
      · exact absurd h List.not_mem_nil
      split at h
      · rcases List.mem_append.mp h with h | h
        · exact mem_fat16FindItemLoopDivisors h
        · split at h
          · exact absurd h List.not_mem_nil
          · split at h
            · exact absurd h List.not_mem_nil
            · exact mem_fat16WalkLoopDivisors h
      · exact absurd h List.not_mem_nil

theorem mem_fat16GetDirectoryEntryDivisors {path : List (List UInt8)} {st : FatState}
    (h : d ∈ fat16GetDirectoryEntryDivisors volume path st) : d = volume.sizeOfClusterBytes := by
  cases path with
  | nil => exact absurd h List.not_mem_nil
  | cons part nextPart =>
      unfold fat16GetDirectoryEntryDivisors at h
      rcases List.mem_append.mp h with h | h
      · exact mem_fat16FindItemLoopDivisors h
      · split at h
        · exact absurd h List.not_mem_nil
        · split at h
          · exact absurd h List.not_mem_nil
          · exact mem_fat16WalkLoopDivisors h

theorem mem_fat16ReadLoopDivisors {item : FatDirectoryItem} {size : UInt32} :
    ∀ {n : ℕ} {offset : ℤ} {out : UInt32} {streams : FatStreams} {m : Mem},
      d ∈ fat16ReadLoopDivisors volume item size n offset out streams m →
      d = volume.sizeOfClusterBytes
  | 0, _, _, _, _, h => absurd h List.not_mem_nil
  | n + 1, offset, out, streams, m, h => by
      unfold fat16ReadLoopDivisors at h
      dsimp only at h
      rcases List.mem_append.mp h with h | h
      · exact mem_fat16ReadInternalDivisors h
      · split at h
        · exact absurd h List.not_mem_nil
        · split at h
          · exact absurd h List.not_mem_nil
          · exact mem_fat16ReadLoopDivisors h

/-- Every division is by the size of a cluster. -/
theorem FatVolume.Divides.eq (h : volume.Divides d) : d = volume.sizeOfClusterBytes := by
  cases h with
  | load item st h => exact mem_fat16LoadFatDirectoryDivisors h
  | fopen filename modeStr f h =>
      unfold fopenDivisors at h
      dsimp only at h
      split at h
      · exact absurd h List.not_mem_nil
      split at h
      · exact absurd h List.not_mem_nil
      split at h
      · exact absurd h List.not_mem_nil
      split at h
      · exact absurd h List.not_mem_nil
      exact mem_fat16GetDirectoryEntryDivisors h
  | fread fd desc ptr size nmemb f hopen h =>
      unfold freadDivisors at h
      split at h
      · exact absurd h List.not_mem_nil
      split at h
      · exact absurd h List.not_mem_nil
      exact mem_fat16ReadLoopDivisors h

/-- A read of an open file divides by the size of a cluster. -/
theorem mem_freadDivisors {desc : FatFileDescriptor} {item : FatDirectoryItem}
    (hitem : desc.item.directoryItem = some item) (ptr : UInt32) {size nmemb : UInt32}
    (hsize : 1 ≤ size.toNat) (hnmemb : 1 ≤ nmemb.toNat) (f : FatFileState) :
    volume.sizeOfClusterBytes ∈ freadDivisors volume desc ptr size nmemb f := by
  have hzero : ¬ (size = 0 ∨ nmemb = 0) := by
    rintro (rfl | rfl)
    · exact absurd hsize (by decide)
    · exact absurd hnmemb (by decide)
  obtain ⟨n, hn⟩ : ∃ n, nmemb.toNat = n + 1 := ⟨nmemb.toNat - 1, by omega⟩
  unfold freadDivisors
  rw [if_neg hzero, hitem, hn]
  unfold fat16ReadLoopDivisors fat16ReadInternalDivisors
  exact List.mem_append_left _ List.mem_cons_self

/-- A file that `fopen` opened, if its allocations were served, is open. -/
theorem fopen_openFile {filename modeStr : List UInt8} {f f' : FatFileState} {fd : ℤ}
    (hopen : fopen ⟨some fat16Fs, volume⟩ filename modeStr f = some (fd, f')) (hfd : 0 < fd)
    (hlt : fd < peachosMaxFileDescriptors) (hok : f'.kernel.oom = false) :
    ∃ desc, OpenFile f' fd volume desc := by
  rcases fopen_cases rfl hopen with ⟨rfl, -⟩ | ⟨i, desc, k, hslot, rfl, -, hkernel, htable⟩
  · exact absurd hfd (lt_irrefl 0)
  · rw [hkernel] at hok
    rw [if_neg (kzalloc_ne_zero_of_ok hok)] at htable
    refine ⟨desc, (kzalloc 16 k).1, (i : ℤ) + 1,
      fileGetDescriptor_eq_some.mpr ⟨⟨hfd, hlt⟩, ?_⟩⟩
    rw [htable, show ((i : ℤ) + 1 - 1).toNat = i by omega, List.getElem?_set_self]
    exact (List.getElem?_eq_some_iff.mp (freeSlot_eq_some hslot)).1

/-! ### What mounting looks at -/

/-- The same disk but for `bytes_per_sector` and `sectors_per_cluster` of the boot sector. -/
def SameButGeometry (device device' : Device) : Prop :=
  ∀ lba i, lba ≠ 0 ∨ i < 11 ∨ 14 ≤ i → (device' lba).2 i = (device lba).2 i

variable {device device' : Device}

theorem SameButGeometry.diskByteAt (h : SameButGeometry device device') {q : ℤ}
    (hq : q % 32 = 0) : diskByteAt device' q = diskByteAt device q :=
  h _ _ (by omega)

/-- The scan of a directory looks at the first bytes of records. -/
theorem fat16TotalItemsLoop_congr (h : SameButGeometry device device') (hdev : device.Delivers)
    (hdev' : device'.Delivers) : ∀ (n : ℕ) (i : ℤ) {pos : ℤ}, pos % 32 = 0 →
      -2147483648 ≤ pos → pos < 2147483648 →
      fat16TotalItemsLoop device' n i ⟨pos⟩ = fat16TotalItemsLoop device n i ⟨pos⟩
  | 0, _, _, _, _, _ => rfl
  | n + 1, i, pos, hpos, hlow, hhigh => by
      have hread := diskstreamerRead_at hdev 32 pos 0 (fun _ => 0) hlow hhigh
      have hread' := diskstreamerRead_at hdev' 32 pos 0 (fun _ => 0) hlow hhigh
      have hnext := i32_range (pos + 32)
      have hstep : i32 (pos + 32) % 32 = 0 := by
        have hmod := i32_emod (pos + 32)
        omega
      have ih := fun i => fat16TotalItemsLoop_congr h hdev hdev' n i hstep hnext.1 hnext.2
      have hfirst : ∀ device, writeBytes (fun _ => 0) 0
          (fun i => PeachOS.diskByteAt device (i32 (pos + (i : ℕ)))) 32 0 =
            PeachOS.diskByteAt device pos := by
        intro device
        have h0 := writeBytes_off (fun _ => 0) 0
          (fun i => PeachOS.diskByteAt device (i32 (pos + (i : ℕ)))) (n := 32) (i := 0)
          (by decide) (by decide)
        rw [off_zero] at h0
        rw [h0, Nat.cast_zero, add_zero, i32_of_range hlow hhigh]
      unfold fat16TotalItemsLoop
      rw [show ((32 : ℕ) : ℤ) = 32 from rfl] at hread hread'
      rw [hread, hread']
      by_cases hleaves : LeavesBuffer pos 32
      · rw [if_pos hleaves, if_pos hleaves]
        rfl
      · rw [if_neg hleaves, if_neg hleaves, Option.bind_some, Option.bind_some]
        simp only [hfirst, h.diskByteAt hpos, ih]

theorem fat16GetTotalItemsForDirectory_congr (h : SameButGeometry device device')
    (hdev : device.Delivers) (hdev' : device'.Delivers) (sector : UInt32) (streams : FatStreams) :
    fat16GetTotalItemsForDirectory device' sector streams =
      fat16GetTotalItemsForDirectory device sector streams := by
  have h512 : UInt32.ofInt peachosSectorSize = 512 := rfl
  have hmul : (sector * 512).toNat = sector.toNat * 512 % 4294967296 := UInt32.toNat_mul _ _
  have hrange := i32_range (sector * 512).toNat
  have hmod := i32_emod (sector * 512).toNat
  unfold fat16GetTotalItemsForDirectory
  dsimp only [diskstreamerSeek]
  rw [h512, fat16TotalItemsLoop_congr h hdev hdev' _ _ (by omega) hrange.1 hrange.2]

/-- The root directory is read whatever the size of a cluster is. -/
theorem fat16GetRootDirectory_congr (h : SameButGeometry device device') (hdev : device.Delivers)
    (hdev' : device'.Delivers) {header : FatHeader} (c : UInt8) {directory d : FatDirectory}
    {st st' : FatState}
    (hroot : fat16GetRootDirectory device header directory st = some ((0, d), st')) :
    ∃ d' st'', fat16GetRootDirectory device' { header with sectorsPerCluster := c } directory st =
      some ((0, d'), st'') := by
  obtain ⟨pos, hpos⟩ : ∃ pos, fat16SectorToAbsolute ((header.fatCopies.toNat : ℤ) *
    header.sectorsPerFat.toNat + header.reservedSectors.toNat) = pos := ⟨_, rfl⟩
  have hrange : -2147483648 ≤ pos ∧ pos < 2147483648 := hpos ▸ i32_range _
  unfold fat16GetRootDirectory at hroot ⊢
  dsimp only [diskstreamerSeek] at hroot ⊢
  rw [fat16GetTotalItemsForDirectory_congr h hdev hdev']
  rw [hpos] at hroot ⊢
  cases htotal : fat16GetTotalItemsForDirectory device (UInt32.ofInt ((header.fatCopies.toNat : ℤ) *
      header.sectorsPerFat.toNat + header.reservedSectors.toNat)) st.streams with
  | none =>
      rw [htotal] at hroot
      cases hroot
  | some r =>
      rw [htotal, Option.bind_some] at hroot
      rw [Option.bind_some]
      split_ifs at hroot ⊢ with hnull hseek
      · have h0 : - ENOMEM = 0 := congrArg (fun x => x.1.1) (Option.some.inj hroot)
        exact absurd h0 (by decide)
      · exact absurd rfl hseek
      · have hsize : (header.rootDirEntries.toNat : ℤ) * 32 =
            ((header.rootDirEntries.toNat * 32 : ℕ) : ℤ) := by push_cast; rfl
        rw [hsize] at hroot ⊢
        rw [diskstreamerRead_at hdev _ _ _ _ hrange.1 hrange.2] at hroot
        rw [diskstreamerRead_at hdev' _ _ _ _ hrange.1 hrange.2]
        by_cases hleaves : LeavesBuffer pos (header.rootDirEntries.toNat * 32)
        · rw [if_pos hleaves] at hroot
          cases hroot
        · rw [if_neg hleaves]
          exact ⟨_, _, rfl⟩

/-- The address of the stream for the boot sector, and the state before it is read. -/
def fat16ResolveStart (k : Kernel) : UInt32 × FatState :=
  let clusterReadStream := diskstreamerNew (kzalloc 92 k).2
  let fatReadStream := diskstreamerNew clusterReadStream.2
  let directoryStream := diskstreamerNew fatReadStream.2
  let stream := diskstreamerNew directoryStream.2
  (stream.1.1, ⟨⟨clusterReadStream.1.2, fatReadStream.1.2, directoryStream.1.2⟩, stream.2⟩)

/-- A volume is accepted if its boot sector has the signature and its root directory is read. -/
theorem fat16Resolve_iff (hdev : device.Delivers) {k : Kernel} {volume : FatVolume} :
    (∃ st, fat16Resolve device k = some ((0, volume), st)) ↔
      (fat16ResolveStart k).1 ≠ 0 ∧ fatSignatureOf (diskByte device) = 0x29 ∧
      ∃ d st, fat16GetRootDirectory device (fatHeaderOf (diskByte device))
          (emptyVolume device).rootDirectory (fat16ResolveStart k).2 = some ((0, d), st) ∧
        volume = ⟨device, fatHeaderOf (diskByte device), d⟩ := by
  have hread : diskstreamerRead device ⟨0⟩ 0 sizeofFatHeader (fun _ => 0) =
      some (0, ⟨((0 + 62 : ℕ) : ℤ)⟩,
        writeBytes (fun _ => 0) 0 (fun i => diskByte device (0 + i)) 62) :=
    diskstreamerRead_eq hdev 62 0 0 (fun _ => 0) (by decide)
  obtain ⟨hheader, hsig⟩ := fatHeaderOf_congr (f := fun i =>
      writeBytes (fun _ => 0) 0 (fun i => diskByte device (0 + i)) 62 (off 0 i))
    (g := diskByte device) fun i hi => by
      rw [writeBytes_off _ _ _ hi (by decide), Nat.zero_add]
  have hresolve : fat16Resolve device k =
      let start := fat16ResolveStart k
      let out := fat16ResolveOut (kzalloc 92 k).1 start.1
      if start.1 = 0 then some (out ((- ENOMEM, emptyVolume device), start.2))
      else if fatSignatureOf (diskByte device) ≠ 0x29 then
        some (out ((- EFSNOTUS, emptyVolume device), start.2))
      else
        (fat16GetRootDirectory device (fatHeaderOf (diskByte device))
          (emptyVolume device).rootDirectory start.2).map fun q =>
            out ((if q.1.1 ≠ 0 then - EIO else 0,
              ⟨device, fatHeaderOf (diskByte device), q.1.2⟩), q.2) := by
    unfold fat16Resolve
    dsimp only
    change (if _ then _ else (diskstreamerRead device ⟨0⟩ 0 sizeofFatHeader _).bind _) = _
    rw [hread, Option.bind_some]
    dsimp only
    rw [hheader, hsig, if_neg (not_not.mpr rfl)]
    rfl
  rw [hresolve]
  dsimp only
  constructor
  · rintro ⟨st, h⟩
    split_ifs at h with hnull hno
    · have h0 : - ENOMEM = 0 := congrArg (fun x => x.1.1) (Option.some.inj h)
      exact absurd h0 (by decide)
    · have h0 : - EFSNOTUS = 0 := congrArg (fun x => x.1.1) (Option.some.inj h)
      exact absurd h0 (by decide)
    · obtain ⟨⟨⟨res, d⟩, st₁⟩, hroot, hout⟩ := Option.map_eq_some_iff.mp h
      have hres : (if res ≠ 0 then (- EIO) else 0) = 0 := congrArg (fun x => x.1.1) hout
      split_ifs at hres with hres0
      · exact absurd hres (by decide)
      · obtain rfl : res = 0 := not_not.mp hres0
        exact ⟨hnull, not_not.mp hno, d, st₁, hroot, (congrArg (fun x => x.1.2) hout).symm⟩
  · rintro ⟨hnull, hyes, d, st₁, hroot, rfl⟩
    rw [if_neg hnull, if_neg (not_not.mpr hyes), hroot]
    exact ⟨_, rfl⟩

/-! ### Every accepted boot sector -/

/-- **The geometry of an accepted volume** is as the boot sector has it: every divisor of a later
call is 512 times the byte `sectors_per_cluster`, so none is zero if and only if that byte is
not; a read of any file that `fopen` opened does divide by it; and mounting accepts a boot sector
whatever it holds there and in `bytes_per_sector`. -/
theorem fat16Resolve_geometry (hdev : device.Delivers) {k : Kernel} {volume : FatVolume}
    {st : FatState} (h : fat16Resolve device k = some ((0, volume), st)) :
    (∀ d, volume.Divides d → d = 512 * (diskByte device 13).toNat) ∧
      (¬ volume.Divides 0 ↔ diskByte device 13 ≠ 0) ∧
      (∀ filename modeStr f fd f', fopen ⟨some fat16Fs, volume⟩ filename modeStr f =
          some (fd, f') → 0 < fd → fd < peachosMaxFileDescriptors → f'.kernel.oom = false →
        ∃ desc, OpenFile f' fd volume desc ∧ ∀ item, desc.item.directoryItem = some item →
          ∀ ptr size nmemb : UInt32, 1 ≤ size.toNat → 1 ≤ nmemb.toNat →
            512 * ((diskByte device 13).toNat : ℤ) ∈
              freadDivisors volume desc ptr size nmemb f') ∧
      ∀ device', device'.Delivers → SameButGeometry device device' →
        ∃ volume' st', fat16Resolve device' k = some ((0, volume'), st') := by
  obtain ⟨hnull, hsig, d, st₁, hroot, rfl⟩ := (fat16Resolve_iff hdev).mp ⟨st, h⟩
  have hsize : FatVolume.sizeOfClusterBytes ⟨device, fatHeaderOf (diskByte device), d⟩ =
      512 * (diskByte device 13).toNat := mul_comm _ _
  refine ⟨fun x hx => hx.eq.trans hsize, ⟨fun hno hzero => ?_, fun hne hdiv => ?_⟩,
    fun filename modeStr f fd f' hopen hfd hlt hok => ?_, fun device' hdev' hsame => ?_⟩
  · -- a read of one byte of any file
    obtain ⟨desc, hdesc⟩ : ∃ desc : FatFileDescriptor, desc.item.directoryItem = some smallItem :=
      ⟨⟨0, ⟨0, FatItemUnion.item 0 smallItem, FatItemType.file⟩, 0⟩, rfl⟩
    refine hno (FatVolume.Divides.fread 1 desc 0 1 1 ⟨[some ⟨0, 1, fat16Fs, desc, _⟩],
      st.streams, k⟩ ⟨0, 1, rfl⟩ ?_)
    have hsize0 := hsize
    rw [hzero] at hsize0
    rw [show (0 : ℤ) = 512 * ((0 : UInt8).toNat : ℤ) from rfl, ← hsize0]
    exact mem_freadDivisors hdesc 0 (by decide) (by decide) _
  · have h0 := hdiv.eq.trans hsize
    exact hne (UInt8.toNat_inj.mp (by change _ = 0; omega))
  · obtain ⟨desc, hdesc⟩ := fopen_openFile hopen hfd hlt hok
    refine ⟨desc, hdesc, fun item hitem ptr size nmemb h1 h2 => ?_⟩
    rw [← hsize]
    exact mem_freadDivisors hitem ptr h1 h2 f'
  · have hbyte : ∀ i, i < 11 ∨ 14 ≤ i → i < 512 → diskByte device' i = diskByte device i := by
      intro i hi hlt
      unfold diskByte
      rw [Nat.div_eq_of_lt hlt, Nat.mod_eq_of_lt hlt]
      exact hsame _ _ (Or.inr hi)
    have hheader : fatHeaderOf (diskByte device') =
        { fatHeaderOf (diskByte device) with sectorsPerCluster := diskByte device' 13 } := by
      unfold fatHeaderOf
      rw [hbyte 14 (by decide) (by decide), hbyte 15 (by decide) (by decide),
        hbyte 16 (by decide) (by decide), hbyte 17 (by decide) (by decide),
        hbyte 18 (by decide) (by decide), hbyte 22 (by decide) (by decide),
        hbyte 23 (by decide) (by decide)]
    have hsig' : fatSignatureOf (diskByte device') = fatSignatureOf (diskByte device) :=
      hbyte 38 (by decide) (by decide)
    obtain ⟨d', st'', hroot'⟩ := fat16GetRootDirectory_congr hsame hdev hdev'
      (diskByte device' 13) hroot
    obtain ⟨st', hst'⟩ := (fat16Resolve_iff hdev').mpr
      ⟨hnull, hsig'.trans hsig, d', st'', hheader ▸ hroot', rfl⟩
    exact ⟨_, st', hst'⟩

/-- One sector in a cluster. -/
theorem fat16Resolve_geometry_sector : ∃ k volume st,
    fat16Resolve (bootDisk 16 fun _ => 0) k = some ((0, volume), st) ∧ ¬ volume.Divides 0 := by
  have hdev : (bootDisk 16 fun _ => 0).Delivers := fun _ => rfl
  obtain ⟨volume, st, hres, -⟩ :=
    exists_resolved hdev ⟨1, 1, 0, 16, 0⟩ 0 (by decide) (by decide) (by decide) (by decide)
      (by decide) (by decide) (by decide)
  exact ⟨_, volume, st, hres, (fat16Resolve_geometry hdev hres).2.1.mpr (by decide)⟩

/-- The field `bytes_per_sector` of the boot sector. -/
def fatBytesPerSectorOf (bytes : ℕ → UInt8) : ℕ := (bytes 11).toNat + 256 * (bytes 12).toNat

/-- A boot sector with no sectors in a cluster and no bytes in a sector, and the small file in the
root directory. -/
def zeroClusterDisk : Device := fun lba =>
  (0, fun i =>
    if lba = 0 then if i = 14 then 1 else if i = 17 then 16 else if i = 38 then 0x29 else 0
    else if lba = 1 ∧ i < 32 then smallItem.stored i else 0)

/-- The volume is mounted and the file opened, and the first read of a byte divides by zero. -/
theorem fat16Resolve_zeroCluster : ∃ volume st f desc,
    fat16Resolve zeroClusterDisk freshKernel = some ((0, volume), st) ∧
      fopen ⟨some fat16Fs, volume⟩ smallPath [ascii 'r']
        ⟨List.replicate 512 none, st.streams, st.kernel⟩ = some (1, f) ∧
      OpenFile f 1 volume desc ∧ 0 ∈ freadDivisors volume desc 0 1 1 f ∧
      fread 0 1 1 1 f = none ∧ fatBytesPerSectorOf (diskByte zeroClusterDisk) ≠ 512 := by
  have hdev : zeroClusterDisk.Delivers := fun _ => rfl
  obtain ⟨volume, st, hres, hheader, hdisk, -, hok, hcard⟩ :=
    exists_resolved hdev ⟨0, 1, 0, 16, 0⟩ 1 (by decide) (by decide) (by decide) (by decide)
      (by decide) (by decide) (by decide)
  obtain ⟨hdevice, -⟩ := fat16Resolve_accepts hres
  have hvol : volume.device.Delivers := hdevice ▸ hdev
  have hmount := fat16Resolve_mounted hres
  obtain ⟨hbytes, -⟩ := fat16GetRootDirectory_spec hvol hmount hdisk
  rw [hheader, hdevice] at hbytes
  have htree : StoredTree volume ([smallItem].map FatNode.file) := by
    refine storedTree_small (by rw [hheader]; decide) (fun j hj => ?_) ?_
    · rw [hbytes j (Nat.lt_trans hj (by decide))]
      revert j
      decide
    · rw [hbytes 32 (by decide)]
      decide
  obtain ⟨ptr, desc, f, hopen, hitem, -, -, htable, -, -⟩ := fopen_small hvol hmount hdisk htree
    (f := ⟨List.replicate 512 none, st.streams, st.kernel⟩) (i := 0) rfl hok hcard
  have hslot : fileGetDescriptor 1 f = some ⟨ptr, 1, fat16Fs, desc, volume⟩ := by
    rw [fileGetDescriptor_eq_some, htable]
    exact ⟨by decide, rfl⟩
  have hsize : volume.sizeOfClusterBytes = 0 := by
    unfold FatVolume.sizeOfClusterBytes
    rw [hheader]
    rfl
  refine ⟨volume, st, f, desc, hres, hopen, ⟨ptr, 1, hslot⟩, ?_, ?_, by decide⟩
  · rw [← hsize]
    exact mem_freadDivisors hitem 0 (by decide) (by decide) f
  · have hread : fat16Read volume desc 1 1 0 f.streams f.kernel.mem = none := by
      unfold fat16Read
      rw [hitem, Option.bind_some, show (1 : UInt32).toNat = 0 + 1 from rfl]
      unfold fat16ReadLoop fat16ReadInternal fat16ReadInternalFromStream
      dsimp only
      rw [if_pos hsize.le]
      rfl
    unfold fread
    rw [if_neg (by decide), hslot]
    exact congrArg (Option.map _) hread

end PeachOS
