import PeachOS.CString
import PeachOS.Fat16Cluster

/-! # FAT16: directories

The part of `fat16.c` that reads directories and looks names up in them.  The buffers of the
items are in memory; `struct fat_directory` and `struct fat_item` are values that carry the
addresses of their allocations.  An item is looked at through the bytes from its first one on,
since a name without a blank runs on behind its field. -/

namespace PeachOS

open ByteMemory

/-! ### Items -/

/-- `PEACHOS_FAT16` attributes: `FAT_FILE_READ_ONLY` and `FAT_FILE_SUBDIRECTORY`. -/
def fatFileReadOnly : UInt8 := 0x01
def fatFileSubdirectory : UInt8 := 0x10

/-- `struct fat_directory_item`, the 32 bytes it is on the disk. -/
structure FatDirectoryItem where
  bytes : Fin 32 → UInt8
deriving DecidableEq

namespace FatDirectoryItem

/-- The field `attribute`. -/
def attributes (item : FatDirectoryItem) : UInt8 := item.bytes 11

def high16BitsFirstCluster (item : FatDirectoryItem) : UInt32 :=
  UInt32.ofNat ((item.bytes 20).toNat + 256 * (item.bytes 21).toNat)

def low16BitsFirstCluster (item : FatDirectoryItem) : UInt32 :=
  UInt32.ofNat ((item.bytes 26).toNat + 256 * (item.bytes 27).toNat)

def filesize (item : FatDirectoryItem) : UInt32 :=
  UInt32.ofNat ((item.bytes 28).toNat + 256 * (item.bytes 29).toNat +
    65536 * (item.bytes 30).toNat + 16777216 * (item.bytes 31).toNat)

end FatDirectoryItem

/-- The item in the 32 bytes from `bytes 0` on. -/
def itemOf (bytes : ℕ → UInt8) : FatDirectoryItem := ⟨fun i => bytes i⟩

/-- The bytes from item `i` of a directory on. -/
def FatDirectory.itemBytes (directory : FatDirectory) (i : ℕ) : ℕ → UInt8 :=
  fun j => directory.bytes (32 * i + j)

/-- `fat16_get_first_cluster`. -/
def fat16GetFirstCluster (item : FatDirectoryItem) : UInt32 :=
  item.high16BitsFirstCluster ||| item.low16BitsFirstCluster

/-- `fat16_to_proper_string`: the characters it copies, none if they and the terminator do
not fit in the `room` bytes that are left. -/
def fat16ToProperString : ℕ → (ℕ → UInt8) → Option (List UInt8)
  | 0, _ => none
  | room + 1, input =>
      if input 0 ≠ 0x00 ∧ input 0 ≠ 0x20 then
        (fat16ToProperString room fun i => input (i + 1)).map fun out => input 0 :: out
      else some []

/-- `fat16_get_full_relative_filename`. -/
def fat16GetFullRelativeFilename (item : ℕ → UInt8) (maxLen : ℕ) : Option (List UInt8) :=
  (fat16ToProperString maxLen item).bind fun name =>
    if item 8 ≠ 0x00 ∧ item 8 ≠ 0x20 then
      (fat16ToProperString (maxLen - name.length - 1) fun i => item (8 + i)).map fun ext =>
        name ++ ascii '.' :: ext
    else some name

/-- The two kinds of `FAT_ITEM_TYPE`. -/
inductive FatItemType
  | directory
  | file
deriving DecidableEq, Repr

/-- The union of `struct fat_item`: a pointer to an item, with what it points to, or to a
directory, none for null. -/
inductive FatItemUnion
  | item (ptr : UInt32) (value : FatDirectoryItem)
  | directory (value : Option FatDirectory)

/-- `struct fat_item`, allocated at `ptr`. -/
structure FatItem where
  ptr : UInt32
  content : FatItemUnion
  type : FatItemType

/-- The state of the file system: the streams of the volume and the kernel. -/
structure FatState where
  streams : FatStreams
  kernel : Kernel

/-! ### Reading directories -/

/-- More reads than there are positions of a stream. -/
def scanLimit : ℕ := 134217728

/-- The loop of `fat16_get_total_items_for_directory`, with at most as many reads as the first
argument says; no result if they do not reach a blank record. -/
def fat16TotalItemsLoop (device : Device) : ℕ → ℤ → DiskStream → Option (ℤ × DiskStream)
  | 0, _, _ => none
  | n + 1, i, stream =>
      -- `item` is a local variable
      (diskstreamerRead device stream 0 32 fun _ => 0).bind fun r =>
        if r.1 ≠ 0 then some (- EIO, r.2.1)
        else if r.2.2 0 = 0x00 then some (i, r.2.1)
        else if r.2.2 0 = 0xe5 then fat16TotalItemsLoop device n i r.2.1
        else fat16TotalItemsLoop device n (i + 1) r.2.1

/-- `fat16_get_total_items_for_directory`. -/
def fat16GetTotalItemsForDirectory (device : Device) (directoryStartSector : UInt32)
    (streams : FatStreams) : Option (ℤ × FatStreams) :=
  let directoryStartPos := i32 (directoryStartSector * UInt32.ofInt peachosSectorSize).toNat
  let sought := diskstreamerSeek streams.directoryStream directoryStartPos
  if sought.1 ≠ 0 then some (- EIO, { streams with directoryStream := sought.2 })
  else
    (fat16TotalItemsLoop device scanLimit 0 sought.2).map fun r =>
      (r.1, { streams with directoryStream := r.2 })

/-- `fat16_sector_to_absolute`. -/
def fat16SectorToAbsolute (sector : ℤ) : ℤ := i32 (sector * peachosSectorSize)

/-- `fat16_get_root_directory`: the result and the directory. -/
def fat16GetRootDirectory (device : Device) (header : FatHeader) (directory : FatDirectory)
    (st : FatState) : Option ((ℤ × FatDirectory) × FatState) :=
  let rootDirSectorPos : ℤ :=
    header.fatCopies.toNat * header.sectorsPerFat.toNat + header.reservedSectors.toNat
  let rootDirSize : ℤ := header.rootDirEntries.toNat * 32
  (fat16GetTotalItemsForDirectory device (UInt32.ofInt rootDirSectorPos) st.streams).bind fun r =>
    let dir := kzalloc (UInt32.ofInt rootDirSize) st.kernel
    if dir.1 = 0 then some ((- ENOMEM, directory), ⟨r.2, dir.2⟩)
    else
      let sought := diskstreamerSeek r.2.directoryStream (fat16SectorToAbsolute rootDirSectorPos)
      if sought.1 ≠ 0 then
        some ((- EIO, directory), ⟨{ r.2 with directoryStream := sought.2 }, dir.2⟩)
      else
        (diskstreamerRead device sought.2 dir.1 rootDirSize dir.2.mem).map fun q =>
          let st : FatState :=
            ⟨{ r.2 with directoryStream := q.2.1 }, { dir.2 with mem := q.2.2 }⟩
          if q.1 ≠ 0 then ((- EIO, directory), st)
          else
            ((0, { directory with
              item := dir.1
              bytes := fun i => q.2.2 (off dir.1 i)
              total := r.1
              sectorPos := rootDirSectorPos
              endingSectorPos := rootDirSectorPos + rootDirSize.tdiv peachosSectorSize }), st)

/-- `fat16_free_directory`. -/
def fat16FreeDirectory (directory : Option FatDirectory) (k : Kernel) : Kernel :=
  match directory with
  | none => k
  | some directory =>
      let k := if directory.item ≠ 0 then kfree directory.item k else k
      kfree directory.ptr k

/-- `fat16_load_fat_directory`: the directory, none for null. -/
def fat16LoadFatDirectory (volume : FatVolume) (item : FatDirectoryItem) (st : FatState) :
    Option (Option FatDirectory × FatState) :=
  if item.attributes &&& fatFileSubdirectory = 0 then some (none, st)
  else
    let directory := kzalloc 16 st.kernel
    if directory.1 = 0 then some (none, { st with kernel := directory.2 })
    else
      let cluster := i32 (fat16GetFirstCluster item).toNat
      let clusterSector := fat16ClusterToSector volume cluster
      (fat16GetTotalItemsForDirectory volume.device (UInt32.ofInt clusterSector) st.streams).bind
        fun r =>
          let directorySize := UInt32.ofInt (r.1 * 32)
          let items := kzalloc directorySize directory.2
          let loaded (m : Mem) : FatDirectory :=
            ⟨directory.1, items.1, fun i => m (off items.1 i), r.1, 0, 0⟩
          if items.1 = 0 then
            let d := some (loaded items.2.mem)
            some (d, ⟨r.2, fat16FreeDirectory d items.2⟩)
          else
            (fat16ReadInternal volume cluster 0 (i32 directorySize.toNat) items.1 items.2.mem
              r.2).map fun q =>
                let d := some (loaded q.1.2)
                let k := { items.2 with mem := q.1.2 }
                -- the directory is returned even if it was freed
                (d, ⟨q.2, if q.1.1 ≠ 0 then fat16FreeDirectory d k else k⟩)

/-! ### Looking up -/

/-- `fat16_clone_directory_item` of the 32 bytes of an item: the copy and its address, null if
there is none. -/
def fat16CloneDirectoryItem (item : FatDirectoryItem) (k : Kernel) :
    (UInt32 × FatDirectoryItem) × Kernel :=
  let itemCopy := kzalloc 32 k
  if itemCopy.1 = 0 then ((0, itemOf fun i => itemCopy.2.mem (off 0 i)), itemCopy.2)
  else
    let m := writeBytes itemCopy.2.mem itemCopy.1 (fun i => item.bytes (Fin.ofNat 32 i)) 32
    ((itemCopy.1, item), { itemCopy.2 with mem := m })

/-- `fat16_new_fat_item_for_directory_item`: the new item, none for null. -/
def fat16NewFatItemForDirectoryItem (volume : FatVolume) (item : FatDirectoryItem)
    (st : FatState) : Option (Option FatItem × FatState) :=
  let fItem := kzalloc 8 st.kernel
  let st := { st with kernel := fItem.2 }
  if fItem.1 = 0 then some (none, st)
  else
    -- the directory is stored in the union first, and overwritten below
    (if item.attributes &&& fatFileSubdirectory ≠ 0 then
      (fat16LoadFatDirectory volume item st).map fun r => r.2
    else some st).map fun st =>
      let clone := fat16CloneDirectoryItem item st.kernel
      (some ⟨fItem.1, FatItemUnion.item clone.1.1 clone.1.2, FatItemType.file⟩,
        { st with kernel := clone.2 })

/-- The loop of `fat16_find_item_in_directory` over the `n` items from item `i` on. -/
def fat16FindItemLoop (volume : FatVolume) (directory : FatDirectory) (name : List UInt8) :
    ℕ → ℕ → Option FatItem → FatState → Option (Option FatItem × FatState)
  | 0, _, fItem, st => some (fItem, st)
  | n + 1, i, fItem, st =>
      (fat16GetFullRelativeFilename (directory.itemBytes i) peachosMaxPath).bind
        fun tmpFilename =>
          if istrncmp tmpFilename name peachosMaxPath = 0 then
            (fat16NewFatItemForDirectoryItem volume (itemOf (directory.itemBytes i)) st).bind
              fun r => fat16FindItemLoop volume directory name n (i + 1) r.1 r.2
          else fat16FindItemLoop volume directory name n (i + 1) fItem st

/-- `fat16_find_item_in_directory`: the item, none for null. -/
def fat16FindItemInDirectory (volume : FatVolume) (directory : FatDirectory) (name : List UInt8)
    (st : FatState) : Option (Option FatItem × FatState) :=
  fat16FindItemLoop volume directory name directory.total.toNat 0 none st

/-- `fat16_fat_item_free`. -/
def fat16FatItemFree (item : FatItem) (k : Kernel) : Kernel :=
  let k :=
    match item.type, item.content with
    | FatItemType.directory, FatItemUnion.directory directory => fat16FreeDirectory directory k
    | FatItemType.file, FatItemUnion.item ptr _ => kfree ptr k
    -- the tag does not fit the union; no item is built so
    | _, _ => k
  kfree item.ptr k

/-- The loop of `fat16_get_directory_entry` with the parts that are left. -/
def fat16WalkLoop (volume : FatVolume) :
    List (List UInt8) → FatItem → FatState → Option (Option FatItem × FatState)
  | [], currentItem, st => some (some currentItem, st)
  | part :: nextPart, currentItem, st =>
      if currentItem.type ≠ FatItemType.directory then some (none, st)
      else
        match currentItem.content with
        | FatItemUnion.directory (some directory) =>
            (fat16FindItemInDirectory volume directory part st).bind fun r =>
              let st := { r.2 with kernel := fat16FatItemFree currentItem r.2.kernel }
              match r.1, nextPart with
              | some item, _ => fat16WalkLoop volume nextPart item st
              | none, [] => some (none, st)
              -- `current_item->type` of null
              | none, _ :: _ => none
        -- a null directory, or an item taken for one
        | _ => none

/-- `fat16_get_directory_entry` for the strings of a list of parts. -/
def fat16GetDirectoryEntry (volume : FatVolume) (path : List (List UInt8)) (st : FatState) :
    Option (Option FatItem × FatState) :=
  match path with
  | [] => none
  | part :: nextPart =>
      (fat16FindItemInDirectory volume volume.rootDirectory part st).bind fun r =>
        match r.1 with
        | none => some (none, r.2)
        | some rootItem => fat16WalkLoop volume nextPart rootItem r.2

/-! ### Names -/

theorem fat16ToProperString_spec : ∀ {room : ℕ} {input : ℕ → UInt8} {out : List UInt8},
    fat16ToProperString room input = some out → 0 ∉ out ∧ out.length < room
  | room + 1, input, out, h => by
      unfold fat16ToProperString at h
      split_ifs at h with hc
      · obtain ⟨out', hout', rfl⟩ := Option.map_eq_some_iff.mp h
        obtain ⟨h0, hlen⟩ := fat16ToProperString_spec hout'
        rw [List.mem_cons, not_or, List.length_cons]
        exact ⟨⟨hc.1.symm, h0⟩, Nat.succ_lt_succ hlen⟩
      · obtain rfl := Option.some.inj h
        exact ⟨List.not_mem_nil, Nat.succ_pos room⟩

/-- A rendered name is a string that fits in its buffer. -/
theorem fat16GetFullRelativeFilename_spec {item : ℕ → UInt8} {maxLen : ℕ} {out : List UInt8}
    (h : fat16GetFullRelativeFilename item maxLen = some out) : 0 ∉ out ∧ out.length < maxLen := by
  obtain ⟨name, hname, hrest⟩ := Option.bind_eq_some_iff.mp h
  obtain ⟨h0, hlen⟩ := fat16ToProperString_spec hname
  split_ifs at hrest with hext
  · obtain ⟨ext, hext', rfl⟩ := Option.map_eq_some_iff.mp hrest
    obtain ⟨h0', hlen'⟩ := fat16ToProperString_spec hext'
    rw [List.mem_append, List.mem_cons, not_or, not_or, List.length_append, List.length_cons]
    exact ⟨⟨h0, by decide, h0'⟩, by omega⟩
  · obtain rfl := Option.some.inj hrest
    exact ⟨h0, hlen⟩

/-- Item `i` of the directory is rendered as `name`, but for the case. -/
def FatDirectory.Named (directory : FatDirectory) (name : List UInt8) (i : ℕ) : Prop :=
  ∃ filename, fat16GetFullRelativeFilename (directory.itemBytes i) peachosMaxPath = some filename ∧
    SameName filename name

theorem FatDirectory.named_iff {directory : FatDirectory} {name filename : List UInt8} {i : ℕ}
    (h0 : 0 ∉ name)
    (h : fat16GetFullRelativeFilename (directory.itemBytes i) peachosMaxPath = some filename) :
    istrncmp filename name peachosMaxPath = 0 ↔ directory.Named name i := by
  obtain ⟨hz, hlen⟩ := fat16GetFullRelativeFilename_spec h
  rw [istrncmp_eq_zero_iff hz h0 hlen]
  refine ⟨fun hs => ⟨filename, h, hs⟩, fun ⟨filename', h', hs⟩ => ?_⟩
  rw [h] at h'
  rwa [Option.some.inj h']

/-! ### Allocations that failed -/

theorem fat16FreeDirectory_oom (directory : Option FatDirectory) (k : Kernel) :
    (fat16FreeDirectory directory k).oom = k.oom := by
  unfold fat16FreeDirectory
  cases directory with
  | none => rfl
  | some directory =>
      dsimp only
      split_ifs <;> rfl

theorem fat16LoadFatDirectory_oom {volume : FatVolume} {item : FatDirectoryItem}
    {st st' : FatState} {d : Option FatDirectory}
    (h : fat16LoadFatDirectory volume item st = some (d, st'))
    (hok : st'.kernel.oom = false) : st.kernel.oom = false := by
  unfold fat16LoadFatDirectory at h
  dsimp only at h
  split_ifs at h with hsub hnull
  · cases h
    exact hok
  · cases h
    exact kzalloc_oom_false hok
  · obtain ⟨r, -, h⟩ := Option.bind_eq_some_iff.mp h
    split_ifs at h with hitems
    · cases h
      rw [fat16FreeDirectory_oom] at hok
      exact kzalloc_oom_false (kzalloc_oom_false hok)
    · obtain ⟨q, -, h⟩ := Option.map_eq_some_iff.mp h
      cases h
      dsimp only at hok
      split_ifs at hok
      · rw [fat16FreeDirectory_oom] at hok
        exact kzalloc_oom_false (kzalloc_oom_false hok)
      · exact kzalloc_oom_false (kzalloc_oom_false hok)

theorem fat16CloneDirectoryItem_ok {item : FatDirectoryItem} {k : Kernel}
    (hok : (fat16CloneDirectoryItem item k).2.oom = false) :
    k.oom = false ∧ (fat16CloneDirectoryItem item k).1.2 = item := by
  unfold fat16CloneDirectoryItem at hok ⊢
  dsimp only at hok ⊢
  split_ifs at hok ⊢ with hnull
  · exact absurd hnull (kzalloc_ne_zero_of_ok hok)
  · exact ⟨kzalloc_oom_false hok, rfl⟩

/-- Without a failed allocation there is a new item, of the kind file, with a copy of the item
of the directory. -/
theorem fat16NewFatItemForDirectoryItem_ok {volume : FatVolume} {item : FatDirectoryItem}
    {st st' : FatState} {f : Option FatItem}
    (h : fat16NewFatItemForDirectoryItem volume item st = some (f, st'))
    (hok : st'.kernel.oom = false) :
    st.kernel.oom = false ∧
      ∃ ptr p, f = some ⟨ptr, FatItemUnion.item p item, FatItemType.file⟩ := by
  unfold fat16NewFatItemForDirectoryItem at h
  dsimp only at h
  split_ifs at h with hnull hsub
  · cases h
    exact absurd hnull (kzalloc_ne_zero_of_ok hok)
  · obtain ⟨st₁, hmap, h⟩ := Option.map_eq_some_iff.mp h
    obtain ⟨⟨d, st₂⟩, hload, rfl⟩ := Option.map_eq_some_iff.mp hmap
    cases h
    obtain ⟨hok₁, hclone⟩ := fat16CloneDirectoryItem_ok hok
    rw [hclone]
    exact ⟨kzalloc_oom_false (fat16LoadFatDirectory_oom hload hok₁), _, _, rfl⟩
  · cases h
    obtain ⟨hok₁, hclone⟩ := fat16CloneDirectoryItem_ok hok
    rw [hclone]
    exact ⟨kzalloc_oom_false hok₁, _, _, rfl⟩

/-! ### The last match -/

/-- `res` is what the loop leaves from `fItem` on after the `n` items from item `i` on: a copy
of the last of them that has the name, or `fItem` if none has. -/
def LastMatch (directory : FatDirectory) (name : List UInt8) (i n : ℕ)
    (fItem res : Option FatItem) : Prop :=
  (∃ j < n, directory.Named name (i + j) ∧
    (∀ j', j < j' → j' < n → ¬ directory.Named name (i + j')) ∧
    ∃ ptr p, res =
      some ⟨ptr, FatItemUnion.item p (itemOf (directory.itemBytes (i + j))), FatItemType.file⟩) ∨
  ((∀ j < n, ¬ directory.Named name (i + j)) ∧ res = fItem)

/-- One item in front of those that are left. -/
theorem LastMatch.cons {directory : FatDirectory} {name : List UInt8} {i n : ℕ}
    {fItem fItem' res : Option FatItem} (h : LastMatch directory name (i + 1) n fItem' res)
    (hitem : (directory.Named name i ∧ ∃ ptr p, fItem' =
        some ⟨ptr, FatItemUnion.item p (itemOf (directory.itemBytes i)), FatItemType.file⟩) ∨
      (¬ directory.Named name i ∧ fItem' = fItem)) :
    LastMatch directory name i (n + 1) fItem res := by
  have hadd : ∀ j, i + 1 + j = i + (j + 1) := fun j => by omega
  rcases h with ⟨j, hj, hnamed, hlast, hres⟩ | ⟨hnone, rfl⟩
  · rw [hadd] at hnamed hres
    refine Or.inl ⟨j + 1, by omega, hnamed, fun j' hjj hj' => ?_, hres⟩
    obtain ⟨l, rfl⟩ : ∃ l, j' = l + 1 := ⟨j' - 1, by omega⟩
    rw [← hadd]
    exact hlast l (by omega) (by omega)
  · have hrest : ∀ j', 0 < j' → j' < n + 1 → ¬ directory.Named name (i + j') := by
      intro j' hpos hj'
      obtain ⟨l, rfl⟩ : ∃ l, j' = l + 1 := ⟨j' - 1, by omega⟩
      rw [← hadd]
      exact hnone l (by omega)
    rcases hitem with ⟨hnamed, hres⟩ | ⟨hnot, rfl⟩
    · exact Or.inl ⟨0, Nat.succ_pos n, hnamed, hrest, hres⟩
    · refine Or.inr ⟨fun j' hj' => ?_, rfl⟩
      rcases Nat.eq_zero_or_pos j' with rfl | hpos
      · exact hnot
      · exact hrest j' hpos hj'

theorem fat16FindItemLoop_spec {volume : FatVolume} {directory : FatDirectory}
    {name : List UInt8} (h0 : 0 ∉ name) :
    ∀ {n i : ℕ} {fItem res : Option FatItem} {st st' : FatState},
      fat16FindItemLoop volume directory name n i fItem st = some (res, st') →
      st'.kernel.oom = false →
      st.kernel.oom = false ∧ LastMatch directory name i n fItem res
  | 0, i, fItem, res, st, st', h, hok => by
      cases h
      exact ⟨hok, Or.inr ⟨fun j hj => absurd hj (Nat.not_lt_zero j), rfl⟩⟩
  | n + 1, i, fItem, res, st, st', h, hok => by
      unfold fat16FindItemLoop at h
      obtain ⟨filename, hname, h⟩ := Option.bind_eq_some_iff.mp h
      have hnamed := FatDirectory.named_iff h0 hname
      split_ifs at h with hcmp
      · obtain ⟨⟨f, st₁⟩, hnew, h⟩ := Option.bind_eq_some_iff.mp h
        obtain ⟨hok₁, hlast⟩ := fat16FindItemLoop_spec h0 h hok
        obtain ⟨hok₀, hitem⟩ := fat16NewFatItemForDirectoryItem_ok hnew hok₁
        exact ⟨hok₀, hlast.cons (Or.inl ⟨hnamed.mp hcmp, hitem⟩)⟩
      · obtain ⟨hok₀, hlast⟩ := fat16FindItemLoop_spec h0 h hok
        exact ⟨hok₀, hlast.cons (Or.inr ⟨fun hn => hcmp (hnamed.mpr hn), rfl⟩)⟩

/-- The name of every item fits in its buffer, and a new item is made for every one that has
the name: then the loop returns. -/
theorem fat16FindItemLoop_returns {volume : FatVolume} {directory : FatDirectory}
    {name : List UInt8} (h0 : 0 ∉ name) : ∀ {n i : ℕ} (fItem : Option FatItem) (st : FatState),
      (∀ j < n, ∃ filename,
        fat16GetFullRelativeFilename (directory.itemBytes (i + j)) peachosMaxPath =
          some filename) →
      (∀ j < n, directory.Named name (i + j) → ∀ st, ∃ r,
        fat16NewFatItemForDirectoryItem volume (itemOf (directory.itemBytes (i + j))) st =
          some r) →
      ∃ res st', fat16FindItemLoop volume directory name n i fItem st = some (res, st')
  | 0, _, fItem, st, _, _ => ⟨fItem, st, rfl⟩
  | n + 1, i, fItem, st, hfits, hnew => by
      obtain ⟨filename, hname⟩ := hfits 0 (Nat.succ_pos n)
      have hnamed := FatDirectory.named_iff h0 hname
      have hadd : ∀ j, i + 1 + j = i + (j + 1) := fun j => by omega
      have ih := fun fItem st => fat16FindItemLoop_returns h0 fItem st
        (fun j hj => hadd j ▸ hfits (j + 1) (Nat.succ_lt_succ hj))
        (fun j hj => hadd j ▸ hnew (j + 1) (Nat.succ_lt_succ hj))
      rw [Nat.add_zero] at hname hnamed
      unfold fat16FindItemLoop
      rw [hname, Option.bind_some]
      split_ifs with hcmp
      · obtain ⟨r, hr⟩ := hnew 0 (Nat.succ_pos n) (hnamed.mp hcmp) st
        rw [Nat.add_zero] at hr
        rw [hr, Option.bind_some]
        exact ih r.1 r.2
      · exact ih fItem st

/-! ### Counting items -/

/-- A read of one item into a local variable. -/
theorem diskstreamerRead_item {device : Device} (hdev : device.Delivers) (pos : ℕ)
    (hpos : pos + 32 + 512 < 2147483648) :
    ∃ m, diskstreamerRead device ⟨pos⟩ 0 32 (fun _ => 0) =
      some (0, ⟨((pos + 32 : ℕ) : ℤ)⟩, m) ∧ m 0 = diskByte device pos := by
  refine ⟨_, diskstreamerRead_eq hdev 32 pos 0 (fun _ => 0) hpos, ?_⟩
  rw [writeBytes_apply _ _ _ _ 32 (by decide), if_pos (by decide)]
  rfl

/-- The loop counts the items that are not deleted in front of the first blank record. -/
theorem fat16TotalItemsLoop_spec {device : Device} (hdev : device.Delivers) :
    ∀ {L fuel : ℕ} (pos : ℕ) (i : ℤ), L < fuel → pos + 32 * (L + 1) + 512 < 2147483648 →
      (∀ j < L, diskByte device (pos + 32 * j) ≠ 0) → diskByte device (pos + 32 * L) = 0 →
      fat16TotalItemsLoop device fuel i ⟨pos⟩ =
        some (i + Nat.count (fun j => diskByte device (pos + 32 * j) ≠ 0xe5) L,
          ⟨((pos + 32 * (L + 1) : ℕ) : ℤ)⟩)
  | 0, fuel + 1, pos, i, _, hpos, _, hblank => by
      obtain ⟨m, hread, hm⟩ := diskstreamerRead_item hdev pos (by omega)
      unfold fat16TotalItemsLoop
      rw [hread, Option.bind_some]
      rw [Nat.mul_zero, Nat.add_zero] at hblank
      simp [hm, hblank]
  | L + 1, fuel + 1, pos, i, hfuel, hpos, hused, hblank => by
      obtain ⟨m, hread, hm⟩ := diskstreamerRead_item hdev pos (by omega)
      have hfirst := hused 0 (Nat.succ_pos L)
      rw [Nat.mul_zero, Nat.add_zero] at hfirst
      have hadd : ∀ j, pos + 32 + 32 * j = pos + 32 * (j + 1) := fun j => by omega
      have ih := fun i => fat16TotalItemsLoop_spec hdev (pos + 32) i
        (Nat.lt_of_succ_lt_succ hfuel) (by omega)
        (fun j hj => hadd j ▸ hused (j + 1) (Nat.succ_lt_succ hj)) (hadd L ▸ hblank)
      unfold fat16TotalItemsLoop
      rw [hread, Option.bind_some]
      simp only [hm, ne_eq, not_true_eq_false, if_false, if_neg hfirst, ih, hadd]
      have hzero : diskByte device (pos + 32 * 0) = diskByte device pos := rfl
      rw [Nat.count_succ', hzero]
      by_cases hdel : diskByte device pos = 229
      · rw [if_pos hdel, if_neg (not_not.mpr hdel)]
        rfl
      · rw [if_neg hdel, if_pos hdel, Nat.cast_succ, add_assoc, add_comm (1 : ℤ)]

/-- The position of a sector, in the arithmetic of `uint32_t`. -/
theorem sectorPos_ofNat {sector : ℕ} (h : sector * 512 < 2147483648) :
    i32 (UInt32.ofNat sector * UInt32.ofInt peachosSectorSize).toNat =
      ((sector * 512 : ℕ) : ℤ) := by
  have hlt : sector * 512 < 4294967296 := Nat.lt_trans h (by decide)
  have hsize : UInt32.ofInt peachosSectorSize = UInt32.ofNat 512 := by decide
  rw [hsize, ← UInt32.ofNat_mul, UInt32.toNat_ofNat_of_lt' hlt,
    i32_of_range (by omega) (by omega)]

/-- The number of items of a directory that starts at a sector of the disk. -/
theorem fat16GetTotalItemsForDirectory_spec {device : Device} (hdev : device.Delivers)
    {sector L : ℕ} (hpos : sector * 512 + 32 * (L + 1) ≤ 2147483648 - 1024)
    (hused : ∀ j < L, diskByte device (sector * 512 + 32 * j) ≠ 0)
    (hblank : diskByte device (sector * 512 + 32 * L) = 0) (streams : FatStreams) :
    fat16GetTotalItemsForDirectory device (UInt32.ofNat sector) streams =
      some (((Nat.count (fun j => diskByte device (sector * 512 + 32 * j) ≠ 0xe5) L : ℕ) : ℤ),
        { streams with directoryStream := ⟨((sector * 512 + 32 * (L + 1) : ℕ) : ℤ)⟩ }) := by
  unfold fat16GetTotalItemsForDirectory diskstreamerSeek
  dsimp only
  rw [sectorPos_ofNat (by omega), if_neg (not_not.mpr rfl),
    fat16TotalItemsLoop_spec hdev _ 0 (by unfold scanLimit; omega) (by omega) hused hblank,
    Option.map_some, zero_add]

/-! ### The root directory -/

/-- The sector where the root directory starts. -/
def FatHeader.rootDirSector (header : FatHeader) : ℕ :=
  header.fatCopies.toNat * header.sectorsPerFat.toNat + header.reservedSectors.toNat

/-- The volume was mounted: its root directory is what `fat16_get_root_directory` read. -/
def FatVolume.Mounted (volume : FatVolume) : Prop :=
  ∃ directory st st', fat16GetRootDirectory volume.device volume.header directory st =
    some ((0, volume.rootDirectory), st')

/-- The root directory lies where an `int` reaches every position that is read. -/
def FatVolume.RootOnDisk (volume : FatVolume) : Prop :=
  volume.header.rootDirSector * 512 + volume.header.rootDirEntries.toNat * 32 ≤ 2147483648 - 1024

/-- The slots of the root directory: slot `L` is its first blank one. -/
structure FatVolume.RootSlots (volume : FatVolume) (L : ℕ) : Prop where
  inside : L < volume.header.rootDirEntries.toNat
  used : ∀ i < L, volume.rootDirectory.itemBytes i 0 ≠ 0
  blank : volume.rootDirectory.itemBytes L 0 = 0

/-- What `fat16_get_root_directory` does on a disk that delivers. -/
theorem fat16GetRootDirectory_eq {device : Device} (hdev : device.Delivers) {header : FatHeader}
    {sector size : ℕ} (hsector : sector = header.rootDirSector)
    (hsize : size = header.rootDirEntries.toNat * 32)
    (hdisk : sector * 512 + size ≤ 2147483648 - 1024) (directory : FatDirectory) (st : FatState) :
    fat16GetRootDirectory device header directory st =
      (fat16GetTotalItemsForDirectory device (UInt32.ofNat sector) st.streams).map fun r =>
        let dir := kzalloc (UInt32.ofNat size) st.kernel
        let m := writeBytes dir.2.mem dir.1 (fun i => diskByte device (sector * 512 + i)) size
        if dir.1 = 0 then ((- ENOMEM, directory), ⟨r.2, dir.2⟩)
        else
          ((0, { directory with
            item := dir.1
            bytes := fun i => m (off dir.1 i)
            total := r.1
            sectorPos := sector
            endingSectorPos := sector + (size : ℤ).tdiv peachosSectorSize }),
            ⟨{ r.2 with directoryStream := ⟨((sector * 512 + size : ℕ) : ℤ)⟩ },
              { dir.2 with mem := m }⟩) := by
  have hsector' : ((header.fatCopies.toNat : ℤ) * header.sectorsPerFat.toNat +
      header.reservedSectors.toNat) = (sector : ℕ) := by
    rw [hsector]
    unfold FatHeader.rootDirSector
    push_cast
    rfl
  have hsize' : (header.rootDirEntries.toNat : ℤ) * 32 = (size : ℕ) := by
    rw [hsize]
    push_cast
    rfl
  have hstart : fat16SectorToAbsolute sector = ((sector * 512 : ℕ) : ℤ) := by
    have h512 : peachosSectorSize = ((512 : ℕ) : ℤ) := rfl
    unfold fat16SectorToAbsolute
    rw [h512, ← Nat.cast_mul, i32_of_range (by omega) (by omega)]
  unfold fat16GetRootDirectory
  rw [hsector', hsize']
  dsimp only [diskstreamerSeek]
  rw [ofInt_natCast, ofInt_natCast, hstart]
  cases fat16GetTotalItemsForDirectory device (UInt32.ofNat sector) st.streams with
  | none => rfl
  | some r =>
      rw [Option.bind_some, Option.map_some]
      by_cases hnull : (kzalloc (UInt32.ofNat size) st.kernel).1 = 0
      · rw [if_pos hnull, if_pos hnull]
      · rw [if_neg hnull, if_neg hnull, diskstreamerRead_eq hdev size (sector * 512) _ _ (by omega)]
        simp

/-- The bytes of the root directory. -/
theorem writeBytes_off (m : Mem) (p : UInt32) (f : ℕ → UInt8) {i n : ℕ} (hi : i < n)
    (hn : n ≤ 4294967296) : writeBytes m p f n (off p i) = f i := by
  have hoff : (off p i - p).toNat = i := by
    rw [off, add_sub_cancel_left, UInt32.toNat_ofNat_of_lt' (show i < 4294967296 by omega)]
  rw [writeBytes_apply _ _ _ _ n hn, if_pos (inRange_off hi), hoff]

/-- What `fat16_get_root_directory` reads. -/
theorem fat16GetRootDirectory_spec {volume : FatVolume} (hdev : volume.device.Delivers)
    (hmount : volume.Mounted) (hdisk : volume.RootOnDisk) :
    (∀ i < volume.header.rootDirEntries.toNat * 32, volume.rootDirectory.bytes i =
      diskByte volume.device (volume.header.rootDirSector * 512 + i)) ∧
    ∃ streams r, fat16GetTotalItemsForDirectory volume.device
      (UInt32.ofNat volume.header.rootDirSector) streams = some r ∧
        volume.rootDirectory.total = r.1 := by
  obtain ⟨directory, st, st', hroot⟩ := hmount
  unfold FatVolume.RootOnDisk at hdisk
  rw [fat16GetRootDirectory_eq hdev rfl rfl hdisk] at hroot
  obtain ⟨r, htotal, hroot⟩ := Option.map_eq_some_iff.mp hroot
  dsimp only at hroot
  split_ifs at hroot with hnull
  · cases hroot
  · have hdir : _ = volume.rootDirectory := congrArg (fun x => x.1.2) hroot
    rw [← hdir]
    exact ⟨fun i hi => writeBytes_off _ _ _ hi (by omega), st.streams, r, htotal, rfl⟩

/-- Slot `i` of the root directory holds an item that is not deleted. -/
def FatVolume.LiveSlot (volume : FatVolume) (L i : ℕ) : Prop :=
  i < L ∧ volume.rootDirectory.itemBytes i 0 ≠ 0xe5

/-- The number of items of the root directory. -/
def FatVolume.liveSlots (volume : FatVolume) (L : ℕ) : ℕ :=
  Nat.count (fun i => volume.rootDirectory.itemBytes i 0 ≠ 0xe5) L

theorem FatVolume.liveSlots_le (volume : FatVolume) (L : ℕ) : volume.liveSlots L ≤ L :=
  Nat.count_le _

theorem FatVolume.RootSlots.total {volume : FatVolume} {L : ℕ} (h : volume.RootSlots L)
    (hdev : volume.device.Delivers) (hmount : volume.Mounted) (hdisk : volume.RootOnDisk) :
    volume.rootDirectory.total = (volume.liveSlots L : ℕ) := by
  obtain ⟨hbytes, streams, r, htotal, hr⟩ := fat16GetRootDirectory_spec hdev hmount hdisk
  have hin := h.inside
  unfold RootOnDisk at hdisk
  have hslot : ∀ i ≤ L, diskByte volume.device (volume.header.rootDirSector * 512 + 32 * i) =
      volume.rootDirectory.itemBytes i 0 := by
    intro i hi
    exact (hbytes (32 * i) (by omega)).symm
  rw [fat16GetTotalItemsForDirectory_spec hdev (L := L) (by omega)
    (fun j hj => (hslot j hj.le).symm ▸ h.used j hj) ((hslot L le_rfl).symm ▸ h.blank)] at htotal
  rw [hr, ← Option.some.inj htotal]
  unfold liveSlots
  dsimp only
  rw [Nat.count_eq_card_filter_range, Nat.count_eq_card_filter_range]
  congr 2
  refine Finset.filter_congr fun i hi => ?_
  rw [hslot i (Finset.mem_range.mp hi).le]

/-! ### Volumes -/

/-- A disk with a root directory of `L` slots before a blank one can be mounted. -/
theorem exists_mounted {device : Device} (hdev : device.Delivers) (header : FatHeader)
    (hdisk : header.rootDirSector * 512 + header.rootDirEntries.toNat * 32 ≤ 2147483648 - 1024)
    {L : ℕ} (hL : L < header.rootDirEntries.toNat)
    (hused : ∀ i < L, diskByte device (header.rootDirSector * 512 + 32 * i) ≠ 0)
    (hblank : diskByte device (header.rootDirSector * 512 + 32 * L) = 0) :
    ∃ volume : FatVolume, volume.device = device ∧ volume.header = header ∧ volume.Mounted ∧
      volume.RootSlots L ∧ (∀ i < header.rootDirEntries.toNat * 32,
        volume.rootDirectory.bytes i = diskByte device (header.rootDirSector * 512 + i)) ∧
      volume.rootDirectory.endingSectorPos = header.rootDirSector +
        ((header.rootDirEntries.toNat * 32 : ℕ) : ℤ).tdiv peachosSectorSize := by
  have hentries : header.rootDirEntries.toNat < 65536 := header.rootDirEntries.toNat_lt
  have hcast : (UInt32.ofNat (header.rootDirEntries.toNat * 32)).toNat =
      header.rootDirEntries.toNat * 32 :=
    UInt32.toNat_ofNat_of_lt' (show header.rootDirEntries.toNat * 32 < 4294967296 by omega)
  obtain ⟨a, k, live, halloc, htop, -⟩ := freshKernel_topFree.kzalloc
    (UInt32.ofNat (header.rootDirEntries.toNat * 32)) (by omega)
    (by unfold blocksFor; omega)
  have hne : (kzalloc (UInt32.ofNat (header.rootDirEntries.toNat * 32)) freshKernel).1 ≠ 0 :=
    kzalloc_ne_zero_of_ok (by rw [halloc]; exact htop.ok)
  have hroot := fat16GetRootDirectory_eq hdev rfl rfl hdisk ⟨0, 0, fun _ => 0, 0, 0, 0⟩
    ⟨⟨⟨0⟩, ⟨0⟩, ⟨0⟩⟩, freshKernel⟩
  rw [fat16GetTotalItemsForDirectory_spec hdev (L := L) (by omega) hused hblank, Option.map_some]
    at hroot
  dsimp only at hroot
  rw [if_neg hne] at hroot
  have hmount : FatVolume.Mounted ⟨device, header, _⟩ := ⟨_, _, _, hroot⟩
  have hbytes := (fat16GetRootDirectory_spec hdev hmount hdisk).1
  refine ⟨_, rfl, rfl, hmount, ⟨hL, fun i hi => ?_, ?_⟩, hbytes, rfl⟩
  · exact fun h => hused i hi ((hbytes (32 * i) (by dsimp only; omega)).symm.trans h)
  · exact (hbytes (32 * L) (by dsimp only; omega)).trans hblank

/-- A name of one character with blanks behind it. -/
theorem fat16GetFullRelativeFilename_one {item : ℕ → UInt8} (h0 : item 0 ≠ 0 ∧ item 0 ≠ 0x20)
    (h1 : item 1 = 0x20) (h8 : item 8 = 0x20) :
    fat16GetFullRelativeFilename item peachosMaxPath = some [item 0] := by
  simp [fat16GetFullRelativeFilename, fat16ToProperString, peachosMaxPath, h0, h1, h8]

end PeachOS
