import PeachOS.Fat16Directory

/-! # FAT16: paths

A directory tree as it is stored on a volume, what it means to walk down it by the components
of a path, and what `fat16_get_directory_entry` makes of the path.

`fat16_new_fat_item_for_directory_item` marks every item as a file, so the walk in the code
stops behind the first component: `fat16GetDirectoryEntry_iff`. -/

namespace PeachOS

open ByteMemory

/-! ### Directory trees -/

/-- A character that ends a name in its field. -/
def IsBlank (c : UInt8) : Prop := c = 0x00 ∨ c = 0x20

instance (c : UInt8) : Decidable (IsBlank c) := inferInstanceAs (Decidable (_ ∨ _))

/-- The characters in front of the first blank among `len` bytes. -/
def fieldChars (bytes : ℕ → UInt8) (len : ℕ) : List UInt8 :=
  ((List.range len).map bytes).takeWhile fun c => ¬ IsBlank c

/-- The bytes of an item, as they are stored. -/
def FatDirectoryItem.stored (item : FatDirectoryItem) (i : ℕ) : UInt8 :=
  if h : i < 32 then item.bytes ⟨i, h⟩ else 0

/-- The name of an item: the characters of its name, and of its extension behind a dot. -/
def FatDirectoryItem.name (item : FatDirectoryItem) : List UInt8 :=
  let ext := fieldChars (fun i => item.stored (8 + i)) 3
  fieldChars item.stored 8 ++ if ext = [] then [] else ascii '.' :: ext

/-- The name has at most seven characters and the extension at most two. -/
def FatDirectoryItem.ShortName (item : FatDirectoryItem) : Prop :=
  (∃ i < 8, IsBlank (item.stored i)) ∧ ∃ i < 3, IsBlank (item.stored (8 + i))

/-- An entry of a directory tree. -/
inductive FatNode
  | file (item : FatDirectoryItem)
  | directory (item : FatDirectoryItem) (entries : List FatNode)

def FatNode.item : FatNode → FatDirectoryItem
  | FatNode.file item => item
  | FatNode.directory item _ => item

/-- The entry with a name. -/
def findEntry (entries : List FatNode) (name : List UInt8) : Option FatNode :=
  entries.find? fun e => SameName e.item.name name

/-- The entry at the end of a path, if every component before it is a directory. -/
def walk : List FatNode → List (List UInt8) → Option FatNode
  | _, [] => none
  | entries, [name] => findEntry entries name
  | entries, name :: rest =>
      match findEntry entries name with
      | some (FatNode.directory _ children) => walk children rest
      | _ => none

/-- The slots that `read` starts with hold the items and a blank record behind them: items in
use, with short names that are different. -/
structure StoredItems (read : ℕ → UInt8) (items : List FatDirectoryItem) : Prop where
  slot : ∀ i (h : i < items.length), ∀ j < 32, read (32 * i + j) = items[i].stored j
  blank : read (32 * items.length) = 0
  used : ∀ item ∈ items, item.stored 0 ≠ 0x00 ∧ item.stored 0 ≠ 0xe5
  short : ∀ item ∈ items, item.ShortName
  unique : items.Pairwise fun item item' => ¬ SameName item.name item'.name

/-- The items `.` and `..` of a directory that is not the root. -/
def FatDirectoryItem.IsDots (item : FatDirectoryItem) : Prop :=
  item.name = [ascii '.'] ∨ item.name = [ascii '.', ascii '.']

/-- The tree below an entry is stored: a file has the attribute `0x20`; a directory has the
attribute `0x10`, and its entries are in its first cluster, behind its items `.` and `..`. -/
inductive StoredNode (volume : FatVolume) : FatNode → Prop
  | file (item : FatDirectoryItem) (h : item.attributes = 0x20) :
      StoredNode volume (FatNode.file item)
  | directory (item : FatDirectoryItem) (dots : List FatDirectoryItem) (entries : List FatNode)
      (pos : ℕ) (hattr : item.attributes = fatFileSubdirectory)
      (hdots : ∀ item ∈ dots, item.IsDots)
      (hpos : volume.clusterPos (i32 (fat16GetFirstCluster item).toNat) = pos)
      (hsize : (32 * (dots.length + entries.length + 1) : ℕ) ≤ volume.sizeOfClusterBytes)
      (hdisk : pos + volume.sizeOfClusterBytes ≤ 2147483648 - 1024)
      (hitems : StoredItems (fun i => diskByte volume.device (pos + i))
        (dots ++ entries.map FatNode.item))
      (hbelow : ∀ e ∈ entries, StoredNode volume e) :
      StoredNode volume (FatNode.directory item entries)

/-- The tree of a volume. -/
structure StoredTree (volume : FatVolume) (entries : List FatNode) : Prop where
  inside : entries.length < volume.header.rootDirEntries.toNat
  root : StoredItems volume.rootDirectory.bytes (entries.map FatNode.item)
  below : ∀ e ∈ entries, StoredNode volume e

/-- The item stands for the entry: it has a copy of its record, or it is the directory with its
entries. -/
def FatItem.Denotes (item : FatItem) (e : FatNode) : Prop :=
  match item.content, e with
  | FatItemUnion.item _ value, e => value = e.item
  | FatItemUnion.directory (some directory), FatNode.directory _ entries =>
      ∃ dots : List FatDirectoryItem, (∀ item ∈ dots, item.IsDots) ∧
        (List.range directory.total.toNat).map (fun i => itemOf (directory.itemBytes i)) =
          dots ++ entries.map FatNode.item
  | _, _ => False

/-- What a lookup of a path is for. -/
def ResolvesRight (entries : List FatNode) (path : List (List UInt8)) (res : Option FatItem) :
    Prop :=
  (res ≠ none ↔ ∃ e, walk entries path = some e) ∧
  ∀ item e, res = some item → walk entries path = some e → item.Denotes e

/-! ### Names of stored items -/

/-- A name with a blank in its field is copied up to the blank. -/
theorem fat16ToProperString_field : ∀ (len : ℕ) {room : ℕ} {input : ℕ → UInt8},
    (∃ i < len, IsBlank (input i)) → len ≤ room →
    fat16ToProperString room input = some (fieldChars input len)
  | 0, _, _, ⟨_, hi, _⟩, _ => absurd hi (Nat.not_lt_zero _)
  | len + 1, room + 1, input, ⟨i, hi, hblank⟩, hlen => by
      unfold fat16ToProperString fieldChars
      rw [List.range_succ_eq_map, List.map_cons, List.map_map]
      by_cases h0 : IsBlank (input 0)
      · have hno : ¬ (input 0 ≠ 0x00 ∧ input 0 ≠ 0x20) := fun h => h0.elim h.1 h.2
        rw [if_neg hno, List.takeWhile_cons_of_neg (by simpa using h0)]
      · have hyes : input 0 ≠ 0x00 ∧ input 0 ≠ 0x20 := not_or.mp h0
        have hpos : i ≠ 0 := fun h => h0 (h ▸ hblank)
        rw [if_pos hyes, List.takeWhile_cons_of_pos (by simpa using h0),
          fat16ToProperString_field len ⟨i - 1, by omega, ?_⟩ (by omega), Option.map_some]
        · rfl
        · rwa [Nat.sub_add_cancel (Nat.pos_of_ne_zero hpos)]

theorem fieldChars_eq_nil_iff (input : ℕ → UInt8) (len : ℕ) :
    fieldChars input (len + 1) = [] ↔ IsBlank (input 0) := by
  unfold fieldChars
  rw [List.range_succ_eq_map, List.map_cons]
  by_cases h0 : IsBlank (input 0)
  · rw [List.takeWhile_cons_of_neg (by simpa using h0)]
    exact iff_of_true rfl h0
  · rw [List.takeWhile_cons_of_pos (by simpa using h0)]
    exact iff_of_false (List.cons_ne_nil _ _) h0

theorem fieldChars_congr {f g : ℕ → UInt8} {len : ℕ} (h : ∀ i < len, f i = g i) :
    fieldChars f len = fieldChars g len := by
  unfold fieldChars
  rw [List.map_congr_left fun i hi => h i (List.mem_range.mp hi)]

theorem length_fieldChars_le (f : ℕ → UInt8) (len : ℕ) : (fieldChars f len).length ≤ len := by
  unfold fieldChars
  refine (List.takeWhile_prefix _).length_le.trans ?_
  rw [List.length_map, List.length_range]

/-- A stored item with a short name is rendered as that name. -/
theorem fat16GetFullRelativeFilename_stored {item : FatDirectoryItem} (h : item.ShortName)
    {bytes : ℕ → UInt8} (hbytes : ∀ j < 32, bytes j = item.stored j) :
    fat16GetFullRelativeFilename bytes peachosMaxPath = some item.name := by
  obtain ⟨⟨i, hi, hblank⟩, j, hj, hblank'⟩ := h
  have hname : fat16ToProperString peachosMaxPath bytes = some (fieldChars item.stored 8) := by
    rw [fat16ToProperString_field 8 ⟨i, hi, by rwa [hbytes i (by omega)]⟩ (by decide),
      fieldChars_congr fun i hi => hbytes i (by omega)]
  have hlen := length_fieldChars_le item.stored 8
  have hext : fat16ToProperString (peachosMaxPath - (fieldChars item.stored 8).length - 1)
      (fun i => bytes (8 + i)) = some (fieldChars (fun i => item.stored (8 + i)) 3) := by
    rw [fat16ToProperString_field 3 ⟨j, hj, by rwa [hbytes (8 + j) (by omega)]⟩
        (by unfold peachosMaxPath; omega),
      fieldChars_congr fun i hi => hbytes (8 + i) (by omega)]
  unfold fat16GetFullRelativeFilename FatDirectoryItem.name
  rw [hname, Option.bind_some, hext]
  dsimp only
  have hnil := fieldChars_eq_nil_iff (fun i => item.stored (8 + i)) 2
  rw [hbytes 8 (by decide)]
  by_cases h8 : IsBlank (item.stored 8)
  · rw [if_neg fun h => h8.elim h.1 h.2, if_pos (hnil.mpr h8), List.append_nil]
  · rw [if_pos (not_or.mp h8), if_neg fun h => h8 (hnil.mp h)]
    rfl

/-! ### Loading a stored directory -/

/-- Data of one cluster at most, from its first byte on. -/
theorem fat16ReadInternal_one {volume : FatVolume} (hdev : volume.device.Delivers)
    {cluster : ℤ} {pos n : ℕ} (hcluster : 0 ≤ cluster) (hpos : volume.clusterPos cluster = pos)
    (hn : (n : ℤ) ≤ volume.sizeOfClusterBytes) (hsize : 0 < volume.sizeOfClusterBytes)
    (hdisk : pos + n ≤ 2147483648 - 1024) (out : UInt32) (m : Mem) (streams : FatStreams) :
    ∃ streams', fat16ReadInternal volume cluster 0 n out m streams =
      some ((0, writeBytes m out (fun i => diskByte volume.device (pos + i)) n), streams') := by
  have hfound : fat16GetClusterForOffset volume cluster 0 streams = some (cluster, streams) := by
    unfold fat16GetClusterForOffset
    rw [if_neg hsize.ne']
    dsimp only
    rw [Int.zero_tdiv]
    rfl
  have hread : (if (n : ℤ) > volume.sizeOfClusterBytes then volume.sizeOfClusterBytes else n) =
      (n : ℤ) := if_neg (by omega)
  refine ⟨{ streams with clusterReadStream := ⟨((pos + n : ℕ) : ℤ)⟩ }, ?_⟩
  unfold fat16ReadInternal fat16ReadInternalFromStream
  dsimp only
  rw [if_neg (Int.not_le.mpr hsize), hfound, Option.bind_some]
  dsimp only [diskstreamerSeek]
  rw [if_neg (Int.not_lt.mpr hcluster),
    fat16ClusterToSector_pos (by rw [hpos]; omega) (by rw [hpos]; omega), Int.zero_tmod, add_zero,
    hpos, hread, i32_of_range (x := (pos : ℤ)) (by omega) (by omega),
    diskstreamerRead_eq hdev n pos out m (by omega)]
  simp only [ne_eq, not_true_eq_false, if_false, Option.bind_some, sub_self, gt_iff_lt, lt_irrefl]

theorem fat16GetFirstCluster_lt (item : FatDirectoryItem) :
    (fat16GetFirstCluster item).toNat < 65536 := by
  have h : ∀ a b : UInt8, (UInt32.ofNat (a.toNat + 256 * b.toNat)).toNat < 2 ^ 16 := by
    intro a b
    have ha := a.toNat_lt
    have hb := b.toNat_lt
    rw [UInt32.toNat_ofNat_of_lt' (show a.toNat + 256 * b.toNat < 4294967296 by omega)]
    omega
  unfold fat16GetFirstCluster
  rw [UInt32.toNat_or]
  exact Nat.or_lt_two_pow (h _ _) (h _ _)

/-- The sector of a cluster that starts on the disk. -/
theorem fat16ClusterToSector_eq {volume : FatVolume} {cluster : ℤ} {pos : ℕ}
    (hpos : volume.clusterPos cluster = pos) (hdisk : pos < 2147483648) :
    ∃ sector : ℕ, fat16ClusterToSector volume cluster = sector ∧ sector * 512 = pos := by
  unfold FatVolume.clusterPos at hpos
  have hsize : peachosSectorSize = 512 := rfl
  rw [hsize] at hpos
  unfold fat16ClusterToSector
  rw [add_comm, i32_add_i32, add_comm]
  generalize volume.rootDirectory.endingSectorPos +
    (cluster - 2) * volume.header.sectorsPerCluster.toNat = sector at hpos ⊢
  refine ⟨sector.toNat, ?_, by omega⟩
  rw [i32_of_range (by omega) (by omega), Int.toNat_of_nonneg (by omega)]

theorem StoredItems.count {read : ℕ → UInt8} {items : List FatDirectoryItem}
    (h : StoredItems read items) :
    Nat.count (fun i => read (32 * i) ≠ 0xe5) items.length = items.length := by
  rw [Nat.count_iff_forall]
  intro i hi hdel
  exact (h.used _ (List.getElem_mem hi)).2 ((h.slot i hi 0 (by decide)).symm.trans hdel)

/-- A stored directory is loaded, or there is no memory for it. -/
theorem fat16LoadFatDirectory_stored {volume : FatVolume} (hdev : volume.device.Delivers)
    {item : FatDirectoryItem} {entries : List FatNode}
    (h : StoredNode volume (FatNode.directory item entries)) (st : FatState) :
    ∃ r, fat16LoadFatDirectory volume item st = some r := by
  cases h with
  | directory _ dots _ pos hattr hdots hpos hsize hdisk hitems hbelow =>
      have hlen : (dots ++ entries.map FatNode.item).length = dots.length + entries.length := by
        rw [List.length_append, List.length_map]
      generalize dots ++ entries.map FatNode.item = items at hitems hlen
      rw [← hlen] at hsize
      obtain ⟨sector, hsector, hstart⟩ := fat16ClusterToSector_eq hpos (by omega)
      have hused : ∀ j < items.length, diskByte volume.device (pos + 32 * j) ≠ 0 := by
        intro j hj h0
        exact (hitems.used _ (List.getElem_mem hj)).1
          ((hitems.slot j hj 0 (by decide)).symm.trans h0)
      have htotal : ∃ streams, fat16GetTotalItemsForDirectory volume.device
          (UInt32.ofNat sector) st.streams = some (((items.length : ℕ) : ℤ), streams) := by
        rw [fat16GetTotalItemsForDirectory_spec hdev (L := items.length) (by omega)
          (by rwa [hstart]) (by rw [hstart]; exact hitems.blank), hstart, hitems.count]
        exact ⟨_, rfl⟩
      obtain ⟨streams, htotal⟩ := htotal
      have hbuffer : i32 (UInt32.ofInt ((items.length : ℕ) * 32)).toNat =
          ((items.length * 32 : ℕ) : ℤ) := by
        rw [show ((items.length : ℕ) : ℤ) * 32 = ((items.length * 32 : ℕ) : ℤ) by push_cast; rfl,
          ofInt_natCast, UInt32.toNat_ofNat_of_lt' (show items.length * 32 < 4294967296 by omega),
          i32_of_range (by omega) (by omega)]
      have hfirst := fat16GetFirstCluster_lt item
      have hcluster : 0 ≤ i32 (fat16GetFirstCluster item).toNat := by
        rw [i32_of_range (by omega) (by omega)]
        exact Int.natCast_nonneg _
      have hread := fun out m streams => fat16ReadInternal_one hdev (n := items.length * 32)
        hcluster hpos (by omega) (by omega) (by omega) out m streams
      unfold fat16LoadFatDirectory
      dsimp only
      rw [hsector, ofInt_natCast, htotal, Option.bind_some]
      dsimp only
      split_ifs with hattr' hdir hnull
      · exact ⟨_, rfl⟩
      · exact ⟨_, rfl⟩
      · exact ⟨_, rfl⟩
      · obtain ⟨streams', hread'⟩ := hread _ _ streams
        rw [hbuffer, hread']
        exact ⟨_, rfl⟩

/-! ### Resolving -/

theorem fat16NewFatItemForDirectoryItem_stored {volume : FatVolume}
    (hdev : volume.device.Delivers) {e : FatNode} (h : StoredNode volume e) (st : FatState) :
    ∃ r, fat16NewFatItemForDirectoryItem volume e.item st = some r := by
  unfold fat16NewFatItemForDirectoryItem
  dsimp only
  split_ifs with hnull hsub
  · exact ⟨_, rfl⟩
  · cases h with
    | file item hattr =>
        rw [FatNode.item, hattr] at hsub
        exact absurd rfl hsub
    | directory item dots entries pos hattr hdots hpos hsize hdisk hitems hbelow =>
        obtain ⟨r, hr⟩ := fat16LoadFatDirectory_stored hdev
          (StoredNode.directory item dots entries pos hattr hdots hpos hsize hdisk hitems hbelow)
          { st with kernel := (kzalloc 8 st.kernel).2 }
        rw [FatNode.item, hr]
        exact ⟨_, rfl⟩
  · exact ⟨_, rfl⟩

/-- The code marks every item as a file. -/
theorem fat16NewFatItemForDirectoryItem_file {volume : FatVolume} {item : FatDirectoryItem}
    {st st' : FatState} {f : FatItem}
    (h : fat16NewFatItemForDirectoryItem volume item st = some (some f, st')) :
    f.type = FatItemType.file := by
  unfold fat16NewFatItemForDirectoryItem at h
  dsimp only at h
  split_ifs at h
  · cases h
  · obtain ⟨_, -, h⟩ := Option.map_eq_some_iff.mp h
    cases h
    rfl
  · cases h
    rfl

theorem fat16FindItemLoop_file {volume : FatVolume} {directory : FatDirectory}
    {name : List UInt8} : ∀ {n i : ℕ} {fItem : Option FatItem} {f : FatItem} {st st' : FatState},
      (∀ f, fItem = some f → f.type = FatItemType.file) →
      fat16FindItemLoop volume directory name n i fItem st = some (some f, st') →
      f.type = FatItemType.file
  | 0, _, _, _, _, _, hfile, h => by
      cases h
      exact hfile _ rfl
  | n + 1, i, fItem, f, st, st', hfile, h => by
      unfold fat16FindItemLoop at h
      obtain ⟨filename, -, h⟩ := Option.bind_eq_some_iff.mp h
      split_ifs at h
      · obtain ⟨⟨fItem', st₁⟩, hnew, h⟩ := Option.bind_eq_some_iff.mp h
        refine fat16FindItemLoop_file (fun f' hf' => ?_) h
        obtain rfl : fItem' = some f' := hf'
        exact fat16NewFatItemForDirectoryItem_file hnew
      · exact fat16FindItemLoop_file hfile h

/-- With unique names the last match is the entry with the name. -/
theorem findEntry_eq {entries : List FatNode}
    (hunique : (entries.map FatNode.item).Pairwise fun item item' =>
      ¬ SameName item.name item'.name) {name : List UInt8} {j : ℕ} (hj : j < entries.length)
    (hnamed : SameName entries[j].item.name name) : findEntry entries name = some entries[j] := by
  unfold findEntry
  rw [List.find?_eq_some_iff_getElem]
  refine ⟨decide_eq_true hnamed, j, hj, rfl, fun i hi => ?_⟩
  have hdiff := List.pairwise_iff_getElem.mp hunique i j (by rw [List.length_map]; omega)
    (by rwa [List.length_map]) hi
  rw [List.getElem_map, List.getElem_map] at hdiff
  rw [Bool.not_eq_true']
  exact decide_eq_false fun h => hdiff (Eq.trans h hnamed.symm)

section Stored

variable {volume : FatVolume} {entries : List FatNode}

theorem StoredTree.slot (h : StoredTree volume entries) {i : ℕ} (hi : i < entries.length) {j : ℕ}
    (hj : j < 32) : volume.rootDirectory.itemBytes i j = entries[i].item.stored j := by
  have hslot := h.root.slot i (by rwa [List.length_map]) j hj
  rw [List.getElem_map] at hslot
  exact hslot

theorem StoredTree.used (h : StoredTree volume entries) {i : ℕ} (hi : i < entries.length) :
    volume.rootDirectory.itemBytes i 0 ≠ 0x00 ∧ volume.rootDirectory.itemBytes i 0 ≠ 0xe5 := by
  rw [h.slot hi (by decide)]
  exact h.root.used _ (List.mem_map_of_mem (List.getElem_mem hi))

theorem StoredTree.itemOf (h : StoredTree volume entries) {i : ℕ} (hi : i < entries.length) :
    itemOf (volume.rootDirectory.itemBytes i) = entries[i].item := by
  have hbytes : (fun j : Fin 32 => volume.rootDirectory.itemBytes i j) = entries[i].item.bytes := by
    funext j
    rw [h.slot hi j.isLt]
    exact dif_pos j.isLt
  exact congrArg FatDirectoryItem.mk hbytes

theorem StoredTree.filename (h : StoredTree volume entries) {i : ℕ} (hi : i < entries.length) :
    fat16GetFullRelativeFilename (volume.rootDirectory.itemBytes i) peachosMaxPath =
      some entries[i].item.name :=
  fat16GetFullRelativeFilename_stored
    (h.root.short _ (List.mem_map_of_mem (List.getElem_mem hi))) fun _ hj => h.slot hi hj

theorem StoredTree.named_iff (h : StoredTree volume entries) {i : ℕ} (hi : i < entries.length)
    (name : List UInt8) :
    volume.rootDirectory.Named name i ↔ SameName entries[i].item.name name := by
  refine ⟨fun ⟨filename, hname, hsame⟩ => ?_, fun hsame => ⟨_, h.filename hi, hsame⟩⟩
  rw [h.filename hi] at hname
  rwa [Option.some.inj hname]

theorem StoredTree.rootSlots (h : StoredTree volume entries) :
    volume.RootSlots entries.length where
  inside := h.inside
  used i hi := (h.used hi).1
  blank := by
    have hblank := h.root.blank
    rwa [List.length_map] at hblank

theorem StoredTree.total (h : StoredTree volume entries) (hdev : volume.device.Delivers)
    (hmount : volume.Mounted) (hdisk : volume.RootOnDisk) :
    volume.rootDirectory.total = (entries.length : ℕ) := by
  have hlive : volume.liveSlots entries.length = entries.length := by
    unfold FatVolume.liveSlots
    rw [Nat.count_iff_forall]
    exact fun i hi => (h.used hi).2
  rw [h.rootSlots.total hdev hmount hdisk, hlive]

/-- A lookup in the root of a stored tree returns.  It finds the entry with the name, and marks
it as a file. -/
theorem StoredTree.find (h : StoredTree volume entries) (hdev : volume.device.Delivers)
    (hmount : volume.Mounted) (hdisk : volume.RootOnDisk) {name : List UInt8} (h0 : 0 ∉ name)
    (st : FatState) :
    ∃ res st', fat16FindItemInDirectory volume volume.rootDirectory name st = some (res, st') ∧
      (∀ f, res = some f → f.type = FatItemType.file) ∧
      (st'.kernel.oom = false → (findEntry entries name = none ∧ res = none) ∨
        ∃ e ptr p, findEntry entries name = some e ∧
          res = some ⟨ptr, FatItemUnion.item p e.item, FatItemType.file⟩) := by
  unfold fat16FindItemInDirectory
  rw [h.total hdev hmount hdisk, Int.toNat_natCast]
  have hnew : ∀ j < entries.length, volume.rootDirectory.Named name (0 + j) → ∀ st, ∃ r,
      fat16NewFatItemForDirectoryItem volume
        (PeachOS.itemOf (volume.rootDirectory.itemBytes (0 + j))) st = some r := by
    intro j hj _ st
    rw [Nat.zero_add, h.itemOf hj]
    exact fat16NewFatItemForDirectoryItem_stored hdev (h.below _ (List.getElem_mem hj)) st
  have hfits : ∀ j < entries.length, ∃ filename, fat16GetFullRelativeFilename
      (volume.rootDirectory.itemBytes (0 + j)) peachosMaxPath = some filename := by
    intro j hj
    rw [Nat.zero_add]
    exact ⟨_, h.filename hj⟩
  obtain ⟨res, st', hfind⟩ := fat16FindItemLoop_returns h0 none st hfits hnew
  refine ⟨res, st', hfind, fun f hf => ?_, fun hok => ?_⟩
  · rw [hf] at hfind
    exact fat16FindItemLoop_file (fun f h => absurd h.symm (Option.some_ne_none f)) hfind
  · rcases (fat16FindItemLoop_spec h0 hfind hok).2 with
      ⟨j, hj, hnamed, -, ptr, p, hres⟩ | ⟨hnone, hres⟩
    · rw [Nat.zero_add] at hnamed hres
      rw [h.itemOf hj] at hres
      exact Or.inr ⟨_, ptr, p,
        findEntry_eq h.root.unique hj ((h.named_iff hj name).mp hnamed), hres⟩
    · refine Or.inl ⟨List.find?_eq_none.mpr fun e he => ?_, hres⟩
      obtain ⟨i, hi, rfl⟩ := List.getElem_of_mem he
      have hnot := hnone i hi
      rw [Nat.zero_add, h.named_iff hi] at hnot
      simpa using hnot

/-- Behind the first component nothing is found. -/
theorem StoredTree.nested (h : StoredTree volume entries) (hdev : volume.device.Delivers)
    (hmount : volume.Mounted) (hdisk : volume.RootOnDisk) {name : List UInt8} (h0 : 0 ∉ name)
    (part : List UInt8) (nextPart : List (List UInt8)) (st : FatState) :
    ∃ st', fat16GetDirectoryEntry volume (name :: part :: nextPart) st = some (none, st') := by
  obtain ⟨res, st', hfind, hfile, -⟩ := h.find hdev hmount hdisk h0 st
  unfold fat16GetDirectoryEntry
  dsimp only
  rw [hfind, Option.bind_some]
  cases res with
  | none => exact ⟨st', rfl⟩
  | some rootItem =>
      have hne : rootItem.type ≠ FatItemType.directory := by
        rw [hfile rootItem rfl]
        decide
      dsimp only [fat16WalkLoop]
      rw [if_pos hne]
      exact ⟨st', rfl⟩

theorem resolvesRight_none (path : List (List UInt8)) :
    ResolvesRight entries path none ↔ walk entries path = none := by
  unfold ResolvesRight
  rw [Option.eq_none_iff_forall_ne_some]
  constructor
  · exact fun ⟨hfound, _⟩ e he => hfound.mpr ⟨e, he⟩ rfl
  · exact fun hnone => ⟨iff_of_false (fun h => h rfl) fun ⟨e, he⟩ => hnone e he,
      fun item e hitem => absurd hitem.symm (Option.some_ne_none item)⟩

/-- **Resolving a path.**  Every lookup returns; if every allocation was served, it is right if
and only if the path has one component or leads nowhere. -/
theorem fat16GetDirectoryEntry_iff (hdev : volume.device.Delivers) (hmount : volume.Mounted)
    (hdisk : volume.RootOnDisk) (htree : StoredTree volume entries) (path : List (List UInt8))
    (hpath : path ≠ []) (h0 : ∀ part ∈ path, 0 ∉ part) (st : FatState) :
    ∃ res st', fat16GetDirectoryEntry volume path st = some (res, st') ∧
      (st'.kernel.oom = false →
        (ResolvesRight entries path res ↔ path.length = 1 ∨ walk entries path = none)) := by
  match path with
  | [] => exact absurd rfl hpath
  | [name] =>
      obtain ⟨res, st', hfind, -, hres⟩ :=
        htree.find hdev hmount hdisk (h0 name (List.mem_singleton.mpr rfl)) st
      refine ⟨res, st', ?_, fun hok => iff_of_true ?_ (Or.inl rfl)⟩
      · unfold fat16GetDirectoryEntry
        dsimp only
        rw [hfind]
        cases res <;> rfl
      · unfold ResolvesRight walk
        rcases hres hok with ⟨hnone, rfl⟩ | ⟨e, ptr, p, hsome, rfl⟩
        · exact (resolvesRight_none [name]).mpr hnone
        · refine ⟨iff_of_true (Option.some_ne_none _) ⟨e, hsome⟩, fun item e' hitem he' => ?_⟩
          obtain rfl := Option.some.inj hitem
          obtain rfl := Option.some.inj (hsome.symm.trans he')
          exact rfl
  | name :: part :: nextPart =>
      obtain ⟨st', hres⟩ :=
        htree.nested hdev hmount hdisk (h0 name (List.mem_cons_self ..)) part nextPart st
      refine ⟨none, st', hres, fun _ => ?_⟩
      rw [resolvesRight_none]
      exact ⟨Or.inr, fun h => h.resolve_left (by simp)⟩

end Stored

/-! ### A file in a directory -/

/-- An item with a name of one character and the first cluster 2. -/
def oneCharItem (c attr : UInt8) : FatDirectoryItem :=
  ⟨fun i => if i.val = 0 then c else if i.val = 11 then attr else if i.val = 26 then 2 else 0⟩

/-- The directory `D` with the file `F` in it. -/
def nestedTree : List FatNode :=
  [FatNode.directory (oneCharItem 68 0x10) [FatNode.file (oneCharItem 70 0x20)]]

/-- The root directory is sector 1, and the directory `D` is sector 2. -/
def nestedDisk : Device := fun lba =>
  (0, fun i => if i < 32 then
    (if lba = 1 then oneCharItem 68 0x10 else oneCharItem 70 0x20).stored i else 0)

theorem storedItems_one {read : ℕ → UInt8} {item : FatDirectoryItem}
    (hread : ∀ j < 32, read j = item.stored j) (hblank : read 32 = 0)
    (hused : item.stored 0 ≠ 0x00 ∧ item.stored 0 ≠ 0xe5) (hshort : item.ShortName) :
    StoredItems read [item] where
  slot i hi j hj := by
    obtain rfl := Nat.lt_one_iff.mp hi
    rw [Nat.mul_zero, Nat.zero_add]
    exact hread j hj
  blank := hblank
  used item' hitem := by
    rw [List.mem_singleton.mp hitem]
    exact hused
  short item' hitem := by
    rw [List.mem_singleton.mp hitem]
    exact hshort
  unique := List.pairwise_singleton _ _

theorem oneCharItem_shortName (c attr : UInt8) : (oneCharItem c attr).ShortName :=
  ⟨⟨1, by decide, Or.inl rfl⟩, ⟨0, by decide, Or.inl rfl⟩⟩

theorem exists_nestedTree : ∃ volume : FatVolume, volume.device.Delivers ∧ volume.Mounted ∧
    volume.RootOnDisk ∧ StoredTree volume nestedTree := by
  have hdev : nestedDisk.Delivers := fun _ => rfl
  obtain ⟨volume, hd, hh, hmount, hslots, hbytes, hending⟩ :=
    exists_mounted hdev ⟨1, 1, 0, 16, 0⟩ (by decide) (L := 1) (by decide) (by decide) (by decide)
  have hcluster : volume.sizeOfClusterBytes = 512 := by
    unfold FatVolume.sizeOfClusterBytes
    rw [hh]
    rfl
  refine ⟨volume, hd ▸ hdev, hmount, ?_, ?_, ?_, ?_⟩
  · unfold FatVolume.RootOnDisk
    rw [hh]
    decide
  · rw [hh]
    decide
  · refine storedItems_one (fun j hj => ?_) ?_ (by decide) (oneCharItem_shortName _ _)
    · rw [hbytes j (Nat.lt_trans hj (by decide))]
      revert j
      decide
    · rw [hbytes 32 (by decide)]
      decide
  · intro e he
    rw [List.mem_singleton.mp he]
    refine StoredNode.directory _ [] _ 1024 rfl (fun _ h => absurd h List.not_mem_nil)
      ?_ ?_ ?_ ?_ ?_
    · unfold FatVolume.clusterPos
      rw [hending, hh]
      decide
    · rw [hcluster]
      decide
    · rw [hcluster]
      decide
    · rw [hd]
      exact storedItems_one (by decide) (by decide) (by decide) (oneCharItem_shortName _ _)
    · intro e he
      rw [List.mem_singleton.mp he]
      exact StoredNode.file _ rfl

/-- The file is there, and no lookup finds it. -/
theorem fat16GetDirectoryEntry_nested : ∃ volume : FatVolume, volume.device.Delivers ∧
    volume.Mounted ∧ volume.RootOnDisk ∧ StoredTree volume nestedTree ∧
    walk nestedTree [[68], [70]] = some (FatNode.file (oneCharItem 70 0x20)) ∧
    ∀ st, ∃ st', fat16GetDirectoryEntry volume [[68], [70]] st = some (none, st') ∧
      ¬ ResolvesRight nestedTree [[68], [70]] none := by
  obtain ⟨volume, hdev, hmount, hdisk, htree⟩ := exists_nestedTree
  have hwalk : walk nestedTree [[68], [70]] = some (FatNode.file (oneCharItem 70 0x20)) := rfl
  refine ⟨volume, hdev, hmount, hdisk, htree, hwalk, fun st => ?_⟩
  obtain ⟨st', hres⟩ := htree.nested hdev hmount hdisk
    (by decide : (0 : UInt8) ∉ [68]) [70] [] st
  refine ⟨st', hres, fun h => ?_⟩
  rw [resolvesRight_none, hwalk] at h
  exact Option.some_ne_none _ h

/-- The path `D` has one component, and the paths `D/G` and `D/F/F` lead nowhere. -/
theorem fat16GetDirectoryEntry_iff_nested : ∃ volume : FatVolume, StoredTree volume nestedTree ∧
    ∀ path ∈ [[[68]], [[68], [71]], [[68], [70], [70]]], ∀ st, ∃ res st',
      fat16GetDirectoryEntry volume path st = some (res, st') ∧
        (st'.kernel.oom = false → ResolvesRight nestedTree path res) := by
  obtain ⟨volume, hdev, hmount, hdisk, htree⟩ := exists_nestedTree
  refine ⟨volume, htree, fun path hpath st => ?_⟩
  have hright : path ≠ [] ∧ (∀ part ∈ path, 0 ∉ part) ∧
      (path.length = 1 ∨ walk nestedTree path = none) := by
    simp only [List.mem_cons, List.not_mem_nil, or_false] at hpath
    rcases hpath with rfl | rfl | rfl
    · exact ⟨by decide, by decide, Or.inl rfl⟩
    · exact ⟨by decide, by decide, Or.inr rfl⟩
    · exact ⟨by decide, by decide, Or.inr rfl⟩
  obtain ⟨res, st', hres, hiff⟩ :=
    fat16GetDirectoryEntry_iff hdev hmount hdisk htree path hright.1 hright.2.1 st
  exact ⟨res, st', hres, fun hok => (hiff hok).mpr hright.2.2⟩

end PeachOS
