import PeachOS.FileRuns

/-! # Opening files

What `fopen` does to the table (`fopen_cases`), and that it succeeds while there are free blocks
(`fopen_stored`); the position of a descriptor along the calls behind it
(`fopen_positionInside`). -/

namespace PeachOS

open ByteMemory

/-! ### Opening -/

/-- `fat16_open` fails with a negative error, or makes a descriptor at position 0. -/
theorem fat16Open_cases {volume : FatVolume} {path : List (List UInt8)} {mode : FileMode}
    {streams streams' : FatStreams} {k k' : Kernel} {res : Except ℤ FatFileDescriptor}
    (h : fat16Open volume path mode streams k = some (res, streams', k')) :
    (∃ e < 0, res = Except.error e) ∨ ∃ p : FatFileDescriptor, res = Except.ok p ∧ p.pos = 0 := by
  unfold fat16Open at h
  dsimp only at h
  split_ifs at h
  · cases h
    exact Or.inl ⟨- ERDONLY, by decide, rfl⟩
  · cases h
    exact Or.inl ⟨- ENOMEM, by decide, rfl⟩
  · obtain ⟨⟨item, st⟩, -, heq⟩ := Option.map_eq_some_iff.mp h
    cases item with
    | none =>
        cases heq
        exact Or.inl ⟨- EIO, by decide, rfl⟩
    | some item =>
        cases heq
        exact Or.inr ⟨_, rfl, rfl⟩

/-- The disk with a FAT16 volume. -/
abbrev FatDisk := Disk FatVolume FatStreams FatFileDescriptor

/-- `fopen` fails and leaves the table alone, or it puts a new descriptor at position 0 into the
first free slot. -/
theorem fopen_cases {disk : FatDisk} (hfs : disk.filesystem = some fat16Fs)
    {filename modeStr : List UInt8} {f f' : FatFileState} {fd : ℤ}
    (h : fopen disk filename modeStr f = some (fd, f')) :
    (fd = 0 ∧ f'.fileDescriptors = f.fileDescriptors) ∨
    ∃ (i : ℕ) (p : FatFileDescriptor) (k : Kernel), freeSlot f.fileDescriptors = some i ∧
      fd = i + 1 ∧ p.pos = 0 ∧ f'.kernel = (kzalloc 16 k).2 ∧
      f'.fileDescriptors = f.fileDescriptors.set i (if (kzalloc 16 k).1 = 0 then none
        else some ⟨(kzalloc 16 k).1, (i : ℤ) + 1, fat16Fs, p, disk.fsPrivate⟩) := by
  unfold fopen diskGet at h
  dsimp only at h
  generalize pathparserParse filename f.kernel = root at h
  by_cases hnull : root.1 = 0
  · rw [if_pos hnull] at h
    cases h
    exact Or.inl ⟨rfl, rfl⟩
  rw [if_neg hnull] at h
  by_cases hfirst : root.2.mem.read32 (off root.1 4) = 0
  · rw [if_pos hfirst] at h
    cases h
    exact Or.inl ⟨rfl, rfl⟩
  rw [if_neg hfirst] at h
  by_cases hdrive : i32 (root.2.mem.read32 (off root.1 0)).toNat ≠ 0
  · rw [if_pos hdrive] at h
    cases h
    exact Or.inl ⟨rfl, rfl⟩
  rw [if_neg hdrive] at h
  dsimp only at h
  rw [hfs] at h
  dsimp only at h
  by_cases hmode : fileGetModeByString modeStr = FileMode.invalid
  · rw [if_pos hmode] at h
    cases h
    exact Or.inl ⟨rfl, rfl⟩
  rw [if_neg hmode] at h
  obtain ⟨path, -, h⟩ := Option.bind_eq_some_iff.mp h
  obtain ⟨⟨res, streams, k⟩, hopen, heq⟩ := Option.map_eq_some_iff.mp h
  rcases fat16Open_cases hopen with ⟨e, he, rfl⟩ | ⟨p, rfl, hp⟩
  · cases heq
    exact Or.inl ⟨if_pos he, rfl⟩
  · dsimp only at heq
    unfold fileNewDescriptor at heq
    dsimp only at heq
    cases hslot : freeSlot f.fileDescriptors with
    | none =>
        rw [hslot] at heq
        cases heq
        exact Or.inl ⟨rfl, rfl⟩
    | some i =>
        rw [hslot] at heq
        unfold fopenOut at heq
        have hpos : ¬ ((i : ℤ) + 1 < 0) := by omega
        dsimp only at heq
        rw [if_neg hpos] at heq
        cases heq
        exact Or.inr ⟨i, p, k, rfl, rfl, hp, rfl, rfl⟩

theorem freeSlot_eq_some {δ σ π : Type} {l : List (Option (FileDescriptor δ σ π))} {i : ℕ}
    (h : freeSlot l = some i) : l[i]? = some none := by
  obtain ⟨hlt, hnone, -⟩ := List.findIdx?_eq_some_iff_getElem.mp h
  rw [List.getElem?_eq_getElem hlt, Option.isNone_iff_eq_none.mp hnone]

/-! ### Opening a stored file -/

theorem readString_of_stringAt {m : Mem} : ∀ {n : ℕ} {a : UInt32} {c : List UInt8},
    StringAt m a c → c.length ≤ n → readString m n a = c
  | 0, _, c, _, hlen => (List.length_eq_zero_iff.mp (Nat.le_zero.mp hlen)).symm
  | n + 1, a, [], h, _ => by
      have hend : m a = 0 := by
        have hzero := h.2 0 le_rfl
        rwa [off_zero] at hzero
      unfold readString
      rw [if_pos hend]
  | n + 1, a, x :: c, h, hlen => by
      have hfirst : m a = x := by
        have hzero := h.2 0 (Nat.zero_le _)
        rwa [off_zero] at hzero
      have hx : x ≠ 0 := fun h0 => h.1 (h0 ▸ List.mem_cons_self)
      have hrest : StringAt m (off a 1) c := by
        refine ⟨fun h0 => h.1 (List.mem_cons_of_mem x h0), fun i hi => ?_⟩
        rw [off_off, Nat.add_comm]
        exact h.2 (i + 1) (Nat.succ_le_succ hi)
      unfold readString
      rw [hfirst, if_neg hx, readString_of_stringAt hrest (Nat.le_of_succ_le_succ hlen)]

theorem readParts_of_partStrings {m : Mem} : ∀ {n : ℕ} {a : UInt32} {cs : List (List UInt8)},
    PartStrings m a cs → cs.length ≤ n → (∀ c ∈ cs, c.length ≤ peachosMaxPath) →
    readParts m n a = some cs
  | 0, a, [], h, _, _ => if_pos h
  | n + 1, a, [], h, _, _ => if_pos h
  | n + 1, a, c :: cs, h, hlen, hshort => by
      unfold readParts
      rw [if_neg h.1, readParts_of_partStrings h.2.2 (Nat.le_of_succ_le_succ hlen)
          fun d hd => hshort d (List.mem_cons_of_mem c hd),
        readString_of_stringAt h.2.1 (hshort c List.mem_cons_self)]
      rfl

/-- An item that is no directory takes two blocks. -/
theorem fat16NewFatItemForDirectoryItem_free (volume : FatVolume) {item : FatDirectoryItem}
    (hattr : item.attributes &&& fatFileSubdirectory = 0) {st : FatState}
    (hk : st.kernel.oom = false) {n : ℕ} (hn : n + 2 ≤ (freeBlocks st.kernel).card) :
    ∃ r st', fat16NewFatItemForDirectoryItem volume item st = some (r, st') ∧
      st'.kernel.oom = false ∧ n ≤ (freeBlocks st'.kernel).card := by
  obtain ⟨hok₁, hcard₁⟩ := kzalloc_block_ok 8 (by decide) (by decide) hk (c := n + 1) (by omega)
  obtain ⟨hok₂, hcard₂⟩ := kzalloc_block_ok 32 (by decide) (by decide) hok₁ hcard₁
  obtain ⟨b, hb, htake, -⟩ := kzalloc_block_of_ok (by decide) (by decide) hok₂
  have hlt : b < 25600 := htake.lt b rfl
  unfold fat16NewFatItemForDirectoryItem
  dsimp only
  rw [if_neg (kzalloc_ne_zero_of_ok hok₁), if_neg (not_not.mpr hattr)]
  refine ⟨_, _, rfl, ?_⟩
  unfold fat16CloneDirectoryItem
  dsimp only
  rw [if_neg (kzalloc_ne_zero_of_ok hok₂)]
  refine ⟨hok₂, ?_⟩
  rwa [freeBlocks_congr (k := (kzalloc 32 (kzalloc 8 st.kernel).2).2) fun x hx => ?_]
  rw [hb]
  have hout : ¬ InRange (blockAddr b) 32 x := fun hr =>
    InBlock.not_inTable hlt (Nat.lt_of_lt_of_le hr (by decide)) hx
  exact (writeBytes_apply _ _ _ _ 32 (by decide)).trans (if_neg hout)

/-- The loop over `n` items that are no directories takes two blocks for each at most. -/
theorem fat16FindItemLoop_free (volume : FatVolume) (directory : FatDirectory)
    (name : List UInt8) {c : ℕ} : ∀ (n i : ℕ) (fItem : Option FatItem) {st : FatState},
      (∀ j < n, (∃ filename, fat16GetFullRelativeFilename (directory.itemBytes (i + j))
          peachosMaxPath = some filename) ∧
        (itemOf (directory.itemBytes (i + j))).attributes &&& fatFileSubdirectory = 0) →
      st.kernel.oom = false → c + 2 * n ≤ (freeBlocks st.kernel).card →
      ∃ res st', fat16FindItemLoop volume directory name n i fItem st = some (res, st') ∧
        st'.kernel.oom = false ∧ c ≤ (freeBlocks st'.kernel).card
  | 0, _, fItem, st, _, hk, hc => ⟨fItem, st, rfl, hk, hc⟩
  | n + 1, i, fItem, st, h, hk, hc => by
      obtain ⟨⟨filename, hname⟩, hattr⟩ := h 0 (Nat.succ_pos n)
      rw [Nat.add_zero] at hname hattr
      have hrest : ∀ j < n, (∃ filename, fat16GetFullRelativeFilename
          (directory.itemBytes (i + 1 + j)) peachosMaxPath = some filename) ∧
          (itemOf (directory.itemBytes (i + 1 + j))).attributes &&& fatFileSubdirectory = 0 := by
        intro j hj
        rw [Nat.add_right_comm, Nat.add_assoc]
        exact h (j + 1) (Nat.succ_lt_succ hj)
      unfold fat16FindItemLoop
      rw [hname, Option.bind_some]
      split_ifs
      · obtain ⟨r, st₁, hnew, hok, hcard⟩ :=
          fat16NewFatItemForDirectoryItem_free volume hattr hk (n := c + 2 * n) (by omega)
        rw [hnew, Option.bind_some]
        exact fat16FindItemLoop_free volume directory name n (i + 1) r hrest hok hcard
      · exact fat16FindItemLoop_free volume directory name n (i + 1) fItem hrest hk (by omega)

section Stored

variable {volume : FatVolume} {items : List FatDirectoryItem}

/-- A lookup in a root directory of files takes two blocks for each at most. -/
theorem StoredTree.find_file (h : StoredTree volume (items.map FatNode.file))
    (hdev : volume.device.Delivers) (hmount : volume.Mounted) (hdisk : volume.RootOnDisk)
    {name : List UInt8} (h0 : 0 ∉ name) {item : FatDirectoryItem}
    (hfind : findEntry (items.map FatNode.file) name = some (FatNode.file item)) (st : FatState)
    (hk : st.kernel.oom = false) {n : ℕ}
    (hn : n + 2 * items.length ≤ (freeBlocks st.kernel).card) :
    ∃ ptr p st', fat16GetDirectoryEntry volume [name] st =
        some (some ⟨ptr, FatItemUnion.item p item, FatItemType.file⟩, st') ∧
      st'.kernel.oom = false ∧ n ≤ (freeBlocks st'.kernel).card := by
  have hlength : (items.map FatNode.file).length = items.length := List.length_map _
  obtain ⟨res, st', hres, hok, hcard⟩ := fat16FindItemLoop_free volume
    volume.rootDirectory name items.length 0 none (fun j hj => by
      rw [Nat.zero_add]
      refine ⟨⟨_, h.filename (hlength ▸ hj)⟩, ?_⟩
      rw [h.itemOf (hlength ▸ hj), List.getElem_map]
      have hstored := h.below (FatNode.file items[j])
        (List.mem_map_of_mem (List.getElem_mem hj))
      cases hstored with
      | file _ hattr =>
          change items[j].attributes &&& _ = 0
          rw [hattr]
          decide) hk hn
  obtain ⟨res', st'', hres', -, hcases⟩ := h.find hdev hmount hdisk h0 st
  have hsame := hres'
  unfold fat16FindItemInDirectory at hsame
  rw [h.total hdev hmount hdisk, Int.toNat_natCast, hlength, hres] at hsame
  cases hsame
  rcases hcases hok with ⟨hnone, -⟩ | ⟨e, ptr, p, hsome, rfl⟩
  · rw [hfind] at hnone
    cases hnone
  · rw [hfind] at hsome
    cases hsome
    refine ⟨ptr, p, st', ?_, hok, hcard⟩
    unfold fat16GetDirectoryEntry
    dsimp only
    rw [hres']
    rfl

/-- **Opening a file in the root succeeds** while a slot of the table and enough blocks are
free. -/
theorem fopen_stored (h : StoredTree volume (items.map FatNode.file))
    (hdev : volume.device.Delivers) (hmount : volume.Mounted) (hdisk : volume.RootOnDisk)
    (name : List UInt8) (hname : IsComponent name)
    (hlen : (pathString 0 false [name]).length ≤ peachosMaxPath) {item : FatDirectoryItem}
    (hfind : findEntry (items.map FatNode.file) name = some (FatNode.file item))
    {modeStr : List UInt8} (hmode : fileGetModeByString modeStr = FileMode.read)
    {f : FatFileState} {i : ℕ} (hslot : freeSlot f.fileDescriptors = some i)
    (hk : f.kernel.oom = false) {n : ℕ}
    (hn : n + 2 * items.length + 6 ≤ (freeBlocks f.kernel).card) :
    ∃ ptr desc f', fopen ⟨some fat16Fs, volume⟩ (pathString 0 false [name]) modeStr f =
        some ((i : ℤ) + 1, f') ∧
      desc.item.directoryItem = some item ∧ desc.item.type = FatItemType.file ∧ desc.pos = 0 ∧
      f'.fileDescriptors = f.fileDescriptors.set i (some ⟨ptr, i + 1, fat16Fs, desc, volume⟩) ∧
      f'.kernel.oom = false ∧ n ≤ (freeBlocks f'.kernel).card := by
  have hcs : ∀ c ∈ [name], IsComponent c := fun c hc => List.mem_singleton.mp hc ▸ hname
  obtain ⟨hok₁, hcard₁⟩ := pathparserParse_ok 0 false (List.cons_ne_nil name []) hcs hlen hk
    (n := n + 2 * items.length + 2) (by rw [List.length_singleton]; omega)
  have hzero := zero_notMem_pathString 0 false hcs
  have hname0 : 0 ∉ name := fun h0 => (hname.2 0 h0).2 rfl
  have htext : pathString 0 false [name] =
      digitChar 0 :: 58 :: 47 :: (joinPath false [name] ++ []) := by
    rw [List.append_nil]
    rfl
  obtain ⟨r, k₁, hparse, hr, -, hroot, -⟩ := pathparserParse_text 0 hcs (Or.inl rfl)
    (htext ▸ hzero) (htext ▸ hlen) (k := f.kernel) (by omega)
  rw [← htext] at hparse
  rw [hparse] at hok₁ hcard₁
  dsimp only at hok₁ hcard₁
  have htake : [name].take (((freeBlocks f.kernel).card - 1) / 2) = [name] :=
    List.take_of_length_le (by rw [List.length_singleton]; omega)
  rw [htake] at hroot
  obtain ⟨hnull, hdrive, hparts⟩ := hroot
  have hshort : ∀ c ∈ [name], c.length ≤ peachosMaxPath := by
    intro c hc
    rw [List.mem_singleton.mp hc]
    unfold pathString joinPath at hlen
    simp only [List.length_cons, List.length_append] at hlen
    omega
  have hread := readParts_of_partStrings hparts (n := peachosMaxPath)
    (show 1 ≤ peachosMaxPath by decide) hshort
  obtain ⟨hok₂, hcard₂⟩ := kzalloc_block_ok 8 (by decide) (by decide) hok₁
    (c := n + 2 * items.length + 1) (by omega)
  obtain ⟨ptr, p, st, hentry, hok₃, hcard₃⟩ := h.find_file hdev hmount hdisk hname0 hfind
    ⟨f.streams, (kzalloc 8 k₁).2⟩ hok₂ (n := n + 1) (by dsimp only; omega)
  obtain ⟨hok₄, hcard₄⟩ := kzalloc_block_ok 16 (by decide) (by decide) hok₃ hcard₃
  have hopen : fat16Open volume [name] FileMode.read f.streams k₁ =
      some (Except.ok ⟨(kzalloc 8 k₁).1, ⟨ptr, FatItemUnion.item p item, FatItemType.file⟩, 0⟩,
        st.streams, st.kernel) := by
    unfold fat16Open
    dsimp only
    rw [if_neg (by decide), if_neg (kzalloc_ne_zero_of_ok hok₂), hentry]
    rfl
  refine ⟨(kzalloc 16 st.kernel).1,
    ⟨(kzalloc 8 k₁).1, ⟨ptr, FatItemUnion.item p item, FatItemType.file⟩, 0⟩,
    ⟨_, st.streams, (kzalloc 16 st.kernel).2⟩, ?_, rfl, rfl, rfl, rfl, hok₄, hcard₄⟩
  unfold fopen diskGet
  dsimp only
  rw [hparse]
  dsimp only
  rw [if_neg hnull, if_neg hparts.1, hdrive, if_neg (by decide)]
  dsimp only
  rw [hmode, if_neg (by decide), hread, Option.bind_some]
  change (fat16Open volume [name] FileMode.read f.streams k₁).map _ = _
  rw [hopen, Option.map_some]
  unfold fileNewDescriptor fopenOut
  dsimp only
  rw [hslot]
  dsimp only
  rw [if_neg (kzalloc_ne_zero_of_ok hok₄), if_neg (by omega)]

/-- The small file is the one entry of a root directory that starts with its item. -/
theorem storedTree_small {volume : FatVolume} (hentries : 1 < volume.header.rootDirEntries.toNat)
    (hbytes : ∀ j < 32, volume.rootDirectory.bytes j = smallItem.stored j)
    (hblank : volume.rootDirectory.bytes 32 = 0) :
    StoredTree volume ([smallItem].map FatNode.file) := by
  refine ⟨hentries, ?_, fun e he => ?_⟩
  · exact storedItems_one hbytes hblank (by decide)
      ⟨⟨1, by decide, Or.inr rfl⟩, ⟨0, by decide, Or.inr rfl⟩⟩
  · rw [List.mem_singleton.mp he]
    exact StoredNode.file _ rfl

/-- The root directory is sector 1, with the small file in it. -/
def smallDisk : Device := fun lba =>
  (0, fun i => if lba = 1 ∧ i < 32 then smallItem.stored i else 0)

theorem exists_smallTree : ∃ volume : FatVolume, volume.device.Delivers ∧ volume.Mounted ∧
    volume.RootOnDisk ∧ StoredTree volume ([smallItem].map FatNode.file) := by
  have hdev : smallDisk.Delivers := fun _ => rfl
  obtain ⟨volume, hd, hh, hmount, -, hbytes, -⟩ :=
    exists_mounted hdev ⟨1, 1, 0, 16, 0⟩ (by decide) (L := 1) (by decide) (by decide) (by decide)
  refine ⟨volume, hd ▸ hdev, hmount, ?_, storedTree_small ?_ (fun j hj => ?_) ?_⟩
  · unfold FatVolume.RootOnDisk
    rw [hh]
    decide
  · rw [hh]
    decide
  · rw [hbytes j (Nat.lt_trans hj (by decide))]
    revert j
    decide
  · rw [hbytes 32 (by decide)]
    decide

/-- The path `0:/A`. -/
def smallPath : List UInt8 := pathString 0 false [[ascii 'A']]

/-- The small file is opened. -/
theorem fopen_small {volume : FatVolume} (hdev : volume.device.Delivers) (hmount : volume.Mounted)
    (hdisk : volume.RootOnDisk) (htree : StoredTree volume ([smallItem].map FatNode.file))
    {f : FatFileState} {i : ℕ} (hslot : freeSlot f.fileDescriptors = some i)
    (hk : f.kernel.oom = false) {n : ℕ} (hn : n + 8 ≤ (freeBlocks f.kernel).card) :
    ∃ ptr desc f', fopen ⟨some fat16Fs, volume⟩ smallPath [ascii 'r'] f = some ((i : ℤ) + 1, f') ∧
      desc.item.directoryItem = some smallItem ∧ desc.item.type = FatItemType.file ∧
      desc.pos = 0 ∧
      f'.fileDescriptors = f.fileDescriptors.set i (some ⟨ptr, i + 1, fat16Fs, desc, volume⟩) ∧
      f'.kernel.oom = false ∧ n ≤ (freeBlocks f'.kernel).card :=
  fopen_stored htree hdev hmount hdisk [ascii 'A']
    ⟨List.cons_ne_nil _ _, fun x hx => by rw [List.mem_singleton.mp hx]; decide⟩
    (show 4 ≤ peachosMaxPath by decide) (findEntry_eq (j := 0) htree.root.unique (by decide) rfl)
    (by decide) hslot hk (by rw [List.length_singleton]; omega)

end Stored

/-! ### The position of a file -/

/-- The descriptor in the slot of `fd`. -/
def slotOf (fd : ℤ) (f : FatFileState) : Option (FileDescriptor FatVolume FatStreams
    FatFileDescriptor) :=
  (f.fileDescriptors[(fd - 1).toNat]?).join

theorem fileGetDescriptor_slotOf {f : FatFileState} {fd : ℤ}
    {desc : FileDescriptor FatVolume FatStreams FatFileDescriptor}
    (h : fileGetDescriptor fd f = some desc) : slotOf fd f = some desc := by
  unfold slotOf
  rw [(fileGetDescriptor_eq_some.mp h).2]
  rfl

theorem slotOf_setPrivate {f : FatFileState} {fd : ℤ}
    {desc : FileDescriptor FatVolume FatStreams FatFileDescriptor}
    (h : fileGetDescriptor fd f = some desc) (p : FatFileDescriptor) {fd' : ℤ} (hfd' : 0 < fd') :
    slotOf fd' (f.setPrivate fd desc p) =
      if fd' = fd then some { desc with privateData := p } else slotOf fd' f := by
  obtain ⟨hfd, hslot⟩ := fileGetDescriptor_eq_some.mp h
  obtain ⟨hlt, -⟩ := List.getElem?_eq_some_iff.mp hslot
  unfold slotOf FileState.setPrivate
  dsimp only
  split_ifs with heq
  · rw [heq, List.getElem?_set_self hlt]
    rfl
  · rw [List.getElem?_set_ne (by omega)]

/-- The descriptor in the slot of `fd` is one of a FAT16 volume, and its position lies in the
file or at its end. -/
def PositionInside (fd : ℤ) (f : FatFileState) : Prop :=
  ∀ desc, slotOf fd f = some desc → desc.filesystem = fat16Fs ∧
    ∀ item, desc.privateData.item.directoryItem = some item →
      desc.privateData.pos.toNat ≤ item.filesize.toNat

/-- A seek from the current position of `fd` by an offset that is accepted ends in the file. -/
def SeeksInside (fd : ℤ) (f : FatFileState) : FileCall → Prop
  | FileCall.seek fd' offset whence => fd' = fd → whence = SEEK_CURRENT →
      ∀ desc item, slotOf fd f = some desc → desc.privateData.item.directoryItem = some item →
        UInt32.ofInt offset < item.filesize →
        (desc.privateData.pos + UInt32.ofInt offset).toNat ≤ item.filesize.toNat
  | _ => True

/-- The states after calls that are all `ok` where they are made. -/
inductive Reaches (ok : FatFileState → FileCall → Prop) (f₀ : FatFileState) :
    FatFileState → Prop
  | start : Reaches ok f₀ f₀
  | call {f f' : FatFileState} {c : FileCall} {a : FileAnswer} (h : Reaches ok f₀ f) (hok : ok f c)
      (hrun : c.run f = some (a, f')) : Reaches ok f₀ f'

/-- What a seek does to the descriptor. -/
theorem fat16Seek_cases {desc p : FatFileDescriptor} {offset whence : UInt32} {r : ℤ}
    (h : fat16Seek desc offset whence = some (r, p)) :
    (r < 0 ∧ p = desc) ∨ ∃ item, desc.item.directoryItem = some item ∧ offset < item.filesize ∧
      r = 0 ∧ ((whence = SEEK_SET ∧ p = { desc with pos := offset }) ∨
        (whence = SEEK_CURRENT ∧ p = { desc with pos := desc.pos + offset })) := by
  unfold fat16Seek at h
  by_cases htype : desc.item.type ≠ FatItemType.file
  · rw [if_pos htype] at h
    cases h
    exact Or.inl ⟨by decide, rfl⟩
  rw [if_neg htype] at h
  obtain ⟨item, hitem, h⟩ := Option.map_eq_some_iff.mp h
  split_ifs at h with hend hset hseekEnd hcur
  · cases h
    exact Or.inl ⟨by decide, rfl⟩
  · cases h
    exact Or.inr ⟨item, hitem, UInt32.not_le.mp hend, rfl, Or.inl ⟨hset, rfl⟩⟩
  · cases h
    exact Or.inl ⟨by decide, rfl⟩
  · cases h
    exact Or.inr ⟨item, hitem, UInt32.not_le.mp hend, rfl, Or.inr ⟨hcur, rfl⟩⟩
  · cases h
    exact Or.inl ⟨by decide, rfl⟩

/-- One call keeps the position inside. -/
theorem FileCall.run_positionInside {c : FileCall} {f f' : FatFileState} {a : FileAnswer} {fd : ℤ}
    (hfd : 0 < fd) (hin : PositionInside fd f) (hok : SeeksInside fd f c)
    (h : c.run f = some (a, f')) : PositionInside fd f' := by
  cases c with
  | read fd' ptr size nmemb m =>
      obtain ⟨⟨r, f₁⟩, hread, heq⟩ := Option.map_eq_some_iff.mp h
      cases heq
      intro desc hdesc
      unfold slotOf at hdesc
      rw [fread_fileDescriptors hread] at hdesc
      exact hin desc hdesc
  | seek fd' offset whence =>
      obtain ⟨⟨r, f₁⟩, hseek, heq⟩ := Option.map_eq_some_iff.mp h
      cases heq
      rcases fseek_cases hseek with ⟨-, -, rfl⟩ | ⟨desc, p, hdesc, hp, rfl⟩
      · exact hin
      · intro desc' hdesc'
        rw [slotOf_setPrivate hdesc p hfd] at hdesc'
        split_ifs at hdesc' with heq
        · subst heq
          cases hdesc'
          have hslot := fileGetDescriptor_slotOf hdesc
          obtain ⟨hfs, hpos⟩ := hin desc hslot
          refine ⟨hfs, fun item hitem => ?_⟩
          rw [hfs] at hp
          rcases fat16Seek_cases hp with ⟨-, rfl⟩ | ⟨item', hitem', hlt, -, hset | hcur⟩
          · exact hpos item hitem
          · obtain ⟨-, rfl⟩ := hset
            obtain rfl : item' = item := Option.some.inj (hitem'.symm.trans hitem)
            exact Nat.le_of_lt (UInt32.lt_iff_toNat_lt.mp hlt)
          · obtain ⟨hwhence, rfl⟩ := hcur
            obtain rfl : item' = item := Option.some.inj (hitem'.symm.trans hitem)
            exact hok rfl hwhence desc item' hslot hitem' hlt
        · exact hin desc' hdesc'
  | stat fd' old =>
      obtain ⟨r, -, heq⟩ := Option.map_eq_some_iff.mp h
      cases heq
      exact hin

theorem Reaches.positionInside {fd : ℤ} (hfd : 0 < fd) {f₀ f : FatFileState}
    (h : Reaches (SeeksInside fd) f₀ f) (hin : PositionInside fd f₀) : PositionInside fd f := by
  induction h with
  | start => exact hin
  | call _ hok hrun ih => exact FileCall.run_positionInside hfd ih hok hrun

/-- A seek that fails leaves the descriptor alone. -/
theorem fseek_neg {f f' : FatFileState} {fd offset r : ℤ} {whence : UInt32} (hfd : 0 < fd)
    (hin : PositionInside fd f) (h : fseek fd offset whence f = some (r, f')) (hr : r < 0) :
    slotOf fd f' = slotOf fd f := by
  rcases fseek_cases h with ⟨-, -, rfl⟩ | ⟨desc, p, hdesc, hp, rfl⟩
  · rfl
  · have hslot := fileGetDescriptor_slotOf hdesc
    rw [(hin desc hslot).1] at hp
    rcases fat16Seek_cases hp with ⟨-, rfl⟩ | ⟨-, -, -, rfl, -⟩
    · rw [slotOf_setPrivate hdesc _ hfd, if_pos rfl, hslot]
    · exact absurd hr (by decide)

/-- **The position stays in the file** from `fopen` on, along calls on any descriptors, if every
seek from the current position by an offset that is accepted ends in the file; a seek that fails
leaves it where it is. -/
theorem fopen_positionInside {disk : FatDisk} (hfs : disk.filesystem = some fat16Fs)
    {filename modeStr : List UInt8} {f₀ f₁ f : FatFileState} {fd : ℤ}
    (hopen : fopen disk filename modeStr f₀ = some (fd, f₁)) (hfd : 0 < fd)
    (hrun : Reaches (SeeksInside fd) f₁ f) :
    PositionInside fd f ∧ ∀ offset whence r f', fseek fd offset whence f = some (r, f') → r < 0 →
      slotOf fd f' = slotOf fd f := by
  have hstart : PositionInside fd f₁ := by
    rcases fopen_cases hfs hopen with ⟨hzero, -⟩ | ⟨i, p, k, hslot, hi, hp, -, htable⟩
    · omega
    · obtain ⟨hlt, -⟩ := List.getElem?_eq_some_iff.mp (freeSlot_eq_some hslot)
      intro desc hdesc
      have hindex : (fd - 1).toNat = i := by omega
      unfold slotOf at hdesc
      rw [htable, hindex, List.getElem?_set_self hlt, Option.join_some] at hdesc
      split_ifs at hdesc
      cases hdesc
      refine ⟨rfl, fun item _ => ?_⟩
      dsimp only
      rw [hp]
      exact Nat.zero_le _
  have hin := hrun.positionInside hfd hstart
  exact ⟨hin, fun offset whence r f' h hr => fseek_neg hfd hin h hr⟩

/-- No file is open, and the heap is empty. -/
def noFiles : FatFileState := ⟨List.replicate 512 none, ⟨⟨0⟩, ⟨0⟩, ⟨0⟩⟩, freshKernel⟩

/-- A file that is opened first has the descriptor 1. -/
theorem fopen_noFiles : ∃ (volume : FatVolume) (ptr : UInt32) (desc : FatFileDescriptor)
    (f : FatFileState), fopen ⟨some fat16Fs, volume⟩ smallPath [ascii 'r'] noFiles = some (1, f) ∧
      desc.item.directoryItem = some smallItem ∧ desc.item.type = FatItemType.file ∧
      desc.pos = 0 ∧ fileGetDescriptor 1 f = some ⟨ptr, 1, fat16Fs, desc, volume⟩ := by
  obtain ⟨volume, hdev, hmount, hdisk, htree⟩ := exists_smallTree
  have hcard := freshKernel_topFree.card_le
  obtain ⟨ptr, desc, f, hopen, hitem, htype, hpos, htable, -, -⟩ :=
    fopen_small hdev hmount hdisk htree (f := noFiles) (i := 0) rfl rfl (n := 0)
      (by change 8 ≤ (freeBlocks freshKernel).card; omega)
  refine ⟨volume, ptr, desc, f, hopen, hitem, htype, hpos, ?_⟩
  rw [fileGetDescriptor_eq_some, htable]
  exact ⟨by decide, rfl⟩

/-- A seek from the current position by an offset inside the file. -/
theorem fseek_current {f : FatFileState} {fd offset : ℤ}
    {desc : FileDescriptor FatVolume FatStreams FatFileDescriptor} {item : FatDirectoryItem}
    (hdesc : fileGetDescriptor fd f = some desc) (hfs : desc.filesystem = fat16Fs)
    (hitem : desc.privateData.item.directoryItem = some item)
    (htype : desc.privateData.item.type = FatItemType.file)
    (hlt : UInt32.ofInt offset < item.filesize) :
    fseek fd offset SEEK_CURRENT f = some (0, f.setPrivate fd desc
      { desc.privateData with pos := desc.privateData.pos + UInt32.ofInt offset }) := by
  have hseek : desc.filesystem.fsSeek desc.privateData (UInt32.ofInt offset) SEEK_CURRENT =
      some (0, { desc.privateData with pos := desc.privateData.pos + UInt32.ofInt offset }) := by
    rw [hfs]
    change fat16Seek _ _ _ = _
    unfold fat16Seek
    rw [if_neg (not_not.mpr htype), hitem, Option.map_some, if_neg (UInt32.not_le.mpr hlt),
      if_neg (by decide), if_neg (by decide), if_pos rfl]
  unfold fseek
  rw [hdesc]
  dsimp only
  rw [hseek]
  rfl

/-- Two seeks by 600 bytes in a file of 1024 bytes. -/
theorem fopen_positionInside_past : ∃ (volume : FatVolume) (f₁ f₂ f₃ : FatFileState),
    fopen ⟨some fat16Fs, volume⟩ smallPath [ascii 'r'] noFiles = some (1, f₁) ∧
      fseek 1 600 SEEK_CURRENT f₁ = some (0, f₂) ∧ fseek 1 600 SEEK_CURRENT f₂ = some (0, f₃) ∧
      1 ≤ smallItem.filesize.toNat ∧ ¬ PositionInside 1 f₃ := by
  obtain ⟨volume, ptr, desc, f, hopen, hitem, htype, hpos, hslot⟩ := fopen_noFiles
  have hlt : UInt32.ofInt 600 < smallItem.filesize := by decide
  have hseek := fseek_current hslot rfl hitem htype hlt
  have hslot₂ := (fileGetDescriptor_setPrivate hslot
    { desc with pos := desc.pos + UInt32.ofInt 600 } 1).trans (if_pos rfl)
  have hseek₂ := fseek_current hslot₂ rfl hitem htype hlt
  have hslot₃ := (fileGetDescriptor_setPrivate hslot₂
    { desc with pos := desc.pos + UInt32.ofInt 600 + UInt32.ofInt 600 } 1).trans (if_pos rfl)
  refine ⟨volume, f, _, _, hopen, hseek, hseek₂, by decide, fun hin => ?_⟩
  have hle := (hin _ (fileGetDescriptor_slotOf hslot₃)).2 smallItem hitem
  dsimp only at hle
  rw [hpos] at hle
  exact absurd hle (by decide)

/-- A seek to the middle of the file. -/
theorem fopen_positionInside_middle : ∃ (volume : FatVolume) (f₁ f₂ : FatFileState),
    fopen ⟨some fat16Fs, volume⟩ smallPath [ascii 'r'] noFiles = some (1, f₁) ∧
      fseek 1 600 SEEK_CURRENT f₁ = some (0, f₂) ∧ PositionInside 1 f₂ ∧
      ∀ offset whence r f', fseek 1 offset whence f₂ = some (r, f') → r < 0 →
        slotOf 1 f' = slotOf 1 f₂ := by
  obtain ⟨volume, ptr, desc, f, hopen, hitem, htype, hpos, hslot⟩ := fopen_noFiles
  have hseek := fseek_current hslot rfl hitem htype (show UInt32.ofInt 600 < _ by decide)
  have hfs : (⟨some fat16Fs, volume⟩ : FatDisk).filesystem = some fat16Fs := rfl
  refine ⟨volume, f, _, hopen, hseek, fopen_positionInside hfs hopen (by decide)
    (Reaches.call Reaches.start (c := FileCall.seek 1 600 SEEK_CURRENT) ?_
      (congrArg (Option.map _) hseek))⟩
  intro _ _ desc' item' hdesc' hitem' _
  rw [fileGetDescriptor_slotOf hslot] at hdesc'
  cases hdesc'
  rw [hitem] at hitem'
  cases hitem'
  dsimp only
  rw [hpos]
  decide

end PeachOS
