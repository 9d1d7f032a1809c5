import PeachOS.Fat16Read

/-! # Laws of reading

Reading by members and in bulk (`fat16Read_memberwise_iff`), reading up to the end of a file
(`fread_stopsAtEnd_iff`), and reading on where the last read ended (`fread_readsOn_never`). -/

namespace PeachOS

open ByteMemory

/-! ### Successful reads -/

/-- The result of a read that succeeds, and the bytes in the buffer. -/
theorem fat16Read_copies {volume : FatVolume} (hdev : volume.device.Delivers)
    {descriptor : FatFileDescriptor} {item : FatDirectoryItem}
    (hitem : descriptor.item.directoryItem = some item) {size nmemb out : UInt32}
    (hsize : 1 ≤ size.toNat) {streams streams' : FatStreams} {m m' : Mem} {res : ℤ}
    (h : fat16Read volume descriptor size nmemb out streams m = some (res, streams', m'))
    (hres : 0 ≤ res) :
    m' = writeBytes m out (fun i => diskByteAt volume.device
      (volume.memberPos (i32 (fat16GetFirstCluster item).toNat) (i32 descriptor.pos.toNat)
        size.toNat i)) (nmemb.toNat * memberBytes size) := by
  rw [← fat16ReadLog_snd] at h
  obtain ⟨⟨log, res', streams₁, m₁⟩, hlog, heq⟩ := Option.map_eq_some_iff.mp h
  cases heq
  exact (fat16ReadLog_copies hdev hitem hsize hlog hres).2.2

/-- Nothing is read where a cluster has no bytes. -/
theorem fat16Read_sizePos {volume : FatVolume} {descriptor : FatFileDescriptor}
    {size nmemb out : UInt32} (hnmemb : 1 ≤ nmemb.toNat) {streams : FatStreams} {m : Mem}
    {r : ℤ × FatStreams × Mem}
    (h : fat16Read volume descriptor size nmemb out streams m = some r) :
    0 < volume.sizeOfClusterBytes := by
  by_contra hsize
  obtain ⟨item, -, h⟩ := Option.bind_eq_some_iff.mp h
  obtain ⟨q, hloop, -⟩ := Option.map_eq_some_iff.mp h
  obtain ⟨n, hn⟩ := Nat.exists_eq_add_of_le' hnmemb
  rw [hn, fat16ReadLoop, fat16ReadInternal, fat16ReadInternalFromStream] at hloop
  dsimp only at hloop
  rw [if_pos (not_lt.mp hsize)] at hloop
  cases hloop

/-- The `total` bytes from `offset` on are read in one piece. -/
structure FatVolume.ReadsPiece (volume : FatVolume) (cluster offset : ℤ) (total : ℕ) : Prop where
  sizePos : 0 < volume.sizeOfClusterBytes
  fits : (total : ℤ) ≤ volume.sizeOfClusterBytes
  walks : ∀ i < (offset.tdiv volume.sizeOfClusterBytes).toNat,
    ¬ StopsWalk (volume.fatNext^[i + 1] cluster)
  found : 0 ≤ volume.clusterFor cluster offset
  stays : ¬ LeavesBuffer (volume.piecePos cluster offset) total

/-- Such a read succeeds. -/
theorem fat16ReadInternal_piece {volume : FatVolume} (hdev : volume.device.Delivers)
    {cluster offset : ℤ} {total : ℕ} (h : volume.ReadsPiece cluster offset total) (out : UInt32)
    (m : Mem) (streams : FatStreams) : ∃ m' streams',
      fat16ReadInternal volume cluster offset total out m streams = some ((0, m'), streams') := by
  have hfat : ReadsFat (fat16GetFatEntry volume) volume.fatNext := fat16GetFatEntry_eq hdev
  have hwalk := clusterLoopWith_eq hfat (offset.tdiv volume.sizeOfClusterBytes).toNat cluster
    streams
  have hno : ¬ ∃ i < (offset.tdiv volume.sizeOfClusterBytes).toNat,
      StopsWalk (volume.fatNext^[i + 1] cluster) := fun ⟨i, hi, hs⟩ => h.walks i hi hs
  rw [if_neg hno] at hwalk
  obtain ⟨⟨found, streams₁⟩, hloop, hfound⟩ := Option.map_eq_some_iff.mp hwalk
  obtain rfl : found = volume.clusterFor cluster offset := hfound
  have hcluster : fat16GetClusterForOffset volume cluster offset streams =
      some (volume.clusterFor cluster offset, streams₁) := by
    unfold fat16GetClusterForOffset
    rw [if_neg h.sizePos.ne', fat16ClusterLoop_eq]
    exact hloop
  have hread : ¬ (total : ℤ) > volume.sizeOfClusterBytes := not_lt.mpr h.fits
  have hrange := i32_range (i32 (fat16ClusterToSector volume (volume.clusterFor cluster
    offset) * peachosSectorSize) + offset.tmod volume.sizeOfClusterBytes)
  have hstays := h.stays
  unfold FatVolume.piecePos at hstays
  refine ⟨writeBytes m out (fun j => diskByteAt volume.device
    (i32 (volume.piecePos cluster offset + j))) total, { streams₁ with
      clusterReadStream := ⟨i32 (volume.piecePos cluster offset + total)⟩ }, ?_⟩
  unfold fat16ReadInternal
  rw [fat16ReadInternalFromStream, if_neg (not_le.mpr h.sizePos), hcluster, Option.bind_some]
  dsimp only [diskstreamerSeek]
  simp only [if_neg hread, ne_eq, not_true_eq_false, if_false]
  rw [if_neg (not_lt.mpr h.found), diskstreamerRead_at hdev total _ out m hrange.1 hrange.2,
    if_neg hstays, Option.bind_some, sub_self]
  simp only [gt_iff_lt, lt_irrefl, if_false]
  rfl

/-- A read whose members are read in one piece each succeeds. -/
theorem fat16ReadLoop_pieces {volume : FatVolume} (hdev : volume.device.Delivers)
    (item : FatDirectoryItem) (size : UInt32) (hsize : i32 size.toNat = size.toNat) :
    ∀ (n : ℕ) (offset : ℤ) (out : UInt32) (streams : FatStreams) (m : Mem),
      (∀ i < n, volume.ReadsPiece (i32 (fat16GetFirstCluster item).toNat)
        (i32 (offset + (i * size.toNat : ℕ))) size.toNat) →
      -2147483648 ≤ offset → offset < 2147483648 → ∃ streams' m',
        fat16ReadLoop volume item size n offset out streams m = some (0, streams', m')
  | 0, _, _, streams, m, _, _, _ => ⟨streams, m, rfl⟩
  | n + 1, offset, out, streams, m, h, hlow, hhigh => by
      have h0 := h 0 (Nat.succ_pos n)
      rw [Nat.zero_mul, Nat.cast_zero, add_zero, i32_of_range hlow hhigh] at h0
      obtain ⟨m₁, streams₁, hfirst⟩ := fat16ReadInternal_piece hdev h0 out m streams
      have hnext := i32_range (offset + size.toNat)
      have hrest : ∀ i < n, volume.ReadsPiece (i32 (fat16GetFirstCluster item).toNat)
          (i32 (i32 (offset + size.toNat) + (i * size.toNat : ℕ))) size.toNat := by
        intro i hi
        have hi' := h (i + 1) (Nat.succ_lt_succ hi)
        rwa [Nat.succ_mul, Nat.add_comm, Nat.cast_add, ← add_assoc, ← i32_add_i32] at hi'
      obtain ⟨streams', m', hloop⟩ := fat16ReadLoop_pieces hdev item size hsize n _ (out + size)
        streams₁ m₁ hrest hnext.1 hnext.2
      refine ⟨streams', m', ?_⟩
      unfold fat16ReadLoop
      rw [hsize, hfirst, Option.bind_some]
      exact hloop

theorem fat16Read_pieces {volume : FatVolume} (hdev : volume.device.Delivers)
    {descriptor : FatFileDescriptor} {item : FatDirectoryItem}
    (hitem : descriptor.item.directoryItem = some item) (size nmemb : UInt32)
    (hsize : i32 size.toNat = size.toNat)
    (h : ∀ i < nmemb.toNat, volume.ReadsPiece (i32 (fat16GetFirstCluster item).toNat)
      (i32 (i32 descriptor.pos.toNat + (i * size.toNat : ℕ))) size.toNat)
    (out : UInt32) (streams : FatStreams) (m : Mem) : ∃ streams' m',
      fat16Read volume descriptor size nmemb out streams m =
        some (i32 nmemb.toNat, streams', m') := by
  have hrange := i32_range descriptor.pos.toNat
  obtain ⟨streams', m', hloop⟩ := fat16ReadLoop_pieces hdev item size hsize nmemb.toNat
    (i32 descriptor.pos.toNat) out streams m h hrange.1 hrange.2
  refine ⟨streams', m', ?_⟩
  unfold fat16Read
  rw [hitem, Option.bind_some, hloop, Option.map_some]
  rfl

/-! ### Members and bulk -/

/-- The place of byte `q` of a file in its own cluster. -/
def FatVolume.ownPos (volume : FatVolume) (cluster : ℤ) (q : ℕ) : ℤ :=
  let size := volume.sizeOfClusterBytes.toNat
  i32 (i32 (fat16ClusterToSector volume (volume.fatNext^[q / size] cluster) * peachosSectorSize) +
    (q % size : ℕ))

/-- The place as far behind the end of the cluster before. -/
def FatVolume.behindPos (volume : FatVolume) (cluster : ℤ) (q : ℕ) : ℤ :=
  let size := volume.sizeOfClusterBytes.toNat
  i32 (i32 (fat16ClusterToSector volume (volume.fatNext^[q / size - 1] cluster) *
    peachosSectorSize) + (size + q % size : ℕ))

/-- Byte `j` of a read from `offset` on lies in another cluster than the start of its piece. -/
def FatVolume.Overruns (volume : FatVolume) (offset j : ℕ) : Prop :=
  let size := volume.sizeOfClusterBytes.toNat
  size ≤ offset % size + j % size

instance (volume : FatVolume) (offset j : ℕ) : Decidable (volume.Overruns offset j) :=
  inferInstanceAs (Decidable (_ ≤ _))

/-- A byte comes from its own cluster, or from behind the end of the one before. -/
theorem FatVolume.copyPos_eq {volume : FatVolume} (hsize : 0 < volume.sizeOfClusterBytes)
    (cluster : ℤ) {offset j : ℕ} (hrange : offset + j < 2147483648) :
    volume.copyPos cluster offset j = if volume.Overruns offset j
      then volume.behindPos cluster (offset + j) else volume.ownPos cluster (offset + j) := by
  obtain ⟨size, hnat⟩ := Int.eq_ofNat_of_zero_le hsize.le
  have hpos : 0 < size := by omega
  have hiff : volume.Overruns offset j ↔ size ≤ offset % size + j % size := by
    unfold FatVolume.Overruns
    rw [hnat]
    rfl
  have hle : j / size * size ≤ j := Nat.div_mul_le_self j size
  have hstart : i32 ((offset : ℤ) + (j / size * size : ℕ)) =
      ((offset + j / size * size : ℕ) : ℤ) := by
    rw [← Nat.cast_add]
    exact i32_of_range (by omega) (by omega)
  have hmod : ((offset + j / size * size : ℕ) : ℤ).tmod size = ((offset % size : ℕ) : ℤ) := by
    rw [Int.tmod_eq_emod_of_nonneg (Int.natCast_nonneg _), ← Int.natCast_emod,
      Nat.add_mul_mod_self_right]
  have hdiv : (((offset + j / size * size : ℕ) : ℤ).tdiv size).toNat =
      offset / size + j / size := by
    rw [Int.tdiv_eq_ediv_of_nonneg (Int.natCast_nonneg _), ← Int.natCast_ediv, Int.toNat_natCast,
      Nat.add_mul_div_right _ _ hpos]
  unfold FatVolume.copyPos FatVolume.piecePos FatVolume.clusterFor
  rw [hnat]
  dsimp only [Int.ofNat_eq_natCast, Int.toNat_natCast]
  rw [hstart, hmod, hdiv, i32_add_i32, add_assoc, ← Nat.cast_add]
  by_cases hover : volume.Overruns offset j
  · have hle := hiff.mp hover
    rw [if_pos hover, FatVolume.behindPos, hnat]
    dsimp only [Int.ofNat_eq_natCast, Int.toNat_natCast]
    rw [Nat.add_div hpos, if_pos hle, Nat.add_sub_cancel, ← Nat.add_mod_add_of_le_add_mod hle,
      Nat.add_comm ((offset + j) % size) size]
  · have hlt := mt hiff.mpr hover
    rw [if_neg hover, FatVolume.ownPos, hnat]
    dsimp only [Int.ofNat_eq_natCast, Int.toNat_natCast]
    rw [Nat.add_div hpos, if_neg hlt, Nat.add_zero, Nat.add_mod_of_add_mod_lt (not_le.mp hlt)]

/-- Byte `i` of a read of members, which lies in the member that begins at the last multiple of
the size of a member. -/
theorem FatVolume.memberPos_eq {volume : FatVolume} (hsize : 0 < volume.sizeOfClusterBytes)
    (cluster : ℤ) {pos size i : ℕ} (hrange : pos + i < 2147483648) :
    volume.memberPos cluster pos size i = if volume.Overruns (pos + i / size * size) (i % size)
      then volume.behindPos cluster (pos + i) else volume.ownPos cluster (pos + i) := by
  have hle : i / size * size ≤ i := Nat.div_mul_le_self i size
  have hmod : i / size * size + i % size = i := Nat.div_add_mod' i size
  unfold FatVolume.memberPos
  rw [← Nat.cast_add, i32_of_range (by omega) (by omega),
    volume.copyPos_eq hsize cluster (by omega), Nat.add_assoc, hmod]

/-- **Members and bulk.**  Reads of `nmemb` members and of all their bytes at once agree if and
only if the disk has the same byte in both places wherever exactly one of the reads takes a byte
from behind the end of a cluster. -/
theorem fat16Read_memberwise_iff {volume : FatVolume} (hdev : volume.device.Delivers)
    {descriptor : FatFileDescriptor} {item : FatDirectoryItem}
    (hitem : descriptor.item.directoryItem = some item) {size nmemb : UInt32}
    (hsize : 1 ≤ size.toNat) (hnmemb : 1 ≤ nmemb.toNat)
    (hend : descriptor.pos.toNat + size.toNat * nmemb.toNat ≤ item.filesize.toNat)
    (hfile : item.filesize.toNat < 2147483648) {out : UInt32} {m m₁ m₂ : Mem}
    {streams streams₁ streams₂ : FatStreams} {res₁ res₂ : ℤ}
    (h₁ : fat16Read volume descriptor size nmemb out streams m = some (res₁, streams₁, m₁))
    (hres₁ : 0 ≤ res₁)
    (h₂ : fat16Read volume descriptor (size * nmemb) 1 out streams m =
      some (res₂, streams₂, m₂)) (hres₂ : 0 ≤ res₂) :
    (∀ i < size.toNat * nmemb.toNat, m₁ (off out i) = m₂ (off out i)) ↔
      ∀ i < size.toNat * nmemb.toNat,
        ¬ (volume.Overruns descriptor.pos.toNat i ↔
          volume.Overruns (descriptor.pos.toNat + i / size.toNat * size.toNat)
            (i % size.toNat)) →
        diskByteAt volume.device (volume.behindPos (i32 (fat16GetFirstCluster item).toNat)
          (descriptor.pos.toNat + i)) =
        diskByteAt volume.device (volume.ownPos (i32 (fat16GetFirstCluster item).toNat)
          (descriptor.pos.toNat + i)) := by
  have hcluster := fat16Read_sizePos hnmemb h₁
  have hle : size.toNat ≤ size.toNat * nmemb.toNat := Nat.le_mul_of_pos_right _ hnmemb
  have hmul : (size * nmemb).toNat = size.toNat * nmemb.toNat := by
    rw [UInt32.toNat_mul, Nat.mod_eq_of_lt (by omega)]
  have hbytes₁ : memberBytes size = size.toNat := by
    have := memberBytes_cases size
    omega
  have hbytes₂ : memberBytes (size * nmemb) = size.toNat * nmemb.toNat := by
    have := memberBytes_cases (size * nmemb)
    omega
  have hcopy₁ := fat16Read_copies hdev hitem hsize h₁ hres₁
  have hcopy₂ := fat16Read_copies hdev hitem (by omega) h₂ hres₂
  have hone : (1 : UInt32).toNat = 1 := rfl
  rw [hbytes₁, Nat.mul_comm nmemb.toNat] at hcopy₁
  rw [hbytes₂, hmul, hone, Nat.one_mul] at hcopy₂
  generalize size.toNat * nmemb.toNat = total at *
  rw [i32_of_range (x := descriptor.pos.toNat) (by omega) (by omega)] at hcopy₁ hcopy₂
  generalize i32 (fat16GetFirstCluster item).toNat = cluster at *
  generalize descriptor.pos.toNat = pos at *
  refine forall₂_congr fun i hi => ?_
  rw [hcopy₁, hcopy₂, writeBytes_off _ _ _ hi (by omega), writeBytes_off _ _ _ hi (by omega),
    volume.memberPos_member cluster (by omega) (by omega) hi,
    volume.memberPos_eq hcluster cluster (by omega),
    volume.copyPos_eq hcluster cluster (by omega)]
  by_cases hbulk : volume.Overruns pos i <;>
    by_cases hmember : volume.Overruns (pos + i / size.toNat * size.toNat) (i % size.toNat)
  · simp [hbulk, hmember]
  · simp [hbulk, hmember, eq_comm]
  · simp [hbulk, hmember]
  · simp [hbulk, hmember]

/-- A file `A` of 1024 bytes from cluster 2 on. -/
def smallItem : FatDirectoryItem :=
  ⟨fun i => if i.val = 0 then ascii 'A' else if i.val < 12 then 0x20 else
    if i.val = 26 then 2 else if i.val = 29 then 4 else 0⟩

/-- Its descriptor at a position. -/
def smallFile (pos : UInt32) : FatFileDescriptor :=
  ⟨0x01000000, ⟨0x01001000, FatItemUnion.item 0x01002000 smallItem, FatItemType.file⟩, pos⟩

/-- Reads of two members of 256 bytes from position 256 on, and of their bytes in bulk. -/
theorem smallFile_reads {volume : FatVolume} (hdev : volume.device.Delivers)
    (hfirst : volume.ReadsPiece 2 256 256) (hsecond : volume.ReadsPiece 2 512 256)
    (hbulk : volume.ReadsPiece 2 256 512) : ∃ s₁ m₁ s₂ m₂,
      fat16Read volume (smallFile 256) 256 2 0 ⟨⟨0⟩, ⟨0⟩, ⟨0⟩⟩ (fun _ => 0) =
        some (2, s₁, m₁) ∧
      fat16Read volume (smallFile 256) (256 * 2) 1 0 ⟨⟨0⟩, ⟨0⟩, ⟨0⟩⟩ (fun _ => 0) =
        some (1, s₂, m₂) := by
  have hitem : (smallFile 256).item.directoryItem = some smallItem := rfl
  have hcluster : i32 (fat16GetFirstCluster smallItem).toNat = 2 := by decide
  obtain ⟨s₁, m₁, h₁⟩ := fat16Read_pieces hdev hitem 256 2 (by decide) (fun i hi => by
    rw [hcluster]
    cases i with
    | zero => exact hfirst
    | succ i =>
        obtain rfl : i = 0 := by
          have h2 : i + 1 < 2 := hi
          omega
        exact hsecond) 0 ⟨⟨0⟩, ⟨0⟩, ⟨0⟩⟩ (fun _ => 0)
  obtain ⟨s₂, m₂, h₂⟩ := fat16Read_pieces hdev hitem (256 * 2) 1 (by decide) (fun i hi => by
    obtain rfl : i = 0 := Nat.lt_one_iff.mp hi
    rw [hcluster]
    exact hbulk) 0 ⟨⟨0⟩, ⟨0⟩, ⟨0⟩⟩ (fun _ => 0)
  exact ⟨s₁, m₁, s₂, m₂, h₁, h₂⟩

/-- The second member is read from the second cluster of the file, which is far away, and in bulk
from the sector behind the first cluster. -/
theorem fat16Read_memberwise_numbered :
    (smallFile 256).pos.toNat + 256 * 2 ≤ smallItem.filesize.toNat ∧ ∃ s₁ m₁ s₂ m₂,
      fat16Read numberedVolume (smallFile 256) 256 2 0 ⟨⟨0⟩, ⟨0⟩, ⟨0⟩⟩ (fun _ => 0) =
        some (2, s₁, m₁) ∧
      fat16Read numberedVolume (smallFile 256) (256 * 2) 1 0 ⟨⟨0⟩, ⟨0⟩, ⟨0⟩⟩ (fun _ => 0) =
        some (1, s₂, m₂) ∧
      m₁ (off 0 256) ≠ m₂ (off 0 256) := by
  have hdev : numberedVolume.device.Delivers := fun _ => rfl
  have hitem : (smallFile 256).item.directoryItem = some smallItem := rfl
  have hcluster : i32 (fat16GetFirstCluster smallItem).toNat = 2 := by decide
  obtain ⟨s₁, m₁, s₂, m₂, h₁, h₂⟩ := smallFile_reads hdev
    ⟨by decide, by decide, by decide, by decide, by decide⟩
    ⟨by decide, by decide, by decide, by decide, by decide⟩
    ⟨by decide, by decide, by decide, by decide, by decide⟩
  refine ⟨by decide, s₁, m₁, s₂, m₂, h₁, h₂, ?_⟩
  rw [fat16Read_copies hdev hitem (by decide) h₁ (by decide),
    fat16Read_copies hdev hitem (by decide) h₂ (by decide), hcluster,
    writeBytes_off _ _ _ (by decide) (by decide), writeBytes_off _ _ _ (by decide) (by decide)]
  decide

/-- On a disk of threes both reads agree. -/
theorem fat16Read_memberwise_iff_threes : ∃ s₁ m₁ s₂ m₂,
    fat16Read threesVolume (smallFile 256) 256 2 0 ⟨⟨0⟩, ⟨0⟩, ⟨0⟩⟩ (fun _ => 0) =
      some (2, s₁, m₁) ∧
    fat16Read threesVolume (smallFile 256) (256 * 2) 1 0 ⟨⟨0⟩, ⟨0⟩, ⟨0⟩⟩ (fun _ => 0) =
      some (1, s₂, m₂) ∧
    ∀ i < (256 : UInt32).toNat * (2 : UInt32).toNat, m₁ (off 0 i) = m₂ (off 0 i) := by
  have hdev : threesVolume.device.Delivers := fun _ => rfl
  obtain ⟨s₁, m₁, s₂, m₂, h₁, h₂⟩ := smallFile_reads hdev
    ⟨by decide, by decide, by decide, by decide, by decide⟩
    ⟨by decide, by decide, by decide, by decide, by decide⟩
    ⟨by decide, by decide, by decide, by decide, by decide⟩
  have hitem : (smallFile 256).item.directoryItem = some smallItem := rfl
  have hthree : ∀ q, diskByteAt threesVolume.device q = 3 := fun _ => rfl
  exact ⟨s₁, m₁, s₂, m₂, h₁, h₂, (fat16Read_memberwise_iff hdev hitem (by decide) (by decide)
    (by decide) (by decide) h₁ (by decide) h₂ (by decide)).mpr fun _ _ _ => by
      rw [hthree, hthree]⟩

/-! ### The end of a file -/

/-- The table and the kernel of a run of the calls on files of FAT16 volumes. -/
abbrev FatFileState := FileState FatVolume FatStreams FatFileDescriptor

theorem OpenFile.fd_pos {f : FatFileState} {fd : ℤ} {volume : FatVolume}
    {desc : FatFileDescriptor} (h : OpenFile f fd volume desc) : 1 ≤ fd := by
  obtain ⟨ptr, index, h⟩ := h
  by_contra hfd
  unfold fileGetDescriptor at h
  rw [if_pos (Or.inl (by omega))] at h
  cases h

/-- `fread` on an open file is `fat16_read`. -/
theorem fread_eq {f : FatFileState} {fd : ℤ} {volume : FatVolume} {desc : FatFileDescriptor}
    (hopen : OpenFile f fd volume desc) {size nmemb : UInt32} (hsize : 1 ≤ size.toNat)
    (hnmemb : 1 ≤ nmemb.toNat) (ptr : UInt32) :
    fread ptr size nmemb fd f =
      (fat16Read volume desc size nmemb ptr f.streams f.kernel.mem).map fun r =>
        (r.1, { f with streams := r.2.1, kernel := { f.kernel with mem := r.2.2 } }) := by
  have hfd := hopen.fd_pos
  have hno : ¬ (size = 0 ∨ nmemb = 0 ∨ fd < 1) := by
    rintro (rfl | rfl | hlt)
    · exact absurd hsize (by decide)
    · exact absurd hnmemb (by decide)
    · omega
  obtain ⟨ptr', index, hdesc⟩ := hopen
  unfold fread
  rw [if_neg hno, hdesc]
  rfl

/-- The entry of a cluster, as it is stored in the first table. -/
def FatVolume.tableEntry (volume : FatVolume) (cluster : ℤ) : ℤ :=
  word (diskByte volume.device (volume.entryPos cluster.toNat))
    (diskByte volume.device (volume.entryPos cluster.toNat + 1))

/-- The positions on the disk of the bytes of a file: those of its clusters, as the table chains
them, up to its size. -/
def FatVolume.fileBytes (volume : FatVolume) (item : FatDirectoryItem) : Set ℤ :=
  let size := volume.sizeOfClusterBytes.toNat
  {q | ∃ p < item.filesize.toNat, q = volume.clusterPos
    (volume.tableEntry^[p / size] (fat16GetFirstCluster item).toNat) + (p % size : ℕ)}

/-- A read that returned `r` read the members that the file has, and only bytes of the file. -/
def StopsAtEnd (volume : FatVolume) (desc : FatFileDescriptor) (item : FatDirectoryItem)
    (size nmemb ptr : UInt32) (f : FatFileState) (r : ℤ) : Prop :=
  r = (min nmemb.toNat ((item.filesize.toNat - desc.pos.toNat) / size.toNat) : ℕ) ∧
  ∃ log res, fat16ReadLog volume desc size nmemb ptr f.streams f.kernel.mem = some (log, res) ∧
    ∀ q ∈ log, q ∈ volume.fileBytes item

/-- **The end of a file.**  A read that succeeds stops there if and only if the file has all its
members, and every place from which the read takes a byte is one of the file. -/
theorem fread_stopsAtEnd_iff {f f' : FatFileState} {fd : ℤ} {volume : FatVolume}
    (hdev : volume.device.Delivers) {desc : FatFileDescriptor} (hopen : OpenFile f fd volume desc)
    {item : FatDirectoryItem} (hitem : desc.item.directoryItem = some item)
    (hpos : desc.pos.toNat ≤ item.filesize.toNat) {size nmemb ptr : UInt32}
    (hsize : 1 ≤ size.toNat) (hnmemb : 1 ≤ nmemb.toNat) {r : ℤ}
    (h : fread ptr size nmemb fd f = some (r, f')) (hr : 0 ≤ r) :
    StopsAtEnd volume desc item size nmemb ptr f r ↔
      desc.pos.toNat + size.toNat * nmemb.toNat ≤ item.filesize.toNat ∧
      ∀ i < nmemb.toNat * memberBytes size,
        volume.memberPos (i32 (fat16GetFirstCluster item).toNat) (i32 desc.pos.toNat) size.toNat i
          ∈ volume.fileBytes item := by
  rw [fread_eq hopen hsize hnmemb, ← fat16ReadLog_snd, Option.map_map] at h
  obtain ⟨⟨log, res, streams', m'⟩, hlog, heq⟩ := Option.map_eq_some_iff.mp h
  cases heq
  dsimp only at hr ⊢
  obtain ⟨hres, hplaces, -⟩ := fat16ReadLog_copies hdev hitem hsize hlog hr
  have hcount : res = nmemb.toNat := by
    have hlt := toNat_lt nmemb
    have hmod := i32_emod nmemb.toNat
    have hrange := i32_range nmemb.toNat
    omega
  have hmin : res = (min nmemb.toNat ((item.filesize.toNat - desc.pos.toNat) / size.toNat) : ℕ) ↔
      desc.pos.toNat + size.toNat * nmemb.toNat ≤ item.filesize.toNat := by
    rw [hcount, Nat.cast_inj, eq_comm, min_eq_left_iff, Nat.le_div_iff_mul_le hsize,
      Nat.mul_comm]
    omega
  unfold StopsAtEnd
  rw [hmin, hlog]
  refine and_congr_right fun _ => ?_
  constructor
  · rintro ⟨log', res', heq, hin⟩ i hi
    cases heq
    exact hin _ (hplaces ▸ List.mem_map_of_mem (List.mem_range.mpr hi))
  · intro hin
    refine ⟨_, _, rfl, fun q hq => ?_⟩
    rw [hplaces] at hq
    obtain ⟨i, hi, rfl⟩ := List.mem_map.mp hq
    exact hin i (List.mem_range.mp hi)

/-- A table with the small file open as descriptor 1. -/
def smallState (volume : FatVolume) (pos : UInt32) : FatFileState where
  fileDescriptors := some ⟨0x01003000, 1, fat16Fs, smallFile pos, volume⟩ ::
    List.replicate 511 none
  streams := ⟨⟨0⟩, ⟨0⟩, ⟨0⟩⟩
  kernel := ⟨fun _ => 0, false⟩

theorem smallState_open (volume : FatVolume) (pos : UInt32) :
    OpenFile (smallState volume pos) 1 volume (smallFile pos) := ⟨_, _, rfl⟩

/-- A read of one member in one piece. -/
theorem fread_piece {f : FatFileState} {fd : ℤ} {volume : FatVolume}
    (hdev : volume.device.Delivers) {pos : UInt32}
    (hopen : OpenFile f fd volume (smallFile pos)) (size : UInt32)
    (hsize : 1 ≤ size.toNat) (hint : i32 size.toNat = size.toNat)
    (h : volume.ReadsPiece 2 (i32 (i32 pos.toNat + (0 * size.toNat : ℕ))) size.toNat)
    (ptr : UInt32) : ∃ streams m, fread ptr size 1 fd f =
      some (1, { f with streams := streams, kernel := { f.kernel with mem := m } }) := by
  have hcluster : i32 (fat16GetFirstCluster smallItem).toNat = 2 := by decide
  have hitem : (smallFile pos).item.directoryItem = some smallItem := rfl
  obtain ⟨streams, m, hread⟩ := fat16Read_pieces hdev hitem size 1 hint (fun i hi => by
    obtain rfl : i = 0 := Nat.lt_one_iff.mp hi
    rw [hcluster]
    exact h) ptr f.streams f.kernel.mem
  refine ⟨streams, m, ?_⟩
  rw [fread_eq hopen hsize (by decide), hread]
  rfl

/-- At the end of the file there is one more byte. -/
theorem fread_stopsAtEnd_past :
    (smallFile 1024).pos.toNat ≤ smallItem.filesize.toNat ∧ ∃ f',
      fread 0 1 1 1 (smallState numberedVolume 1024) = some (1, f') ∧
      ¬ StopsAtEnd numberedVolume (smallFile 1024) smallItem 1 1 0
        (smallState numberedVolume 1024) 1 := by
  obtain ⟨streams, m, hread⟩ := fread_piece (fun _ => rfl) (smallState_open numberedVolume 1024) 1
    (by decide) (by decide) ⟨by decide, by decide, by decide, by decide, by decide⟩ 0
  refine ⟨by decide, _, hread, fun h => ?_⟩
  exact absurd h.1 (by decide)

theorem fread_stopsAtEnd_iff_first : ∃ f',
    fread 0 1 1 1 (smallState threesVolume 0) = some (1, f') ∧
    StopsAtEnd threesVolume (smallFile 0) smallItem 1 1 0 (smallState threesVolume 0) 1 := by
  have hopen := smallState_open threesVolume 0
  obtain ⟨streams, m, hread⟩ := fread_piece (fun _ => rfl) hopen 1
    (by decide) (by decide) ⟨by decide, by decide, by decide, by decide, by decide⟩ 0
  refine ⟨_, hread, (fread_stopsAtEnd_iff (fun _ => rfl) hopen rfl (by decide) (by decide)
    (by decide) hread (by decide)).mpr ⟨by decide, fun i hi => ?_⟩⟩
  obtain rfl : i = 0 := Nat.lt_one_iff.mp hi
  exact ⟨0, by decide, by decide⟩

/-! ### Reading on -/

/-- Reads of `a` and `b` bytes, from the state `f` to `f₁` and from there to `f₂`, deliver what
one read of all the bytes delivers, and leave the position behind them. -/
def ReadsOn (fd : ℤ) (volume : FatVolume) (desc : FatFileDescriptor) (ptr₁ ptr₂ : UInt32)
    (a b : ℕ) (f f₁ f₂ : FatFileState) : Prop :=
  (∀ r f₃, fread ptr₁ (UInt32.ofNat (a + b)) 1 fd f = some (r, f₃) → 0 ≤ r →
    (∀ i < a, f₁.kernel.mem (off ptr₁ i) = f₃.kernel.mem (off ptr₁ i)) ∧
    ∀ i < b, f₂.kernel.mem (off ptr₂ i) = f₃.kernel.mem (off ptr₁ (a + i))) ∧
  ∃ desc', OpenFile f₂ fd volume desc' ∧ desc'.pos.toNat = desc.pos.toNat + a + b

/-- A read changes no descriptor. -/
theorem fread_fileDescriptors {δ σ π : Type} {f f' : FileState δ σ π} {fd r : ℤ}
    {ptr size nmemb : UInt32} (h : fread ptr size nmemb fd f = some (r, f')) :
    f'.fileDescriptors = f.fileDescriptors := by
  unfold fread at h
  split_ifs at h
  · cases h
    rfl
  · cases hdesc : fileGetDescriptor fd f with
    | none =>
        rw [hdesc] at h
        cases h
        rfl
    | some desc =>
        rw [hdesc] at h
        obtain ⟨q, -, heq⟩ := Option.map_eq_some_iff.mp h
        cases heq
        rfl

theorem OpenFile.congr {f f' : FatFileState} (h : f'.fileDescriptors = f.fileDescriptors)
    {fd : ℤ} {volume : FatVolume} {desc : FatFileDescriptor} :
    OpenFile f' fd volume desc ↔ OpenFile f fd volume desc := by
  unfold OpenFile fileGetDescriptor
  rw [h]

theorem OpenFile.unique {f : FatFileState} {fd : ℤ} {volume : FatVolume}
    {desc desc' : FatFileDescriptor} (h : OpenFile f fd volume desc)
    (h' : OpenFile f fd volume desc') : desc' = desc := by
  obtain ⟨ptr, index, h⟩ := h
  obtain ⟨ptr', index', h'⟩ := h'
  rw [h] at h'
  cases h'
  rfl

/-- Two reads leave the position where it was. -/
theorem not_readsOn {f f₁ f₂ : FatFileState} {fd : ℤ} {volume : FatVolume}
    {desc : FatFileDescriptor} (hopen : OpenFile f fd volume desc) {r₁ r₂ : ℤ}
    {ptr₁ size₁ nmemb₁ ptr₂ size₂ nmemb₂ : UInt32}
    (h₁ : fread ptr₁ size₁ nmemb₁ fd f = some (r₁, f₁))
    (h₂ : fread ptr₂ size₂ nmemb₂ fd f₁ = some (r₂, f₂)) {a b : ℕ} (ha : 1 ≤ a) :
    ¬ ReadsOn fd volume desc ptr₁ ptr₂ a b f f₁ f₂ := by
  rintro ⟨-, desc', hopen', hpos⟩
  have hsame : f₂.fileDescriptors = f.fileDescriptors :=
    (fread_fileDescriptors h₂).trans (fread_fileDescriptors h₁)
  rw [hopen.unique ((OpenFile.congr hsame).mp hopen')] at hpos
  omega

/-- **Reading on never works.**  Whatever the two reads are, the second one starts from the same
position as the first. -/
theorem fread_readsOn_never {f f₁ f₂ : FatFileState} {fd : ℤ} {volume : FatVolume}
    {desc : FatFileDescriptor} (hopen : OpenFile f fd volume desc) {item : FatDirectoryItem}
    (_ : desc.item.directoryItem = some item) {ptr₁ size₁ nmemb₁ ptr₂ size₂ nmemb₂ : UInt32}
    {a b : ℕ} (ha : 1 ≤ a) (_ : 1 ≤ b) (_ : a = size₁.toNat * nmemb₁.toNat)
    (_ : b = size₂.toNat * nmemb₂.toNat)
    (_ : desc.pos.toNat + a + b ≤ item.filesize.toNat) {r₁ r₂ : ℤ}
    (h₁ : fread ptr₁ size₁ nmemb₁ fd f = some (r₁, f₁)) (_ : 0 ≤ r₁)
    (h₂ : fread ptr₂ size₂ nmemb₂ fd f₁ = some (r₂, f₂)) (_ : 0 ≤ r₂) :
    ¬ ReadsOn fd volume desc ptr₁ ptr₂ a b f f₁ f₂ :=
  not_readsOn hopen h₁ h₂ ha

/-- Two reads of a sector from the beginning of the small file succeed. -/
theorem smallState_reads {volume : FatVolume} (hdev : volume.device.Delivers)
    (h : volume.ReadsPiece 2 (i32 (i32 (0 : UInt32).toNat + (0 * (512 : UInt32).toNat : ℕ)))
      (512 : UInt32).toNat) :
    ∃ f₁ f₂, fread 0 512 1 1 (smallState volume 0) = some (1, f₁) ∧
      fread 512 512 1 1 f₁ = some (1, f₂) := by
  have hopen := smallState_open volume 0
  obtain ⟨streams₁, m₁, h₁⟩ := fread_piece hdev hopen 512 (by decide) (by decide) h 0
  have hopen₁ := (OpenFile.congr (fread_fileDescriptors h₁)).mpr hopen
  obtain ⟨streams₂, m₂, h₂⟩ := fread_piece hdev hopen₁ 512 (by decide) (by decide) h 512
  exact ⟨_, _, h₁, h₂⟩

/-- The second sector of the small file is not read. -/
theorem fread_readsOn_numbered :
    (smallFile 0).pos.toNat + 512 + 512 ≤ smallItem.filesize.toNat ∧ ∃ f₁ f₂,
      fread 0 512 1 1 (smallState numberedVolume 0) = some (1, f₁) ∧
      fread 512 512 1 1 f₁ = some (1, f₂) ∧
      ¬ ReadsOn 1 numberedVolume (smallFile 0) 0 512 512 512 (smallState numberedVolume 0)
        f₁ f₂ := by
  obtain ⟨f₁, f₂, h₁, h₂⟩ := smallState_reads (show numberedVolume.device.Delivers from
    fun _ => rfl) ⟨by decide, by decide, by decide, by decide, by decide⟩
  exact ⟨by decide, f₁, f₂, h₁, h₂, not_readsOn (smallState_open _ _) h₁ h₂ (by decide)⟩

theorem fread_readsOn_never_threes : ∃ f₁ f₂,
    fread 0 512 1 1 (smallState threesVolume 0) = some (1, f₁) ∧
    fread 512 512 1 1 f₁ = some (1, f₂) ∧
    ¬ ReadsOn 1 threesVolume (smallFile 0) 0 512 512 512 (smallState threesVolume 0) f₁ f₂ := by
  obtain ⟨f₁, f₂, h₁, h₂⟩ := smallState_reads (show threesVolume.device.Delivers from
    fun _ => rfl) ⟨by decide, by decide, by decide, by decide, by decide⟩
  exact ⟨f₁, f₂, h₁, h₂, fread_readsOn_never (smallState_open _ _) rfl (by decide) (by decide)
    (by decide) (by decide) (by decide) h₁ (by decide) h₂ (by decide)⟩

end PeachOS
