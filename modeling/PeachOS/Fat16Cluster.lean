import PeachOS.KernelHeap
import PeachOS.Streamer

/-! # FAT16: clusters

The part of `fat16.c` that follows the file allocation table and reads the data of a chain of
clusters.  What a volume holds once it is mounted is a `FatVolume`; the three streams of its
private data are the state.  A result is `none` where the code divides by zero or where a read
leaves its sector buffer.

`fat16ReadInternal_chain` is the specification of a read; `Reseeks` says that the position in
which an earlier call left a stream does not matter. -/

namespace PeachOS

open ByteMemory

/-! ### Data -/

/-- `struct fat_header`, the fields that are read after the volume is mounted. -/
structure FatHeader where
  sectorsPerCluster : UInt8
  reservedSectors : UInt16
  fatCopies : UInt8
  rootDirEntries : UInt16
  sectorsPerFat : UInt16
deriving DecidableEq, Repr

/-- `struct fat_directory`.  `ptr` is its address, null for the root directory, which is part of
the private data; `item` is the address of the items, and `bytes` what memory holds there. -/
structure FatDirectory where
  ptr : UInt32
  item : UInt32
  bytes : ℕ → UInt8
  total : ℤ
  sectorPos : ℤ
  endingSectorPos : ℤ

/-- A mounted volume. -/
structure FatVolume where
  device : Device
  header : FatHeader
  rootDirectory : FatDirectory

/-- The streams of `struct fat_private`. -/
structure FatStreams where
  clusterReadStream : DiskStream
  fatReadStream : DiskStream
  directoryStream : DiskStream
deriving DecidableEq, Repr

/-! ### The file allocation table -/

/-- The size of a cluster in bytes; `disk->sector_size` is the size of a sector. -/
def FatVolume.sizeOfClusterBytes (volume : FatVolume) : ℤ :=
  volume.header.sectorsPerCluster.toNat * peachosSectorSize

/-- `fat16_cluster_to_sector`. -/
def fat16ClusterToSector (volume : FatVolume) (cluster : ℤ) : ℤ :=
  i32 (volume.rootDirectory.endingSectorPos +
    i32 ((cluster - 2) * volume.header.sectorsPerCluster.toNat))

/-- `fat16_get_first_fat_sector`. -/
def fat16GetFirstFatSector (volume : FatVolume) : UInt32 := volume.header.reservedSectors.toUInt32

/-- `fat16_get_fat_entry`: the position of the table is multiplied by that of the entry. -/
def fat16GetFatEntry (volume : FatVolume) (cluster : ℤ) (streams : FatStreams) :
    Option (ℤ × FatStreams) :=
  let fatTablePosition := fat16GetFirstFatSector volume * UInt32.ofInt peachosSectorSize
  let pos := fatTablePosition * UInt32.ofInt (cluster * 2)
  let sought := diskstreamerSeek streams.fatReadStream (i32 pos.toNat)
  if sought.1 < 0 then some (sought.1, { streams with fatReadStream := sought.2 })
  else
    -- `result` is a local variable of two bytes
    (diskstreamerRead volume.device sought.2 0 2 fun _ => 0).map fun r =>
      let result : ℕ := (r.2.2 0).toNat + 256 * (r.2.2 1).toNat
      (if r.1 < 0 then r.1 else result, { streams with fatReadStream := r.2.1 })

/-- The loop of `fat16_get_cluster_for_offset`. -/
def fat16ClusterLoop (volume : FatVolume) : ℕ → ℤ → FatStreams → Option (ℤ × FatStreams)
  | 0, clusterToUse, streams => some (clusterToUse, streams)
  | n + 1, clusterToUse, streams =>
      (fat16GetFatEntry volume clusterToUse streams).bind fun r =>
        let entry := r.1
        if entry = 0xff8 ∨ entry = 0xfff then some (- EIO, r.2)
        else if entry = 0xff7 then some (- EIO, r.2)
        else if entry = 0xff0 ∨ entry = 0xff6 then some (- EIO, r.2)
        else if entry = 0 then some (- EIO, r.2)
        else fat16ClusterLoop volume n entry r.2

/-- `fat16_get_cluster_for_offset`. -/
def fat16GetClusterForOffset (volume : FatVolume) (startingCluster offset : ℤ)
    (streams : FatStreams) : Option (ℤ × FatStreams) :=
  if volume.sizeOfClusterBytes = 0 then none
  else
    let clustersAhead := offset.tdiv volume.sizeOfClusterBytes
    fat16ClusterLoop volume clustersAhead.toNat startingCluster streams

/-! ### Reading data -/

/-- `fat16_read_internal_from_stream`, on the stream for clusters: the result, the memory that
`out` points into and the streams. -/
def fat16ReadInternalFromStream (volume : FatVolume) (cluster offset total : ℤ) (out : UInt32)
    (m : Mem) (streams : FatStreams) : Option ((ℤ × Mem) × FatStreams) :=
  let size := volume.sizeOfClusterBytes
  -- the divisions by the size of a cluster
  if size ≤ 0 then none
  else
    (fat16GetClusterForOffset volume cluster offset streams).bind fun found =>
      let clusterToUse := found.1
      if clusterToUse < 0 then some ((clusterToUse, m), found.2)
      else
        let offsetFromCluster := offset.tmod size
        let startingSector := fat16ClusterToSector volume clusterToUse
        let startingPos := i32 (i32 (startingSector * peachosSectorSize) + offsetFromCluster)
        let totalToRead := if total > size then size else total
        let sought := diskstreamerSeek found.2.clusterReadStream startingPos
        if sought.1 ≠ 0 then some ((sought.1, m), { found.2 with clusterReadStream := sought.2 })
        else
          (diskstreamerRead volume.device sought.2 out totalToRead m).bind fun r =>
            let streams := { found.2 with clusterReadStream := r.2.1 }
            if r.1 ≠ 0 then some ((r.1, r.2.2), streams)
            else if total - totalToRead > 0 then
              fat16ReadInternalFromStream volume cluster (i32 (offset + totalToRead))
                (total - totalToRead) (off out totalToRead.toNat) r.2.2 streams
            else some ((0, r.2.2), streams)
termination_by total.toNat
decreasing_by
  rename_i hsize _ _ _ hmore
  have hread : totalToRead = if total > size then size else total := rfl
  have hmore' : total - totalToRead > 0 := hmore
  have hsize' : ¬ size ≤ 0 := hsize
  change (total - totalToRead).toNat < total.toNat
  clear_value totalToRead size
  split_ifs at hread <;> omega

/-- `fat16_read_internal`. -/
def fat16ReadInternal (volume : FatVolume) (startingCluster offset total : ℤ) (out : UInt32)
    (m : Mem) (streams : FatStreams) : Option ((ℤ × Mem) × FatStreams) :=
  fat16ReadInternalFromStream volume startingCluster offset total out m streams

/-! ### The streams between calls -/

/-- What `f` returns does not depend on where the streams stand when it is called. -/
def Reseeks {α : Type} (f : FatStreams → Option (α × FatStreams)) : Prop :=
  ∀ s t, (f s).map Prod.fst = (f t).map Prod.fst

theorem Reseeks.bind {α β : Type} {f : FatStreams → Option (α × FatStreams)}
    {g : α × FatStreams → Option (β × FatStreams)} (hf : Reseeks f)
    (hg : ∀ a, Reseeks fun s => g (a, s)) : Reseeks fun s => (f s).bind g := by
  intro s t
  have h := hf s t
  dsimp only
  cases hs : f s with
  | none =>
      rw [hs] at h
      rw [Option.map_eq_none_iff.mp h.symm]
  | some r =>
      rw [hs, Option.map_some] at h
      obtain ⟨q, hq, hqr⟩ := Option.map_eq_some_iff.mp h.symm
      rw [hq, Option.bind_some, Option.bind_some, ← Prod.mk.eta (p := q), hqr]
      exact hg r.1 r.2 q.2

theorem Reseeks.const {α : Type} (a : α) : Reseeks fun s => some (a, s) := fun _ _ => rfl

theorem Reseeks.none (α : Type) : Reseeks fun _ => (none : Option (α × FatStreams)) :=
  fun _ _ => rfl

/-- The test of a branch may not depend on the streams. -/
theorem Reseeks.ite {α : Type} {p : Prop} {d : FatStreams → Decidable p}
    {f g : FatStreams → Option (α × FatStreams)} (hf : Reseeks f) (hg : Reseeks g) :
    Reseeks fun s => @ite _ p (d s) (f s) (g s) := by
  intro s t
  dsimp only
  by_cases hp : p
  · rw [if_pos hp, if_pos hp, hf s t]
  · rw [if_neg hp, if_neg hp, hg s t]

theorem fat16GetFatEntry_reseeks (volume : FatVolume) (cluster : ℤ) :
    Reseeks (fat16GetFatEntry volume cluster) := by
  have h : ∀ s t, (fat16GetFatEntry volume cluster s).map Prod.fst =
      (fat16GetFatEntry volume cluster t).map Prod.fst := by
    intro s t
    unfold fat16GetFatEntry diskstreamerSeek
    dsimp only
    rw [if_neg (lt_irrefl 0), if_neg (lt_irrefl 0), Option.map_map, Option.map_map]
    rfl
  exact h

theorem fat16ClusterLoop_reseeks (volume : FatVolume) : ∀ (n : ℕ) (clusterToUse : ℤ),
    Reseeks fun s => fat16ClusterLoop volume n clusterToUse s
  | 0, clusterToUse => Reseeks.const clusterToUse
  | n + 1, clusterToUse => by
      simp only [fat16ClusterLoop]
      refine (fat16GetFatEntry_reseeks volume clusterToUse).bind fun entry => ?_
      dsimp only
      refine Reseeks.ite (Reseeks.const _) (Reseeks.ite (Reseeks.const _)
        (Reseeks.ite (Reseeks.const _) (Reseeks.ite (Reseeks.const _) ?_)))
      exact fat16ClusterLoop_reseeks volume n entry

theorem fat16GetClusterForOffset_reseeks (volume : FatVolume) (startingCluster offset : ℤ) :
    Reseeks fun s => fat16GetClusterForOffset volume startingCluster offset s :=
  Reseeks.ite (Reseeks.none _) (fat16ClusterLoop_reseeks volume _ _)

/-- Every part of a read seeks before it reads. -/
theorem fat16ReadInternalFromStream_reseeks (volume : FatVolume) (cluster : ℤ) (n : ℕ) :
    ∀ (offset total : ℤ) (out : UInt32) (m : Mem), total.toNat = n →
      Reseeks fun s => fat16ReadInternalFromStream volume cluster offset total out m s := by
  induction n using Nat.strong_induction_on with
  | _ n ih =>
      intro offset total out m hn
      unfold fat16ReadInternalFromStream
      dsimp only
      by_cases hsize : volume.sizeOfClusterBytes ≤ 0
      · simp only [if_pos hsize]
        exact Reseeks.none _
      simp only [if_neg hsize]
      refine (fat16GetClusterForOffset_reseeks volume cluster offset).bind fun clusterToUse => ?_
      dsimp only [diskstreamerSeek]
      refine Reseeks.ite (Reseeks.const _) fun s t => ?_
      obtain ⟨totalToRead, hread⟩ : ∃ totalToRead, totalToRead =
        if total > volume.sizeOfClusterBytes then volume.sizeOfClusterBytes else total := ⟨_, rfl⟩
      simp only [← hread, ne_eq, not_true_eq_false, if_false]
      cases diskstreamerRead volume.device ⟨i32 (i32 (fat16ClusterToSector volume clusterToUse *
        peachosSectorSize) + offset.tmod volume.sizeOfClusterBytes)⟩ out totalToRead m with
      | none => rfl
      | some r =>
          dsimp only [Option.bind_some]
          split_ifs with hres hmore
          · refine ih (total - totalToRead).toNat ?_ _ _ _ _ rfl _ _
            split_ifs at hread <;> omega
          · rfl
          · rfl

/-- Every part of a read seeks before it reads. -/
theorem fat16ReadInternal_reseeks (volume : FatVolume) (startingCluster offset total : ℤ)
    (out : UInt32) (m : Mem) :
    Reseeks fun s => fat16ReadInternal volume startingCluster offset total out m s :=
  fat16ReadInternalFromStream_reseeks volume startingCluster _ offset total out m rfl

/-! ### Chains of clusters -/

/-- The position on the disk of the first byte of a cluster. -/
def FatVolume.clusterPos (volume : FatVolume) (cluster : ℤ) : ℤ :=
  (volume.rootDirectory.endingSectorPos + (cluster - 2) * volume.header.sectorsPerCluster.toNat) *
    peachosSectorSize

/-- On the disk the position is computed without an overflow. -/
theorem fat16ClusterToSector_pos {volume : FatVolume} {cluster : ℤ}
    (h0 : 0 ≤ volume.clusterPos cluster) (h1 : volume.clusterPos cluster < 2147483648) :
    i32 (fat16ClusterToSector volume cluster * peachosSectorSize) = volume.clusterPos cluster := by
  unfold FatVolume.clusterPos at h0 h1 ⊢
  unfold fat16ClusterToSector
  have hsize : peachosSectorSize = 512 := rfl
  have hadd : ∀ x y, i32 (x + i32 y) = i32 (x + y) := fun x y => by
    rw [add_comm, i32_add_i32, add_comm]
  rw [hsize] at h0 h1 ⊢
  rw [hadd]
  generalize volume.rootDirectory.endingSectorPos +
    (cluster - 2) * volume.header.sectorsPerCluster.toNat = sector at h0 h1 ⊢
  rw [i32_of_range (x := sector) (by omega) (by omega), i32_of_range (by omega) h1]

/-- The clusters `c 0`, `c 1`, … hold the `total` bytes from `offset` on: the file allocation
table leads to them and they lie on the disk. -/
structure ReadsChain (volume : FatVolume) (cluster offset total : ℤ) (streams : FatStreams)
    (c : ℕ → ℤ) : Prop where
  found : ∀ k : ℕ, k * volume.sizeOfClusterBytes < total →
    (fat16GetClusterForOffset volume cluster (offset + k * volume.sizeOfClusterBytes) streams).map
      Prod.fst = some (c k)
  nonneg : ∀ k : ℕ, k * volume.sizeOfClusterBytes < total → 0 ≤ c k
  start : ∀ k : ℕ, k * volume.sizeOfClusterBytes < total → 0 ≤ volume.clusterPos (c k)
  finish : ∀ k : ℕ, k * volume.sizeOfClusterBytes < total → volume.clusterPos (c k) +
    min volume.sizeOfClusterBytes (total - k * volume.sizeOfClusterBytes) ≤ 2147483648 - 1024

theorem ReadsChain.seek {volume : FatVolume} {cluster offset total : ℤ} {streams : FatStreams}
    {c : ℕ → ℤ} (h : ReadsChain volume cluster offset total streams c) (streams' : FatStreams) :
    ReadsChain volume cluster offset total streams' c where
  found k hk := by
    rw [← h.found k hk]
    exact fat16GetClusterForOffset_reseeks volume cluster _ streams' streams
  nonneg := h.nonneg
  start := h.start
  finish := h.finish

/-- Behind the first cluster. -/
theorem ReadsChain.next {volume : FatVolume} {cluster offset total : ℤ} {streams : FatStreams}
    {c : ℕ → ℤ} (h : ReadsChain volume cluster offset total streams c) :
    ReadsChain volume cluster (offset + volume.sizeOfClusterBytes)
      (total - volume.sizeOfClusterBytes) streams fun k => c (k + 1) := by
  have hk : ∀ k : ℕ, ((k + 1 : ℕ) : ℤ) * volume.sizeOfClusterBytes =
      k * volume.sizeOfClusterBytes + volume.sizeOfClusterBytes := fun k => by push_cast; ring
  have hlt : ∀ k : ℕ, k * volume.sizeOfClusterBytes < total - volume.sizeOfClusterBytes →
      ((k + 1 : ℕ) : ℤ) * volume.sizeOfClusterBytes < total := fun k h => by rw [hk]; omega
  refine ⟨fun k hlt' => ?_, fun k hlt' => h.nonneg _ (hlt k hlt'),
    fun k hlt' => h.start _ (hlt k hlt'), fun k hlt' => ?_⟩
  · rw [← h.found _ (hlt k hlt'), hk, add_right_comm, add_assoc]
  · have := h.finish _ (hlt k hlt')
    rw [hk] at this
    rwa [show total - volume.sizeOfClusterBytes - k * volume.sizeOfClusterBytes =
      total - (k * volume.sizeOfClusterBytes + volume.sizeOfClusterBytes) by ring]

theorem ReadsChain.cluster {volume : FatVolume} {cluster offset total : ℤ} {streams : FatStreams}
    {c : ℕ → ℤ} (h : ReadsChain volume cluster offset total streams c) (htotal : 0 < total) :
    ∃ streams', fat16GetClusterForOffset volume cluster offset streams = some (c 0, streams') := by
  have h0 := h.found 0 (by rwa [Nat.cast_zero, zero_mul])
  rw [Nat.cast_zero, zero_mul, add_zero] at h0
  obtain ⟨r, hr, hr0⟩ := Option.map_eq_some_iff.mp h0
  exact ⟨r.2, by rw [hr, ← hr0]⟩

/-- The bytes of a chain of clusters of `size` bytes. -/
def chainByte (volume : FatVolume) (c : ℕ → ℤ) (i : ℕ) : UInt8 :=
  let size := volume.sizeOfClusterBytes.toNat
  diskByte volume.device ((volume.clusterPos (c (i / size))).toNat + i % size)

/-- One round of a read: the first cluster, or as much of it as is asked for. -/
theorem fat16ReadInternalFromStream_step {volume : FatVolume}
    (hsize : 0 < volume.sizeOfClusterBytes) (hdev : volume.device.Delivers)
    {cluster offset total : ℤ} (hoffset : volume.sizeOfClusterBytes ∣ offset) (htotal : 0 < total)
    {c : ℕ → ℤ} {streams : FatStreams} (hc : ReadsChain volume cluster offset total streams c)
    (out : UInt32) (m : Mem) {n : ℕ} (hn : (n : ℤ) = min volume.sizeOfClusterBytes total) :
    ∃ streams', fat16ReadInternalFromStream volume cluster offset total out m streams =
      if total - n > 0 then
        fat16ReadInternalFromStream volume cluster (i32 (offset + n)) (total - n) (off out n)
          (writeBytes m out (chainByte volume c) n) streams'
      else some ((0, writeBytes m out (chainByte volume c) n), streams') := by
  have h0 : ((0 : ℕ) : ℤ) * volume.sizeOfClusterBytes < total := by rwa [Nat.cast_zero, zero_mul]
  have hstart := hc.start 0 h0
  have hfinish := hc.finish 0 h0
  rw [Nat.cast_zero, zero_mul, sub_zero, ← hn] at hfinish
  obtain ⟨streams', hfound⟩ := hc.cluster htotal
  obtain ⟨pos, hpos⟩ := Int.eq_ofNat_of_zero_le hstart
  have hread : (if total > volume.sizeOfClusterBytes then volume.sizeOfClusterBytes else total) =
      (n : ℤ) := by
    split_ifs <;> omega
  have hbytes : ∀ i < n, diskByte volume.device (pos + i) = chainByte volume c i := by
    intro i hi
    have hlt : i < volume.sizeOfClusterBytes.toNat := by omega
    unfold chainByte
    dsimp only
    rw [Nat.div_eq_of_lt hlt, Nat.mod_eq_of_lt hlt, hpos]
    rfl
  have hdisk : diskstreamerRead volume.device ⟨pos⟩ out n m =
      some (0, ⟨((pos + n : ℕ) : ℤ)⟩, writeBytes m out (chainByte volume c) n) := by
    rw [diskstreamerRead_eq hdev n pos out m (by omega), writeBytes_congr m out hbytes]
  refine ⟨{ streams' with clusterReadStream := ⟨((pos + n : ℕ) : ℤ)⟩ }, ?_⟩
  rw [fat16ReadInternalFromStream]
  dsimp only
  rw [if_neg (Int.not_le.mpr hsize), hfound, Option.bind_some]
  dsimp only [diskstreamerSeek]
  rw [if_neg (Int.not_lt.mpr (hc.nonneg 0 h0)), fat16ClusterToSector_pos hstart (by omega),
    (Int.dvd_iff_tmod_eq_zero.mp hoffset : offset.tmod volume.sizeOfClusterBytes = 0), add_zero,
    hpos, hread, i32_of_range (x := (pos : ℤ)) (by omega) (by omega), hdisk]
  simp only [ne_eq, not_true_eq_false, if_false, Option.bind_some, Int.toNat_natCast]

/-- The rounds of a read, by induction on how much is left. -/
theorem fat16ReadInternalFromStream_chain {volume : FatVolume}
    (hsize : 0 < volume.sizeOfClusterBytes) (hdev : volume.device.Delivers) (cluster : ℤ) (n : ℕ) :
    ∀ {offset total : ℤ} {c : ℕ → ℤ} {streams : FatStreams} (out : UInt32) (m : Mem),
      total.toNat = n → volume.sizeOfClusterBytes ∣ offset → 0 < total →
      -2147483648 ≤ offset → offset + total < 2147483648 →
      ReadsChain volume cluster offset total streams c →
      ∃ streams', fat16ReadInternalFromStream volume cluster offset total out m streams =
        some ((0, writeBytes m out (chainByte volume c) n), streams') := by
  induction n using Nat.strong_induction_on with
  | _ n ih =>
      intro offset total c streams out m hn hoffset htotal hlow hhigh hc
      obtain ⟨k, hk⟩ := Int.eq_ofNat_of_zero_le
        (show 0 ≤ min volume.sizeOfClusterBytes total by omega)
      obtain ⟨streams', hstep⟩ :=
        fat16ReadInternalFromStream_step hsize hdev hoffset htotal hc out m hk.symm
      rw [hstep]
      rcases lt_or_ge volume.sizeOfClusterBytes total with hmore | hlast
      · -- a whole cluster, and the rest from the next one on
        have hkc : (k : ℤ) = volume.sizeOfClusterBytes := by omega
        have hrest := (hc.seek streams').next
        rw [← hkc] at hrest
        obtain ⟨streams'', hih⟩ := ih (n - k) (by omega) (off out k)
          (writeBytes m out (chainByte volume c) k) (by omega)
          (Int.dvd_add hoffset (hkc ▸ dvd_rfl)) (by omega) (by omega) (by omega) hrest
        have hnext : ∀ i, chainByte volume (fun k => c (k + 1)) i = chainByte volume c (k + i) := by
          intro i
          have hkn : k = volume.sizeOfClusterBytes.toNat := by omega
          unfold chainByte
          dsimp only
          rw [← hkn, Nat.add_div_left _ (by omega), Nat.add_mod_left]
        refine ⟨streams'', ?_⟩
        rw [if_pos (by omega), i32_of_range (by omega) (by omega), hih,
          writeBytes_congr _ _ fun i _ => hnext i, writeBytes_append,
          Nat.add_sub_cancel' (by omega)]
      · have hkn : k = n := by omega
        exact ⟨streams', by rw [if_neg (by omega), hkn]⟩

/-- **A read follows the chain.**  The buffer receives the bytes of the clusters in their order
in the chain, `total` of them, and nothing else is written. -/
theorem fat16ReadInternal_chain {volume : FatVolume} (hsize : 0 < volume.sizeOfClusterBytes)
    (hdev : volume.device.Delivers) {startingCluster offset total : ℤ}
    (hoffset : volume.sizeOfClusterBytes ∣ offset) (htotal : 0 < total)
    (hlow : -2147483648 ≤ offset) (hhigh : offset + total ≤ 2147483648 - 1024) {c : ℕ → ℤ}
    {streams : FatStreams} (hc : ReadsChain volume startingCluster offset total streams c)
    (out : UInt32) (m : Mem) :
    ∃ streams', fat16ReadInternal volume startingCluster offset total out m streams =
      some ((0, writeBytes m out (chainByte volume c) total.toNat), streams') :=
  fat16ReadInternalFromStream_chain hsize hdev startingCluster _ out m rfl hoffset htotal hlow
    (by omega) hc

/-- A volume of clusters of one sector on a disk of threes. -/
def threesVolume : FatVolume where
  device := fun _ => (0, fun _ => 3)
  header := ⟨1, 1, 2, 64, 256⟩
  rootDirectory := ⟨0, 0, fun _ => 0, 0, 513, 517⟩

/-- Its table leads from every cluster to cluster `0x303`. -/
theorem threesVolume_fatEntry (streams : FatStreams) :
    ∃ streams', fat16GetFatEntry threesVolume 2 streams = some (771, streams') := by
  have hdev : threesVolume.device.Delivers := fun _ => rfl
  have hread := diskstreamerRead_eq hdev 2 2048 0 (fun _ => 0) (by omega)
  have hpos : i32 (fat16GetFirstFatSector threesVolume * UInt32.ofInt peachosSectorSize *
      UInt32.ofInt (2 * 2)).toNat = (2048 : ℕ) := by decide
  refine ⟨{ streams with fatReadStream := ⟨((2048 + 2 : ℕ) : ℤ)⟩ }, ?_⟩
  unfold fat16GetFatEntry diskstreamerSeek
  dsimp only
  rw [hpos, if_neg (lt_irrefl 0)]
  change (diskstreamerRead threesVolume.device ⟨(2048 : ℕ)⟩ 0 ((2 : ℕ) : ℤ) fun _ => 0).map _ = _
  rw [hread]
  rfl

/-- A read of 600 bytes through two clusters that are far apart. -/
theorem fat16ReadInternal_chain_threes :
    (0 : ℤ) < threesVolume.sizeOfClusterBytes ∧ ∃ streams',
      fat16ReadInternal threesVolume 2 0 600 0 (fun _ => 0) ⟨⟨0⟩, ⟨0⟩, ⟨0⟩⟩ =
        some ((0, writeBytes (fun _ => 0) 0
          (chainByte threesVolume fun k => if k = 0 then 2 else 771) 600), streams') := by
  have hsize : threesVolume.sizeOfClusterBytes = 512 := rfl
  have hk : ∀ k : ℕ, (k : ℤ) * threesVolume.sizeOfClusterBytes < 600 → k = 0 ∨ k = 1 := by
    intro k h
    rw [hsize] at h
    omega
  refine ⟨by decide, fat16ReadInternal_chain (by decide) (fun _ => rfl) (dvd_zero _) (by decide)
    (by decide) (by decide) ⟨fun k h => ?_, fun k h => ?_, fun k h => ?_, fun k h => ?_⟩ _ _⟩
  · unfold fat16GetClusterForOffset
    rw [hsize, if_neg (by decide)]
    dsimp only
    rcases hk k h with rfl | rfl
    · rw [(by decide : ((0 : ℤ) + (0 : ℕ) * 512).tdiv 512 = (0 : ℕ)), Int.toNat_natCast]
      rfl
    · obtain ⟨streams', hentry⟩ := threesVolume_fatEntry ⟨⟨0⟩, ⟨0⟩, ⟨0⟩⟩
      rw [(by decide : ((0 : ℤ) + (1 : ℕ) * 512).tdiv 512 = (1 : ℕ)), Int.toNat_natCast]
      unfold fat16ClusterLoop
      rw [hentry]
      rfl
  · rcases hk k h with rfl | rfl <;> decide
  · rcases hk k h with rfl | rfl <;> decide
  · rcases hk k h with rfl | rfl <;> decide

end PeachOS
