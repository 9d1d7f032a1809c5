import PeachOS.Fat16Cluster

/-! # FAT16: the file allocation table

Which entry `fat16_get_fat_entry` reads (`fat16GetFatEntry_iff`), and which entries stop the walk
of `fat16_get_cluster_for_offset` (`fat16GetClusterForOffset_iff`). -/

namespace PeachOS

open ByteMemory

/-! ### The entry of a cluster -/

/-- The little-endian word of two bytes. -/
def word (b0 b1 : UInt8) : ℤ := ((b0.toNat + 256 * b1.toNat : ℕ) : ℤ)

theorem word_inj {b0 b1 c0 c1 : UInt8} : word b0 b1 = word c0 c1 ↔ b0 = c0 ∧ b1 = c1 := by
  have h0 := b0.toNat_lt
  have h0' := c0.toNat_lt
  constructor
  · intro h
    have hword : b0.toNat + 256 * b1.toNat = c0.toNat + 256 * c1.toNat := Int.ofNat.inj h
    exact ⟨UInt8.toNat.inj (by omega), UInt8.toNat.inj (by omega)⟩
  · rintro ⟨rfl, rfl⟩
    rfl

/-- The position of the table times that of the entry, as an `int`. -/
def FatVolume.fatEntryPos (volume : FatVolume) (cluster : ℤ) : ℤ :=
  i32 (volume.header.reservedSectors.toNat * 512 * (2 * cluster))

/-- The first two bytes of the sector of that position. -/
def FatVolume.fatEntryRead (volume : FatVolume) (cluster : ℤ) (i : ℕ) : UInt8 :=
  (volume.device (UInt32.ofInt ((volume.fatEntryPos cluster).tdiv 512))).2 i

/-- The code looks for the entry at the product, not at the sum. -/
theorem fatEntryPos_eq (volume : FatVolume) (cluster : ℤ) :
    i32 (fat16GetFirstFatSector volume * UInt32.ofInt peachosSectorSize *
      UInt32.ofInt (cluster * 2)).toNat = volume.fatEntryPos cluster := by
  have hsize : (UInt32.ofInt peachosSectorSize).toNat = 512 := by decide
  have hsector : (fat16GetFirstFatSector volume).toNat = volume.header.reservedSectors.toNat :=
    UInt16.toNat_toUInt32 _
  unfold FatVolume.fatEntryPos
  apply i32_congr
  rw [UInt32.toNat_mul, UInt32.toNat_mul, hsize, hsector]
  push_cast
  rw [toNat_ofInt, mul_comm cluster 2]
  simp only [Int.mul_emod, Int.emod_emod_of_dvd, dvd_refl]

/-- It is the start of a sector. -/
theorem fatEntryPos_tmod (volume : FatVolume) (cluster : ℤ) :
    (volume.fatEntryPos cluster).tmod 512 = 0 := by
  have hmod := i32_emod (volume.header.reservedSectors.toNat * 512 * (2 * cluster))
  have hdvd : (512 : ℤ) ∣ volume.header.reservedSectors.toNat * 512 * (2 * cluster) :=
    Dvd.dvd.mul_right (dvd_mul_left _ _) _
  apply Int.tmod_eq_zero_of_dvd
  unfold FatVolume.fatEntryPos
  omega

/-- The entry that is read, wherever the stream stood. -/
theorem fat16GetFatEntry_eq {volume : FatVolume} (hdev : volume.device.Delivers) (cluster : ℤ)
    (streams : FatStreams) :
    (fat16GetFatEntry volume cluster streams).map Prod.fst =
      some (word (volume.fatEntryRead cluster 0) (volume.fatEntryRead cluster 1)) := by
  have hread : ∃ next m, diskstreamerRead volume.device ⟨volume.fatEntryPos cluster⟩ 0 2
      (fun _ => 0) = some (0, next, m) ∧
      m 0 = volume.fatEntryRead cluster 0 ∧ m 1 = volume.fatEntryRead cluster 1 := by
    have hsize : peachosSectorSize = 512 := rfl
    have hno : ¬ ((0 : ℤ) + 2 ≥ 512) := by decide
    rw [diskstreamerRead]
    dsimp only
    rw [hsize, fatEntryPos_tmod, hdev]
    simp only [if_neg hno]
    rw [if_neg (lt_irrefl 0), if_neg (by decide)]
    refine ⟨_, _, rfl, ?_, ?_⟩
    · rw [writeBytes_apply _ _ _ _ _ (by decide), if_pos (by decide)]
      rfl
    · rw [writeBytes_apply _ _ _ _ _ (by decide), if_pos (by decide)]
      rfl
  obtain ⟨next, m, hread, h0, h1⟩ := hread
  unfold fat16GetFatEntry diskstreamerSeek
  dsimp only
  rw [fatEntryPos_eq, if_neg (lt_irrefl 0), hread, Option.map_some, Option.map_some]
  dsimp only
  rw [if_neg (lt_irrefl 0), h0, h1]
  rfl

/-- The position on the disk of the entry of a cluster in the first table. -/
def FatVolume.entryPos (volume : FatVolume) (cluster : ℕ) : ℕ :=
  volume.header.reservedSectors.toNat * 512 + 2 * cluster

/-- The code returns the entry of a cluster. -/
def EntryRight (volume : FatVolume) (cluster : ℕ) (streams : FatStreams) : Prop :=
  (fat16GetFatEntry volume cluster streams).map Prod.fst =
    some (word (diskByte volume.device (volume.entryPos cluster))
      (diskByte volume.device (volume.entryPos cluster + 1)))

/-- **Reading an entry** is right if and only if the sector of the product of the two positions
starts with the bytes that are at their sum. -/
theorem fat16GetFatEntry_iff {volume : FatVolume} (hdev : volume.device.Delivers) (cluster : ℕ)
    (streams : FatStreams) :
    EntryRight volume cluster streams ↔ ∀ i < 2, volume.fatEntryRead cluster i =
      diskByte volume.device (volume.entryPos cluster + i) := by
  unfold EntryRight
  rw [fat16GetFatEntry_eq hdev cluster streams, Option.some.injEq, word_inj]
  generalize volume.entryPos cluster = pos
  constructor
  · rintro ⟨h0, h1⟩ i hi
    cases i with
    | zero => exact h0
    | succ i =>
        obtain rfl : i = 0 := by omega
        exact h1
  · intro h
    exact ⟨h 0 (by decide), h 1 (by decide)⟩

/-- A volume with one reserved sector on a disk whose bytes are the numbers of their sectors. -/
def numberedVolume : FatVolume where
  device := fun lba => (0, fun _ => lba.toUInt8)
  header := ⟨1, 1, 2, 64, 256⟩
  rootDirectory := ⟨0, 0, fun _ => 0, 0, 513, 517⟩

/-- The entry of cluster 2 is in sector 1, and the code reads sector 4. -/
theorem fat16GetFatEntry_numbered :
    numberedVolume.device.Delivers ∧ ¬ EntryRight numberedVolume 2 ⟨⟨0⟩, ⟨0⟩, ⟨0⟩⟩ := by
  have hdev : numberedVolume.device.Delivers := fun _ => rfl
  refine ⟨hdev, fun h => ?_⟩
  have heq := word_inj.mp (Option.some.inj ((fat16GetFatEntry_eq hdev 2 _).symm.trans h))
  exact absurd heq.1 (by decide)

theorem fat16GetFatEntry_iff_threes : EntryRight threesVolume 2 ⟨⟨0⟩, ⟨0⟩, ⟨0⟩⟩ :=
  (fat16GetFatEntry_iff (fun _ => rfl) 2 _).mpr fun _ _ => rfl

/-! ### The walk along a chain -/

/-- The number of a data cluster. -/
def IsDataCluster (entry : ℤ) : Prop := 0x0002 ≤ entry ∧ entry ≤ 0xffef

/-- A free, reserved or bad cluster, the end of a chain, or a read error. -/
def IsChainEnd (entry : ℤ) : Prop :=
  entry = 0 ∨ (0xfff0 ≤ entry ∧ entry ≤ 0xfff6) ∨ entry = 0xfff7 ∨
    (0xfff8 ≤ entry ∧ entry ≤ 0xffff) ∨ entry < 0

/-- The entries at which the code stops. -/
def StopsWalk (entry : ℤ) : Prop :=
  entry = 0xff8 ∨ entry = 0xfff ∨ entry = 0xff7 ∨ entry = 0xff0 ∨ entry = 0xff6 ∨ entry = 0

instance (entry : ℤ) : Decidable (StopsWalk entry) := inferInstanceAs (Decidable (_ ∨ _))

/-- The loop of `fat16_get_cluster_for_offset` over any way `getFatEntry` of reading an entry. -/
def clusterLoopWith {σ : Type} (getFatEntry : ℤ → σ → Option (ℤ × σ)) :
    ℕ → ℤ → σ → Option (ℤ × σ)
  | 0, clusterToUse, s => some (clusterToUse, s)
  | n + 1, clusterToUse, s =>
      (getFatEntry clusterToUse s).bind fun r =>
        let entry := r.1
        if entry = 0xff8 ∨ entry = 0xfff then some (- EIO, r.2)
        else if entry = 0xff7 then some (- EIO, r.2)
        else if entry = 0xff0 ∨ entry = 0xff6 then some (- EIO, r.2)
        else if entry = 0 then some (- EIO, r.2)
        else clusterLoopWith getFatEntry n entry r.2

/-- `fat16_get_cluster_for_offset` over any way of reading an entry, for clusters of `size`
bytes. -/
def clusterForOffsetWith {σ : Type} (getFatEntry : ℤ → σ → Option (ℤ × σ)) (size : ℤ)
    (startingCluster offset : ℤ) (s : σ) : Option (ℤ × σ) :=
  if size = 0 then none
  else clusterLoopWith getFatEntry (offset.tdiv size).toNat startingCluster s

theorem fat16ClusterLoop_eq (volume : FatVolume) : ∀ (n : ℕ) (clusterToUse : ℤ)
    (streams : FatStreams), fat16ClusterLoop volume n clusterToUse streams =
      clusterLoopWith (fat16GetFatEntry volume) n clusterToUse streams
  | 0, _, _ => rfl
  | n + 1, clusterToUse, streams => by
      unfold fat16ClusterLoop clusterLoopWith
      simp only [fat16ClusterLoop_eq volume n]

/-- The code reads its entries with `fat16_get_fat_entry`. -/
theorem fat16GetClusterForOffset_eq (volume : FatVolume) (startingCluster offset : ℤ)
    (streams : FatStreams) : fat16GetClusterForOffset volume startingCluster offset streams =
      clusterForOffsetWith (fat16GetFatEntry volume) volume.sizeOfClusterBytes startingCluster
        offset streams := by
  unfold fat16GetClusterForOffset clusterForOffsetWith
  rw [fat16ClusterLoop_eq]

/-- The entries that are read are those of the table `fat`. -/
def ReadsFat {σ : Type} (getFatEntry : ℤ → σ → Option (ℤ × σ)) (fat : ℤ → ℤ) : Prop :=
  ∀ cluster s, (getFatEntry cluster s).map Prod.fst = some (fat cluster)

/-- The tests of the loop, in one. -/
theorem ite_stopsWalk {α : Type} (entry : ℤ) (a b : α) :
    (if entry = 0xff8 ∨ entry = 0xfff then a
      else if entry = 0xff7 then a
      else if entry = 0xff0 ∨ entry = 0xff6 then a
      else if entry = 0 then a else b) = if StopsWalk entry then a else b := by
  by_cases hstop : StopsWalk entry
  · rw [if_pos hstop]
    rcases hstop with rfl | rfl | rfl | rfl | rfl | rfl <;> rfl
  · rw [if_neg hstop]
    unfold StopsWalk at hstop
    push Not at hstop
    obtain ⟨h0, h1, h2, h3, h4, h5⟩ := hstop
    rw [if_neg (not_or.mpr ⟨h0, h1⟩), if_neg h2, if_neg (not_or.mpr ⟨h3, h4⟩), if_neg h5]

/-- The walk stops at the first entry that is one of six numbers. -/
theorem clusterLoopWith_eq {σ : Type} {getFatEntry : ℤ → σ → Option (ℤ × σ)} {fat : ℤ → ℤ}
    (hfat : ReadsFat getFatEntry fat) : ∀ (k : ℕ) (start : ℤ) (s : σ),
      (clusterLoopWith getFatEntry k start s).map Prod.fst =
        some (if ∃ i < k, StopsWalk (fat^[i + 1] start) then - EIO else fat^[k] start)
  | 0, start, s => by simp [clusterLoopWith]
  | k + 1, start, s => by
      obtain ⟨⟨entry, s'⟩, hentry, heq⟩ := Option.map_eq_some_iff.mp (hfat start s)
      obtain rfl : entry = fat start := heq
      have hsplit : (∃ i < k + 1, StopsWalk (fat^[i + 1] start)) ↔
          StopsWalk (fat start) ∨ ∃ i < k, StopsWalk (fat^[i + 1] (fat start)) := by
        simp only [Function.iterate_succ_apply]
        constructor
        · rintro ⟨i, hi, hstop⟩
          cases i with
          | zero => exact Or.inl hstop
          | succ i => exact Or.inr ⟨i, Nat.lt_of_succ_lt_succ hi, hstop⟩
        · rintro (hstop | ⟨i, hi, hstop⟩)
          · exact ⟨0, Nat.succ_pos k, hstop⟩
          · exact ⟨i + 1, Nat.succ_lt_succ hi, hstop⟩
      have ih := clusterLoopWith_eq hfat k (fat start) s'
      unfold clusterLoopWith
      rw [hentry, Option.bind_some]
      dsimp only
      rw [ite_stopsWalk, Function.iterate_succ_apply]
      simp only [hsplit]
      by_cases hstop : StopsWalk (fat start)
      · rw [if_pos hstop, if_pos (Or.inl hstop)]
        rfl
      · rw [if_neg hstop, ih]
        simp only [hstop, false_or]

/-- What the walk to the cluster of an offset is for, where `k` clusters lie before it: to find
the `k`-th successor of the first cluster, or to fail. -/
def WalkRight (fat : ℤ → ℤ) (start : ℤ) (k : ℕ) (res : ℤ) : Prop :=
  ((∀ i < k, IsDataCluster (fat^[i + 1] start)) → res = fat^[k] start) ∧
  ((∃ i < k, IsChainEnd (fat^[i + 1] start)) → res < 0)

/-- **The walk along a chain** is right if and only if no data cluster on the way has one of the
numbers at which the code stops, and a chain that ends on the way has one of them, or a read
error at its last entry. -/
theorem fat16GetClusterForOffset_iff {σ : Type} {getFatEntry : ℤ → σ → Option (ℤ × σ)}
    {fat : ℤ → ℤ} (hfat : ReadsFat getFatEntry fat) {size : ℤ} (hsize : 0 < size)
    (start : ℤ) {offset : ℤ} (hoffset : 0 ≤ offset) (s : σ) :
    (∃ res s', clusterForOffsetWith getFatEntry size start offset s = some (res, s') ∧
        WalkRight fat start (offset / size).toNat res) ↔
      ((∀ i < (offset / size).toNat, IsDataCluster (fat^[i + 1] start)) →
        ∀ i < (offset / size).toNat, ¬ StopsWalk (fat^[i + 1] start)) ∧
      ((∃ i < (offset / size).toNat, IsChainEnd (fat^[i + 1] start)) →
        (∃ i < (offset / size).toNat, StopsWalk (fat^[i + 1] start)) ∨
          fat^[(offset / size).toNat] start < 0) := by
  have hwalk := clusterLoopWith_eq hfat (offset / size).toNat start s
  unfold clusterForOffsetWith
  rw [if_neg hsize.ne', Int.tdiv_eq_ediv_of_nonneg hoffset]
  generalize (offset / size).toNat = k at hwalk ⊢
  obtain ⟨⟨res, s'⟩, hres, heq⟩ := Option.map_eq_some_iff.mp hwalk
  have hright : (∃ r t, clusterLoopWith getFatEntry k start s = some (r, t) ∧
      WalkRight fat start k r) ↔ WalkRight fat start k res := by
    rw [hres]
    constructor
    · rintro ⟨r, t, hrt, hr⟩
      cases hrt
      exact hr
    · intro hr
      exact ⟨res, s', rfl, hr⟩
  rw [hright]
  unfold WalkRight
  dsimp only at heq
  by_cases hstop : ∃ i < k, StopsWalk (fat^[i + 1] start)
  · rw [if_pos hstop] at heq
    have hneg : res < 0 := by
      rw [heq]
      decide
    -- a data cluster is not an error
    have hdata : (∀ i < k, IsDataCluster (fat^[i + 1] start)) → res ≠ fat^[k] start := by
      intro h hk
      obtain ⟨i, hi, -⟩ := hstop
      have hlast := (h (k - 1) (by omega)).1
      rw [Nat.sub_add_cancel (by omega)] at hlast
      omega
    constructor
    · rintro ⟨h1, -⟩
      exact ⟨fun h => absurd (h1 h) (hdata h), fun _ => Or.inl hstop⟩
    · rintro ⟨h1, -⟩
      refine ⟨fun h => ?_, fun _ => hneg⟩
      obtain ⟨i, hi, hs⟩ := hstop
      exact absurd hs (h1 h i hi)
  · rw [if_neg hstop] at heq
    rw [heq]
    constructor
    · rintro ⟨-, h2⟩
      exact ⟨fun _ i hi hs => hstop ⟨i, hi, hs⟩, fun h => Or.inr (h2 h)⟩
    · rintro ⟨-, h2⟩
      exact ⟨fun _ => rfl, fun h => (h2 h).resolve_left hstop⟩

/-- A volume whose table holds `0xFFF8`, the end of a chain, for every cluster. -/
def endsVolume : FatVolume where
  device := fun _ => (0, fun i => if i % 2 = 0 then 0xf8 else 0xff)
  header := ⟨1, 1, 2, 64, 256⟩
  rootDirectory := ⟨0, 0, fun _ => 0, 0, 513, 517⟩

theorem endsVolume_readsFat : ReadsFat (fat16GetFatEntry endsVolume) fun _ => 0xfff8 := by
  intro cluster streams
  have hword : word 0xf8 0xff = 0xfff8 := by decide
  rw [fat16GetFatEntry_eq (fun _ => rfl), ← hword]
  rfl

/-- The walk follows the end of a chain as if it were a cluster. -/
theorem fat16GetClusterForOffset_ends :
    ReadsFat (fat16GetFatEntry endsVolume) (fun _ => 0xfff8) ∧ ∃ streams,
      fat16GetClusterForOffset endsVolume 2 512 ⟨⟨0⟩, ⟨0⟩, ⟨0⟩⟩ = some (0xfff8, streams) ∧
      ¬ WalkRight (fun _ => 0xfff8) 2 (512 / endsVolume.sizeOfClusterBytes).toNat 0xfff8 := by
  have hwalk := clusterLoopWith_eq endsVolume_readsFat 1 2 ⟨⟨0⟩, ⟨0⟩, ⟨0⟩⟩
  have hno : ¬ ∃ i < 1, StopsWalk ((fun _ : ℤ => (0xfff8 : ℤ))^[i + 1] 2) := by
    rintro ⟨i, hi, hs⟩
    obtain rfl : i = 0 := by omega
    exact absurd hs (by decide)
  rw [if_neg hno] at hwalk
  obtain ⟨⟨res, streams⟩, hres, heq⟩ := Option.map_eq_some_iff.mp hwalk
  obtain rfl : res = 0xfff8 := heq
  refine ⟨endsVolume_readsFat, streams, ?_, fun h => ?_⟩
  · have hone : ((512 : ℤ).tdiv endsVolume.sizeOfClusterBytes).toNat = 1 := by decide
    rw [fat16GetClusterForOffset_eq]
    unfold clusterForOffsetWith
    rw [if_neg (by decide), hone, hres]
  · exact absurd (h.2 ⟨0, by decide, Or.inr (Or.inr (Or.inr (Or.inl (by decide))))⟩) (by decide)

theorem fat16GetClusterForOffset_iff_threes : ∃ res streams,
    clusterForOffsetWith (fat16GetFatEntry threesVolume) 512 2 512 ⟨⟨0⟩, ⟨0⟩, ⟨0⟩⟩ =
      some (res, streams) ∧ WalkRight (fun _ => 0x303) 2 1 res := by
  have hfat : ReadsFat (fat16GetFatEntry threesVolume) fun _ => 0x303 := by
    intro cluster streams
    rw [fat16GetFatEntry_eq (fun _ => rfl)]
    rfl
  refine (fat16GetClusterForOffset_iff hfat (by decide) 2 (by decide) _).mpr
    ⟨fun _ i _ => ?_, fun h => ?_⟩
  · rw [Function.iterate_succ_apply', StopsWalk]
    decide
  · obtain ⟨i, -, h⟩ := h
    rw [Function.iterate_succ_apply', IsChainEnd] at h
    exact absurd h (by decide)

end PeachOS
