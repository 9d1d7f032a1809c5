import PeachOS.Fat16Directory

/-! # FAT16: mounting

`fat16_resolve`, which reads the boot sector and the root directory, and two properties of every
volume it accepts: whether the scan of the root directory stays inside the directory
(`fat16Resolve_scanInside_iff`), and whether the clusters and the root directory have sectors of
their own (`fat16Resolve_laidOut_iff`). -/

namespace PeachOS

open ByteMemory

/-! ### The code -/

/-- `EFSNOTUS`. -/
def EFSNOTUS : ℤ := 5

/-- `diskstreamer_new` for the one disk: the stream and its address. -/
def diskstreamerNew (k : Kernel) : (UInt32 × DiskStream) × Kernel :=
  let streamer := kzalloc 8 k
  ((streamer.1, ⟨0⟩), streamer.2)

/-- `diskstreamer_close` of the stream at an address. -/
def diskstreamerClose (ptr : UInt32) (k : Kernel) : Kernel := kfree ptr k

/-- The header in the first bytes of the disk. -/
def fatHeaderOf (bytes : ℕ → UInt8) : FatHeader where
  sectorsPerCluster := bytes 13
  reservedSectors := UInt16.ofNat ((bytes 14).toNat + 256 * (bytes 15).toNat)
  fatCopies := bytes 16
  rootDirEntries := UInt16.ofNat ((bytes 17).toNat + 256 * (bytes 18).toNat)
  sectorsPerFat := UInt16.ofNat ((bytes 22).toNat + 256 * (bytes 23).toNat)

/-- The field `signature` of the extended header. -/
def fatSignatureOf (bytes : ℕ → UInt8) : UInt8 := bytes 38

/-- The size of `struct fat_h`. -/
def sizeofFatHeader : ℤ := 62

/-- The private data that `fat16_init_private` leaves. -/
def emptyVolume (device : Device) : FatVolume :=
  ⟨device, ⟨0, 0, 0, 0, 0⟩, ⟨0, 0, fun _ => 0, 0, 0, 0⟩⟩

/-- The label `out` of `fat16_resolve`. -/
def fat16ResolveOut (fatPrivate stream : UInt32) (r : (ℤ × FatVolume) × FatState) :
    (ℤ × FatVolume) × FatState :=
  let k := if stream ≠ 0 then diskstreamerClose stream r.2.kernel else r.2.kernel
  (r.1, { r.2 with kernel := if r.1.1 < 0 then kfree fatPrivate k else k })

/-- `fat16_resolve`: the result, the private data of the volume and the state. -/
def fat16Resolve (device : Device) (k : Kernel) : Option ((ℤ × FatVolume) × FatState) :=
  let fatPrivate := kzalloc 92 k
  let clusterReadStream := diskstreamerNew fatPrivate.2
  let fatReadStream := diskstreamerNew clusterReadStream.2
  let directoryStream := diskstreamerNew fatReadStream.2
  let streams : FatStreams := ⟨clusterReadStream.1.2, fatReadStream.1.2, directoryStream.1.2⟩
  let stream := diskstreamerNew directoryStream.2
  let st : FatState := ⟨streams, stream.2⟩
  let out := fat16ResolveOut fatPrivate.1 stream.1.1
  if stream.1.1 = 0 then some (out ((- ENOMEM, emptyVolume device), st))
  else
    (diskstreamerRead device stream.1.2 0 sizeofFatHeader fun _ => 0).bind fun r =>
      let bytes := fun i => r.2.2 (off 0 i)
      let header := fatHeaderOf bytes
      if r.1 ≠ 0 then some (out ((- EIO, emptyVolume device), st))
      else if fatSignatureOf bytes ≠ 0x29 then some (out ((- EFSNOTUS, emptyVolume device), st))
      else
        (fat16GetRootDirectory device header (emptyVolume device).rootDirectory st).map fun q =>
          out ((if q.1.1 ≠ 0 then - EIO else 0, ⟨device, header, q.1.2⟩), q.2)

/-! ### Accepted volumes -/

@[simp] theorem fat16ResolveOut_fst (fatPrivate stream : UInt32) (r : (ℤ × FatVolume) × FatState) :
    (fat16ResolveOut fatPrivate stream r).1 = r.1 := rfl

/-- An accepted volume is one whose root directory was read. -/
theorem fat16Resolve_accepts {device : Device} {k : Kernel} {volume : FatVolume} {st : FatState}
    (h : fat16Resolve device k = some ((0, volume), st)) :
    volume.device = device ∧ ∃ directory st₀ st₁, fat16GetRootDirectory device volume.header
      directory st₀ = some ((0, volume.rootDirectory), st₁) := by
  have hfst := congrArg (Option.map Prod.fst) h
  unfold fat16Resolve at hfst
  dsimp only at hfst
  split_ifs at hfst with hnull
  · have h0 : - ENOMEM = 0 := congrArg Prod.fst (Option.some.inj hfst)
    exact absurd h0 (by decide)
  · cases hread : diskstreamerRead device
        (diskstreamerNew (diskstreamerNew (diskstreamerNew (diskstreamerNew
          (kzalloc 92 k).2).2).2).2).1.2 0 sizeofFatHeader fun _ => 0 with
    | none =>
        rw [hread] at hfst
        cases hfst
    | some r =>
        rw [hread, Option.bind_some] at hfst
        split_ifs at hfst with hres hsig
        · have h0 : (- EIO) = 0 := congrArg Prod.fst (Option.some.inj hfst)
          exact absurd h0 (by decide)
        · have h0 : - EFSNOTUS = 0 := congrArg Prod.fst (Option.some.inj hfst)
          exact absurd h0 (by decide)
        · rw [Option.map_map, Option.map_some, Option.map_eq_some_iff] at hfst
          obtain ⟨⟨⟨res, directory⟩, st₁⟩, hroot, hout⟩ := hfst
          dsimp only [Function.comp, fat16ResolveOut_fst] at hout
          split_ifs at hout with hroot0
          · have h0 : (- EIO) = 0 := congrArg Prod.fst hout
            exact absurd h0 (by decide)
          · obtain rfl : res = 0 := not_not.mp hroot0
            obtain rfl : _ = volume := congrArg Prod.snd hout
            exact ⟨rfl, _, _, _, hroot⟩

theorem fat16Resolve_mounted {device : Device} {k : Kernel} {volume : FatVolume} {st : FatState}
    (h : fat16Resolve device k = some ((0, volume), st)) : volume.Mounted := by
  obtain ⟨hdevice, directory, st₀, st₁, hroot⟩ := fat16Resolve_accepts h
  exact ⟨directory, st₀, st₁, hdevice.symm ▸ hroot⟩

/-- Where the root directory and the clusters start. -/
theorem fat16GetRootDirectory_layout {device : Device} {header : FatHeader}
    {directory d : FatDirectory} {st st' : FatState}
    (h : fat16GetRootDirectory device header directory st = some ((0, d), st')) :
    d.sectorPos = header.rootDirSector ∧
      d.endingSectorPos = header.rootDirSector + (header.rootDirEntries.toNat / 16 : ℕ) := by
  have hsector : ((header.fatCopies.toNat : ℤ) * header.sectorsPerFat.toNat +
      header.reservedSectors.toNat) = (header.rootDirSector : ℕ) := by
    unfold FatHeader.rootDirSector
    push_cast
    rfl
  have hsize : ((header.rootDirEntries.toNat : ℤ) * 32).tdiv peachosSectorSize =
      ((header.rootDirEntries.toNat / 16 : ℕ) : ℤ) := by
    have h512 : peachosSectorSize = 512 := rfl
    rw [h512, Int.tdiv_eq_ediv_of_nonneg (by omega)]
    omega
  unfold fat16GetRootDirectory at h
  obtain ⟨r, -, h⟩ := Option.bind_eq_some_iff.mp h
  dsimp only at h
  split_ifs at h with hnull hseek
  · have h0 : - ENOMEM = 0 := congrArg (fun x => x.1.1) (Option.some.inj h)
    exact absurd h0 (by decide)
  · exact absurd rfl hseek
  · obtain ⟨q, -, h⟩ := Option.map_eq_some_iff.mp h
    split_ifs at h with hread
    · have h0 : (- EIO) = 0 := congrArg (fun x => x.1.1) h
      exact absurd h0 (by decide)
    · obtain rfl : _ = d := congrArg (fun x => x.1.2) h
      dsimp only
      rw [hsector, hsize]
      exact ⟨rfl, rfl⟩

/-! ### The data area -/

/-- The sectors of a cluster. -/
def FatVolume.clusterSectors (volume : FatVolume) (cluster : ℤ) : Set ℤ :=
  Set.Ico (fat16ClusterToSector volume cluster)
    (fat16ClusterToSector volume cluster + volume.header.sectorsPerCluster.toNat)

/-- The sectors that hold the root directory; the last one may be used in part. -/
def FatVolume.rootSectors (volume : FatVolume) : Set ℤ :=
  Set.Ico volume.rootDirectory.sectorPos
    (volume.rootDirectory.sectorPos + ((volume.header.rootDirEntries.toNat * 32 + 511) / 512 : ℕ))

/-- A cluster whose position an `int` reaches. -/
def FatVolume.OnDisk (volume : FatVolume) (cluster : ℤ) : Prop :=
  2 ≤ cluster ∧ volume.clusterPos cluster < 2147483648

/-- Different clusters have different sectors, and none of the root directory. -/
def FatVolume.LaidOut (volume : FatVolume) : Prop :=
  (∀ c d, volume.OnDisk c → volume.OnDisk d → c ≠ d →
    Disjoint (volume.clusterSectors c) (volume.clusterSectors d)) ∧
  ∀ c, volume.OnDisk c → Disjoint (volume.clusterSectors c) volume.rootSectors

theorem FatVolume.OnDisk.sector {volume : FatVolume} {cluster : ℤ} (h : volume.OnDisk cluster)
    (hstart : 0 ≤ volume.rootDirectory.endingSectorPos) :
    fat16ClusterToSector volume cluster = volume.rootDirectory.endingSectorPos +
      (cluster - 2) * volume.header.sectorsPerCluster.toNat := by
  obtain ⟨hcluster, hpos⟩ := h
  have h512 : peachosSectorSize = 512 := rfl
  have hnonneg : 0 ≤ (cluster - 2) * (volume.header.sectorsPerCluster.toNat : ℤ) :=
    mul_nonneg (by omega) (Int.natCast_nonneg _)
  unfold FatVolume.clusterPos at hpos
  unfold fat16ClusterToSector
  rw [h512] at hpos
  rw [i32_of_range (x := (cluster - 2) * _) (by omega) (by omega),
    i32_of_range (by omega) (by omega)]

theorem clusterSectors_disjoint {volume : FatVolume} {c d : ℤ} (hc : volume.OnDisk c)
    (hd : volume.OnDisk d) (hcd : c < d) (hstart : 0 ≤ volume.rootDirectory.endingSectorPos) :
    Disjoint (volume.clusterSectors c) (volume.clusterSectors d) := by
  have hnext : (c - 2 + 1) * (volume.header.sectorsPerCluster.toNat : ℤ) ≤
      (d - 2) * volume.header.sectorsPerCluster.toNat :=
    mul_le_mul_of_nonneg_right (by omega) (Int.natCast_nonneg _)
  rw [add_mul, one_mul] at hnext
  unfold FatVolume.clusterSectors
  rw [hc.sector hstart, hd.sector hstart, Set.disjoint_left]
  intro s hs hs'
  have h1 := hs.2
  have h2 := hs'.1
  omega

/-- The last sector of the root directory, if it is used in part, is the first one of
cluster 2. -/
theorem fat16Resolve_overlap {device : Device} {k : Kernel} {volume : FatVolume} {st : FatState}
    (h : fat16Resolve device k = some ((0, volume), st))
    (hcluster : 1 ≤ volume.header.sectorsPerCluster.toNat)
    (hpart : volume.header.rootDirEntries.toNat % 16 ≠ 0)
    (hreach : (volume.header.rootDirSector + volume.header.rootDirEntries.toNat / 16) * 512 <
      2147483648) : ¬ volume.LaidOut := by
  rintro ⟨-, hrootFree⟩
  obtain ⟨-, directory, st₀, st₁, hroot⟩ := fat16Resolve_accepts h
  obtain ⟨hsector, hending⟩ := fat16GetRootDirectory_layout hroot
  have hstart : 0 ≤ volume.rootDirectory.endingSectorPos := by omega
  have h512 : peachosSectorSize = 512 := rfl
  have htwo : volume.OnDisk 2 := by
    refine ⟨le_rfl, ?_⟩
    unfold FatVolume.clusterPos
    rw [hending, h512]
    omega
  have hshared := Set.disjoint_left.mp (hrootFree 2 htwo)
  refine @hshared volume.rootDirectory.endingSectorPos ?_ ?_
  · unfold FatVolume.clusterSectors
    rw [htwo.sector hstart]
    exact ⟨by omega, by omega⟩
  · unfold FatVolume.rootSectors
    rw [hsector, hending]
    exact ⟨by omega, by omega⟩

/-- **The layout of an accepted volume** is sound if and only if the root directory fills its
last sector, or no cluster is in reach. -/
theorem fat16Resolve_laidOut_iff {device : Device} {k : Kernel} {volume : FatVolume} {st : FatState}
    (h : fat16Resolve device k = some ((0, volume), st))
    (hcluster : 1 ≤ volume.header.sectorsPerCluster.toNat) :
    volume.LaidOut ↔ volume.header.rootDirEntries.toNat % 16 = 0 ∨
      2147483648 ≤
        (volume.header.rootDirSector + volume.header.rootDirEntries.toNat / 16) * 512 := by
  obtain ⟨-, directory, st₀, st₁, hroot⟩ := fat16Resolve_accepts h
  obtain ⟨hsector, hending⟩ := fat16GetRootDirectory_layout hroot
  have hstart : 0 ≤ volume.rootDirectory.endingSectorPos := by omega
  have h512 : peachosSectorSize = 512 := rfl
  constructor
  · intro hlaid
    by_contra hno
    rw [not_or] at hno
    exact fat16Resolve_overlap h hcluster hno.1 (Nat.lt_of_not_le hno.2) hlaid
  · intro hfits
    refine ⟨fun c d hc hd hne => ?_, fun c hc => ?_⟩
    · rcases lt_or_gt_of_ne hne with hlt | hgt
      · exact clusterSectors_disjoint hc hd hlt hstart
      · exact (clusterSectors_disjoint hd hc hgt hstart).symm
    · have hnonneg : 0 ≤ (c - 2) * (volume.header.sectorsPerCluster.toNat : ℤ) :=
        mul_nonneg (by have := hc.1; omega) (Int.natCast_nonneg _)
      have hpos := hc.2
      unfold FatVolume.clusterPos at hpos
      rw [hending, h512] at hpos
      unfold FatVolume.clusterSectors FatVolume.rootSectors
      rw [hc.sector hstart, hsector, hending, Set.disjoint_left]
      intro s hs hs'
      have h1 := hs.1
      have h2 := hs'.2
      omega

/-! ### The scan of the root directory -/

/-- No blank record among the first `n`: the scan reads more than `n` records. -/
theorem fat16TotalItemsLoop_more {device : Device} (hdev : device.Delivers) :
    ∀ (n pos : ℕ) (i : ℤ), pos + 32 * n + 512 < 2147483648 →
      (∀ j < n, diskByte device (pos + 32 * j) ≠ 0) →
      fat16TotalItemsLoop device n i ⟨pos⟩ = none
  | 0, _, _, _, _ => rfl
  | n + 1, pos, i, hpos, hused => by
      obtain ⟨m, hread, hm⟩ := diskstreamerRead_item hdev pos (by omega)
      have hfirst := hused 0 (Nat.succ_pos n)
      rw [Nat.mul_zero, Nat.add_zero] at hfirst
      have hadd : ∀ j, pos + 32 + 32 * j = pos + 32 * (j + 1) := fun j => by omega
      have ih := fun i => fat16TotalItemsLoop_more hdev n (pos + 32) i (by omega)
        fun j hj => hadd j ▸ hused (j + 1) (Nat.succ_lt_succ hj)
      unfold fat16TotalItemsLoop
      rw [hread, Option.bind_some]
      simp only [hm, ne_eq, not_true_eq_false, if_false, if_neg hfirst, ih, ite_self]

/-- The scan of the root directory ends within `root_dir_entries` records and counts no more, so
the slots that a lookup touches lie in the buffer. -/
def FatVolume.ScanInside (volume : FatVolume) : Prop :=
  fat16TotalItemsLoop volume.device volume.header.rootDirEntries.toNat 0
      ⟨((volume.header.rootDirSector * 512 : ℕ) : ℤ)⟩ ≠ none ∧
    volume.rootDirectory.total ≤ volume.header.rootDirEntries.toNat ∧
    ∀ i < volume.rootDirectory.total.toNat, 32 * i + 32 ≤ volume.header.rootDirEntries.toNat * 32

/-- **The scan of an accepted volume** stays in the root directory if and only if one of its
slots is blank. -/
theorem fat16Resolve_scanInside_iff {device : Device} (hdev : device.Delivers) {k : Kernel}
    {volume : FatVolume} {st : FatState} (h : fat16Resolve device k = some ((0, volume), st))
    (hdisk : volume.RootOnDisk) :
    volume.ScanInside ↔ ∃ i < volume.header.rootDirEntries.toNat,
      diskByte device (volume.header.rootDirSector * 512 + 32 * i) = 0 := by
  obtain ⟨rfl, -⟩ := fat16Resolve_accepts h
  have hmount := fat16Resolve_mounted h
  obtain ⟨-, streams, r, htotal, hr⟩ := fat16GetRootDirectory_spec hdev hmount hdisk
  unfold FatVolume.RootOnDisk at hdisk
  constructor
  · rintro ⟨hends, -⟩
    by_contra hno
    exact hends (fat16TotalItemsLoop_more hdev _ _ 0 (by omega) fun j hj h0 => hno ⟨j, hj, h0⟩)
  · intro hblank
    obtain ⟨hlt, hzero⟩ := Nat.find_spec hblank
    obtain ⟨L, hL⟩ : ∃ L, L = Nat.find hblank := ⟨_, rfl⟩
    have hused : ∀ j < L, diskByte volume.device (volume.header.rootDirSector * 512 + 32 * j) ≠ 0 :=
      fun j hj h0 => Nat.find_min hblank (hL ▸ hj) ⟨by omega, h0⟩
    rw [← hL] at hlt hzero
    rw [fat16GetTotalItemsForDirectory_spec hdev (by omega) hused hzero] at htotal
    have hcount := Nat.count_le (p := fun j =>
      diskByte volume.device (volume.header.rootDirSector * 512 + 32 * j) ≠ 0xe5) (n := L)
    have hle : volume.rootDirectory.total ≤ (L : ℕ) := by
      rw [hr, ← Option.some.inj htotal]
      exact Int.ofNat_le.mpr hcount
    refine ⟨?_, by omega, fun i hi => by omega⟩
    rw [fat16TotalItemsLoop_spec hdev _ 0 hlt (by omega) hused hzero]
    exact Option.some_ne_none _

/-! ### Disks that are accepted -/

theorem fatHeaderOf_congr {f g : ℕ → UInt8} (h : ∀ i < 62, f i = g i) :
    fatHeaderOf f = fatHeaderOf g ∧ fatSignatureOf f = fatSignatureOf g := by
  unfold fatHeaderOf fatSignatureOf
  rw [h 13 (by decide), h 14 (by decide), h 15 (by decide), h 16 (by decide), h 17 (by decide),
    h 18 (by decide), h 22 (by decide), h 23 (by decide), h 38 (by decide)]
  exact ⟨rfl, rfl⟩

theorem diskstreamerNew_ok {k : Kernel} (hk : k.oom = false) {c : ℕ}
    (hc : c + 1 ≤ (freeBlocks k).card) :
    (diskstreamerNew k).2.oom = false ∧ c ≤ (freeBlocks (diskstreamerNew k).2).card ∧
      (diskstreamerNew k).1.1 ≠ 0 := by
  obtain ⟨hoom, hcard⟩ := kzalloc_block_ok 8 (by decide) (by decide) hk hc
  exact ⟨hoom, hcard, kzalloc_ne_zero_of_ok hoom⟩

/-- The streams of the volume and the one for the header are allocated on a fresh heap, and more
blocks are free. -/
theorem exists_streams : ∃ k₁ k₂ k₃ k₄ : Kernel, k₁ = (kzalloc 92 freshKernel).2 ∧
    k₂ = (diskstreamerNew k₁).2 ∧ k₃ = (diskstreamerNew k₂).2 ∧ k₄ = (diskstreamerNew k₃).2 ∧
    (diskstreamerNew k₄).1.1 ≠ 0 ∧ (diskstreamerNew k₄).2.oom = false ∧
    9 ≤ (freeBlocks (diskstreamerNew k₄).2).card := by
  have hfresh := freshKernel_topFree.card_le
  obtain ⟨ho₁, hc₁⟩ := kzalloc_block_ok (k := freshKernel) 92 (by decide) (by decide) rfl (c := 13)
    (by omega)
  obtain ⟨ho₂, hc₂, -⟩ := diskstreamerNew_ok ho₁ hc₁
  obtain ⟨ho₃, hc₃, -⟩ := diskstreamerNew_ok ho₂ hc₂
  obtain ⟨ho₄, hc₄, -⟩ := diskstreamerNew_ok ho₃ hc₃
  obtain ⟨ho₅, hc₅, hne⟩ := diskstreamerNew_ok ho₄ hc₄
  exact ⟨_, _, _, _, rfl, rfl, rfl, rfl, hne, ho₅, hc₅⟩

/-- A disk with the signature and a root directory of one block is accepted on a fresh heap, and
blocks are left for a file. -/
theorem exists_resolved {device : Device} (hdev : device.Delivers) (header : FatHeader) (L : ℕ)
    (hheader : fatHeaderOf (diskByte device) = header)
    (hsig : fatSignatureOf (diskByte device) = 0x29)
    (hentries : 1 ≤ header.rootDirEntries.toNat ∧ header.rootDirEntries.toNat ≤ 128)
    (hdisk : header.rootDirSector * 512 + header.rootDirEntries.toNat * 32 ≤ 2147483648 - 1024)
    (hslots : header.rootDirSector * 512 + 32 * (L + 1) ≤ 2147483648 - 1024)
    (hused : ∀ i < L, diskByte device (header.rootDirSector * 512 + 32 * i) ≠ 0)
    (hblank : diskByte device (header.rootDirSector * 512 + 32 * L) = 0) :
    ∃ volume st, fat16Resolve device freshKernel = some ((0, volume), st) ∧
      volume.header = header ∧ volume.RootOnDisk ∧ volume.rootDirectory.total =
        (Nat.count (fun i => diskByte device (header.rootDirSector * 512 + 32 * i) ≠ 0xe5) L :
          ℕ) ∧ st.kernel.oom = false ∧ 8 ≤ (freeBlocks st.kernel).card := by
  obtain ⟨k₁, k₂, k₃, k₄, h₁, h₂, h₃, h₄, hne, hoom, hcard⟩ := exists_streams
  have hcast : (UInt32.ofNat (header.rootDirEntries.toNat * 32)).toNat =
      header.rootDirEntries.toNat * 32 :=
    UInt32.toNat_ofNat_of_lt' (show header.rootDirEntries.toNat * 32 < 4294967296 by omega)
  obtain ⟨hok, hcard'⟩ := kzalloc_block_ok (UInt32.ofNat (header.rootDirEntries.toNat * 32))
    (by omega) (by omega) hoom hcard
  have hdir := kzalloc_ne_zero_of_ok hok
  obtain ⟨b, hb, htake, -⟩ := kzalloc_block_of_ok (by omega) (by omega) hok
  have hlt := htake.lt b rfl
  have hread : diskstreamerRead device (diskstreamerNew k₄).1.2 0 sizeofFatHeader (fun _ => 0) =
      some (0, ⟨((0 + 62 : ℕ) : ℤ)⟩,
        writeBytes (fun _ => 0) 0 (fun i => diskByte device (0 + i)) 62) :=
    diskstreamerRead_eq hdev 62 0 0 (fun _ => 0) (by decide)
  obtain ⟨hparse, hparse'⟩ := fatHeaderOf_congr (f := fun i =>
      writeBytes (fun _ => 0) 0 (fun i => diskByte device (0 + i)) 62 (off 0 i))
    (g := diskByte device) fun i hi => by
      rw [writeBytes_off _ _ _ hi (by decide), Nat.zero_add]
  have hroot := fat16GetRootDirectory_eq hdev rfl rfl hdisk
    (emptyVolume device).rootDirectory
    ⟨⟨(diskstreamerNew k₁).1.2, (diskstreamerNew k₂).1.2, (diskstreamerNew k₃).1.2⟩,
      (diskstreamerNew k₄).2⟩
  rw [fat16GetTotalItemsForDirectory_spec hdev hslots hused hblank, Option.map_some] at hroot
  dsimp only at hroot
  rw [if_neg hdir] at hroot
  obtain ⟨directory, st', hroot, htotal, hok', hcard''⟩ : ∃ directory st',
      fat16GetRootDirectory device header (emptyVolume device).rootDirectory
      ⟨⟨(diskstreamerNew k₁).1.2, (diskstreamerNew k₂).1.2, (diskstreamerNew k₃).1.2⟩,
        (diskstreamerNew k₄).2⟩ = some ((0, directory), st') ∧ directory.total =
      (Nat.count (fun i => diskByte device (header.rootDirSector * 512 + 32 * i) ≠ 0xe5) L : ℕ) ∧
      st'.kernel.oom = false ∧ 8 ≤ (freeBlocks st'.kernel).card := by
    refine ⟨_, _, hroot, rfl, hok, ?_⟩
    -- the items are read into a block of the pool
    rwa [freeBlocks_congr (k := (kzalloc (UInt32.ofNat (header.rootDirEntries.toNat * 32))
      (diskstreamerNew k₄).2).2) fun x hx => ?_]
    rw [hb]
    have hout : ¬ InRange (blockAddr b) (header.rootDirEntries.toNat * 32) x := fun hr =>
      InBlock.not_inTable hlt (Nat.lt_of_lt_of_le hr (by omega)) hx
    exact (writeBytes_apply _ _ _ _ _ (by omega)).trans (if_neg hout)
  have hresolve : ∃ st, fat16Resolve device freshKernel =
      some ((0, ⟨device, header, directory⟩), st) ∧
        st.kernel = kfree (diskstreamerNew k₄).1.1 st'.kernel := by
    unfold fat16Resolve
    dsimp only
    rw [← h₁, ← h₂, ← h₃, ← h₄, if_neg hne, hread, Option.bind_some]
    dsimp only
    rw [hparse, hparse', hheader, hsig, if_neg (not_not.mpr rfl), if_neg (not_not.mpr rfl), hroot]
    refine ⟨_, rfl, ?_⟩
    unfold diskstreamerClose
    dsimp only
    rw [if_neg (not_not.mpr rfl), if_pos hne, if_neg (lt_irrefl 0)]
  obtain ⟨st, hst, hkernel⟩ := hresolve
  refine ⟨_, st, hst, rfl, hdisk, htotal, hkernel ▸ hok', ?_⟩
  rw [hkernel]
  exact le_trans hcard'' (freeBlocks_kfree_le _ _)

/-- A disk with a boot sector for one sector per cluster and `entries` root entries, and the
root directory from sector 1 on. -/
def bootDisk (entries : UInt8) (bytes : UInt32 → UInt8) : Device := fun lba =>
  (0, fun i =>
    if lba = 0 then
      if i = 13 ∨ i = 14 then 1 else if i = 17 then entries else if i = 38 then 0x29 else 0
    else bytes lba)

/-- Two sectors of items, one of which is the root directory. -/
def crowdedDisk : Device := bootDisk 16 fun lba => if lba = 1 ∨ lba = 2 then 65 else 0

/-- The scan goes on behind a root directory that is full, and counts the items there. -/
theorem fat16Resolve_crowded : ∃ k volume st,
    fat16Resolve crowdedDisk k = some ((0, volume), st) ∧ crowdedDisk.Delivers ∧
      volume.header.rootDirEntries = 16 ∧ volume.rootDirectory.total = 32 ∧
      ¬ volume.ScanInside := by
  have hdev : crowdedDisk.Delivers := fun _ => rfl
  obtain ⟨volume, st, hres, hheader, -, htotal, -⟩ :=
    exists_resolved hdev ⟨1, 1, 0, 16, 0⟩ 32 (by decide) (by decide) (by decide) (by decide)
      (by decide) (by decide) (by decide)
  have hcount : volume.rootDirectory.total = 32 := htotal.trans (by decide)
  have hentries : volume.header.rootDirEntries = 16 := by rw [hheader]
  refine ⟨_, volume, st, hres, hdev, hentries, hcount, fun ⟨_, hle, _⟩ => ?_⟩
  rw [hcount, hentries] at hle
  exact absurd hle (by decide)

theorem fat16Resolve_scanInside_iff_empty : ∃ k volume st,
    fat16Resolve (bootDisk 16 fun _ => 0) k = some ((0, volume), st) ∧ volume.ScanInside := by
  have hdev : (bootDisk 16 fun _ => 0).Delivers := fun _ => rfl
  obtain ⟨volume, st, hres, hheader, hdisk, -⟩ :=
    exists_resolved hdev ⟨1, 1, 0, 16, 0⟩ 0 (by decide) (by decide) (by decide) (by decide)
      (by decide) (by decide) (by decide)
  refine ⟨_, volume, st, hres, (fat16Resolve_scanInside_iff hdev hres hdisk).mpr ⟨0, ?_, ?_⟩⟩
  · rw [hheader]
    decide
  · rw [hheader]
    decide

/-- With eight root entries cluster 2 starts in the sector of the root directory. -/
theorem fat16Resolve_halfSector : ∃ k volume st,
    fat16Resolve (bootDisk 8 fun _ => 0) k = some ((0, volume), st) ∧
      volume.header.sectorsPerCluster.toNat = 1 ∧ volume.header.rootDirEntries = 8 ∧
      ¬ volume.LaidOut := by
  have hdev : (bootDisk 8 fun _ => 0).Delivers := fun _ => rfl
  obtain ⟨volume, st, hres, hheader, -, -⟩ :=
    exists_resolved hdev ⟨1, 1, 0, 8, 0⟩ 0 (by decide) (by decide) (by decide) (by decide)
      (by decide) (by decide) (by decide)
  refine ⟨_, volume, st, hres, by rw [hheader]; rfl, by rw [hheader], ?_⟩
  refine fat16Resolve_overlap hres ?_ ?_ ?_
  · rw [hheader]
    decide
  · rw [hheader]
    decide
  · rw [hheader]
    decide

theorem fat16Resolve_laidOut_iff_sector : ∃ k volume st,
    fat16Resolve (bootDisk 16 fun _ => 0) k = some ((0, volume), st) ∧ volume.LaidOut := by
  have hdev : (bootDisk 16 fun _ => 0).Delivers := fun _ => rfl
  obtain ⟨volume, st, hres, hheader, -, -⟩ :=
    exists_resolved hdev ⟨1, 1, 0, 16, 0⟩ 0 (by decide) (by decide) (by decide) (by decide)
      (by decide) (by decide) (by decide)
  refine ⟨_, volume, st, hres, (fat16Resolve_laidOut_iff hres ?_).mpr (Or.inl ?_)⟩
  · rw [hheader]
    decide
  · rw [hheader]
    decide

end PeachOS
