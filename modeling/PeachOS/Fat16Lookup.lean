import PeachOS.Fat16Directory

/-! # FAT16: lookups in the root directory

`fat16_find_item_in_directory` compares as many slots as there are live ones, deleted slots
included, and it loads every directory that has the name.  The load counts the records in front of
a blank one, however far that is, so a lookup may run without end.

`fat16FindItemInDirectory_iff`: when it returns a right answer. -/

namespace PeachOS

open ByteMemory

/-! ### Reads from any position -/

/-- The first byte of the record at the position `pos` of a stream. -/
def recordByte (device : Device) (pos : ℤ) : UInt8 :=
  (device (UInt32.ofInt (pos.tdiv peachosSectorSize))).2 (pos.tmod peachosSectorSize).toNat

section Reads

variable {device : Device} {pos : ℤ}

theorem i32_dvd {n x : ℤ} (hn : n ∣ 4294967296) (hx : n ∣ x) : n ∣ i32 x := by
  have hmod : (4294967296 : ℤ) ∣ i32 x - x := Int.ModEq.dvd (i32_emod x).symm
  exact (dvd_sub_left hx).mp (hn.trans hmod)

/-- A read from the start of a sector returns, for any number of bytes. -/
theorem diskstreamerRead_isSome (hdev : device.Delivers) (n : ℕ) :
    ∀ (pos total : ℤ) (out : UInt32) (m : Mem), total.toNat = n → 512 ∣ pos →
      total ≤ 2147483647 → ∃ pos' m', diskstreamerRead device ⟨pos⟩ out total m =
        some (0, ⟨pos'⟩, m') := by
  induction n using Nat.strong_induction_on with
  | _ n ih =>
      intro pos total out m hn hpos htotal
      have hoffset : pos.tmod peachosSectorSize = 0 := Int.tmod_eq_zero_of_dvd hpos
      have hsize : peachosSectorSize = 512 := rfl
      unfold diskstreamerRead
      dsimp only
      rw [hoffset, hdev, if_neg (lt_irrefl 0), if_neg (by omega), hsize]
      by_cases hover : 0 + total ≥ 512
      · simp only [if_pos hover]
        refine ih _ ?_ _ _ _ _ rfl ?_ (by omega)
        · omega
        · refine i32_dvd (by decide) (dvd_add hpos ?_)
          exact ⟨1, by omega⟩
      · simp only [if_neg hover]
        exact ⟨_, _, rfl⟩

/-- A record inside its sector is read. -/
theorem diskstreamerRead_record (hdev : device.Delivers) (hpos : 32 ∣ pos)
    (hoffset : 0 ≤ pos.tmod peachosSectorSize) :
    ∃ m, diskstreamerRead device ⟨pos⟩ 0 32 (fun _ => 0) = some (0, ⟨i32 (pos + 32)⟩, m) ∧
      m 0 = recordByte device pos := by
  have hsize : peachosSectorSize = 512 := rfl
  have hlt : pos.tmod peachosSectorSize < 512 := Int.tmod_lt_of_pos _ (by decide)
  have hdvd : 32 ∣ pos.tmod peachosSectorSize := by
    have hsum := Int.tmod_add_mul_tdiv pos peachosSectorSize
    rw [hsize] at hsum ⊢
    omega
  obtain ⟨offset, hoff⟩ : ∃ offset, offset = pos.tmod peachosSectorSize := ⟨_, rfl⟩
  have hbyte : ∀ n, n = 32 → writeBytes (fun _ => 0) 0 (fun i => (device (UInt32.ofInt
      (pos.tdiv peachosSectorSize))).2 (offset.toNat + i)) n 0 = recordByte device pos := by
    rintro n rfl
    rw [writeBytes_apply _ _ _ _ 32 (by decide), if_pos (by decide), hoff]
    rfl
  unfold diskstreamerRead
  dsimp only
  rw [← hoff] at hoffset hlt hdvd ⊢
  rw [hdev, if_neg (lt_irrefl 0), if_neg (by split_ifs <;> omega), hsize]
  by_cases hover : offset + 32 ≥ 512
  · -- the record ends with its sector, and no byte of the next one is copied
    have hread : (32 : ℤ) - (offset + 32 - 512) = 32 := by omega
    simp only [if_pos hover, hread]
    have hnext : (i32 (pos + 32)).tmod peachosSectorSize = 0 := by
      refine Int.tmod_eq_zero_of_dvd (i32_dvd (by decide) ?_)
      have hsum := Int.tmod_add_mul_tdiv pos peachosSectorSize
      rw [← hoff, hsize] at hsum
      rw [hsize]
      omega
    unfold diskstreamerRead
    dsimp only
    rw [hnext, hdev, if_neg (lt_irrefl 0), if_neg (by decide)]
    simp only [hsize, if_neg (show ¬ ((0 : ℤ) + (32 - 32) ≥ 512) by decide)]
    refine ⟨_, ?_, hbyte 32 rfl⟩
    rw [show (32 : ℤ) - 32 = 0 from rfl, add_zero, i32_of_range (i32_range _).1 (i32_range _).2]
    rfl
  · simp only [if_neg hover]
    exact ⟨_, rfl, hbyte 32 rfl⟩

/-- A record in front of its sector is not. -/
theorem diskstreamerRead_before (hdev : device.Delivers)
    (hoffset : pos.tmod peachosSectorSize < 0) :
    diskstreamerRead device ⟨pos⟩ 0 32 (fun _ => 0) = none := by
  have hsize : peachosSectorSize = 512 := rfl
  unfold diskstreamerRead
  dsimp only
  rw [hdev, if_neg (lt_irrefl 0), if_pos]
  rw [hsize] at hoffset ⊢
  rw [if_neg (by omega)]
  exact Or.inr ⟨hoffset, by decide⟩

end Reads

/-! ### When a scan ends -/

/-- A scan from the start `pos` of a sector comes to a blank record: the first one it reads, or one
at the latest where the position of the stream, an `int`, becomes negative. -/
def ScanEnds (device : Device) (pos : ℤ) : Prop :=
  ∃ n : ℕ, recordByte device (i32 (pos + 32 * n)) = 0 ∧
    (n = 0 ∨ 0 ≤ pos ∧ pos + 32 * n ≤ 2147483648)

section Scan

variable {device : Device}

/-- A place below a bound that is reached, when the first one is passed. -/
theorem exists_reached_succ {P Q : ℕ → Prop} (hP : ¬ P 0) (hQ : Q 0) (fuel : ℕ) :
    (∃ n < fuel, P (n + 1) ∧ ∀ j ≤ n, Q (j + 1)) ↔ ∃ n < fuel + 1, P n ∧ ∀ j ≤ n, Q j := by
  constructor
  · rintro ⟨n, hn, hat, hall⟩
    refine ⟨n + 1, Nat.succ_lt_succ hn, hat, fun j hj => ?_⟩
    rcases j with _ | j
    · exact hQ
    · exact hall j (Nat.le_of_succ_le_succ hj)
  · rintro ⟨n, hn, hat, hall⟩
    rcases n with _ | n
    · exact absurd hat hP
    · exact ⟨n, Nat.lt_of_succ_lt_succ hn, hat, fun j hj => hall (j + 1) (Nat.succ_le_succ hj)⟩

/-- The loop ends if and only if it reads a blank record, and none before it that starts in front
of its sector. -/
theorem fat16TotalItemsLoop_isSome_iff (hdev : device.Delivers) :
    ∀ (fuel : ℕ) (i pos : ℤ), 32 ∣ pos → i32 pos = pos →
      ((fat16TotalItemsLoop device fuel i ⟨pos⟩).isSome ↔
        ∃ n < fuel, recordByte device (i32 (pos + 32 * n)) = 0 ∧
          ∀ j ≤ n, 0 ≤ (i32 (pos + 32 * (j : ℕ))).tmod peachosSectorSize)
  | 0, i, pos, _, _ => by
      refine iff_of_false (by simp [fat16TotalItemsLoop]) ?_
      rintro ⟨n, hn, -⟩
      exact Nat.not_lt_zero n hn
  | fuel + 1, i, pos, hpos, hint => by
      have hzero : i32 (pos + 32 * ((0 : ℕ) : ℤ)) = pos := by
        rw [Nat.cast_zero, mul_zero, add_zero, hint]
      have hshift : ∀ n : ℕ, i32 (i32 (pos + 32) + 32 * n) =
          i32 (pos + 32 * ((n + 1 : ℕ) : ℤ)) := by
        intro n
        rw [i32_add_i32]
        congr 1
        push_cast
        ring
      unfold fat16TotalItemsLoop
      rcases lt_or_ge (pos.tmod peachosSectorSize) 0 with hneg | hin
      · -- the read leaves its sector buffer
        rw [diskstreamerRead_before hdev hneg, Option.bind_none]
        refine iff_of_false (by simp) ?_
        rintro ⟨n, -, -, hall⟩
        have h0 := hall 0 (Nat.zero_le n)
        rw [hzero] at h0
        omega
      obtain ⟨m, hread, hm⟩ := diskstreamerRead_record hdev hpos hin
      have ih := fun i => fat16TotalItemsLoop_isSome_iff hdev fuel i (i32 (pos + 32))
        (i32_dvd (by decide) (dvd_add hpos (dvd_refl 32)))
        (i32_of_range (i32_range _).1 (i32_range _).2)
      simp only [hshift] at ih
      rw [hread, Option.bind_some]
      simp only [hm, ne_eq, not_true_eq_false, if_false]
      by_cases hblank : recordByte device pos = 0
      · rw [if_pos hblank]
        refine iff_of_true rfl ⟨0, Nat.succ_pos fuel, by rwa [hzero], fun j hj => ?_⟩
        obtain rfl := Nat.le_zero.mp hj
        rwa [hzero]
      · rw [if_neg hblank]
        have hrest := exists_reached_succ
          (P := fun n => recordByte device (i32 (pos + 32 * (n : ℕ))) = 0)
          (Q := fun j => 0 ≤ (i32 (pos + 32 * (j : ℕ))).tmod peachosSectorSize)
          (by rwa [hzero]) (by rwa [hzero]) fuel
        split_ifs
        · exact (ih _).trans hrest
        · exact (ih _).trans hrest

/-- From the start of a sector the positions stay inside their sectors up to the overflow. -/
theorem scanInside_iff {pos : ℤ} (hpos : 512 ∣ pos) (hint : i32 pos = pos) (n : ℕ) :
    (∀ j ≤ n, 0 ≤ (i32 (pos + 32 * (j : ℕ))).tmod peachosSectorSize) ↔
      n = 0 ∨ 0 ≤ pos ∧ pos + 32 * n ≤ 2147483648 := by
  have hsize : peachosSectorSize = 512 := rfl
  have hrange := i32_range pos
  rw [hint] at hrange
  rw [hsize]
  constructor
  · intro hall
    rcases Nat.eq_zero_or_pos n with rfl | hn
    · exact Or.inl rfl
    right
    have hnonneg : 0 ≤ pos := by
      by_contra hneg
      have h1 := hall 1 hn
      rw [i32_of_range (by omega) (by omega)] at h1
      have hneg' := Int.tmod_nonneg 512 (show 0 ≤ -(pos + 32 * ((1 : ℕ) : ℤ)) by omega)
      rw [Int.neg_tmod] at hneg'
      have hsum := Int.tmod_add_mul_tdiv (pos + 32 * ((1 : ℕ) : ℤ)) 512
      omega
    refine ⟨hnonneg, ?_⟩
    by_contra hover
    -- the record behind the overflow
    obtain ⟨j, hj⟩ : ∃ j : ℕ, pos + 32 * (j : ℤ) = 2147483648 + 32 :=
      ⟨((2147483648 + 32 - pos) / 32).toNat, by omega⟩
    have hjn := hall j (by omega)
    rw [hj] at hjn
    revert hjn
    decide
  · rintro (rfl | ⟨hnonneg, hend⟩) j hj
    · obtain rfl := Nat.le_zero.mp hj
      rw [Nat.cast_zero, mul_zero, add_zero, hint, Int.tmod_eq_zero_of_dvd hpos]
    · rcases lt_or_ge (pos + 32 * (j : ℤ)) 2147483648 with hlt | hge
      · rw [i32_of_range (by omega) hlt]
        exact Int.tmod_nonneg _ (by omega)
      · have heq : pos + 32 * (j : ℤ) = 2147483648 := by omega
        rw [heq]
        decide

end Scan

/-! ### When a directory can be loaded -/

/-- The position where the directory of an item starts, as the code computes it. -/
def FatVolume.directoryPos (volume : FatVolume) (item : FatDirectoryItem) : ℤ :=
  i32 (UInt32.ofInt (fat16ClusterToSector volume (i32 (fat16GetFirstCluster item).toNat)) *
    UInt32.ofInt peachosSectorSize).toNat

/-- An item is no directory; or the scan of it ends and the volume has clusters to read it by. -/
def FatVolume.Loadable (volume : FatVolume) (item : FatDirectoryItem) : Prop :=
  item.attributes &&& fatFileSubdirectory = 0 ∨
    ScanEnds volume.device (volume.directoryPos item) ∧ 0 < volume.sizeOfClusterBytes

section Load

variable {device : Device} {volume : FatVolume} {item : FatDirectoryItem} {st : FatState}

theorem toNat_sector_dvd (x : UInt32) :
    (512 : ℤ) ∣ ((x * UInt32.ofInt peachosSectorSize).toNat : ℤ) := by
  rw [show UInt32.ofInt peachosSectorSize = 512 by decide, UInt32.toNat_mul,
    show (512 : UInt32).toNat = 512 from rfl]
  omega

theorem fat16GetTotalItemsForDirectory_isSome_iff (hdev : device.Delivers) (sector : UInt32)
    (streams : FatStreams) :
    (fat16GetTotalItemsForDirectory device sector streams).isSome ↔
      ScanEnds device (i32 (sector * UInt32.ofInt peachosSectorSize).toNat) := by
  obtain ⟨pos, hpos⟩ : ∃ pos, pos = i32 (sector * UInt32.ofInt peachosSectorSize).toNat :=
    ⟨_, rfl⟩
  have hdvd : 512 ∣ pos := hpos ▸ i32_dvd (by decide) (toNat_sector_dvd sector)
  have hint : i32 pos = pos := by
    rw [hpos]
    exact i32_of_range (i32_range _).1 (i32_range _).2
  unfold fat16GetTotalItemsForDirectory diskstreamerSeek
  dsimp only
  rw [← hpos, if_neg (not_not.mpr rfl), Option.isSome_map,
    fat16TotalItemsLoop_isSome_iff hdev scanLimit 0 pos ((by decide : (32 : ℤ) ∣ 512).trans hdvd)
      hint]
  unfold ScanEnds
  simp only [scanInside_iff hdvd hint]
  constructor
  · rintro ⟨n, -, hn⟩
    exact ⟨n, hn⟩
  · rintro ⟨n, hbyte, hn⟩
    refine ⟨n, ?_, hbyte, hn⟩
    unfold scanLimit
    omega

/-- The entries of the table are read from the starts of sectors. -/
theorem fat16GetFatEntry_isSome (hdev : volume.device.Delivers) (cluster : ℤ)
    (streams : FatStreams) : ∃ r, fat16GetFatEntry volume cluster streams = some r := by
  have hdvd : (512 : ℤ) ∣ ((fat16GetFirstFatSector volume * UInt32.ofInt peachosSectorSize *
      UInt32.ofInt (cluster * 2)).toNat : ℤ) := by
    have hcomm : fat16GetFirstFatSector volume * UInt32.ofInt peachosSectorSize *
        UInt32.ofInt (cluster * 2) = fat16GetFirstFatSector volume *
          UInt32.ofInt (cluster * 2) * UInt32.ofInt peachosSectorSize := by
      rw [UInt32.mul_assoc, UInt32.mul_comm (UInt32.ofInt peachosSectorSize), ← UInt32.mul_assoc]
    rw [hcomm]
    exact toNat_sector_dvd _
  obtain ⟨pos', m', hread⟩ := diskstreamerRead_isSome hdev 2 _ 2 0 (fun _ => 0) rfl
    (i32_dvd (by decide) hdvd) (by decide)
  unfold fat16GetFatEntry diskstreamerSeek
  dsimp only
  rw [if_neg (lt_irrefl 0), hread]
  exact ⟨_, rfl⟩

theorem fat16ClusterLoop_isSome (hdev : volume.device.Delivers) :
    ∀ (n : ℕ) (cluster : ℤ) (streams : FatStreams),
      ∃ r, fat16ClusterLoop volume n cluster streams = some r
  | 0, _, _ => ⟨_, rfl⟩
  | n + 1, cluster, streams => by
      obtain ⟨r, hr⟩ := fat16GetFatEntry_isSome hdev cluster streams
      unfold fat16ClusterLoop
      rw [hr, Option.bind_some]
      dsimp only
      split_ifs
      all_goals first | exact ⟨_, rfl⟩ | exact fat16ClusterLoop_isSome hdev n r.1 r.2

/-- With clusters a read from the start of a sector returns, whatever the table says. -/
theorem fat16ReadInternalFromStream_isSome (hdev : volume.device.Delivers)
    (hsize : 0 < volume.sizeOfClusterBytes) (cluster : ℤ) (n : ℕ) :
    ∀ (offset total : ℤ) (out : UInt32) (m : Mem) (streams : FatStreams), total.toNat = n →
      512 ∣ offset →
      ∃ r, fat16ReadInternalFromStream volume cluster offset total out m streams = some r := by
  have hsector : (512 : ℤ) ∣ volume.sizeOfClusterBytes := ⟨_, Int.mul_comm _ _⟩
  have hbound : volume.sizeOfClusterBytes ≤ 2147483647 := by
    have hlt := volume.header.sectorsPerCluster.toNat_lt
    have h512 : peachosSectorSize = 512 := rfl
    unfold FatVolume.sizeOfClusterBytes
    rw [h512]
    omega
  induction n using Nat.strong_induction_on with
  | _ n ih =>
      intro offset total out m streams hn hoffset
      unfold fat16ReadInternalFromStream diskstreamerSeek
      dsimp only
      obtain ⟨found, hfound⟩ : ∃ r, fat16GetClusterForOffset volume cluster offset streams =
          some r := by
        unfold fat16GetClusterForOffset
        rw [if_neg hsize.ne']
        exact fat16ClusterLoop_isSome hdev _ cluster streams
      rw [if_neg (not_le.mpr hsize), hfound, Option.bind_some]
      by_cases hneg : found.1 < 0
      · rw [if_pos hneg]
        exact ⟨_, rfl⟩
      rw [if_neg hneg, if_neg (not_not.mpr rfl)]
      obtain ⟨totalToRead, hread⟩ : ∃ totalToRead, totalToRead =
        if total > volume.sizeOfClusterBytes then volume.sizeOfClusterBytes else total := ⟨_, rfl⟩
      have hle : totalToRead ≤ volume.sizeOfClusterBytes := by
        rw [hread]
        split_ifs <;> omega
      have hstart : (512 : ℤ) ∣ i32 (i32 (fat16ClusterToSector volume found.1 *
          peachosSectorSize) + offset.tmod volume.sizeOfClusterBytes) := by
        refine i32_dvd (by decide) (dvd_add (i32_dvd (by decide) (Dvd.intro_left _ rfl)) ?_)
        have hsum := Int.tmod_add_mul_tdiv offset volume.sizeOfClusterBytes
        rw [← hsum] at hoffset
        exact (dvd_add_left (hsector.mul_right _)).mp hoffset
      obtain ⟨pos', m', hdisk⟩ := diskstreamerRead_isSome hdev _ _ totalToRead out m rfl hstart
        (by omega)
      simp only [← hread]
      rw [hdisk, Option.bind_some]
      split_ifs with hres hmore
      · exact ⟨_, rfl⟩
      · have hfull : totalToRead = volume.sizeOfClusterBytes := by
          split_ifs at hread <;> omega
        exact ih _ (by omega) _ _ _ _ _ rfl
          (i32_dvd (by decide) (dvd_add hoffset (hfull ▸ hsector)))
      · exact ⟨_, rfl⟩

/-- A directory that can be loaded is loaded, or there is no memory for it. -/
theorem fat16LoadFatDirectory_isSome (hdev : volume.device.Delivers)
    (h : volume.Loadable item) (st : FatState) :
    ∃ r, fat16LoadFatDirectory volume item st = some r := by
  unfold fat16LoadFatDirectory
  dsimp only
  split_ifs with hattr hnull
  · exact ⟨_, rfl⟩
  · exact ⟨_, rfl⟩
  obtain ⟨hscan, hsize⟩ := h.resolve_left hattr
  obtain ⟨r, hr⟩ := Option.isSome_iff_exists.mp
    ((fat16GetTotalItemsForDirectory_isSome_iff hdev _ st.streams).mpr hscan)
  rw [hr, Option.bind_some]
  split_ifs
  · exact ⟨_, rfl⟩
  · obtain ⟨q, hq⟩ := fat16ReadInternalFromStream_isSome hdev hsize
      (i32 (fat16GetFirstCluster item).toNat) _ 0 (i32 (UInt32.ofInt (r.1 * 32)).toNat)
      (kzalloc (UInt32.ofInt (r.1 * 32)) (kzalloc 16 st.kernel).2).1
      (kzalloc (UInt32.ofInt (r.1 * 32)) (kzalloc 16 st.kernel).2).2.mem r.2 rfl (dvd_zero _)
    unfold fat16ReadInternal
    rw [hq]
    exact ⟨_, rfl⟩

/-- What was loaded with every allocation served can be loaded. -/
theorem FatVolume.Loadable.of_load (hdev : volume.device.Delivers)
    {d : Option FatDirectory} {st' : FatState}
    (h : fat16LoadFatDirectory volume item st = some (d, st')) (hok : st'.kernel.oom = false) :
    volume.Loadable item := by
  by_cases hattr : item.attributes &&& fatFileSubdirectory = 0
  · exact Or.inl hattr
  unfold fat16LoadFatDirectory at h
  dsimp only at h
  rw [if_neg hattr] at h
  split_ifs at h with hnull
  · cases h
    exact absurd hnull (kzalloc_ne_zero_of_ok hok)
  obtain ⟨r, hr, h⟩ := Option.bind_eq_some_iff.mp h
  refine Or.inr ⟨(fat16GetTotalItemsForDirectory_isSome_iff hdev _ st.streams).mp
    (Option.isSome_iff_exists.mpr ⟨r, hr⟩), ?_⟩
  split_ifs at h with hitems
  · cases h
    rw [fat16FreeDirectory_oom] at hok
    exact absurd hitems (kzalloc_ne_zero_of_ok hok)
  obtain ⟨q, hq, -⟩ := Option.map_eq_some_iff.mp h
  unfold fat16ReadInternal fat16ReadInternalFromStream at hq
  by_contra hsize
  rw [if_pos (not_lt.mp hsize)] at hq
  cases hq

end Load

/-! ### When a lookup ends -/

section Lookup

variable {volume : FatVolume} {directory : FatDirectory} {item : FatDirectoryItem}
  {name : List UInt8} {st : FatState}

theorem fat16NewFatItemForDirectoryItem_isSome (hdev : volume.device.Delivers)
    (h : volume.Loadable item) (st : FatState) :
    ∃ r, fat16NewFatItemForDirectoryItem volume item st = some r := by
  unfold fat16NewFatItemForDirectoryItem
  dsimp only
  split_ifs
  · exact ⟨_, rfl⟩
  · obtain ⟨r, hr⟩ := fat16LoadFatDirectory_isSome hdev h
      { st with kernel := (kzalloc 8 st.kernel).2 }
    rw [hr]
    exact ⟨_, rfl⟩
  · exact ⟨_, rfl⟩

theorem FatVolume.Loadable.of_new (hdev : volume.device.Delivers) {f : Option FatItem}
    {st' : FatState} (h : fat16NewFatItemForDirectoryItem volume item st = some (f, st'))
    (hok : st'.kernel.oom = false) : volume.Loadable item := by
  unfold fat16NewFatItemForDirectoryItem at h
  dsimp only at h
  split_ifs at h with hnull hattr
  · cases h
    exact absurd hnull (kzalloc_ne_zero_of_ok hok)
  · obtain ⟨st₁, hmap, h⟩ := Option.map_eq_some_iff.mp h
    obtain ⟨⟨d, st₂⟩, hload, rfl⟩ := Option.map_eq_some_iff.mp hmap
    cases h
    exact FatVolume.Loadable.of_load hdev hload (fat16CloneDirectoryItem_ok hok).1
  · exact Or.inl (not_not.mp hattr)

/-- A loop that ends with every allocation served has compared every item, and loaded those that
have the name. -/
theorem fat16FindItemLoop_compares (hdev : volume.device.Delivers) (h0 : 0 ∉ name) :
    ∀ {n i : ℕ} {fItem res : Option FatItem} {st st' : FatState},
      fat16FindItemLoop volume directory name n i fItem st = some (res, st') →
      st'.kernel.oom = false → ∀ j < n,
        (∃ filename, fat16GetFullRelativeFilename (directory.itemBytes (i + j)) peachosMaxPath =
          some filename) ∧
        (directory.Named name (i + j) → volume.Loadable (itemOf (directory.itemBytes (i + j))))
  | 0, _, _, _, _, _, _, _, j, hj => absurd hj (Nat.not_lt_zero j)
  | n + 1, i, fItem, res, st, st', h, hok, j, hj => by
      unfold fat16FindItemLoop at h
      obtain ⟨filename, hname, h⟩ := Option.bind_eq_some_iff.mp h
      have hnamed := FatDirectory.named_iff h0 hname
      have hadd : ∀ j, i + 1 + j = i + (j + 1) := fun j => by omega
      rcases j with _ | j
      · rw [Nat.add_zero]
        refine ⟨⟨filename, hname⟩, fun hn => ?_⟩
        rw [if_pos (hnamed.mpr hn)] at h
        obtain ⟨⟨f, st₁⟩, hnew, h⟩ := Option.bind_eq_some_iff.mp h
        exact FatVolume.Loadable.of_new hdev hnew (fat16FindItemLoop_spec h0 h hok).1
      · rw [← hadd]
        split_ifs at h
        · obtain ⟨r, -, h⟩ := Option.bind_eq_some_iff.mp h
          exact fat16FindItemLoop_compares hdev h0 h hok j (Nat.lt_of_succ_lt_succ hj)
        · exact fat16FindItemLoop_compares hdev h0 h hok j (Nat.lt_of_succ_lt_succ hj)

end Lookup

/-! ### Right answers -/

/-- What a lookup is for: it finds an item if and only if a slot that is not deleted has the
name, and what it finds is a copy of such a slot. -/
def LookupRight (volume : FatVolume) (L : ℕ) (name : List UInt8) (res : Option FatItem) : Prop :=
  (res ≠ none ↔ ∃ i, volume.LiveSlot L i ∧ volume.rootDirectory.Named name i) ∧
  ∀ item, res = some item → ∃ i p, volume.LiveSlot L i ∧ volume.rootDirectory.Named name i ∧
    item.content = FatItemUnion.item p (itemOf (volume.rootDirectory.itemBytes i))

/-- The slots that are compared are the first `liveSlots`, deleted or not.  The last of them
with the name is not deleted, or none of them has it and no later item either. -/
def LookupReaches (volume : FatVolume) (L : ℕ) (name : List UInt8) : Prop :=
  (∃ i < volume.liveSlots L, volume.rootDirectory.Named name i ∧
    volume.rootDirectory.itemBytes i 0 ≠ 0xe5 ∧
    ∀ j, i < j → j < volume.liveSlots L → ¬ volume.rootDirectory.Named name j) ∨
  ((∀ i < volume.liveSlots L, ¬ volume.rootDirectory.Named name i) ∧
    ∀ i, volume.LiveSlot L i → ¬ volume.rootDirectory.Named name i)

theorem lookupRight_iff {volume : FatVolume} {L : ℕ} {name : List UInt8} {res : Option FatItem}
    (h : LastMatch volume.rootDirectory name 0 (volume.liveSlots L) none res) :
    LookupRight volume L name res ↔ LookupReaches volume L name := by
  have hle := volume.liveSlots_le L
  rcases h with ⟨j, hj, hnamed, hlast, ptr, p, rfl⟩ | ⟨hnone, rfl⟩
  · simp only [Nat.zero_add] at hnamed hlast
    constructor
    · rintro ⟨-, hcopy⟩
      obtain ⟨i, q, hlive, -, hitem⟩ := hcopy _ rfl
      rw [Nat.zero_add] at hitem
      -- a deleted slot is the copy of no other one
      have hbytes : volume.rootDirectory.itemBytes j 0 = volume.rootDirectory.itemBytes i 0 := by
        have hcontent := (FatItemUnion.item.inj hitem).2
        exact congrFun (congrArg FatDirectoryItem.bytes hcontent) 0
      exact Or.inl ⟨j, hj, hnamed, hbytes ▸ hlive.2, hlast⟩
    · rintro (⟨i, hi, hnamed', hlive, hlast'⟩ | ⟨hno, -⟩)
      · have hij : i = j := by
          rcases Nat.lt_trichotomy i j with hlt | heq | hgt
          · exact absurd hnamed (hlast' j hlt hj)
          · exact heq
          · exact absurd hnamed' (hlast i hgt hi)
        subst hij
        have hslot : volume.LiveSlot L i := ⟨Nat.lt_of_lt_of_le hj hle, hlive⟩
        refine ⟨iff_of_true (Option.some_ne_none _) ⟨i, hslot, hnamed⟩, fun item hitem => ?_⟩
        rw [← Option.some.inj hitem]
        exact ⟨i, p, hslot, hnamed, by rw [Nat.zero_add]⟩
      · exact absurd hnamed (hno j hj)
  · simp only [Nat.zero_add] at hnone
    constructor
    · rintro ⟨hfound, -⟩
      exact Or.inr ⟨hnone, fun i hlive hnamed => hfound.mpr ⟨i, hlive, hnamed⟩ rfl⟩
    · rintro (⟨i, hi, hnamed, -⟩ | ⟨-, hno⟩)
      · exact absurd hnamed (hnone i hi)
      · exact ⟨iff_of_false (fun h => h rfl) fun ⟨i, hlive, hnamed⟩ => hno i hlive hnamed,
          fun item h => nomatch h⟩

/-- The lookup comes to an end: the names of the slots that it compares fit in its buffer, and
those with the name can be loaded. -/
def LookupEnds (volume : FatVolume) (L : ℕ) (name : List UInt8) : Prop :=
  ∀ i < volume.liveSlots L,
    (∃ filename, fat16GetFullRelativeFilename (volume.rootDirectory.itemBytes i) peachosMaxPath =
      some filename) ∧
    (volume.rootDirectory.Named name i →
      volume.Loadable (itemOf (volume.rootDirectory.itemBytes i)))

/-- **Looking up in the root directory.**  With every allocation served, the lookup returns a right
answer if and only if it comes to an end and the slots that it compares reach the name. -/
theorem fat16FindItemInDirectory_iff {volume : FatVolume} (hdev : volume.device.Delivers)
    (hmount : volume.Mounted) (hdisk : volume.RootOnDisk) {L : ℕ} (hslots : volume.RootSlots L)
    {name : List UInt8} (h0 : 0 ∉ name) (st : FatState)
    (hserved : ∀ res st', fat16FindItemInDirectory volume volume.rootDirectory name st =
      some (res, st') → st'.kernel.oom = false) :
    (∃ res st', fat16FindItemInDirectory volume volume.rootDirectory name st = some (res, st') ∧
        LookupRight volume L name res) ↔
      LookupEnds volume L name ∧ LookupReaches volume L name := by
  have hloop : fat16FindItemInDirectory volume volume.rootDirectory name st =
      fat16FindItemLoop volume volume.rootDirectory name (volume.liveSlots L) 0 none st := by
    unfold fat16FindItemInDirectory
    rw [hslots.total hdev hmount hdisk, Int.toNat_natCast]
  constructor
  · rintro ⟨res, st', hrun, hright⟩
    have hok := hserved res st' hrun
    rw [hloop] at hrun
    refine ⟨fun i hi => ?_, (lookupRight_iff (fat16FindItemLoop_spec h0 hrun hok).2).mp hright⟩
    have hcompared := fat16FindItemLoop_compares hdev h0 hrun hok i hi
    rwa [Nat.zero_add] at hcompared
  · rintro ⟨hends, hreaches⟩
    obtain ⟨res, st', hrun⟩ : ∃ res st', fat16FindItemLoop volume volume.rootDirectory name
        (volume.liveSlots L) 0 none st = some (res, st') := by
      refine fat16FindItemLoop_returns h0 none st (fun j hj => ?_) fun j hj hnamed st => ?_
      · rw [Nat.zero_add]
        exact (hends j hj).1
      · rw [Nat.zero_add] at hnamed ⊢
        exact fat16NewFatItemForDirectoryItem_isSome hdev ((hends j hj).2 hnamed) st
    rw [← hloop] at hrun
    have hok := hserved res st' hrun
    refine ⟨res, st', hrun, ?_⟩
    rw [hloop] at hrun
    exact (lookupRight_iff (fat16FindItemLoop_spec h0 hrun hok).2).mpr hreaches

/-! ### A directory with a deleted slot -/

/-- The sectors of a disk where a deleted slot stands before the item `A`. -/
def deletedFirst : Device := fun _ =>
  (0, fun i => if i = 0 then 0xe5 else if i = 32 then 65 else if i = 64 then 0 else 0x20)

theorem exists_deletedFirst : ∃ volume : FatVolume, volume.device.Delivers ∧ volume.Mounted ∧
    volume.RootOnDisk ∧ volume.RootSlots 2 ∧ volume.liveSlots 2 = 1 ∧
    fat16GetFullRelativeFilename (volume.rootDirectory.itemBytes 0) peachosMaxPath =
      some [0xe5] ∧
    fat16GetFullRelativeFilename (volume.rootDirectory.itemBytes 1) peachosMaxPath =
      some [65] ∧
    volume.rootDirectory.itemBytes 1 0 ≠ 0xe5 := by
  have hdev : deletedFirst.Delivers := fun _ => rfl
  obtain ⟨volume, hd, hh, hmount, hslots, hbytes, -⟩ :=
    exists_mounted hdev ⟨1, 1, 0, 16, 0⟩ (by decide) (L := 2) (by decide) (by decide) (by decide)
  have hbyte : ∀ i < 128, volume.rootDirectory.bytes i =
      if i = 0 then 0xe5 else if i = 32 then 65 else if i = 64 then 0 else 0x20 := by
    intro i hi
    have hlt : (512 + i) % 512 = i := by omega
    rw [hbytes i (Nat.lt_trans hi (by decide))]
    change (deletedFirst _).2 ((512 + i) % 512) = _
    rw [hlt]
    rfl
  have hitem : ∀ i j, 32 * i + j < 128 → volume.rootDirectory.itemBytes i j =
      if 32 * i + j = 0 then 0xe5 else if 32 * i + j = 32 then 65
      else if 32 * i + j = 64 then 0 else 0x20 := fun i j h => hbyte _ h
  have h00 : volume.rootDirectory.itemBytes 0 0 = 0xe5 := hitem 0 0 (by decide)
  have h10 : volume.rootDirectory.itemBytes 1 0 = 65 := hitem 1 0 (by decide)
  refine ⟨volume, hd ▸ hdev, hmount, ?_, hslots, ?_, ?_, ?_, ?_⟩
  · unfold FatVolume.RootOnDisk
    rw [hh]
    decide
  · unfold FatVolume.liveSlots
    rw [Nat.count_succ, Nat.count_succ, Nat.count_zero, h00, h10]
    decide
  · rw [fat16GetFullRelativeFilename_one (by rw [h00]; decide) (hitem 0 1 (by decide))
      (hitem 0 8 (by decide)), h00]
  · rw [fat16GetFullRelativeFilename_one (by rw [h10]; decide) (hitem 1 1 (by decide))
      (hitem 1 8 (by decide)), h10]
  · rw [h10]
    decide

/-- A lookup in it that does not find a slot. -/
theorem fat16FindItemInDirectory_deletedFirst {volume : FatVolume}
    (hdev : volume.device.Delivers) (hmount : volume.Mounted) (hdisk : volume.RootOnDisk)
    (hslots : volume.RootSlots 2) (hlive : volume.liveSlots 2 = 1)
    (hname : fat16GetFullRelativeFilename (volume.rootDirectory.itemBytes 0) peachosMaxPath =
      some [0xe5]) {name : List UInt8} (hcmp : istrncmp [0xe5] name peachosMaxPath ≠ 0)
    (st : FatState) :
    fat16FindItemInDirectory volume volume.rootDirectory name st = some (none, st) := by
  unfold fat16FindItemInDirectory
  rw [hslots.total hdev hmount hdisk, hlive, Int.toNat_natCast]
  unfold fat16FindItemLoop
  rw [hname, Option.bind_some, if_neg hcmp]
  rfl

/-- The item `A` is not found: one slot is compared, the deleted one. -/
theorem fat16FindItemInDirectory_misses :
    ∃ volume : FatVolume, volume.device.Delivers ∧ volume.Mounted ∧ volume.RootOnDisk ∧
      volume.RootSlots 2 ∧ ∃ st res st',
        fat16FindItemInDirectory volume volume.rootDirectory [65] st = some (res, st') ∧
        st'.kernel.oom = false ∧ ¬ LookupRight volume 2 [65] res := by
  obtain ⟨volume, hdev, hmount, hdisk, hslots, hlive, hname0, hname1, hused⟩ := exists_deletedFirst
  refine ⟨volume, hdev, hmount, hdisk, hslots, ⟨⟨⟨0⟩, ⟨0⟩, ⟨0⟩⟩, freshKernel⟩, none,
    ⟨⟨⟨0⟩, ⟨0⟩, ⟨0⟩⟩, freshKernel⟩, ?_, rfl, ?_⟩
  · exact fat16FindItemInDirectory_deletedFirst hdev hmount hdisk hslots hlive hname0 (by decide) _
  · intro h
    exact h.1.mpr ⟨1, ⟨by decide, hused⟩, [65], hname1, rfl⟩ rfl

/-- In that directory the lookup of `B` returns rightly, and that of `A` does not. -/
theorem fat16FindItemInDirectory_iff_misses :
    ∃ (volume : FatVolume) (st : FatState), volume.RootSlots 2 ∧
      (∃ res st', fat16FindItemInDirectory volume volume.rootDirectory [66] st = some (res, st') ∧
        LookupRight volume 2 [66] res) ∧
      ¬ ∃ res st', fat16FindItemInDirectory volume volume.rootDirectory [65] st =
        some (res, st') ∧ LookupRight volume 2 [65] res := by
  obtain ⟨volume, hdev, hmount, hdisk, hslots, hlive, hname0, hname1, hused⟩ := exists_deletedFirst
  obtain ⟨st, hst⟩ : ∃ st : FatState, st = ⟨⟨⟨0⟩, ⟨0⟩, ⟨0⟩⟩, freshKernel⟩ := ⟨_, rfl⟩
  have hserved : ∀ name, istrncmp [0xe5] name peachosMaxPath ≠ 0 → ∀ res st',
      fat16FindItemInDirectory volume volume.rootDirectory name st = some (res, st') →
        st'.kernel.oom = false := by
    intro name hcmp res st' hrun
    rw [fat16FindItemInDirectory_deletedFirst hdev hmount hdisk hslots hlive hname0 hcmp] at hrun
    cases hrun
    rw [hst]
    rfl
  have hnamed0 : ∀ c : UInt8, istrncmp [0xe5] [c] peachosMaxPath ≠ 0 → 0 ∉ [c] →
      ¬ volume.rootDirectory.Named [c] 0 :=
    fun c hcmp h0 hnamed => hcmp ((FatDirectory.named_iff h0 hname0).mpr hnamed)
  refine ⟨volume, st, hslots, ?_, fun hright => ?_⟩
  · refine (fat16FindItemInDirectory_iff hdev hmount hdisk hslots (by decide) st
      (hserved [66] (by decide))).mpr ⟨fun i hi => ?_, Or.inr ⟨fun i hi => ?_, fun i hi => ?_⟩⟩
    · obtain rfl : i = 0 := by omega
      exact ⟨⟨_, hname0⟩, fun hnamed => absurd hnamed (hnamed0 66 (by decide) (by decide))⟩
    · obtain rfl : i = 0 := by omega
      exact hnamed0 66 (by decide) (by decide)
    · obtain ⟨hlt, -⟩ := hi
      obtain rfl | rfl : i = 0 ∨ i = 1 := by omega
      · exact hnamed0 66 (by decide) (by decide)
      · intro hnamed
        exact absurd ((FatDirectory.named_iff (by decide) hname1).mpr hnamed) (by decide)
  · obtain ⟨-, hreach⟩ := (fat16FindItemInDirectory_iff hdev hmount hdisk hslots (by decide) st
      (hserved [65] (by decide))).mp hright
    unfold LookupReaches at hreach
    rw [hlive] at hreach
    rcases hreach with ⟨i, hi, hnamed, -⟩ | ⟨-, hno⟩
    · rw [Nat.lt_one_iff.mp hi] at hnamed
      exact hnamed0 65 (by decide) (by decide) hnamed
    · exact hno 1 ⟨by decide, hused⟩ ⟨[65], hname1, rfl⟩

end PeachOS
