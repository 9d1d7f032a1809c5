import PeachOS.Fat16File
import PeachOS.Fat16Table

/-! # FAT16: where a read takes its bytes

A read cuts its range at the multiples of the size of a cluster from its own offset on, and takes
each piece from the place of its first byte.  `FatVolume.copyPos` is the place on the disk of each
byte; `fat16ReadInternalLog` is a read that records the ranges it copies. -/

namespace PeachOS

open ByteMemory

/-! ### Reading at any position -/

/-- The byte of the disk at a position of a stream, which is negative behind 2 GiB. -/
def diskByteAt (device : Device) (q : ℤ) : UInt8 :=
  (device (UInt32.ofInt (q / 512))).2 (q % 512).toNat

theorem tdiv_eq_of_tmod_nonneg {p : ℤ} (h : 0 ≤ p.tmod 512) :
    p.tdiv 512 = p / 512 ∧ p.tmod 512 = p % 512 := by
  rcases le_total 0 p with hp | hp
  · exact ⟨Int.tdiv_eq_ediv_of_nonneg hp, Int.tmod_eq_emod_of_nonneg hp⟩
  · have hneg := Int.tmod_nonneg 512 (neg_nonneg.mpr hp)
    rw [Int.neg_tmod] at hneg
    have h0 : p.tmod 512 = 0 := by omega
    obtain ⟨c, rfl⟩ := Int.dvd_of_tmod_eq_zero h0
    rw [h0]
    exact ⟨by rw [Int.mul_tdiv_cancel_left _ (by decide), Int.mul_ediv_cancel_left _ (by decide)],
      (Int.mul_emod_right _ _).symm⟩

/-- Where a read of `n` bytes leaves its sector buffer. -/
def LeavesBuffer (pos : ℤ) (n : ℕ) : Prop :=
  2147483647 < pos.tmod 512 + n ∨ (pos.tmod 512 < 0 ∧ 0 < n)

instance (pos : ℤ) (n : ℕ) : Decidable (LeavesBuffer pos n) := inferInstanceAs (Decidable (_ ∨ _))

/-- The bytes of one sector, from the middle of it on. -/
theorem sector_eq_diskByteAt (device : Device) {pos : ℤ} {i : ℕ} (hlow : -2147483648 ≤ pos)
    (hhigh : pos < 2147483648) (h : pos % 512 + i < 512) :
    (device (UInt32.ofInt (pos / 512))).2 ((pos % 512).toNat + i) =
      diskByteAt device (i32 (pos + i)) := by
  unfold diskByteAt
  rw [i32_of_range (by omega) (by omega), show (pos + i) / 512 = pos / 512 by omega,
    show ((pos + i) % 512).toNat = (pos % 512).toNat + i by omega]

/-- A read of `n` bytes, from any position on. -/
theorem diskstreamerRead_at {device : Device} (hdev : device.Delivers) (n : ℕ) :
    ∀ (pos : ℤ) (out : UInt32) (m : Mem), -2147483648 ≤ pos → pos < 2147483648 →
      diskstreamerRead device ⟨pos⟩ out n m =
        if LeavesBuffer pos n then none
        else some (0, ⟨i32 (pos + n)⟩,
          writeBytes m out (fun i => diskByteAt device (i32 (pos + i))) n) := by
  induction n using Nat.strong_induction_on with
  | _ n ih =>
      intro pos out m hlow hhigh
      have hsize : peachosSectorSize = 512 := rfl
      unfold diskstreamerRead
      dsimp only
      rw [hsize, hdev, if_neg (lt_irrefl 0)]
      have hlt : pos.tmod 512 < 512 := Int.tmod_lt_of_pos _ (by decide)
      rcases lt_or_ge (pos.tmod 512 + n) 512 with hend | hmore
      · have hno : ¬ (pos.tmod 512 + (n : ℤ) ≥ 512) := by omega
        simp only [if_neg hno]
        have hguard : (2147483647 < pos.tmod 512 + (n : ℤ) ∨ pos.tmod 512 < 0 ∧ (0 : ℤ) < n) ↔
            LeavesBuffer pos n := by
          unfold LeavesBuffer
          omega
        by_cases hleaves : LeavesBuffer pos n
        · rw [if_pos hleaves, if_pos (hguard.mpr hleaves)]
        rw [if_neg hleaves, if_neg (mt hguard.mp hleaves), Int.toNat_natCast]
        refine congrArg (fun m' => some ((0 : ℤ), (⟨i32 (pos + n)⟩ : DiskStream), m'))
          (writeBytes_congr m out fun i hi => ?_)
        obtain ⟨hdiv, hmod⟩ := tdiv_eq_of_tmod_nonneg (show 0 ≤ pos.tmod 512 by
          unfold LeavesBuffer at hleaves
          omega)
        rw [hdiv, hmod]
        exact sector_eq_diskByteAt device hlow hhigh (by omega)
      · -- up to the end of the sector, and on from there
        have hyes : pos.tmod 512 + (n : ℤ) ≥ 512 := hmore
        obtain ⟨k, hk⟩ : ∃ k : ℕ, (k : ℤ) = n - (pos.tmod 512 + n - 512) :=
          ⟨(512 - pos.tmod 512).toNat, by omega⟩
        simp only [if_pos hyes, ← hk]
        have hkn : (0 : ℤ) < k ∧ 0 < n := by omega
        have hguard : (2147483647 < pos.tmod 512 + (n : ℤ) ∨ pos.tmod 512 < 0 ∧ (0 : ℤ) < k) ↔
            LeavesBuffer pos n := by
          unfold LeavesBuffer
          omega
        by_cases hleaves : LeavesBuffer pos n
        · rw [if_pos hleaves, if_pos (hguard.mpr hleaves)]
        rw [if_neg hleaves, if_neg (mt hguard.mp hleaves), Int.toNat_natCast]
        obtain ⟨hdiv, hmod⟩ := tdiv_eq_of_tmod_nonneg (show 0 ≤ pos.tmod 512 by
          unfold LeavesBuffer at hleaves
          omega)
        rw [hmod] at hk
        have hnext := i32_range (pos + k)
        have hzero : (i32 (pos + k)).tmod 512 = 0 := by
          have hemod := i32_emod (pos + k)
          apply Int.tmod_eq_zero_of_dvd
          omega
        have hrest : ¬ LeavesBuffer (i32 (pos + k)) (n - k) := by
          unfold LeavesBuffer at hleaves ⊢
          rw [hzero]
          omega
        have hsub : (n : ℤ) - k = ((n - k : ℕ) : ℤ) := by omega
        rw [hdiv, hmod, hsub, ih (n - k) (by omega) _ _ _ hnext.1 hnext.2, if_neg hrest,
          i32_add_i32,
          writeBytes_congr m out fun i hi => sector_eq_diskByteAt device hlow hhigh (by omega)]
        have hbytes : ∀ i : ℕ, i32 (i32 (pos + k) + i) = i32 (pos + ((k + i : ℕ) : ℤ)) := by
          intro i
          rw [i32_add_i32, add_assoc, ← Nat.cast_add]
        simp only [hbytes]
        rw [writeBytes_append m out (fun i => diskByteAt device (i32 (pos + i))) k (n - k),
          show k + (n - k) = n by omega, add_assoc, ← hsub, add_sub_cancel]

@[simp] theorem writeBytes_zero (m : Mem) (p : UInt32) (f : ℕ → UInt8) :
    writeBytes m p f 0 = m := rfl

/-! ### The places that are copied -/

/-- The positions that a call of `diskstreamer_read` copies. -/
def copiedRange (pos total : ℤ) : List ℤ :=
  (List.range total.toNat).map fun i : ℕ => i32 (pos + i)

/-- `fat16_read_internal`, with the positions of the disk that it copies, in their order. -/
def fat16ReadInternalLog (volume : FatVolume) (cluster offset total : ℤ) (out : UInt32)
    (m : Mem) (streams : FatStreams) : Option (List ℤ × (ℤ × Mem) × FatStreams) :=
  let size := volume.sizeOfClusterBytes
  if size ≤ 0 then none
  else
    (fat16GetClusterForOffset volume cluster offset streams).bind fun found =>
      let clusterToUse := found.1
      if clusterToUse < 0 then some ([], (clusterToUse, m), found.2)
      else
        let offsetFromCluster := offset.tmod size
        let startingSector := fat16ClusterToSector volume clusterToUse
        let startingPos := i32 (i32 (startingSector * peachosSectorSize) + offsetFromCluster)
        let totalToRead := if total > size then size else total
        let sought := diskstreamerSeek found.2.clusterReadStream startingPos
        if sought.1 ≠ 0 then
          some ([], (sought.1, m), { found.2 with clusterReadStream := sought.2 })
        else
          (diskstreamerRead volume.device sought.2 out totalToRead m).bind fun r =>
            let streams := { found.2 with clusterReadStream := r.2.1 }
            let copied := copiedRange startingPos totalToRead
            if r.1 ≠ 0 then some (copied, (r.1, r.2.2), streams)
            else if total - totalToRead > 0 then
              (fat16ReadInternalLog volume cluster (i32 (offset + totalToRead))
                (total - totalToRead) (off out totalToRead.toNat) r.2.2 streams).map fun q =>
                  (copied ++ q.1, q.2)
            else some (copied, (0, r.2.2), streams)
termination_by total.toNat
decreasing_by
  rename_i hsize _ _ _ hmore
  have hread : totalToRead = if total > size then size else total := rfl
  have hmore' : total - totalToRead > 0 := hmore
  have hsize' : ¬ size ≤ 0 := hsize
  change (total - totalToRead).toNat < total.toNat
  clear_value totalToRead size
  split_ifs at hread <;> omega

/-- The log changes nothing. -/
theorem fat16ReadInternalLog_snd (volume : FatVolume) (cluster : ℤ) (n : ℕ) :
    ∀ (offset total : ℤ) (out : UInt32) (m : Mem) (streams : FatStreams), total.toNat = n →
      (fat16ReadInternalLog volume cluster offset total out m streams).map Prod.snd =
        fat16ReadInternal volume cluster offset total out m streams := by
  unfold fat16ReadInternal
  induction n using Nat.strong_induction_on with
  | _ n ih =>
      intro offset total out m streams hn
      rw [fat16ReadInternalLog, fat16ReadInternalFromStream]
      dsimp only [diskstreamerSeek]
      by_cases hsize : volume.sizeOfClusterBytes ≤ 0
      · rw [if_pos hsize, if_pos hsize]
        rfl
      rw [if_neg hsize, if_neg hsize]
      cases fat16GetClusterForOffset volume cluster offset streams with
      | none => rfl
      | some found =>
          obtain ⟨clusterToUse, streams'⟩ := found
          obtain ⟨totalToRead, hread⟩ : ∃ totalToRead, totalToRead =
            if total > volume.sizeOfClusterBytes then volume.sizeOfClusterBytes else total :=
              ⟨_, rfl⟩
          simp only [Option.bind_some, ← hread, ne_eq, not_true_eq_false, if_false]
          by_cases hfound : clusterToUse < 0
          · rw [if_pos hfound, if_pos hfound]
            rfl
          rw [if_neg hfound, if_neg hfound]
          cases diskstreamerRead volume.device ⟨i32 (i32 (fat16ClusterToSector volume clusterToUse *
            peachosSectorSize) + offset.tmod volume.sizeOfClusterBytes)⟩ out totalToRead m with
          | none => rfl
          | some r =>
              dsimp only [Option.bind_some]
              by_cases hres : r.1 = 0
              · by_cases hmore : total - totalToRead > 0
                · simp only [hres, not_true_eq_false, if_false, if_pos hmore, Option.map_map]
                  refine ih (total - totalToRead).toNat ?_ _ _ _ _ _ rfl
                  split_ifs at hread <;> omega
                · simp only [hres, not_true_eq_false, if_false, if_neg hmore]
                  rfl
              · simp only [hres, not_false_eq_true, if_true]
                rfl

/-! ### The clusters that are found -/

/-- The entry that is read for a cluster. -/
def FatVolume.fatNext (volume : FatVolume) (cluster : ℤ) : ℤ :=
  word (volume.fatEntryRead cluster 0) (volume.fatEntryRead cluster 1)

/-- The cluster of an offset, as many entries behind the first one as there are whole clusters
before the offset. -/
def FatVolume.clusterFor (volume : FatVolume) (cluster offset : ℤ) : ℤ :=
  volume.fatNext^[(offset.tdiv volume.sizeOfClusterBytes).toNat] cluster

/-- A walk that succeeds finds it. -/
theorem fat16GetClusterForOffset_found {volume : FatVolume} (hdev : volume.device.Delivers)
    {cluster offset res : ℤ} {streams streams' : FatStreams}
    (h : fat16GetClusterForOffset volume cluster offset streams = some (res, streams'))
    (hres : 0 ≤ res) : res = volume.clusterFor cluster offset := by
  have hfat : ReadsFat (fat16GetFatEntry volume) volume.fatNext := fat16GetFatEntry_eq hdev
  unfold fat16GetClusterForOffset at h
  by_cases hsize : volume.sizeOfClusterBytes = 0
  · rw [if_pos hsize] at h
    cases h
  · rw [if_neg hsize, fat16ClusterLoop_eq] at h
    have hwalk := clusterLoopWith_eq hfat (offset.tdiv volume.sizeOfClusterBytes).toNat cluster
      streams
    rw [h, Option.map_some, Option.some.injEq] at hwalk
    dsimp only at hwalk
    split_ifs at hwalk
    · rw [hwalk] at hres
      exact absurd hres (by decide)
    · exact hwalk

/-- The place at which a piece of a read begins. -/
def FatVolume.piecePos (volume : FatVolume) (cluster offset : ℤ) : ℤ :=
  i32 (i32 (fat16ClusterToSector volume (volume.clusterFor cluster offset) * peachosSectorSize) +
    offset.tmod volume.sizeOfClusterBytes)

/-- The place of byte `j` of a read from `offset` on: in the piece from the last multiple of the
size of a cluster on. -/
def FatVolume.copyPos (volume : FatVolume) (cluster offset : ℤ) (j : ℕ) : ℤ :=
  let size := volume.sizeOfClusterBytes.toNat
  i32 (volume.piecePos cluster (i32 (offset + (j / size * size : ℕ))) + (j % size : ℕ))

theorem FatVolume.copyPos_piece {volume : FatVolume} (cluster : ℤ) {offset : ℤ} {j : ℕ}
    (hlow : -2147483648 ≤ offset) (hhigh : offset < 2147483648)
    (hj : j < volume.sizeOfClusterBytes.toNat) :
    volume.copyPos cluster offset j = i32 (volume.piecePos cluster offset + j) := by
  unfold FatVolume.copyPos
  dsimp only
  rw [Nat.div_eq_of_lt hj, Nat.mod_eq_of_lt hj, Nat.zero_mul, Nat.cast_zero, add_zero,
    i32_of_range hlow hhigh]

/-- The bytes behind the first piece are those of a read from there on. -/
theorem FatVolume.copyPos_next {volume : FatVolume} (hsize : 0 < volume.sizeOfClusterBytes)
    (cluster offset : ℤ) (j : ℕ) :
    volume.copyPos cluster (i32 (offset + volume.sizeOfClusterBytes)) j =
      volume.copyPos cluster offset (volume.sizeOfClusterBytes.toNat + j) := by
  obtain ⟨size, hnat⟩ := Int.eq_ofNat_of_zero_le hsize.le
  have hpos : 0 < size := by omega
  unfold FatVolume.copyPos
  rw [hnat]
  dsimp only [Int.ofNat_eq_natCast, Int.toNat_natCast]
  rw [Nat.add_div_left _ hpos, Nat.add_mod_left, i32_add_i32, Nat.succ_mul]
  push_cast
  rw [show offset + (size : ℤ) + (j : ℤ) / size * size = offset + ((j : ℤ) / size * size + size)
    by ring]

/-- Nothing is read where no byte is asked for. -/
theorem diskstreamerRead_neg {device : Device} (hdev : device.Delivers) {total : ℤ}
    (htotal : total < 0) (pos : ℤ) (out : UInt32) (m : Mem) :
    diskstreamerRead device ⟨pos⟩ out total m = some (0, ⟨i32 (pos + total)⟩, m) := by
  have hlt : pos.tmod 512 < 512 := Int.tmod_lt_of_pos _ (by decide)
  have hno : ¬ (pos.tmod peachosSectorSize + total ≥ peachosSectorSize) := by
    have hsize : peachosSectorSize = 512 := rfl
    rw [hsize]
    omega
  have hsize : peachosSectorSize = 512 := rfl
  rw [diskstreamerRead]
  simp only [if_neg hno]
  rw [hdev, if_neg (lt_irrefl 0), if_neg (by rw [hsize]; omega), Int.toNat_of_nonpos htotal.le]
  rfl

/-- **Where a read takes its bytes.**  If a read succeeds, the buffer receives the bytes at the
places of the read, and these are the positions that it copies. -/
theorem fat16ReadInternalLog_copies {volume : FatVolume} (hdev : volume.device.Delivers)
    (cluster : ℤ) (n : ℕ) :
    ∀ {offset total res : ℤ} {out : UInt32} {m m' : Mem} {streams streams' : FatStreams}
      {log : List ℤ}, total.toNat = n → -2147483648 ≤ offset → offset < 2147483648 →
      fat16ReadInternalLog volume cluster offset total out m streams =
        some (log, (res, m'), streams') → 0 ≤ res →
      log = (List.range n).map (volume.copyPos cluster offset) ∧
      m' = writeBytes m out (fun j => diskByteAt volume.device (volume.copyPos cluster offset j))
        n := by
  induction n using Nat.strong_induction_on with
  | _ n ih =>
      intro offset total res out m m' streams streams' log hn hlow hhigh h hres
      rw [fat16ReadInternalLog] at h
      dsimp only [diskstreamerSeek] at h
      by_cases hsize : volume.sizeOfClusterBytes ≤ 0
      · rw [if_pos hsize] at h
        cases h
      rw [if_neg hsize] at h
      obtain ⟨⟨clusterToUse, streams₁⟩, hfound, h⟩ := Option.bind_eq_some_iff.mp h
      dsimp only at h
      by_cases hneg : clusterToUse < 0
      · rw [if_pos hneg, Option.some.injEq] at h
        cases h
        omega
      obtain rfl := fat16GetClusterForOffset_found hdev hfound (not_lt.mp hneg)
      simp only [if_neg hneg, ne_eq, not_true_eq_false, if_false] at h
      obtain ⟨pos, hpos⟩ : ∃ pos, pos = volume.piecePos cluster offset := ⟨_, rfl⟩
      have hrange := i32_range (i32 (fat16ClusterToSector volume (volume.clusterFor cluster
        offset) * peachosSectorSize) + offset.tmod volume.sizeOfClusterBytes)
      rw [← FatVolume.piecePos, ← hpos] at h hrange
      rcases lt_or_ge total 0 with htotal | htotal
      · have hread : (if total > volume.sizeOfClusterBytes then volume.sizeOfClusterBytes
            else total) = total := if_neg (by omega)
        obtain rfl : n = 0 := by omega
        simp only [hread, diskstreamerRead_neg hdev htotal, Option.bind_some, not_true_eq_false,
          if_false, sub_self, gt_iff_lt, lt_irrefl, Option.some.injEq, Prod.mk.injEq] at h
        obtain ⟨rfl, ⟨-, rfl⟩, -⟩ := h
        unfold copiedRange
        rw [Int.toNat_of_nonpos htotal.le, List.range_zero, List.map_nil, List.map_nil]
        exact ⟨rfl, rfl⟩
      obtain ⟨k, hk⟩ : ∃ k : ℕ, (k : ℤ) = if total > volume.sizeOfClusterBytes then
          volume.sizeOfClusterBytes else total := by
        refine ⟨(if total > volume.sizeOfClusterBytes then volume.sizeOfClusterBytes
          else total).toNat, ?_⟩
        split_ifs <;> omega
      rw [← hk, diskstreamerRead_at hdev k pos out m hrange.1 hrange.2] at h
      by_cases hleaves : LeavesBuffer pos k
      · rw [if_pos hleaves] at h
        cases h
      simp only [if_neg hleaves, Option.bind_some, not_true_eq_false, if_false,
        Int.toNat_natCast] at h
      have hkn : k ≤ n ∧ k ≤ volume.sizeOfClusterBytes.toNat := by
        split_ifs at hk <;> omega
      have hfirst : ∀ j < k, volume.copyPos cluster offset j = i32 (pos + j) := fun j hj => by
        rw [FatVolume.copyPos_piece cluster hlow hhigh (by omega), hpos]
      have hcopied : copiedRange pos k =
          (List.range k).map (volume.copyPos cluster offset) := by
        unfold copiedRange
        rw [Int.toNat_natCast]
        exact List.map_congr_left fun j hj => (hfirst j (List.mem_range.mp hj)).symm
      by_cases hmore : total - k > 0
      · rw [if_pos hmore] at h
        obtain ⟨⟨log', ⟨res', m''⟩, streams''⟩, hrest, h⟩ := Option.map_eq_some_iff.mp h
        cases h
        have hkc : (k : ℤ) = volume.sizeOfClusterBytes := by
          split_ifs at hk <;> omega
        have hnext := i32_range (offset + k)
        obtain ⟨hlog, hmem⟩ := ih (n - k) (by omega) (by omega) hnext.1 hnext.2 hrest hres
        have hplaces : ∀ j, volume.copyPos cluster (i32 (offset + k)) j =
            volume.copyPos cluster offset (k + j) := fun j => by
          rw [hkc, FatVolume.copyPos_next (by omega), ← hkc, Int.toNat_natCast]
        constructor
        · rw [hcopied, hlog, show n = k + (n - k) by omega, List.range_add, List.map_append,
            List.map_map, Nat.add_sub_cancel_left]
          exact congrArg _ (List.map_congr_left fun j _ => hplaces j)
        · have hbytes : writeBytes m out (fun j => diskByteAt volume.device (i32 (pos + j))) k =
              writeBytes m out
                (fun j => diskByteAt volume.device (volume.copyPos cluster offset j)) k :=
            writeBytes_congr _ _ fun j hj => by rw [hfirst j hj]
          rw [hmem, hbytes]
          simp only [hplaces]
          rw [writeBytes_append m out
            (fun j => diskByteAt volume.device (volume.copyPos cluster offset j)),
            Nat.add_sub_cancel' hkn.1]
      · rw [if_neg hmore, Option.some.injEq] at h
        cases h
        obtain rfl : k = n := by
          split_ifs at hk <;> omega
        exact ⟨hcopied, writeBytes_congr _ _ fun j hj => by rw [hfirst j hj]⟩

/-! ### Members -/

/-- The loop of `fat16_read`, with the positions that it copies. -/
def fat16ReadLoopLog (volume : FatVolume) (item : FatDirectoryItem) (size : UInt32) :
    ℕ → ℤ → UInt32 → FatStreams → Mem → Option (List ℤ × ℤ × FatStreams × Mem)
  | 0, _, _, streams, m => some ([], 0, streams, m)
  | n + 1, offset, out, streams, m =>
      (fat16ReadInternalLog volume (i32 (fat16GetFirstCluster item).toNat) offset
        (i32 size.toNat) out m streams).bind fun r =>
          if r.2.1.1 < 0 then some (r.1, r.2.1.1, r.2.2, r.2.1.2)
          else
            (fat16ReadLoopLog volume item size n (i32 (offset + size.toNat)) (out + size) r.2.2
              r.2.1.2).map fun q => (r.1 ++ q.1, q.2)

/-- `fat16_read`, with the positions of the disk that it copies. -/
def fat16ReadLog (volume : FatVolume) (descriptor : FatFileDescriptor) (size nmemb out : UInt32)
    (streams : FatStreams) (m : Mem) : Option (List ℤ × ℤ × FatStreams × Mem) :=
  descriptor.item.directoryItem.bind fun item =>
    (fat16ReadLoopLog volume item size nmemb.toNat (i32 descriptor.pos.toNat) out streams m).map
      fun r => if r.2.1 < 0 then r else (r.1, i32 nmemb.toNat, r.2.2)

theorem fat16ReadLoopLog_snd (volume : FatVolume) (item : FatDirectoryItem) (size : UInt32) :
    ∀ (n : ℕ) (offset : ℤ) (out : UInt32) (streams : FatStreams) (m : Mem),
      (fat16ReadLoopLog volume item size n offset out streams m).map Prod.snd =
        fat16ReadLoop volume item size n offset out streams m
  | 0, _, _, _, _ => rfl
  | n + 1, offset, out, streams, m => by
      unfold fat16ReadLoopLog fat16ReadLoop
      rw [← fat16ReadInternalLog_snd volume _ _ offset (i32 size.toNat) out m streams rfl]
      cases fat16ReadInternalLog volume (i32 (fat16GetFirstCluster item).toNat) offset
        (i32 size.toNat) out m streams with
      | none => rfl
      | some r =>
          dsimp only [Option.bind_some, Option.map_some]
          by_cases hres : r.2.1.1 < 0
          · rw [if_pos hres, if_pos hres]
            rfl
          · rw [if_neg hres, if_neg hres, Option.map_map,
              ← fat16ReadLoopLog_snd volume item size n]
            rfl

/-- The log changes nothing. -/
theorem fat16ReadLog_snd (volume : FatVolume) (descriptor : FatFileDescriptor)
    (size nmemb out : UInt32) (streams : FatStreams) (m : Mem) :
    (fat16ReadLog volume descriptor size nmemb out streams m).map Prod.snd =
      fat16Read volume descriptor size nmemb out streams m := by
  unfold fat16ReadLog fat16Read
  cases descriptor.item.directoryItem with
  | none => rfl
  | some item =>
      rw [Option.bind_some, Option.bind_some, ← fat16ReadLoopLog_snd, Option.map_map,
        Option.map_map]
      refine congrArg (fun f => Option.map f _) (funext fun r => ?_)
      dsimp only [Function.comp_apply]
      split_ifs <;> rfl

/-- The number of bytes that are read for a member of `size` bytes: none where the size is
negative as an `int`. -/
def memberBytes (size : UInt32) : ℕ := (i32 size.toNat).toNat

theorem memberBytes_cases (size : UInt32) :
    (size.toNat < 2147483648 ∧ memberBytes size = size.toNat) ∨
      (2147483648 ≤ size.toNat ∧ memberBytes size = 0) := by
  have hlt := toNat_lt size
  have hmod := i32_emod size.toNat
  have hrange := i32_range size.toNat
  unfold memberBytes
  omega

/-- The place of byte `i` of a read of members of `size` bytes. -/
def FatVolume.memberPos (volume : FatVolume) (cluster offset : ℤ) (size i : ℕ) : ℤ :=
  volume.copyPos cluster (i32 (offset + (i / size * size : ℕ))) (i % size)

/-- The bytes behind the first member are those of a read from there on. -/
theorem FatVolume.memberPos_next (volume : FatVolume) (cluster offset : ℤ) {size : ℕ}
    (hsize : 0 < size) (i : ℕ) :
    volume.memberPos cluster (i32 (offset + size)) size i =
      volume.memberPos cluster offset size (size + i) := by
  unfold FatVolume.memberPos
  rw [Nat.add_div_left _ hsize, Nat.add_mod_left, i32_add_i32, Nat.succ_mul]
  push_cast
  rw [show offset + (size : ℤ) + (i : ℤ) / size * size = offset + ((i : ℤ) / size * size + size)
    by ring]

theorem FatVolume.memberPos_member (volume : FatVolume) (cluster : ℤ) {offset : ℤ} {size i : ℕ}
    (hlow : -2147483648 ≤ offset) (hhigh : offset < 2147483648) (hi : i < size) :
    volume.memberPos cluster offset size i = volume.copyPos cluster offset i := by
  unfold FatVolume.memberPos
  rw [Nat.div_eq_of_lt hi, Nat.mod_eq_of_lt hi, Nat.zero_mul, Nat.cast_zero, add_zero,
    i32_of_range hlow hhigh]

/-- The rounds of a read, by induction on the members that are left. -/
theorem fat16ReadLoopLog_copies {volume : FatVolume} (hdev : volume.device.Delivers)
    (item : FatDirectoryItem) {size : UInt32} (hsize : 1 ≤ size.toNat) :
    ∀ (n : ℕ) {offset res : ℤ} {out : UInt32} {m m' : Mem} {streams streams' : FatStreams}
      {log : List ℤ}, -2147483648 ≤ offset → offset < 2147483648 →
      fat16ReadLoopLog volume item size n offset out streams m =
        some (log, res, streams', m') → 0 ≤ res →
      log = (List.range (n * memberBytes size)).map
        (volume.memberPos (i32 (fat16GetFirstCluster item).toNat) offset size.toNat) ∧
      m' = writeBytes m out (fun i => diskByteAt volume.device
        (volume.memberPos (i32 (fat16GetFirstCluster item).toNat) offset size.toNat i))
          (n * memberBytes size)
  | 0, _, _, _, _, _, _, _, _, _, _, h, _ => by
      cases h
      rw [Nat.zero_mul, List.range_zero, List.map_nil]
      exact ⟨rfl, rfl⟩
  | n + 1, offset, res, out, m, m', streams, streams', log, hlow, hhigh, h, hres => by
      unfold fat16ReadLoopLog at h
      obtain ⟨⟨log₁, ⟨res₁, m₁⟩, streams₁⟩, hfirst, h⟩ := Option.bind_eq_some_iff.mp h
      dsimp only at h
      by_cases hneg : res₁ < 0
      · rw [if_pos hneg] at h
        cases h
        omega
      rw [if_neg hneg] at h
      obtain ⟨⟨log₂, res₂, streams₂, m₂⟩, hrest, h⟩ := Option.map_eq_some_iff.mp h
      cases h
      have hnext := i32_range (offset + size.toNat)
      obtain ⟨hlog₁, hm₁⟩ := fat16ReadInternalLog_copies hdev _ (memberBytes size) rfl hlow hhigh
        hfirst (not_lt.mp hneg)
      obtain ⟨hlog₂, hm₂⟩ := fat16ReadLoopLog_copies hdev item hsize n hnext.1 hnext.2 hrest hres
      rcases memberBytes_cases size with ⟨hlt, hbytes⟩ | ⟨-, hbytes⟩
      · -- the first member, and the others behind it
        rw [hbytes] at hlog₁ hm₁ hlog₂ hm₂ ⊢
        have hout : out + size = off out size.toNat := by
          rw [off, UInt32.ofNat_toNat]
        rw [hout] at hm₂
        rw [Nat.succ_mul, Nat.add_comm]
        simp only [volume.memberPos_next _ offset hsize] at hm₂
        constructor
        · rw [hlog₁, hlog₂, List.range_add, List.map_append, List.map_map]
          refine congrArg₂ _ (List.map_congr_left fun i hi => ?_)
            (List.map_congr_left fun i _ => volume.memberPos_next _ offset hsize i)
          exact (volume.memberPos_member _ hlow hhigh (List.mem_range.mp hi)).symm
        · have hmember : m₁ = writeBytes m out (fun i => diskByteAt volume.device
              (volume.memberPos (i32 (fat16GetFirstCluster item).toNat) offset size.toNat i))
              size.toNat := by
            rw [hm₁]
            exact writeBytes_congr _ _ fun i hi => by rw [volume.memberPos_member _ hlow hhigh hi]
          rw [hm₂, hmember]
          exact writeBytes_append m out (fun i => diskByteAt volume.device
            (volume.memberPos _ offset size.toNat i)) size.toNat (n * size.toNat)
      · rw [hbytes, List.range_zero, List.map_nil] at hlog₁
        rw [hbytes, writeBytes_zero] at hm₁
        rw [hbytes, Nat.mul_zero, List.range_zero, List.map_nil] at hlog₂
        rw [hbytes, Nat.mul_zero, writeBytes_zero] at hm₂
        rw [hbytes, Nat.mul_zero, List.range_zero, List.map_nil, writeBytes_zero, hlog₁, hlog₂,
          hm₂]
        exact ⟨rfl, hm₁⟩

/-- A read that succeeds: its result, the positions it copies and the bytes in the buffer. -/
theorem fat16ReadLog_copies {volume : FatVolume} (hdev : volume.device.Delivers)
    {descriptor : FatFileDescriptor} {item : FatDirectoryItem}
    (hitem : descriptor.item.directoryItem = some item) {size nmemb out : UInt32}
    (hsize : 1 ≤ size.toNat) {streams streams' : FatStreams} {m m' : Mem} {log : List ℤ} {res : ℤ}
    (h : fat16ReadLog volume descriptor size nmemb out streams m = some (log, res, streams', m'))
    (hres : 0 ≤ res) :
    res = i32 nmemb.toNat ∧
    log = (List.range (nmemb.toNat * memberBytes size)).map
      (volume.memberPos (i32 (fat16GetFirstCluster item).toNat) (i32 descriptor.pos.toNat)
        size.toNat) ∧
    m' = writeBytes m out (fun i => diskByteAt volume.device
      (volume.memberPos (i32 (fat16GetFirstCluster item).toNat) (i32 descriptor.pos.toNat)
        size.toNat i)) (nmemb.toNat * memberBytes size) := by
  unfold fat16ReadLog at h
  rw [hitem, Option.bind_some] at h
  obtain ⟨⟨log₁, res₁, streams₁, m₁⟩, hloop, h⟩ := Option.map_eq_some_iff.mp h
  have hrange := i32_range descriptor.pos.toNat
  dsimp only at h
  by_cases hneg : res₁ < 0
  · rw [if_pos hneg] at h
    cases h
    omega
  rw [if_neg hneg] at h
  cases h
  exact ⟨rfl, fat16ReadLoopLog_copies hdev item hsize _ hrange.1 hrange.2 hloop (not_lt.mp hneg)⟩

end PeachOS
