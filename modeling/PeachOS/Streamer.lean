import PeachOS.ByteMemory

/-! # The disk streamer

`streamer.c`: reading bytes from any position of the disk through a buffer of one sector.
What `disk_read_block` answers for each sector is a `Device`.  A read that would leave the
sector buffer has no result.

`diskstreamerRead_bytes` says which bytes are read, and `diskstreamerReadLog_exact_iff` which
sectors are asked for: one too many if the last byte is the last one of its sector. -/

namespace PeachOS

open ByteMemory

/-! ### The code -/

/-- `PEACHOS_SECTOR_SIZE`. -/
def peachosSectorSize : ℤ := 512

/-- `disk_read_block` for one sector: its result, and the bytes it stores. -/
abbrev Device := UInt32 → ℤ × (ℕ → UInt8)

/-- `struct disk_stream`. -/
structure DiskStream where
  pos : ℤ
deriving DecidableEq, Repr

/-- `diskstreamer_seek`. -/
def diskstreamerSeek (stream : DiskStream) (pos : ℤ) : ℤ × DiskStream := (0, { stream with pos })

/-- `diskstreamer_read`: the result, the stream and the memory that `out` points into. -/
def diskstreamerRead (device : Device) (stream : DiskStream) (out : UInt32) (total : ℤ) (m : Mem) :
    Option (ℤ × DiskStream × Mem) :=
  let sector := stream.pos.tdiv peachosSectorSize
  let offset := stream.pos.tmod peachosSectorSize
  let overflow := offset + total ≥ peachosSectorSize
  let totalToRead := if overflow then total - (offset + total - peachosSectorSize) else total
  let block := device (UInt32.ofInt sector)
  if block.1 < 0 then some (block.1, stream, m)
  -- the sum overflows and the copy runs past the end of `buf`, or it starts before `buf`
  else if 2147483647 < offset + total ∨ (offset < 0 ∧ 0 < totalToRead) then none
  else
    let copied := writeBytes m out (fun i => block.2 (offset.toNat + i)) totalToRead.toNat
    let next := { stream with pos := i32 (stream.pos + totalToRead) }
    if overflow then
      diskstreamerRead device next (off out totalToRead.toNat) (total - totalToRead) copied
    else some (block.1, next, copied)
termination_by total.toNat
decreasing_by
  rename_i hin hover
  have hlt : offset < 512 := Int.tmod_lt_of_pos _ (by decide)
  have hread : totalToRead = total - (offset + total - 512) := if_pos hover
  have hge : 512 ≤ offset + total := hover
  have hin' : ¬ (2147483647 < offset + total ∨ (offset < 0 ∧ 0 < totalToRead)) := hin
  change (total - totalToRead).toNat < total.toNat
  clear_value offset totalToRead
  omega

/-! ### What is read -/

/-- `disk_read_block` delivers every sector. -/
def Device.Delivers (device : Device) : Prop := ∀ lba, (device lba).1 = 0

/-- The byte of the disk at position `p`. -/
def diskByte (device : Device) (p : ℕ) : UInt8 := (device (UInt32.ofNat (p / 512))).2 (p % 512)

/-- The bytes of one sector, from the middle of it on. -/
theorem sector_eq_diskByte (device : Device) {pos i : ℕ} (h : pos % 512 + i < 512) :
    (device (UInt32.ofNat (pos / 512))).2 (pos % 512 + i) = diskByte device (pos + i) := by
  unfold diskByte
  rw [show (pos + i) / 512 = pos / 512 by omega, show (pos + i) % 512 = pos % 512 + i by omega]

/-- A read on a disk that delivers copies the bytes from the position of the stream on, and
moves the stream behind them. -/
theorem diskstreamerRead_eq {device : Device} (hdev : device.Delivers) (n : ℕ) :
    ∀ (pos : ℕ) (out : UInt32) (m : Mem), pos + n + 512 < 2147483648 →
      diskstreamerRead device ⟨pos⟩ out n m = some (0, ⟨((pos + n : ℕ) : ℤ)⟩,
        writeBytes m out (fun i => diskByte device (pos + i)) n) := by
  induction n using Nat.strong_induction_on with
  | _ n ih =>
      intro pos out m hpos
      have hsector : ((pos : ℤ)).tdiv peachosSectorSize = ((pos / 512 : ℕ) : ℤ) := rfl
      have hoffset : ((pos : ℤ)).tmod peachosSectorSize = ((pos % 512 : ℕ) : ℤ) := rfl
      have hsize : peachosSectorSize = 512 := rfl
      unfold diskstreamerRead
      dsimp only
      rw [hsector, hoffset, hsize, ofInt_natCast, hdev, if_neg (lt_irrefl 0), Int.toNat_natCast]
      rcases Nat.lt_or_ge (pos % 512 + n) 512 with hlt | hge
      · have hno : ¬ (((pos % 512 : ℕ) : ℤ) + (n : ℤ) ≥ 512) := by omega
        simp only [if_neg hno]
        rw [if_neg (by omega), Int.toNat_natCast, ← Nat.cast_add,
          i32_of_range (by omega) (by omega),
          writeBytes_congr m out fun i hi => sector_eq_diskByte device (by omega)]
      · -- up to the end of the sector, and on from there
        have hyes : ((pos % 512 : ℕ) : ℤ) + (n : ℤ) ≥ 512 := by omega
        obtain ⟨k, hk⟩ : ∃ k, k = 512 - pos % 512 := ⟨_, rfl⟩
        have hread : (n : ℤ) - (((pos % 512 : ℕ) : ℤ) + n - 512) = (k : ℤ) := by omega
        have hrest : (n : ℤ) - (k : ℤ) = ((n - k : ℕ) : ℤ) := by omega
        simp only [if_pos hyes, hread, hrest]
        rw [if_neg (by omega), Int.toNat_natCast, ← Nat.cast_add,
          i32_of_range (by omega) (by omega), ih (n - k) (by omega) (pos + k) _ _ (by omega),
          show pos + k + (n - k) = pos + n by omega,
          writeBytes_congr m out fun i hi => sector_eq_diskByte device (by omega)]
        simp only [Nat.add_assoc]
        rw [writeBytes_append m out (fun i => diskByte device (pos + i)) k (n - k),
          show k + (n - k) = n by omega]

/-- **A read delivers the bytes of the disk** from the position of the stream on, writes nothing
else, and moves the stream behind them. -/
theorem diskstreamerRead_bytes {device : Device} (hdev : device.Delivers) {pos total : ℕ}
    (hpos : pos + total + 512 < 2147483648) (out : UInt32) (m : Mem) :
    ∃ m', diskstreamerRead device ⟨pos⟩ out total m = some (0, ⟨((pos + total : ℕ) : ℤ)⟩, m') ∧
      (∀ i < total, m' (off out i) = diskByte device (pos + i)) ∧
      ∀ x, ¬ InRange out total x → m' x = m x := by
  refine ⟨_, diskstreamerRead_eq hdev total pos out m hpos, fun i hi => ?_, fun x hx => ?_⟩
  · rw [writeBytes_apply _ _ _ _ _ (by omega), if_pos (inRange_off hi), off, add_sub_cancel_left,
      UInt32.toNat_ofNat_of_lt' (show i < 4294967296 by omega)]
  · rw [writeBytes_apply _ _ _ _ _ (by omega), if_neg hx]

/-- A read across the boundary of two sectors. -/
theorem diskstreamerRead_bytes_boundary :
    ∃ m', diskstreamerRead (fun lba => (0, fun _ => lba.toUInt8)) ⟨(510 : ℕ)⟩ 0 (4 : ℕ)
        (fun _ => 9) = some (0, ⟨((510 + 4 : ℕ) : ℤ)⟩, m') ∧
      (∀ i < 4, m' (off 0 i) =
        diskByte (fun lba => (0, fun _ => lba.toUInt8)) (510 + i)) ∧
      ∀ x, ¬ InRange 0 4 x → m' x = 9 :=
  diskstreamerRead_bytes (fun _ => rfl) (by decide) 0 fun _ => 9

/-! ### The sectors that are asked for -/

/-- `diskstreamer_read` with the sectors it asks `disk_read_block` for, in their order. -/
def diskstreamerReadLog (device : Device) (stream : DiskStream) (out : UInt32) (total : ℤ)
    (m : Mem) : Option (List UInt32 × ℤ × DiskStream × Mem) :=
  let sector := stream.pos.tdiv peachosSectorSize
  let offset := stream.pos.tmod peachosSectorSize
  let overflow := offset + total ≥ peachosSectorSize
  let totalToRead := if overflow then total - (offset + total - peachosSectorSize) else total
  let block := device (UInt32.ofInt sector)
  if block.1 < 0 then some ([UInt32.ofInt sector], block.1, stream, m)
  else if 2147483647 < offset + total ∨ (offset < 0 ∧ 0 < totalToRead) then none
  else
    let copied := writeBytes m out (fun i => block.2 (offset.toNat + i)) totalToRead.toNat
    let next := { stream with pos := i32 (stream.pos + totalToRead) }
    if overflow then
      (diskstreamerReadLog device next (off out totalToRead.toNat) (total - totalToRead)
        copied).map fun r => (UInt32.ofInt sector :: r.1, r.2)
    else some ([UInt32.ofInt sector], block.1, next, copied)
termination_by total.toNat
decreasing_by
  rename_i hin hover
  have hlt : offset < 512 := Int.tmod_lt_of_pos _ (by decide)
  have hread : totalToRead = total - (offset + total - 512) := if_pos hover
  have hge : 512 ≤ offset + total := hover
  have hin' : ¬ (2147483647 < offset + total ∨ (offset < 0 ∧ 0 < totalToRead)) := hin
  change (total - totalToRead).toNat < total.toNat
  clear_value offset totalToRead
  omega

/-- The log changes nothing. -/
theorem diskstreamerReadLog_snd (device : Device) (n : ℕ) :
    ∀ (stream : DiskStream) (out : UInt32) (total : ℤ) (m : Mem), total.toNat = n →
      (diskstreamerReadLog device stream out total m).map Prod.snd =
        diskstreamerRead device stream out total m := by
  induction n using Nat.strong_induction_on with
  | _ n ih =>
      intro stream out total m hn
      have hlt : stream.pos.tmod peachosSectorSize < 512 := Int.tmod_lt_of_pos _ (by decide)
      have hsize : peachosSectorSize = 512 := rfl
      rw [diskstreamerReadLog, diskstreamerRead]
      dsimp only
      by_cases hover : stream.pos.tmod peachosSectorSize + total ≥ peachosSectorSize
      · simp only [if_pos hover]
        split_ifs
        · rfl
        · rfl
        · rw [Option.map_map]
          exact ih _ (by omega) _ _ _ _ rfl
      · simp only [if_neg hover]
        split_ifs <;> rfl

/-- The last sector. -/
theorem diskstreamerReadLog_last {device : Device} (hdev : device.Delivers) {pos n : ℕ}
    (hlast : pos % 512 + n < 512) (out : UInt32) (m : Mem) :
    ∃ r, diskstreamerReadLog device ⟨pos⟩ out n m = some ([UInt32.ofNat (pos / 512)], r) := by
  have hsector : ((pos : ℤ)).tdiv peachosSectorSize = ((pos / 512 : ℕ) : ℤ) := rfl
  have hoffset : ((pos : ℤ)).tmod peachosSectorSize = ((pos % 512 : ℕ) : ℤ) := rfl
  have hsize : peachosSectorSize = 512 := rfl
  have hno : ¬ (((pos % 512 : ℕ) : ℤ) + (n : ℤ) ≥ 512) := by omega
  rw [diskstreamerReadLog]
  dsimp only
  rw [hsector, hoffset, hsize, ofInt_natCast, hdev, if_neg (lt_irrefl 0)]
  simp only [if_neg hno]
  rw [if_neg (by omega)]
  exact ⟨_, rfl⟩

/-- A sector that is read up to its end. -/
theorem diskstreamerReadLog_next {device : Device} (hdev : device.Delivers) {pos n k : ℕ}
    (hk : pos % 512 + k = 512) (hn : k ≤ n) (out : UInt32) (m : Mem) :
    (2147483647 < pos % 512 + n ∧ diskstreamerReadLog device ⟨pos⟩ out n m = none) ∨
    ∃ m', diskstreamerReadLog device ⟨pos⟩ out n m =
      (diskstreamerReadLog device ⟨i32 ((pos + k : ℕ) : ℤ)⟩ (off out k) ((n - k : ℕ) : ℤ) m').map
        fun r => (UInt32.ofNat (pos / 512) :: r.1, r.2) := by
  have hsector : ((pos : ℤ)).tdiv peachosSectorSize = ((pos / 512 : ℕ) : ℤ) := rfl
  have hoffset : ((pos : ℤ)).tmod peachosSectorSize = ((pos % 512 : ℕ) : ℤ) := rfl
  have hsize : peachosSectorSize = 512 := rfl
  have hyes : ((pos % 512 : ℕ) : ℤ) + (n : ℤ) ≥ 512 := by omega
  have hread : (n : ℤ) - (((pos % 512 : ℕ) : ℤ) + n - 512) = (k : ℤ) := by omega
  have hrest : (n : ℤ) - (k : ℤ) = ((n - k : ℕ) : ℤ) := by omega
  rw [diskstreamerReadLog]
  dsimp only
  rw [hsector, hoffset, hsize, ofInt_natCast, hdev, if_neg (lt_irrefl 0)]
  simp only [if_pos hyes, hread, hrest, Int.toNat_natCast]
  rw [← Nat.cast_add]
  split_ifs with hleft
  · exact Or.inl ⟨by omega, rfl⟩
  · exact Or.inr ⟨_, rfl⟩

theorem diskstreamerReadLog_head {device : Device} {stream : DiskStream} {out : UInt32} {total : ℤ}
    {m : Mem} {log : List UInt32} {r : ℤ × DiskStream × Mem}
    (h : diskstreamerReadLog device stream out total m = some (log, r)) :
    log.head? = some (UInt32.ofInt (stream.pos.tdiv peachosSectorSize)) := by
  rw [diskstreamerReadLog] at h
  dsimp only at h
  split_ifs at h
  · cases h
    rfl
  · obtain ⟨r', -, h⟩ := Option.map_eq_some_iff.mp h
    cases h
    rfl
  · cases h
    rfl

/-- The sectors of the `total` bytes from `pos` on. -/
def sectorsOf (pos total : ℕ) : List UInt32 :=
  (List.range' (pos / 512) ((pos + total - 1) / 512 + 1 - pos / 512)).map UInt32.ofNat

theorem sectorsOf_next {pos total k : ℕ} (hk : pos % 512 + k = 512) (hlt : k ≤ total)
    (htotal : 1 ≤ total) :
    sectorsOf pos total = UInt32.ofNat (pos / 512) ::
      (List.range' ((pos + k) / 512) ((pos + total - 1) / 512 + 1 - (pos + k) / 512)).map
        UInt32.ofNat := by
  have hnext : (pos + k) / 512 = pos / 512 + 1 := by omega
  unfold sectorsOf
  rw [hnext, show (pos + total - 1) / 512 + 1 - pos / 512 =
    (pos + total - 1) / 512 + 1 - (pos / 512 + 1) + 1 by omega, List.range'_succ, List.map_cons]

/-- The sectors asked for are those from the first byte to the one behind the last byte. -/
theorem diskstreamerReadLog_eq {device : Device} (hdev : device.Delivers) (n : ℕ) :
    ∀ (pos : ℕ) (out : UInt32) (m : Mem), pos + n < 2147483648 →
      ∃ r, diskstreamerReadLog device ⟨pos⟩ out n m = some (sectorsOf pos (n + 1), r) := by
  induction n using Nat.strong_induction_on with
  | _ n ih =>
      intro pos out m hpos
      rcases Nat.lt_or_ge (pos % 512 + n) 512 with hlt | hge
      · obtain ⟨r, hr⟩ := diskstreamerReadLog_last hdev hlt out m
        refine ⟨r, ?_⟩
        unfold sectorsOf
        rw [hr, show (pos + (n + 1) - 1) / 512 + 1 - pos / 512 = 1 by omega]
        rfl
      · obtain ⟨k, hk⟩ : ∃ k, pos % 512 + k = 512 := ⟨512 - pos % 512, by omega⟩
        rcases diskstreamerReadLog_next hdev hk (show k ≤ n by omega) out m
            with ⟨hlarge, -⟩ | ⟨m', hnext⟩
        · omega
        · rw [i32_of_range (by omega) (by omega)] at hnext
          obtain ⟨r, hr⟩ := ih (n - k) (by omega) (pos + k) (off out k) m' (by omega)
          rw [hnext, hr, Option.map_some, sectorsOf_next hk (by omega) (by omega)]
          unfold sectorsOf
          rw [show pos + k + (n - k + 1) - 1 = pos + (n + 1) - 1 by omega]
          exact ⟨r, rfl⟩

/-- Past the positions of an `int` the sectors are wrong. -/
theorem diskstreamerReadLog_past {device : Device} (hdev : device.Delivers) (n : ℕ) :
    ∀ (pos : ℕ) (out : UInt32) (m : Mem) (r : ℤ × DiskStream × Mem), pos < 2147483648 →
      2147483648 ≤ pos + n →
      diskstreamerReadLog device ⟨pos⟩ out n m ≠ some (sectorsOf pos n, r) := by
  induction n using Nat.strong_induction_on with
  | _ n ih =>
      intro pos out m r hpos hpast hlog
      obtain ⟨k, hk⟩ : ∃ k, pos % 512 + k = 512 := ⟨512 - pos % 512, by omega⟩
      rcases diskstreamerReadLog_next hdev hk (show k ≤ n by omega) out m
            with ⟨-, hnone⟩ | ⟨m', hnext⟩
      · rw [hlog] at hnone
        exact Option.some_ne_none _ hnone
      · rw [hnext, sectorsOf_next hk (by omega) (by omega)] at hlog
        obtain ⟨⟨log, r'⟩, hrest, heq⟩ := Option.map_eq_some_iff.mp hlog
        have hcons := List.cons.inj (congrArg Prod.fst heq)
        dsimp only at hcons
        rcases Nat.lt_or_ge (pos + k) 2147483648 with hlt | hge
        · rw [i32_of_range (by omega) (by omega), hcons.2] at hrest
          refine ih (n - k) (by omega) (pos + k) (off out k) m' r' hlt (by omega) ?_
          unfold sectorsOf
          rw [hrest, show pos + k + (n - k) = pos + n by omega]
        · -- the position wraps around
          have hwrap : pos + k = 2147483648 := by omega
          have hhead := diskstreamerReadLog_head hrest
          have hsector : (i32 ((2147483648 : ℕ) : ℤ)).tdiv peachosSectorSize = -4194304 := by decide
          have hfirst : UInt32.ofNat (2147483648 / 512) ≠ UInt32.ofInt (-4194304) := by decide
          dsimp only at hhead
          rw [hwrap, hsector, hcons.2, hwrap] at hhead
          cases hcount : (pos + n - 1) / 512 + 1 - 2147483648 / 512 with
          | zero =>
              rw [hcount] at hhead
              cases hhead
          | succ c =>
              rw [hcount, List.range'_succ, List.map_cons, List.head?_cons] at hhead
              exact hfirst (Option.some.inj hhead)

/-- The sectors asked for are those of the bytes that are read, so none behind a disk that has
all of them. -/
def AsksExactly (device : Device) (pos total : ℕ) (out : UInt32) (m : Mem) : Prop :=
  ∃ log r, diskstreamerReadLog device ⟨pos⟩ out total m = some (log, r) ∧
    log = sectorsOf pos total ∧ ∀ N, pos + total ≤ 512 * N → ∀ s ∈ log, s.toNat < N

theorem sectorsOf_lt {pos total N : ℕ} (htotal : 1 ≤ total) (h : pos + total ≤ 512 * N) :
    ∀ s ∈ sectorsOf pos total, s.toNat < N := by
  intro s hs
  obtain ⟨x, hx, rfl⟩ := List.mem_map.mp hs
  have hin := (List.mem_range'_1.mp hx).2
  have hle : (UInt32.ofNat x).toNat ≤ x := by
    rw [UInt32.toNat_ofNat']
    exact Nat.mod_le _ _
  omega

/-- **The sectors of a read** are exactly those of its bytes if and only if its last byte is not
the last one of a sector and the positions fit in an `int`. -/
theorem diskstreamerReadLog_exact_iff {device : Device} (hdev : device.Delivers) {pos total : ℕ}
    (hpos : pos < 2147483648) (htotal : 1 ≤ total) (out : UInt32) (m : Mem) :
    AsksExactly device pos total out m ↔
      (pos + total) % 512 ≠ 0 ∧ pos + total < 2147483648 := by
  constructor
  · rintro ⟨log, r, hlog, rfl, -⟩
    have hlt : pos + total < 2147483648 := by
      by_contra hge
      exact diskstreamerReadLog_past hdev total pos out m r hpos (by omega) hlog
    refine ⟨fun hend => ?_, hlt⟩
    obtain ⟨r', hlog'⟩ := diskstreamerReadLog_eq hdev total pos out m hlt
    rw [hlog] at hlog'
    have hlen := congrArg List.length (congrArg Prod.fst (Option.some.inj hlog'))
    dsimp only [sectorsOf] at hlen
    rw [List.length_map, List.length_map, List.length_range', List.length_range'] at hlen
    omega
  · rintro ⟨hend, hlt⟩
    obtain ⟨r, hlog⟩ := diskstreamerReadLog_eq hdev total pos out m hlt
    have hsame : sectorsOf pos (total + 1) = sectorsOf pos total := by
      unfold sectorsOf
      rw [show (pos + (total + 1) - 1) / 512 = (pos + total - 1) / 512 by omega]
    exact ⟨_, r, hlog, hsame, fun N hN s hs => sectorsOf_lt htotal hN s (hsame ▸ hs)⟩

/-- A disk of zeros. -/
def zeroDevice : Device := fun _ => (0, fun _ => 0)

/-- A read of the only sector of a disk asks for the one behind it. -/
theorem diskstreamerReadLog_sector : ¬ AsksExactly zeroDevice 0 512 0 fun _ => 0 := by
  rintro ⟨log, r, hlog, -, hin⟩
  obtain ⟨r', hlog'⟩ := diskstreamerReadLog_eq (show zeroDevice.Delivers from fun _ => rfl) 512 0 0
    (fun _ => 0) (by decide)
  rw [hlog] at hlog'
  have hmem : (1 : UInt32) ∈ sectorsOf 0 (512 + 1) := by decide
  have heq : log = sectorsOf 0 (512 + 1) := congrArg Prod.fst (Option.some.inj hlog')
  rw [← heq] at hmem
  exact absurd (hin 1 (by decide) 1 hmem) (by decide)

theorem diskstreamerReadLog_exact_iff_short :
    AsksExactly zeroDevice 510 4 0 (fun _ => 0) :=
  (diskstreamerReadLog_exact_iff (fun _ => rfl) (by decide) (by decide) 0 _).mpr (by decide)

end PeachOS
