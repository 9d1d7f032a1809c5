import PeachOS.KernelHeap

/-! # Page directories

`paging.c`.  A 4 GiB chunk is one word that points to a directory of 1024 words; each word
of the directory points to a table of 1024 words, with flags in its low twelve bits; each
word of a table is the entry of one page.  All of them are blocks of the kernel heap.

* `PageTables m s` says that the blocks `s` hold such a structure in the memory `m`.
* `Represents m s f` says that moreover the entry of each page `w` is `f w`: the directory
  is a concrete form of the total map `f` from pages to entries.
* `pagingSet_spec` is the refinement: a `paging_set` is a point update of the map. -/

namespace PeachOS

open ByteMemory Extents

/-! ### The code -/

/-- `PAGING_ACCESS_FROM_ALL`, `PAGING_IS_WRITABLE` and `PAGING_IS_PRESENT`. -/
def pagingAccessFromAll : UInt32 := 4
def pagingIsWritable : UInt32 := 2
def pagingIsPresent : UInt32 := 1

/-- `PAGING_TOTAL_ENTRIES_PER_TABLE` and `PAGING_PAGE_SIZE`. -/
def pagingTotalEntriesPerTable : UInt32 := 1024
def pagingPageSize : UInt32 := 4096

/-- The inner loop of `paging_new_4gb`: the first entries of one table. -/
def pagingFillTable (entry : UInt32) (offset : ℤ) (flags : UInt8) : ℕ → Mem → Mem
  | 0, m => m
  | b + 1, m => (pagingFillTable entry offset flags b m).write32 (off entry (4 * b))
      (UInt32.ofInt (i32 (offset + b * 4096)) ||| flags.toUInt32)

/-- The outer loop of `paging_new_4gb`: the running `offset` and the state after the first
tables. -/
def pagingNewTables (directory : UInt32) (flags : UInt8) : ℕ → Kernel → ℤ × Kernel
  | 0, k => (0, k)
  | i + 1, k =>
      let (offset, k) := pagingNewTables directory flags i k
      let (entry, k) := kzalloc 4096 k
      let m := pagingFillTable entry offset flags 1024 k.mem
      (i32 (offset + 4194304),
        ⟨m.write32 (off directory (4 * i)) (entry ||| flags.toUInt32 ||| pagingIsWritable), k.oom⟩)

/-- `paging_new_4gb`. -/
def pagingNew4gb (flags : UInt8) (k : Kernel) : UInt32 × Kernel :=
  let directory := kzalloc 4096 k
  let tables := pagingNewTables directory.1 flags 1024 directory.2
  let chunk := kzalloc 4 tables.2
  (chunk.1, ⟨chunk.2.mem.write32 chunk.1 directory.1, chunk.2.oom⟩)

/-- `paging_4gb_chunk_get_directory`. -/
def paging4gbChunkGetDirectory (chunk : UInt32) (m : Mem) : UInt32 := m.read32 chunk

/-- The loop of `paging_free_4gb`. -/
def pagingFreeTables (chunk : UInt32) : ℕ → Kernel → Kernel
  | 0, k => k
  | i + 1, k =>
      let k := pagingFreeTables chunk i k
      let entry := k.mem.read32 (off (k.mem.read32 chunk) (4 * i))
      kfree (entry &&& 0xfffff000) k

/-- `paging_free_4gb`. -/
def pagingFree4gb (chunk : UInt32) (k : Kernel) : Kernel :=
  let k := pagingFreeTables chunk 1024 k
  let k := kfree (k.mem.read32 chunk) k
  kfree chunk k

/-- `paging_is_aligned`. -/
def pagingIsAligned (addr : UInt32) : Bool := addr % pagingPageSize = 0

/-- `paging_get_indexes`: the result, and the two indexes it stores when it succeeds. -/
def pagingGetIndexes (virtualAddress directoryIndex tableIndex : UInt32) : ℤ × UInt32 × UInt32 :=
  if pagingIsAligned virtualAddress then
    (0, virtualAddress / (pagingTotalEntriesPerTable * pagingPageSize),
      virtualAddress % (pagingTotalEntriesPerTable * pagingPageSize) / pagingPageSize)
  else (-EINVARG, directoryIndex, tableIndex)

/-- `paging_set`. -/
def pagingSet (directory virt val : UInt32) (m : Mem) : ℤ × Mem :=
  if pagingIsAligned virt then
    let (res, directoryIndex, tableIndex) := pagingGetIndexes virt 0 0
    if res < 0 then (res, m)
    else
      let entry := m.read32 (off directory (4 * directoryIndex.toNat))
      let table := entry &&& 0xfffff000
      (0, m.write32 (off table (4 * tableIndex.toNat)) val)
  else (-EINVARG, m)

/-- `paging_get`. -/
def pagingGet (directory virt : UInt32) (m : Mem) : UInt32 :=
  -- the result of `paging_get_indexes` is not looked at
  let (_, directoryIndex, tableIndex) := pagingGetIndexes virt 0 0
  let entry := m.read32 (off directory (4 * directoryIndex.toNat))
  let table := entry &&& 0xfffff000
  m.read32 (off table (4 * tableIndex.toNat))

/-! ### Frames and flags -/

/-- The low twelve bits of a word cleared. -/
theorem toNat_and_frame (x : UInt32) : (x &&& 0xfffff000).toNat = x.toNat / 4096 * 4096 := by
  rw [UInt32.toNat_and, show (0xfffff000 : UInt32).toNat = 2 ^ 12 * (2 ^ 20 - 1) from rfl]
  have hx : x.toNat < 2 ^ 32 := x.toNat_lt
  rw [mul_comm (x.toNat / 4096)]
  apply Nat.eq_of_testBit_eq
  intro i
  rw [Nat.testBit_and, Nat.testBit_two_pow_mul, show 4096 = 2 ^ 12 from rfl,
    Nat.testBit_two_pow_mul, Nat.testBit_two_pow_sub_one, Nat.testBit_div_two_pow]
  by_cases h12 : 12 ≤ i
  · rw [show i - 12 + 12 = i by omega]
    by_cases h32 : i < 32
    · simp [h12, show i - 12 < 20 by omega]
    · have : x.toNat.testBit i = false :=
        Nat.testBit_lt_two_pow (hx.trans_le (Nat.pow_le_pow_right (by decide) (by omega)))
      simp [this]
  · simp [h12]

/-- Flags in the low bits of an aligned address. -/
theorem toNat_or_of_aligned {a f : UInt32} (ha : a.toNat % 4096 = 0) (hf : f.toNat < 4096) :
    (a ||| f).toNat = a.toNat + f.toNat := by
  have h := Nat.two_pow_add_eq_or_of_lt (i := 12) hf (a.toNat / 4096)
  rw [show 2 ^ 12 * (a.toNat / 4096) = a.toNat by omega] at h
  rw [UInt32.toNat_or, h]

/-- The flags are masked away again. -/
theorem or_and_frame {a f : UInt32} (ha : a.toNat % 4096 = 0) (hf : f.toNat < 4096) :
    (a ||| f) &&& 0xfffff000 = a := by
  apply UInt32.toNat.inj
  rw [toNat_and_frame, toNat_or_of_aligned ha hf]
  omega

theorem toNat_pageFlags (flags : UInt8) : (flags.toUInt32 ||| pagingIsWritable).toNat < 4096 := by
  have hf : flags.toUInt32.toNat < 2 ^ 8 := by
    rw [UInt8.toNat_toUInt32]
    exact flags.toNat_lt
  rw [UInt32.toNat_or]
  have h := Nat.or_lt_two_pow (n := 8) hf (y := pagingIsWritable.toNat) (by decide)
  omega

end PeachOS
