import PeachOS.Extents

/-! # The block heap

`heap.c`, function by function.  A heap is a pool of 4096-byte blocks and a table of one
byte per block; `malloc` and `free` communicate only through the flag bits of these bytes.

The table lives in memory: `entries[i]` is the byte at `entries + i`, so an index outside
`[0, total)` is not an error but another address (`HeapTable.entryAddr`).

Each function is followed by its specification.  `heapGetStartBlock_spec` says that the
scan is first fit when a fitting run exists, and what it returns when none does;
`heapMarkBlocksTaken_apply` and `heapMarkBlocksFree_apply` describe the two marking loops
byte by byte. -/

namespace PeachOS

open ByteMemory Extents

/-! ### Status codes and sizes -/

/-- `ENOMEM` of `status.h`; the other codes stand where they are first used. -/
def ENOMEM : ℤ := 3

/-- `EINVARG` of `status.h`. -/
def EINVARG : ℤ := 2

/-- `EIO` of `status.h`. -/
def EIO : ℤ := 1

/-- `PEACHOS_HEAP_BLOCK_SIZE`. -/
def peachosHeapBlockSize : UInt32 := 4096

@[simp] theorem peachosHeapBlockSize_toNat : peachosHeapBlockSize.toNat = 4096 := rfl

def heapBlockTableEntryTaken : UInt8 := 0x01
def heapBlockTableEntryFree : UInt8 := 0x00
def heapBlockHasNext : UInt8 := 0x80
def heapBlockIsFirst : UInt8 := 0x40

/-- `struct heap_table`: the address of the first entry and the number of entries. -/
structure HeapTable where
  entries : UInt32
  total : UInt32
deriving DecidableEq, Repr

/-- `struct heap`: the table and the first address of the data pool. -/
structure Heap where
  table : HeapTable
  saddr : UInt32
deriving DecidableEq, Repr

/-- The address of `entries[i]`, for any index. -/
def HeapTable.entryAddr (t : HeapTable) (i : ℤ) : UInt32 := t.entries + UInt32.ofInt i

theorem HeapTable.entryAddr_natCast (t : HeapTable) (i : ℕ) : t.entryAddr i = off t.entries i := by
  unfold entryAddr off
  rw [ofInt_natCast]

/-- Entry `i` of the table as memory holds it. -/
abbrev Heap.entry (h : Heap) (m : Mem) (i : ℕ) : UInt8 := m (off h.table.entries i)

/-! ### Creation -/

/-- `heap_validate_table`. -/
def heapValidateTable (ptr end' : UInt32) (table : HeapTable) : ℤ :=
  let tableSize := end' - ptr
  let totalBlocks := tableSize / peachosHeapBlockSize
  if table.total ≠ totalBlocks then -EINVARG else 0

/-- `heap_validate_alignment`. -/
def heapValidateAlignment (ptr : UInt32) : Bool := ptr % peachosHeapBlockSize == 0

/-- `heap_create`: the status, the heap and the memory afterwards. -/
def heapCreate (heap : Heap) (ptr end' : UInt32) (table : HeapTable) (m : Mem) :
    ℤ × Heap × Mem :=
  if !heapValidateAlignment ptr || !heapValidateAlignment end' then (-EINVARG, heap, m)
  else
    let heap : Heap := { saddr := ptr, table := table }
    let res := heapValidateTable ptr end' table
    if res < 0 then (res, heap, m)
    else (res, heap, m.fill table.entries heapBlockTableEntryFree table.total.toNat)

/-- What a successful `heap_create` establishes. -/
theorem heapCreate_ok {heap h : Heap} {ptr end' : UInt32} {table : HeapTable} {m m' : Mem}
    (hc : heapCreate heap ptr end' table m = (0, h, m')) :
    h = ⟨table, ptr⟩ ∧ table.total = (end' - ptr) / peachosHeapBlockSize ∧
      m' = m.fill table.entries heapBlockTableEntryFree table.total.toNat := by
  unfold heapCreate at hc
  split_ifs at hc with halign
  · simp [EINVARG] at hc
  · dsimp only at hc
    split_ifs at hc with hneg
    · simp only [Prod.mk.injEq] at hc
      omega
    · simp only [Prod.mk.injEq] at hc
      obtain ⟨hres, rfl, rfl⟩ := hc
      refine ⟨rfl, ?_, rfl⟩
      unfold heapValidateTable at hres
      by_contra hne
      simp [hne, EINVARG] at hres

/-! ### Sizes and entry types -/

/-- `heap_align_value_to_upper`: the next multiple of the block size, modulo `2 ^ 32`. -/
def heapAlignValueToUpper (val : UInt32) : UInt32 :=
  if val % peachosHeapBlockSize = 0 then val
  else
    let val := val - val % peachosHeapBlockSize
    val + peachosHeapBlockSize

/-- The blocks an allocation of `size` bytes takes. -/
def blocksFor (size : UInt32) : ℕ := (size.toNat + 4095) / 4096

theorem blocksFor_pos {size : UInt32} (h : 1 ≤ size.toNat) : 0 < blocksFor size := by
  unfold blocksFor; omega

theorem toNat_heapAlignValueToUpper {val : UInt32} (h : val.toNat ≤ 0xFFFFF000) :
    (heapAlignValueToUpper val).toNat = 4096 * blocksFor val := by
  have hmod : (val % peachosHeapBlockSize).toNat = val.toNat % 4096 := UInt32.toNat_mod _ _
  unfold heapAlignValueToUpper blocksFor
  split_ifs with h0
  · have := congrArg UInt32.toNat h0
    rw [hmod] at this
    simp only [UInt32.toNat_zero] at this
    omega
  · have hne : val.toNat % 4096 ≠ 0 := by
      rw [← hmod]
      exact fun e => h0 (UInt32.toNat.inj e)
    rw [UInt32.toNat_add, toNat_sub', hmod, peachosHeapBlockSize_toNat]
    omega

/-- `heap_get_entry_type`: the low nibble of an entry. -/
def heapGetEntryType (entry : UInt8) : UInt8 := entry &&& 0x0f

/-- Entry `i` of the table counts as free. -/
def EntryFree (h : Heap) (m : Mem) (i : ℕ) : Prop :=
  heapGetEntryType (h.entry m i) = heapBlockTableEntryFree

instance (h : Heap) (m : Mem) (i : ℕ) : Decidable (EntryFree h m i) := by
  unfold EntryFree; infer_instance

/-! ### The scan for a start block -/

/-- The loop of `heap_get_start_block`: `left` entries remain from index `i` on. -/
def heapScan (h : Heap) (m : Mem) (totalBlocks : UInt32) : ℕ → ℕ → UInt32 → ℤ → ℤ
  | 0, _, _, bs => bs
  | left + 1, i, bc, bs =>
      -- an entry that is not free resets the state
      if heapGetEntryType (h.entry m i) ≠ heapBlockTableEntryFree then
        heapScan h m totalBlocks left (i + 1) 0 (-1)
      else
        let bs := if bs = -1 then i32 i else bs
        let bc := bc + 1
        if bc = totalBlocks then bs else heapScan h m totalBlocks left (i + 1) bc bs

/-- `heap_get_start_block`. -/
def heapGetStartBlock (h : Heap) (totalBlocks : UInt32) (m : Mem) : ℤ :=
  let bs := heapScan h m totalBlocks h.table.total.toNat 0 0 (-1)
  if bs = -1 then -ENOMEM else bs

/-- The start recorded at a free entry `i`: `i` itself after a reset, else the old start. -/
theorem scanStart_eq {i b : ℕ} (hi : i < 2147483648) :
    (if (if b = i then (-1 : ℤ) else b) = -1 then i32 (i : ℤ) else
      (if b = i then (-1 : ℤ) else b)) = b := by
  by_cases hbi : b = i
  · subst hbi
    simp only [if_true]
    exact i32_of_range (by omega) (by omega)
  · simp only [hbi, if_false]
    rw [if_neg (by omega)]

/-- What the scan returns, by induction on the entries that remain.  The invariant is that
`[b, i)` is the free run ending at `i`, too short so far, with a gap before it; `b = i`
stands for the state after a reset.  `N` is the count that stops the scan. -/
theorem heapScan_spec {h : Heap} {m : Mem} {n : UInt32} {total N : ℕ} (hN : 0 < N)
    (hn : ∀ bc : UInt32, bc.toNat < total → (bc + 1 = n ↔ bc.toNat + 1 = N))
    (htotal : total ≤ 2147483648) :
    ∀ (left i b : ℕ) (bc : UInt32), i + left = total → b ≤ i → bc.toNat = i - b →
      i - b < N → Run (EntryFree h m) b (i - b) → (b = 0 ∨ ¬ EntryFree h m (b - 1)) →
      NoRun (EntryFree h m) N i →
      (∃ s : ℕ, heapScan h m n left i bc (if b = i then -1 else b) = s ∧
        FirstRun (EntryFree h m) total N s) ∨
      (NoRun (EntryFree h m) N total ∧ ∃ t ≤ total,
        heapScan h m n left i bc (if b = i then -1 else b) = (if t = total then -1 else (t : ℤ)) ∧
        Run (EntryFree h m) t (total - t) ∧ (t = 0 ∨ ¬ EntryFree h m (t - 1)))
  | 0, i, b, bc, hi, hb, _, _, hr, hg, hno => by
      obtain rfl : i = total := by omega
      exact Or.inr ⟨hno, b, hb, rfl, hr, hg⟩
  | left + 1, i, b, bc, hi, hb, hbc, hlen, hr, hg, hno => by
      simp only [heapScan]
      by_cases hfree : EntryFree h m i
      · have hfree' : heapGetEntryType (h.entry m i) = heapBlockTableEntryFree := hfree
        have hbc' : (bc + 1).toNat = i + 1 - b := by
          rw [UInt32.toNat_add, hbc]
          simp only [UInt32.toNat_one]
          omega
        have hr' : Run (EntryFree h m) b (i + 1 - b) := by
          intro k hk
          rcases Nat.lt_or_ge k (i - b) with hlt | hge
          · exact hr k hlt
          · rwa [show b + k = i by omega]
        have hstop := hn bc (by omega)
        rw [if_neg (not_not.mpr hfree'), scanStart_eq (by omega)]
        by_cases hend : bc + 1 = n
        · have hlen' : i + 1 = b + N := by
            have := hstop.mp hend
            omega
          refine Or.inl ⟨b, if_pos hend, hno.firstRun hg hlen' (by omega) ?_⟩
          rwa [show N = i + 1 - b by omega]
        · have hne : bc.toNat + 1 ≠ N := fun e => hend (hstop.mpr e)
          rw [if_neg hend]
          have ih := heapScan_spec hN hn htotal left (i + 1) b (bc + 1) (by omega) (by omega) hbc'
            (by omega) hr' hg (hno.extend hg hb (by omega))
          rwa [if_neg (show b ≠ i + 1 by omega)] at ih
      · have hfree' : heapGetEntryType (h.entry m i) ≠ heapBlockTableEntryFree := hfree
        rw [if_pos hfree']
        have ih := heapScan_spec hN hn htotal left (i + 1) (i + 1) 0 (by omega) le_rfl (by simp)
          (by omega) (fun k hk => by omega) (Or.inr (by simpa using hfree))
          (hno.skip hN hfree)
        simpa only [if_true] using ih

/-- The scan with its count read as `N`: first fit, or else the free run at the end of the
table, and `-ENOMEM` only when that run is empty. -/
theorem heapGetStartBlock_scan {h : Heap} {m : Mem} {n : UInt32} {N : ℕ} (hN : 0 < N)
    (hn : ∀ bc : UInt32, bc.toNat < h.table.total.toNat → (bc + 1 = n ↔ bc.toNat + 1 = N))
    (htotal : h.table.total.toNat ≤ 2147483648) :
    (∃ s : ℕ, heapGetStartBlock h n m = s ∧
      FirstRun (EntryFree h m) h.table.total.toNat N s) ∨
    (NoRun (EntryFree h m) N h.table.total.toNat ∧ ∃ t ≤ h.table.total.toNat,
      heapGetStartBlock h n m = (if t = h.table.total.toNat then -ENOMEM else (t : ℤ)) ∧
      Run (EntryFree h m) t (h.table.total.toNat - t) ∧
      (t = 0 ∨ ¬ EntryFree h m (t - 1))) := by
  have hscan := heapScan_spec (h := h) (m := m) hN hn htotal h.table.total.toNat 0 0 0 (by omega)
    le_rfl (by simp) hN (fun k hk => by omega) (Or.inl rfl)
    (fun s hs => by omega)
  simp only [if_true] at hscan
  unfold heapGetStartBlock
  rcases hscan with ⟨s, hs, hfirst⟩ | ⟨hno, t, ht, hs, hr, hg⟩
  · refine Or.inl ⟨s, ?_, hfirst⟩
    simp only [hs]
    rw [if_neg (by omega)]
  · refine Or.inr ⟨hno, t, ht, ?_, hr, hg⟩
    simp only [hs]
    by_cases he : t = h.table.total.toNat
    · simp [he]
    · rw [if_neg he, if_neg (show ((t : ℤ) ≠ -1) by omega), if_neg he]

/-- `heap_get_start_block` is first fit; without a fitting run it returns the start of the
free run at the end of the table, and `-ENOMEM` only when that run is empty. -/
theorem heapGetStartBlock_spec {h : Heap} {m : Mem} {n : UInt32} (hn : 0 < n.toNat)
    (htotal : h.table.total.toNat ≤ 2147483648) :
    (∃ s : ℕ, heapGetStartBlock h n m = s ∧
      FirstRun (EntryFree h m) h.table.total.toNat n.toNat s) ∨
    (NoRun (EntryFree h m) n.toNat h.table.total.toNat ∧ ∃ t ≤ h.table.total.toNat,
      heapGetStartBlock h n m = (if t = h.table.total.toNat then -ENOMEM else (t : ℤ)) ∧
      Run (EntryFree h m) t (h.table.total.toNat - t) ∧
      (t = 0 ∨ ¬ EntryFree h m (t - 1))) := by
  refine heapGetStartBlock_scan hn (fun bc hbc => ?_) htotal
  have hsucc : (bc + 1).toNat = bc.toNat + 1 := by
    rw [UInt32.toNat_add, UInt32.toNat_one]
    omega
  rw [← hsucc]
  exact ⟨congrArg UInt32.toNat, UInt32.toNat.inj⟩

/-- A request of no blocks never stops the scan: it too returns the start of the free run at
the end of the table. -/
theorem heapGetStartBlock_zero {h : Heap} {m : Mem}
    (htotal : h.table.total.toNat ≤ 2147483648) :
    ∃ t ≤ h.table.total.toNat,
      heapGetStartBlock h 0 m = (if t = h.table.total.toNat then -ENOMEM else (t : ℤ)) ∧
      Run (EntryFree h m) t (h.table.total.toNat - t) ∧
      (t = 0 ∨ ¬ EntryFree h m (t - 1)) := by
  have hnever : ∀ bc : UInt32, bc.toNat < h.table.total.toNat →
      (bc + 1 = 0 ↔ bc.toNat + 1 = h.table.total.toNat + 1) := by
    intro bc hbc
    refine iff_of_false (fun e => ?_) (by omega)
    have := congrArg UInt32.toNat e
    rw [UInt32.toNat_add, UInt32.toNat_one, UInt32.toNat_zero] at this
    omega
  rcases heapGetStartBlock_scan (m := m) (Nat.succ_pos _) hnever htotal with
    ⟨s, _, hfirst⟩ | ⟨_, ht⟩
  · exact absurd hfirst.inside (by omega)
  · exact ht

/-- A fitting run makes the scan return the first one. -/
theorem heapGetStartBlock_firstRun {h : Heap} {m : Mem} {n : UInt32} (hn : 0 < n.toNat)
    (htotal : h.table.total.toNat ≤ 2147483648)
    (hfit : ∃ s, s + n.toNat ≤ h.table.total.toNat ∧ Run (EntryFree h m) s n.toNat) :
    ∃ s : ℕ, heapGetStartBlock h n m = s ∧
      FirstRun (EntryFree h m) h.table.total.toNat n.toNat s := by
  rcases heapGetStartBlock_spec (m := m) hn htotal with hs | ⟨hno, _⟩
  · exact hs
  · obtain ⟨s, hs, hr⟩ := hfit
    exact absurd hr (hno s hs)

/-! ### Marking blocks -/

/-- The entry of an allocation of `len` blocks at offset `k`: the first block is flagged,
every block but the last has a successor. -/
def blockEntry (len k : ℕ) : UInt8 :=
  if k = 0 then
    if 1 < len then heapBlockTableEntryTaken ||| heapBlockIsFirst ||| heapBlockHasNext
    else heapBlockTableEntryTaken ||| heapBlockIsFirst
  else if k + 1 < len then heapBlockTableEntryTaken ||| heapBlockHasNext
  else heapBlockTableEntryTaken

/-- The encoding of allocations in the block table. -/
def blockCode : Code UInt8 := ⟨blockEntry, heapBlockTableEntryFree⟩

theorem blockEntry_type (len k : ℕ) :
    heapGetEntryType (blockEntry len k) ≠ heapBlockTableEntryFree := by
  unfold blockEntry
  split_ifs <;> decide

/-- Only the last block of an allocation lacks `HAS_NEXT`. -/
theorem blockEntry_hasNext {len k : ℕ} (hk : k < len) :
    blockEntry len k &&& heapBlockHasNext = 0 ↔ k + 1 = len := by
  unfold blockEntry
  split_ifs with h₁ h₂ h₃
  · subst h₁
    exact iff_of_false (by decide) (by omega)
  · exact iff_of_true (by decide) (by omega)
  · exact iff_of_false (by decide) (by omega)
  · exact iff_of_true (by decide) (by omega)

/-- The loop of `heap_mark_blocks_taken`: `left` entries remain from index `i` on and
`entry` is the one to store next. -/
def heapMarkTakenLoop (t : HeapTable) (endBlock : ℤ) : ℕ → ℤ → UInt8 → Mem → Mem
  | 0, _, _, m => m
  | left + 1, i, entry, m =>
      let m := m.write (t.entryAddr i) entry
      let entry := heapBlockTableEntryTaken
      let entry := if i ≠ endBlock - 1 then entry ||| heapBlockHasNext else entry
      heapMarkTakenLoop t endBlock left (i + 1) entry m

/-- `heap_mark_blocks_taken`. -/
def heapMarkBlocksTaken (h : Heap) (startBlock totalBlocks : ℤ) (m : Mem) : Mem :=
  let endBlock := i32 (startBlock + totalBlocks) - 1
  let entry := heapBlockTableEntryTaken ||| heapBlockIsFirst
  let entry := if totalBlocks > 1 then entry ||| heapBlockHasNext else entry
  heapMarkTakenLoop h.table endBlock (endBlock + 1 - startBlock).toNat startBlock entry m

/-- The marking loop from offset `j` of an extent of `n` blocks at `s` stores the code of
the offsets that remain, by induction on their number. -/
theorem heapMarkTakenLoop_apply (t : HeapTable) (s n : ℕ) (hs : s + n ≤ 2147483648) :
    ∀ (left j : ℕ) (entry : UInt8) (m : Mem), j + left = n → (0 < left → entry = blockEntry n j) →
      (∀ k, j ≤ k → k < n →
        heapMarkTakenLoop t (s + n - 1) left (s + j) entry m (off t.entries (s + k)) =
          blockEntry n k) ∧
      ∀ x, (∀ k, j ≤ k → k < n → x ≠ off t.entries (s + k)) →
        heapMarkTakenLoop t (s + n - 1) left (s + j) entry m x = m x
  | 0, j, _, m, hj, _ => ⟨fun k hk hkn => by omega, fun x _ => rfl⟩
  | left + 1, j, entry, m, hj, he => by
      have hentry : entry = blockEntry n j := he (Nat.succ_pos left)
      have haddr : t.entryAddr ((s : ℤ) + j) = off t.entries (s + j) := by
        rw [← Nat.cast_add, HeapTable.entryAddr_natCast]
      have hnext : 0 < left → (if (s : ℤ) + j ≠ s + n - 1 - 1 then
          heapBlockTableEntryTaken ||| heapBlockHasNext else heapBlockTableEntryTaken) =
          blockEntry n (j + 1) := by
        intro hleft
        unfold blockEntry
        rw [if_neg (Nat.succ_ne_zero j)]
        by_cases hlast : j + 1 + 1 < n
        · rw [if_pos hlast, if_pos (by omega)]
        · rw [if_neg hlast, if_neg (by omega)]
      obtain ⟨ih₁, ih₂⟩ := heapMarkTakenLoop_apply t s n hs left (j + 1) _
        (m.write (t.entryAddr (s + j)) entry) (by omega) hnext
      have hcast : (s : ℤ) + (j + 1 : ℕ) = s + j + 1 := by push_cast; ring
      rw [hcast] at ih₁ ih₂
      simp only [heapMarkTakenLoop]
      refine ⟨fun k hk hkn => ?_, fun x hx => ?_⟩
      · rcases Nat.lt_or_ge j k with hlt | hge
        · exact ih₁ k hlt hkn
        · obtain rfl : k = j := by omega
          rw [ih₂ _ fun k' hk' hk'n e => ?_, haddr, Mem.write_same, hentry]
          have := off_inj (by omega) (by omega) e
          omega
      · rw [ih₂ x fun k hk hkn => hx k (by omega) hkn, haddr]
        exact Mem.write_ne _ _ (hx j le_rfl (by omega))

/-- `heap_mark_blocks_taken` writes the code of the extent, and nothing else. -/
theorem heapMarkBlocksTaken_apply (h : Heap) {s n : ℕ} (hn : 0 < n) (hs : s + n < 2147483648)
    (m : Mem) :
    (∀ k < n, heapMarkBlocksTaken h s n m (off h.table.entries (s + k)) = blockEntry n k) ∧
    ∀ x, (∀ k < n, x ≠ off h.table.entries (s + k)) → heapMarkBlocksTaken h s n m x = m x := by
  have hend : i32 ((s : ℤ) + n) - 1 = s + n - 1 := by rw [i32_of_range (by omega) (by omega)]
  have hfirst : (if (n : ℤ) > 1 then
      heapBlockTableEntryTaken ||| heapBlockIsFirst ||| heapBlockHasNext
      else heapBlockTableEntryTaken ||| heapBlockIsFirst) = blockEntry n 0 := by
    unfold blockEntry
    simp only [if_true]
    by_cases h1 : 1 < n
    · rw [if_pos (by omega), if_pos h1]
    · rw [if_neg (by omega), if_neg h1]
  obtain ⟨h₁, h₂⟩ := heapMarkTakenLoop_apply h.table s n (by omega) n 0 (blockEntry n 0) m
    (by omega) fun _ => rfl
  unfold heapMarkBlocksTaken
  simp only [hend, hfirst]
  rw [show ((s : ℤ) + n - 1 + 1 - s).toNat = n by omega]
  simp only [Nat.cast_zero, add_zero] at h₁ h₂
  exact ⟨fun k hk => h₁ k (Nat.zero_le k) hk, fun x hx => h₂ x fun k _ hk => hx k hk⟩

/-- The loop of `heap_mark_blocks_free`. -/
def heapMarkFreeLoop (t : HeapTable) : ℕ → ℤ → Mem → Mem
  | 0, _, m => m
  | left + 1, i, m =>
      let entry := m (t.entryAddr i)
      let m := m.write (t.entryAddr i) heapBlockTableEntryFree
      if entry &&& heapBlockHasNext = 0 then m else heapMarkFreeLoop t left (i + 1) m

theorem heapMarkFreeLoop_succ (t : HeapTable) (left : ℕ) (i : ℤ) (m : Mem) :
    heapMarkFreeLoop t (left + 1) i m =
      let m' := m.write (t.entryAddr i) heapBlockTableEntryFree
      if m (t.entryAddr i) &&& heapBlockHasNext = 0 then m' else
        heapMarkFreeLoop t left (i + 1) m' := rfl

/-- `heap_mark_blocks_free`. -/
def heapMarkBlocksFree (h : Heap) (startingBlock : ℤ) (m : Mem) : Mem :=
  heapMarkFreeLoop h.table (i32 h.table.total.toNat - startingBlock).toNat startingBlock m

/-- The freeing loop from offset `j` of an extent of `n` blocks at `s` clears exactly the
offsets that remain: `HAS_NEXT` carries it to the last block and stops it there. -/
theorem heapMarkFreeLoop_apply (t : HeapTable) (s n : ℕ) (hs : s + n ≤ 2147483648) :
    ∀ (left j : ℕ) (m : Mem), j < n → n ≤ j + left →
      (∀ k, j ≤ k → k < n → m (off t.entries (s + k)) = blockEntry n k) →
      (∀ k, j ≤ k → k < n →
        heapMarkFreeLoop t left (s + j) m (off t.entries (s + k)) = heapBlockTableEntryFree) ∧
      ∀ x, (∀ k, j ≤ k → k < n → x ≠ off t.entries (s + k)) →
        heapMarkFreeLoop t left (s + j) m x = m x
  | 0, j, m, hj, hl, _ => by omega
  | left + 1, j, m, hj, hl, hm => by
      have haddr : t.entryAddr ((s : ℤ) + j) = off t.entries (s + j) := by
        rw [← Nat.cast_add, HeapTable.entryAddr_natCast]
      simp only [heapMarkFreeLoop, haddr, hm j le_rfl hj]
      by_cases hlast : j + 1 = n
      · rw [if_pos ((blockEntry_hasNext hj).mpr hlast)]
        refine ⟨fun k hk hkn => ?_, fun x hx => Mem.write_ne _ _ (hx j le_rfl hj)⟩
        obtain rfl : k = j := by omega
        exact Mem.write_same _ _ _
      · rw [if_neg fun e => hlast ((blockEntry_hasNext hj).mp e)]
        have hkeep : ∀ k, j + 1 ≤ k → k < n →
            m.write (off t.entries (s + j)) heapBlockTableEntryFree (off t.entries (s + k)) =
              blockEntry n k := by
          intro k hk hkn
          rw [Mem.write_ne _ _ fun e => ?_]
          · exact hm k (by omega) hkn
          · have := off_inj (by omega) (by omega) e
            omega
        obtain ⟨ih₁, ih₂⟩ := heapMarkFreeLoop_apply t s n hs left (j + 1) _ (by omega) (by omega)
          hkeep
        have hcast : (s : ℤ) + (j + 1 : ℕ) = s + j + 1 := by push_cast; ring
        rw [hcast] at ih₁ ih₂
        refine ⟨fun k hk hkn => ?_, fun x hx => ?_⟩
        · rcases Nat.lt_or_ge j k with hlt | hge
          · exact ih₁ k hlt hkn
          · obtain rfl : k = j := by omega
            rw [ih₂ _ fun k' hk' hk'n e => ?_, Mem.write_same]
            have := off_inj (by omega) (by omega) e
            omega
        · rw [ih₂ x fun k hk hkn => hx k (by omega) hkn]
          exact Mem.write_ne _ _ (hx j le_rfl hj)

/-- `heap_mark_blocks_free` at the start of an encoded extent clears that extent, and
nothing else. -/
theorem heapMarkBlocksFree_apply (h : Heap) {s n : ℕ} (hn : 0 < n)
    (hs : s + n ≤ h.table.total.toNat) (htotal : h.table.total.toNat < 2147483648) {m : Mem}
    (hm : ∀ k < n, m (off h.table.entries (s + k)) = blockEntry n k) :
    (∀ k < n, heapMarkBlocksFree h s m (off h.table.entries (s + k)) = heapBlockTableEntryFree) ∧
    ∀ x, (∀ k < n, x ≠ off h.table.entries (s + k)) → heapMarkBlocksFree h s m x = m x := by
  have hi : i32 (h.table.total.toNat : ℤ) = h.table.total.toNat :=
    i32_of_range (by omega) (by omega)
  obtain ⟨h₁, h₂⟩ := heapMarkFreeLoop_apply h.table s n (by omega)
    ((h.table.total.toNat : ℤ) - s).toNat 0 m hn (by omega) fun k _ hk => hm k hk
  simp only [Nat.cast_zero, add_zero] at h₁ h₂
  unfold heapMarkBlocksFree
  rw [hi]
  exact ⟨fun k hk => h₁ k (Nat.zero_le k) hk, fun x hx => h₂ x fun k _ hk => hx k hk⟩

/-! ### `malloc` and `free` -/

/-- `heap_block_to_address`. -/
def heapBlockToAddress (h : Heap) (block : ℤ) : UInt32 :=
  h.saddr + UInt32.ofInt (block * peachosHeapBlockSize.toNat)

/-- `heap_address_to_block`: signed, rounding towards zero, and unchecked. -/
def heapAddressToBlock (h : Heap) (address : UInt32) : ℤ :=
  (i32 (address - h.saddr).toNat).tdiv peachosHeapBlockSize.toNat

/-- `heap_malloc_blocks`: the address, null on failure, and the memory afterwards. -/
def heapMallocBlocks (h : Heap) (totalBlocks : UInt32) (m : Mem) : UInt32 × Mem :=
  let startBlock := heapGetStartBlock h totalBlocks m
  if startBlock < 0 then (0, m)
  else (heapBlockToAddress h startBlock, heapMarkBlocksTaken h startBlock (i32 totalBlocks.toNat) m)

/-- `heap_malloc`. -/
def heapMalloc (h : Heap) (size : UInt32) (m : Mem) : UInt32 × Mem :=
  let alignedSize := heapAlignValueToUpper size
  let totalBlocks := alignedSize / peachosHeapBlockSize
  heapMallocBlocks h totalBlocks m

/-- `heap_free`. -/
def heapFree (h : Heap) (ptr : UInt32) (m : Mem) : Mem :=
  heapMarkBlocksFree h (heapAddressToBlock h ptr) m

theorem heapBlockToAddress_natCast (h : Heap) (b : ℕ) :
    heapBlockToAddress h b = off h.saddr (4096 * b) := by
  unfold heapBlockToAddress off
  rw [peachosHeapBlockSize_toNat, ← Nat.cast_mul, ofInt_natCast, Nat.mul_comm]

theorem heapMallocBlocks_of_start {h : Heap} {n : UInt32} {m : Mem} {s : ℕ}
    (hs : heapGetStartBlock h n m = s) :
    heapMallocBlocks h n m = (off h.saddr (4096 * s), heapMarkBlocksTaken h s (i32 n.toNat) m) := by
  unfold heapMallocBlocks
  simp only [hs]
  rw [if_neg (by omega), heapBlockToAddress_natCast]

theorem heapMallocBlocks_of_neg {h : Heap} {n : UInt32} {m : Mem}
    (hs : heapGetStartBlock h n m < 0) : heapMallocBlocks h n m = (0, m) := by
  unfold heapMallocBlocks
  simp only [hs, if_true]

/-- The address of a block is decoded to that block. -/
theorem heapAddressToBlock_off (h : Heap) {b : ℕ} (hb : b < 524288) :
    heapAddressToBlock h (off h.saddr (4096 * b)) = b := by
  have hlt := toNat_lt h.saddr
  have hsub : (off h.saddr (4096 * b) - h.saddr).toNat = 4096 * b := by
    rw [toNat_sub', toNat_off]
    omega
  unfold heapAddressToBlock
  rw [hsub, i32_of_range (by omega) (by omega), peachosHeapBlockSize_toNat]
  push_cast
  exact Int.mul_tdiv_cancel_left _ (by norm_num)

/-- The number of blocks `heap_malloc` asks for. -/
theorem heapMalloc_blocks {size : UInt32} (h : size.toNat ≤ 0xFFFFF000) :
    (heapAlignValueToUpper size / peachosHeapBlockSize).toNat = blocksFor size := by
  rw [UInt32.toNat_div, toNat_heapAlignValueToUpper h, peachosHeapBlockSize_toNat]
  omega

end PeachOS
