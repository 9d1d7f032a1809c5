import PeachOS.Heap

/-! # The heap invariant over whole runs

`HeapInv h m live` ties the block table to a ghost layout: the live allocations, by
address.  The table is exactly the encoding of their extents (`Encodes blockCode`), and
each address is the address of its first block.

`heapMalloc_spec` and `heapFree_spec` are the two step lemmas; `HeapRun` is the run of
calls a client can make, and `heapRun_encodes` carries the invariant along it from
`heap_create`. -/

namespace PeachOS

open ByteMemory Extents

/-- The block table of `h` encodes the live allocations. -/
structure HeapInv (h : Heap) (m : Mem) (live : Layout UInt32) : Prop where
  small : h.table.total.toNat < 524288
  encodes : Encodes blockCode h.table.total.toNat (h.entry m) live
  address : ∀ a e, live a = some e → a = off h.saddr (4096 * e.start)

/-- Some run of `n` consecutive free entries exists in the table. -/
def FreeRun (h : Heap) (m : Mem) (n : ℕ) : Prop :=
  ∃ s, s + n ≤ h.table.total.toNat ∧ Run (EntryFree h m) s n

/-- The extent of an allocation of `size` bytes at address `a`. -/
def extentAt (h : Heap) (a size : UInt32) (hsize : 1 ≤ size.toNat) : Extent :=
  ⟨(a - h.saddr).toNat / 4096, blocksFor size, blocksFor_pos hsize⟩

theorem extentAt_off (h : Heap) {s : ℕ} (hs : s < 524288) (size : UInt32) (hsize : 1 ≤ size.toNat) :
    extentAt h (off h.saddr (4096 * s)) size hsize = ⟨s, blocksFor size, blocksFor_pos hsize⟩ := by
  have hlt := toNat_lt h.saddr
  have hsub : (off h.saddr (4096 * s) - h.saddr).toNat / 4096 = s := by
    rw [toNat_sub', toNat_off]
    omega
  unfold extentAt
  simp only [hsub]

variable {h : Heap} {m : Mem} {live : Layout UInt32}

/-! ### Step lemmas -/

/-- A free entry belongs to no live allocation. -/
theorem HeapInv.uncovered (hinv : HeapInv h m live) {i : ℕ} (hi : EntryFree h m i) :
    Uncovered live i :=
  hinv.encodes.uncovered fun len k _ e => by
    unfold EntryFree at hi
    rw [e] at hi
    exact blockEntry_type len k hi

/-- The block addresses of a small heap are different. -/
theorem HeapInv.address_inj (hinv : HeapInv h m live) {a : UInt32} {e : Extent} {s : ℕ}
    (ha : live a = some e) (hs : s < h.table.total.toNat)
    (h' : a = off h.saddr (4096 * s)) : e.start = s := by
  have hsmall := hinv.small
  have hin := hinv.encodes.packed.inside a e ha
  have hpos := e.len_pos
  have := off_inj (by omega) (by omega) ((hinv.address a e ha).symm.trans h')
  omega

/-- The table after `heap_mark_blocks_taken` on a free extent. -/
theorem HeapInv.mark (hinv : HeapInv h m live) {e : Extent} {m' : Mem}
    (hin : e.start + e.len ≤ h.table.total.toNat) (hfree : ∀ i, e.Has i → Uncovered live i)
    (hnew : ∀ k < e.len, h.entry m' (e.start + k) = blockEntry e.len k)
    (hold : ∀ x, (∀ i, e.Has i → x ≠ off h.table.entries i) → m' x = m x) :
    live (off h.saddr (4096 * e.start)) = none ∧
      HeapInv h m' (assign live (off h.saddr (4096 * e.start)) e) := by
  have hsmall := hinv.small
  have hpos := e.len_pos
  have hnone : live (off h.saddr (4096 * e.start)) = none := by
    cases hl : live (off h.saddr (4096 * e.start)) with
    | none => rfl
    | some f =>
        have hstart := hinv.address_inj hl (by omega) rfl
        exact absurd (hstart ▸ f.has_start) (hfree _ e.has_start _ f hl)
  refine ⟨hnone, hinv.small, ?_, fun b f hb => ?_⟩
  · refine hinv.encodes.alloc hnone hin hfree hnew fun i hi he => ?_
    refine hold _ fun j hj heq => he ?_
    have hjlt : j < h.table.total.toNat := by obtain ⟨_, _⟩ := hj; omega
    rwa [off_inj (by omega) (by omega) heq]
  · by_cases hb' : b = off h.saddr (4096 * e.start)
    · subst hb'
      rw [assign_self] at hb
      rw [← Option.some.inj hb]
    · rw [assign_of_ne _ _ hb'] at hb
      exact hinv.address b f hb

/-- `heap_malloc` with a fitting run: a fresh extent is taken at the first fit, the table
encodes it, and no other byte of memory changes. -/
theorem heapMalloc_spec (hinv : HeapInv h m live) {size : UInt32} (h1 : 1 ≤ size.toNat)
    (h2 : size.toNat ≤ 0xFFFFF000) (hfit : FreeRun h m (blocksFor size)) :
    ∃ (e : Extent) (m' : Mem), heapMalloc h size m = (off h.saddr (4096 * e.start), m') ∧
      e.len = blocksFor size ∧ e.start + e.len ≤ h.table.total.toNat ∧
      FirstRun (EntryFree h m) h.table.total.toNat (blocksFor size) e.start ∧
      live (off h.saddr (4096 * e.start)) = none ∧
      HeapInv h m' (assign live (off h.saddr (4096 * e.start)) e) ∧
      ∀ x, (∀ i, e.Has i → x ≠ off h.table.entries i) → m' x = m x := by
  have hsmall := hinv.small
  have hn := blocksFor_pos h1
  have hblocks := heapMalloc_blocks h2
  obtain ⟨s, hs, hfirst⟩ := heapGetStartBlock_firstRun (h := h) (m := m)
    (n := heapAlignValueToUpper size / peachosHeapBlockSize) (by omega) (by omega)
    (by rw [hblocks]; exact hfit)
  rw [hblocks] at hfirst
  have hin := hfirst.inside
  obtain ⟨hnew, hold⟩ := heapMarkBlocksTaken_apply h hn (s := s) (by omega) m
  let e : Extent := ⟨s, blocksFor size, hn⟩
  have hheap : heapMalloc h size m =
      (off h.saddr (4096 * s), heapMarkBlocksTaken h s (blocksFor size) m) := by
    unfold heapMalloc
    dsimp only
    rw [heapMallocBlocks_of_start hs, hblocks, i32_of_range (by omega) (by omega)]
  have hrun : ∀ i, e.Has i → EntryFree h m i := by
    intro i hi
    obtain ⟨k, hk, rfl⟩ := hi.exists_add
    exact hfirst.run k hk
  have hframe : ∀ x, (∀ i, e.Has i → x ≠ off h.table.entries i) →
      heapMarkBlocksTaken h s (blocksFor size) m x = m x :=
    fun x hx => hold x fun k hk => hx (s + k) (e.has_add hk)
  obtain ⟨hnone, hinv'⟩ := hinv.mark (e := e) hin (fun i hi => hinv.uncovered (hrun i hi)) hnew
    hframe
  exact ⟨e, _, hheap, rfl, hin, hfirst, hnone, hinv', hframe⟩

/-- `heap_free` of a live address clears exactly the entries of its extent. -/
theorem heapFree_spec (hinv : HeapInv h m live) {a : UInt32} {e : Extent}
    (ha : live a = some e) :
    HeapInv h (heapFree h a m) (release live a) ∧
      (∀ i, e.Has i → h.entry (heapFree h a m) i = heapBlockTableEntryFree) ∧
      ∀ x, (∀ i, e.Has i → x ≠ off h.table.entries i) → heapFree h a m x = m x := by
  have hsmall := hinv.small
  have hin := hinv.encodes.packed.inside a e ha
  have hpos := e.len_pos
  have hblock : heapAddressToBlock h a = e.start := by
    rw [hinv.address a e ha]
    exact heapAddressToBlock_off h (by omega)
  obtain ⟨hclear, hkeep⟩ := heapMarkBlocksFree_apply h e.len_pos hin (by omega)
    (hinv.encodes.taken a e ha)
  have hfree : heapFree h a m = heapMarkBlocksFree h e.start m := by
    unfold heapFree
    rw [hblock]
  rw [hfree]
  have hnew : ∀ i, e.Has i → h.entry (heapMarkBlocksFree h e.start m) i =
      heapBlockTableEntryFree := by
    intro i hi
    obtain ⟨k, hk, rfl⟩ := hi.exists_add
    exact hclear k hk
  have hframe : ∀ x, (∀ i, e.Has i → x ≠ off h.table.entries i) →
      heapMarkBlocksFree h e.start m x = m x :=
    fun x hx => hkeep x fun k hk => hx (e.start + k) (e.has_add hk)
  refine ⟨⟨hinv.small, ?_, ?_⟩, hnew, hframe⟩
  · refine hinv.encodes.free' ha hnew fun i hi he => hframe _ fun j hj heq => he ?_
    have hjlt : j < h.table.total.toNat := by obtain ⟨_, _⟩ := hj; omega
    rwa [off_inj (by omega) (by omega) heq]
  · exact fun b f hb => hinv.address b f (release_eq_some hb).2

/-- The invariant is about the table alone. -/
theorem HeapInv.congr (hinv : HeapInv h m live) {m' : Mem}
    (hsame : ∀ i < h.table.total.toNat, h.entry m' i = h.entry m i) : HeapInv h m' live := by
  refine ⟨hinv.small, ⟨hinv.encodes.packed, fun a e ha k hk => ?_, fun i hi hu => ?_⟩, hinv.address⟩
  · have hin := hinv.encodes.packed.inside a e ha
    rw [hsame _ (by omega)]
    exact hinv.encodes.taken a e ha k hk
  · rw [hsame i hi]
    exact hinv.encodes.free i hi hu

/-! ### Runs -/

/-- Memory and the live allocations, by address. -/
structure HeapState where
  mem : Mem
  live : Layout UInt32

/-- One call of a client that frees only what it holds and asks only for what fits. -/
inductive HeapStep (h : Heap) : HeapState → HeapState → Prop
  | malloc {st : HeapState} (size : UInt32) (h1 : 1 ≤ size.toNat) (h2 : size.toNat ≤ 0xFFFFF000)
      (hfit : FreeRun h st.mem (blocksFor size)) :
      HeapStep h st ⟨(heapMalloc h size st.mem).2,
        assign st.live (heapMalloc h size st.mem).1
          (extentAt h (heapMalloc h size st.mem).1 size h1)⟩
  | free {st : HeapState} (a : UInt32) (e : Extent) (ha : st.live a = some e) :
      HeapStep h st ⟨heapFree h a st.mem, release st.live a⟩

/-- Any sequence of such calls. -/
abbrev HeapRun (h : Heap) : HeapState → HeapState → Prop := Relation.ReflTransGen (HeapStep h)

theorem HeapStep.inv {st st' : HeapState} (hs : HeapStep h st st')
    (hinv : HeapInv h st.mem st.live) : HeapInv h st'.mem st'.live := by
  cases hs with
  | malloc size h1 h2 hfit =>
      obtain ⟨e, m', heq, hlen, hin, -, -, hinv', -⟩ := heapMalloc_spec hinv h1 h2 hfit
      have hsmall := hinv.small
      have hpos := e.len_pos
      have he : extentAt h (off h.saddr (4096 * e.start)) size h1 = e := by
        rw [extentAt_off h (by omega)]
        exact Extent.ext rfl hlen.symm
      simp only [heq]
      rw [he]
      exact hinv'
  | free a e ha =>
      dsimp only
      exact (heapFree_spec hinv ha).1

theorem HeapRun.inv {st st' : HeapState} (hr : HeapRun h st st')
    (hinv : HeapInv h st.mem st.live) : HeapInv h st'.mem st'.live := by
  induction hr with
  | refl => exact hinv
  | tail _ hs ih => exact hs.inv ih

/-- `heap_create` on a pool below 2 GiB leaves the encoding of no allocation at all. -/
theorem heapCreate_inv {heap : Heap} {ptr end' : UInt32} {table : HeapTable} {m₀ : Mem}
    (hcreate : heapCreate heap ptr end' table m₀ = (0, h, m))
    (hpool : (end' - ptr).toNat < 2147483648) : HeapInv h m Extents.empty := by
  obtain ⟨rfl, htotal, hm⟩ := heapCreate_ok hcreate
  have hblocks : table.total.toNat = (end' - ptr).toNat / 4096 := by
    rw [htotal, UInt32.toNat_div, peachosHeapBlockSize_toNat]
  have hsmall : table.total.toNat < 524288 := by omega
  refine ⟨hsmall, encodes_empty fun i hi => ?_, fun a e ha => nomatch ha⟩
  subst hm
  simp only [Heap.entry, Mem.fill_apply]
  exact if_pos (inRange_off hi)

/-- **The heap representation invariant.**  Whatever calls are made after `heap_create`, the
table is exactly the encoding of the live allocations, and freeing any one of them clears
the entries of its own extent and changes no other byte. -/
theorem heapRun_encodes {heap : Heap} {ptr end' : UInt32} {table : HeapTable} {m₀ m₁ : Mem}
    {st : HeapState} (hcreate : heapCreate heap ptr end' table m₀ = (0, h, m₁))
    (hpool : (end' - ptr).toNat < 2147483648) (hrun : HeapRun h ⟨m₁, Extents.empty⟩ st) :
    Encodes blockCode h.table.total.toNat (h.entry st.mem) st.live ∧
      (∀ a e, st.live a = some e → a = off h.saddr (4096 * e.start)) ∧
      ∀ a e, st.live a = some e →
        (∀ i, e.Has i → h.entry (heapFree h a st.mem) i = heapBlockTableEntryFree) ∧
        ∀ x, (∀ i, e.Has i → x ≠ off h.table.entries i) → heapFree h a st.mem x = st.mem x := by
  have hinv : HeapInv h st.mem st.live := hrun.inv (heapCreate_inv hcreate hpool)
  exact ⟨hinv.encodes, hinv.address, fun a e ha => (heapFree_spec hinv ha).2⟩

/-- A heap of two blocks at `0x1000`, whose table is two bytes at `0x7e00`. -/
def twoBlockHeap : Heap := ⟨⟨0x7e00, 2⟩, 0x1000⟩

/-- Two blocks of a fresh heap given out as one allocation. -/
theorem heapRun_encodes_twoBlockHeap :
    ∃ st : HeapState, st.live 0x1000 = some ⟨0, 2, by decide⟩ ∧
      Encodes blockCode 2 (twoBlockHeap.entry st.mem) st.live := by
  have hcreate : heapCreate twoBlockHeap 0x1000 0x3000 ⟨0x7e00, 2⟩ (fun _ => 0) =
      (0, twoBlockHeap, Mem.fill (fun _ => 0) 0x7e00 0 2) := rfl
  have hfit : FreeRun twoBlockHeap (Mem.fill (fun _ => 0) 0x7e00 0 2) (blocksFor 5000) := by
    refine ⟨0, by decide, fun k hk => ?_⟩
    have hk : k < 2 := hk
    interval_cases k <;> decide
  have hrun := @HeapStep.malloc twoBlockHeap ⟨Mem.fill (fun _ => 0) 0x7e00 0 2, Extents.empty⟩
    5000 (by decide) (by decide) hfit
  exact ⟨_, rfl, (heapRun_encodes hcreate (by decide) (.single hrun)).1⟩

end PeachOS
