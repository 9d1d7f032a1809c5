import PeachOS.HeapRuns

/-! # The kernel heap

`kheap.c` and the part of `memory.c` it uses.  The kernel heap is one fixed heap: 25600
blocks from `0x01000000` on, with the table at `0x7e00`.

`Kernel` is the machine state of the kernel code: physical memory and one ghost bit, `oom`,
which is set when a `kzalloc` returns null.  A result that is claimed for the case that
every allocation succeeds is stated for a run whose final state has `oom = false`.

`kzalloc_spec` is the specification against the heap invariant; `kzalloc_block` is the one
for requests of at most one block, which needs no invariant: such a request is served from
the first free entry of any table, or fails. -/

namespace PeachOS

open ByteMemory Extents

/-- `PEACHOS_HEAP_SIZE_BYTES`. -/
def peachosHeapSizeBytes : UInt32 := 104857600

/-- `PEACHOS_HEAP_ADDRESS`. -/
def peachosHeapAddress : UInt32 := 0x01000000

/-- `PEACHOS_HEAP_TABLE_ADDRESS`. -/
def peachosHeapTableAddress : UInt32 := 0x00007e00

/-- The state the kernel code works on. -/
structure Kernel where
  mem : Mem
  /-- Ghost: some `kzalloc` has returned null. -/
  oom : Bool

/-- `kheap_init`: the kernel heap it sets up and the memory afterwards. -/
def kheapInit (m : Mem) : Heap × Mem :=
  let totalTableEntries := peachosHeapSizeBytes / peachosHeapBlockSize
  let table : HeapTable := ⟨peachosHeapTableAddress, totalTableEntries⟩
  let end' := peachosHeapAddress + peachosHeapSizeBytes
  -- a failure is only reported on the screen
  let (_, heap, m) := heapCreate ⟨⟨0, 0⟩, 0⟩ peachosHeapAddress end' table m
  (heap, m)

/-- `kernel_heap` once it is initialised. -/
def kernelHeap : Heap := ⟨⟨0x7e00, 25600⟩, 0x01000000⟩

@[simp] theorem kernelHeap_total : kernelHeap.table.total.toNat = 25600 := rfl
@[simp] theorem kernelHeap_entries : kernelHeap.table.entries = 0x7e00 := rfl
@[simp] theorem kernelHeap_saddr : kernelHeap.saddr = 0x01000000 := rfl

theorem heapCreate_kernelHeap (m : Mem) :
    heapCreate ⟨⟨0, 0⟩, 0⟩ 0x01000000 0x07400000 ⟨0x7e00, 25600⟩ m =
      (0, kernelHeap, m.fill 0x7e00 0 25600) := by
  unfold heapCreate
  rw [if_neg (by decide)]
  dsimp only
  rw [if_neg (by decide)]
  rfl

theorem kheapInit_eq (m : Mem) : kheapInit m = (kernelHeap, m.fill 0x7e00 0 25600) := by
  have hend : peachosHeapAddress + peachosHeapSizeBytes = 0x07400000 := by decide
  have htotal : peachosHeapSizeBytes / peachosHeapBlockSize = 25600 := by decide
  unfold kheapInit
  rw [hend, htotal]
  unfold peachosHeapAddress peachosHeapTableAddress
  simp only [heapCreate_kernelHeap]

/-- After `kheap_init` no allocation is live. -/
theorem kheapInit_inv (m : Mem) : HeapInv kernelHeap (kheapInit m).2 Extents.empty := by
  rw [kheapInit_eq]
  exact heapCreate_inv (heapCreate_kernelHeap m) (by decide)

/-! ### `kmalloc`, `kzalloc` and `kfree` -/

/-- `memset`. -/
def memset (ptr : UInt32) (c : UInt8) (size : UInt32) (m : Mem) : Mem := m.fill ptr c size.toNat

/-- `kmalloc`. -/
def kmalloc (size : UInt32) (k : Kernel) : UInt32 × Kernel :=
  let (ptr, m) := heapMalloc kernelHeap size k.mem
  (ptr, { k with mem := m })

/-- `kzalloc`. -/
def kzalloc (size : UInt32) (k : Kernel) : UInt32 × Kernel :=
  let (ptr, k) := kmalloc size k
  if ptr = 0 then (0, { k with oom := true })
  else (ptr, { k with mem := memset ptr 0x00 size k.mem })

/-- `kfree`. -/
def kfree (ptr : UInt32) (k : Kernel) : Kernel := { k with mem := heapFree kernelHeap ptr k.mem }

@[simp] theorem kfree_oom (ptr : UInt32) (k : Kernel) : (kfree ptr k).oom = k.oom := rfl
@[simp] theorem kfree_mem (ptr : UInt32) (k : Kernel) :
    (kfree ptr k).mem = heapFree kernelHeap ptr k.mem := rfl

theorem kzalloc_of_ne {size a : UInt32} {k : Kernel} {m : Mem}
    (h : heapMalloc kernelHeap size k.mem = (a, m)) (ha : a ≠ 0) :
    kzalloc size k = (a, ⟨memset a 0 size m, k.oom⟩) := by
  unfold kzalloc kmalloc
  simp only [h]
  exact if_neg ha

theorem kzalloc_of_null {size : UInt32} {k : Kernel} {m : Mem}
    (h : heapMalloc kernelHeap size k.mem = (0, m)) : kzalloc size k = (0, ⟨m, true⟩) := by
  unfold kzalloc kmalloc
  simp only [h, if_true]

theorem kzalloc_oom_of_oom {size : UInt32} {k : Kernel} (h : k.oom = true) :
    (kzalloc size k).2.oom = true := by
  unfold kzalloc kmalloc
  dsimp only
  split_ifs <;> simp [h]

/-- An allocation that succeeded in the end started without a failure. -/
theorem kzalloc_oom_false {size : UInt32} {k : Kernel} (h : (kzalloc size k).2.oom = false) :
    k.oom = false := by
  cases hk : k.oom with
  | false => rfl
  | true => rw [kzalloc_oom_of_oom hk] at h; cases h

theorem kzalloc_ne_zero_of_ok {size : UInt32} {k : Kernel}
    (h : (kzalloc size k).2.oom = false) : (kzalloc size k).1 ≠ 0 := by
  unfold kzalloc at h ⊢
  dsimp only at h ⊢
  split_ifs at h ⊢ with hnull
  exact hnull

/-! ### The layout of the kernel heap in memory -/

/-- `x` is a byte of the block table. -/
def InTable (x : UInt32) : Prop := InRange 0x7e00 25600 x

/-- The address of block `b` of the pool. -/
def blockAddr (b : ℕ) : UInt32 := off 0x01000000 (4096 * b)

/-- `x` is a byte of block `b`. -/
def InBlock (b : ℕ) (x : UInt32) : Prop := InRange (blockAddr b) 4096 x

/-- `x` is a byte of a block of the extent. -/
def InExtent (e : Extent) (x : UInt32) : Prop := ∃ b, e.Has b ∧ InBlock b x

theorem toNat_blockAddr {b : ℕ} (hb : b < 25600) : (blockAddr b).toNat = 16777216 + 4096 * b := by
  unfold blockAddr
  have ha : (0x01000000 : UInt32).toNat = 16777216 := rfl
  rw [toNat_off_of_lt (by omega), ha]

theorem blockAddr_ne_zero {b : ℕ} (hb : b < 25600) : blockAddr b ≠ 0 := by
  intro h
  have := toNat_blockAddr hb
  rw [h, UInt32.toNat_zero] at this
  omega

theorem blockAddr_inj {b c : ℕ} (hb : b < 25600) (hc : c < 25600)
    (h : blockAddr b = blockAddr c) : b = c := by
  have := congrArg UInt32.toNat h
  rw [toNat_blockAddr hb, toNat_blockAddr hc] at this
  omega

theorem inBlock_iff {b : ℕ} (hb : b < 25600) (x : UInt32) :
    InBlock b x ↔ 16777216 + 4096 * b ≤ x.toNat ∧ x.toNat < 16777216 + 4096 * (b + 1) := by
  have ha := toNat_blockAddr hb
  unfold InBlock
  rw [inRange_iff (by omega), ha]
  omega

theorem inTable_iff (x : UInt32) : InTable x ↔ 32256 ≤ x.toNat ∧ x.toNat < 57856 := by
  unfold InTable
  rw [inRange_iff (by decide), show (0x7e00 : UInt32).toNat = 32256 from rfl]

/-- A byte of a block determines the block. -/
theorem InBlock.unique {b c : ℕ} {x : UInt32} (hb : b < 25600) (hc : c < 25600)
    (h₁ : InBlock b x) (h₂ : InBlock c x) : b = c := by
  rw [inBlock_iff hb] at h₁
  rw [inBlock_iff hc] at h₂
  omega

/-- The pool and the table are apart. -/
theorem InBlock.not_inTable {b : ℕ} {x : UInt32} (hb : b < 25600) (h : InBlock b x) :
    ¬ InTable x := by
  rw [inBlock_iff hb] at h
  rw [inTable_iff]
  omega

theorem InBlock.ne_entry {b i : ℕ} {x : UInt32} (hb : b < 25600) (hi : i < 25600)
    (h : InBlock b x) : x ≠ off 0x7e00 i := fun e =>
  h.not_inTable hb (e ▸ inRange_off hi)

/-- The first bytes of an extent lie in its blocks. -/
theorem inExtent_of_inRange {e : Extent} {n : ℕ} (he : e.start + e.len ≤ 25600)
    (hn : n ≤ 4096 * e.len) {x : UInt32} (hx : InRange (blockAddr e.start) n x) :
    InExtent e x := by
  have hpos := e.len_pos
  obtain ⟨k, hk, rfl⟩ := hx.exists_off
  refine ⟨e.start + k / 4096, e.has_add (by omega), ?_⟩
  have hb := toNat_blockAddr (b := e.start) (by omega)
  rw [inBlock_iff (by omega), toNat_off_of_lt (by omega), hb]
  omega

/-! ### Words of a block -/

/-- The address of word `j` of block `b`. -/
def wordAddr (b j : ℕ) : UInt32 := off (blockAddr b) (4 * j)

theorem toNat_wordAddr {b j : ℕ} (hb : b < 25600) (hj : j < 1024) :
    (wordAddr b j).toNat = 16777216 + 4096 * b + 4 * j := by
  have ha := toNat_blockAddr hb
  unfold wordAddr
  rw [toNat_off_of_lt (by omega), ha]

theorem wordAddr_zero (b : ℕ) : wordAddr b 0 = blockAddr b := off_zero _

theorem inBlock_of_inRange_wordAddr {b j : ℕ} (hb : b < 25600) (hj : j < 1024) {x : UInt32}
    (hx : InRange (wordAddr b j) 4 x) : InBlock b x := by
  have ha := toNat_wordAddr hb hj
  rw [inRange_iff (by omega), ha] at hx
  rw [inBlock_iff hb]
  omega

/-- A store to one word of a block does not change the bytes of other blocks. -/
theorem write32_wordAddr_apply {b j : ℕ} (hb : b < 25600) (hj : j < 1024) (m : Mem) (v : UInt32)
    {x : UInt32} (hx : ¬ InBlock b x) : m.write32 (wordAddr b j) v x = m x :=
  Mem.write32_apply_of_not_inRange m v fun h => hx (inBlock_of_inRange_wordAddr hb hj h)

/-- Words of blocks do not overlap. -/
theorem read32_write32_wordAddr {b j c l : ℕ} (hb : b < 25600) (hj : j < 1024) (hc : c < 25600)
    (hl : l < 1024) (h : ¬ (b = c ∧ j = l)) (m : Mem) (v : UInt32) :
    (m.write32 (wordAddr c l) v).read32 (wordAddr b j) = m.read32 (wordAddr b j) := by
  have h₁ := toNat_wordAddr hb hj
  have h₂ := toNat_wordAddr hc hl
  refine Mem.read32_write32_of_aligned m v (by omega) (by omega) fun e => h ?_
  have := congrArg UInt32.toNat e
  omega

theorem read32_wordAddr_congr {b j : ℕ} (hb : b < 25600) (hj : j < 1024) {m m' : Mem}
    (h : ∀ x, InBlock b x → m' x = m x) : m'.read32 (wordAddr b j) = m.read32 (wordAddr b j) :=
  Mem.read32_congr fun x hx => h x (inBlock_of_inRange_wordAddr hb hj hx)

/-! ### Specifications -/

variable {k : Kernel} {live : Layout UInt32}

/-- `kzalloc` with a fitting run. -/
theorem kzalloc_spec (hinv : HeapInv kernelHeap k.mem live) {size : UInt32}
    (h1 : 1 ≤ size.toNat) (h2 : size.toNat ≤ 0xFFFFF000)
    (hfit : FreeRun kernelHeap k.mem (blocksFor size)) :
    ∃ (e : Extent) (k' : Kernel), kzalloc size k = (blockAddr e.start, k') ∧ k'.oom = k.oom ∧
      e.len = blocksFor size ∧ e.start + e.len ≤ 25600 ∧
      FirstRun (EntryFree kernelHeap k.mem) 25600 (blocksFor size) e.start ∧
      live (blockAddr e.start) = none ∧
      HeapInv kernelHeap k'.mem (assign live (blockAddr e.start) e) ∧
      (∀ x, InRange (blockAddr e.start) size.toNat x → k'.mem x = 0) ∧
      ∀ x, ¬ InTable x → ¬ InExtent e x → k'.mem x = k.mem x := by
  obtain ⟨e, m', hm, hlen, hin, hfree, hnone, hinv', hframe⟩ := heapMalloc_spec hinv h1 h2 hfit
  simp only [kernelHeap_saddr, kernelHeap_total, kernelHeap_entries] at hm hin hnone hinv' hframe
  have hpos := e.len_pos
  change heapMalloc kernelHeap size k.mem = (blockAddr e.start, m') at hm
  have hkz := kzalloc_of_ne hm (blockAddr_ne_zero (by omega))
  have hsize : size.toNat ≤ 4096 * e.len := by rw [hlen]; unfold blocksFor; omega
  refine ⟨e, _, hkz, rfl, hlen, hin, hfree, hnone, ?_, fun x hx => ?_, fun x hx he => ?_⟩
  · refine hinv'.congr fun i hi => ?_
    dsimp only [Heap.entry, memset]
    rw [Mem.fill_apply, if_neg]
    intro hr
    obtain ⟨b, hb, hxb⟩ := inExtent_of_inRange hin hsize hr
    exact hxb.ne_entry (by obtain ⟨_, _⟩ := hb; omega) hi rfl
  · dsimp only [memset]
    rw [Mem.fill_apply, if_pos hx]
  · dsimp only [memset]
    rw [Mem.fill_apply, if_neg fun hr => he (inExtent_of_inRange hin hsize hr)]
    refine hframe x fun i hi e' => hx (e' ▸ inRange_off ?_)
    obtain ⟨_, _⟩ := hi
    omega

/-- `kfree` of a live allocation. -/
theorem kfree_spec (hinv : HeapInv kernelHeap k.mem live) {a : UInt32} {e : Extent}
    (ha : live a = some e) :
    HeapInv kernelHeap (kfree a k).mem (release live a) ∧
      (∀ i, e.Has i → kernelHeap.entry (kfree a k).mem i = heapBlockTableEntryFree) ∧
      ∀ x, (∀ i, e.Has i → x ≠ off 0x7e00 i) → (kfree a k).mem x = k.mem x :=
  heapFree_spec hinv ha

/-- The allocation of `size` bytes at `a` is live. -/
def Allocated (live : Layout UInt32) (size a : UInt32) : Prop :=
  ∃ e, live a = some e ∧ e.len = blocksFor size

theorem Allocated.mono {live' : Layout UInt32} {size a : UInt32} (h : Allocated live size a)
    (hk : ∀ a e, live a = some e → live' a = some e) : Allocated live' size a := by
  obtain ⟨e, he, hlen⟩ := h
  exact ⟨e, hk a e he, hlen⟩

/-- An allocation starts at a block. -/
theorem HeapInv.allocated_block (hinv : HeapInv kernelHeap k.mem live) {size a : UInt32}
    (h : Allocated live size a) : ∃ b < 25600, a = blockAddr b := by
  obtain ⟨e, he, -⟩ := h
  have hin := hinv.encodes.packed.inside a e he
  have hpos := e.len_pos
  rw [kernelHeap_total] at hin
  exact ⟨e.start, by omega, hinv.address a e he⟩

theorem HeapInv.allocated_ne_zero (hinv : HeapInv kernelHeap k.mem live) {size a : UInt32}
    (h : Allocated live size a) : a ≠ 0 := by
  obtain ⟨b, hb, rfl⟩ := hinv.allocated_block h
  exact blockAddr_ne_zero hb

/-- `x` is a byte of the blocks of the live allocation at `a`. -/
def InAllocation (live : Layout UInt32) (a x : UInt32) : Prop := ∃ e, live a = some e ∧ InExtent e x

/-- The blocks of a live allocation are taken. -/
theorem HeapInv.taken (hinv : HeapInv kernelHeap k.mem live) {a : UInt32} {e : Extent}
    (ha : live a = some e) {b : ℕ} (hb : e.Has b) : ¬ EntryFree kernelHeap k.mem b := fun hfree =>
  hinv.uncovered hfree a e ha hb

/-- The bytes of two live allocations are different. -/
theorem HeapInv.inAllocation_unique (hinv : HeapInv kernelHeap k.mem live) {a b x : UInt32}
    (ha : InAllocation live a x) (hb : InAllocation live b x) : a = b := by
  obtain ⟨e, he, i, hi, hxi⟩ := ha
  obtain ⟨f, hf, j, hj, hxj⟩ := hb
  by_contra hab
  have hin₁ := hinv.encodes.packed.inside a e he
  have hin₂ := hinv.encodes.packed.inside b f hf
  rw [kernelHeap_total] at hin₁ hin₂
  have hij : i = j := InBlock.unique (by have := hi.2; omega) (by have := hj.2; omega) hxi hxj
  exact hinv.encodes.packed.apart a b e f hab he hf i hi (hij ▸ hj)

/-- On any table, what `kzalloc` returns is the address of a block that was free, and no run
that fits lies below it. -/
theorem kzalloc_start {size : UInt32} (h1 : 1 ≤ size.toNat) (h2 : size.toNat ≤ 0xFFFFF000)
    {k : Kernel} (hne : (kzalloc size k).1 ≠ 0) :
    ∃ b < 25600, (kzalloc size k).1 = blockAddr b ∧ EntryFree kernelHeap k.mem b ∧
      ∀ s, s + blocksFor size ≤ 25600 → Run (EntryFree kernelHeap k.mem) s (blocksFor size) →
        b ≤ s := by
  have hblocks := heapMalloc_blocks h2
  have hpos := blocksFor_pos h1
  have hstart : ∀ b < 25600, heapGetStartBlock kernelHeap
      (heapAlignValueToUpper size / peachosHeapBlockSize) k.mem = (b : ℕ) →
      (kzalloc size k).1 = blockAddr b := by
    intro b hb h
    have hheap : heapMalloc kernelHeap size k.mem = (blockAddr b, _) := heapMallocBlocks_of_start h
    rw [kzalloc_of_ne hheap (blockAddr_ne_zero hb)]
  rcases heapGetStartBlock_spec (h := kernelHeap) (m := k.mem)
      (n := heapAlignValueToUpper size / peachosHeapBlockSize) (by omega) (by decide) with
    ⟨b, hb, hfirst⟩ | ⟨hno, t, ht, hb, hrun, -⟩
  · rw [hblocks] at hfirst
    have hin := hfirst.inside
    rw [kernelHeap_total] at hin
    exact ⟨b, by omega, hstart b (by omega) hb, hfirst.run 0 hpos, hfirst.least⟩
  · rw [hblocks] at hno
    rw [kernelHeap_total] at hno ht hb hrun
    have hlt : t < 25600 := by
      by_contra hge
      rw [if_pos (by omega)] at hb
      have hneg : heapGetStartBlock kernelHeap (heapAlignValueToUpper size / peachosHeapBlockSize)
          k.mem < 0 := by rw [hb]; decide
      exact hne (by rw [kzalloc_of_null (heapMallocBlocks_of_neg hneg)])
    rw [if_neg (by omega)] at hb
    exact ⟨t, hlt, hstart t hlt hb, hrun 0 (by omega), fun s hs hr => absurd hr (hno s hs)⟩

/-! ### Requests of at most one block -/

/-- `k'` comes from `k` by taking the free blocks of `B`, each as an allocation of one block:
no table entry but theirs and no byte outside them and the table has changed. -/
structure Takes (k k' : Kernel) (B : Set ℕ) : Prop where
  lt : ∀ b ∈ B, b < 25600
  free : ∀ b ∈ B, EntryFree kernelHeap k.mem b
  single : ∀ b ∈ B, kernelHeap.entry k'.mem b = blockEntry 1 0
  entries : ∀ i < 25600, i ∉ B → kernelHeap.entry k'.mem i = kernelHeap.entry k.mem i
  frame : ∀ x, ¬ InTable x → (∀ b ∈ B, ¬ InBlock b x) → k'.mem x = k.mem x

theorem Takes.taken {k k' : Kernel} {B : Set ℕ} (h : Takes k k' B) {b : ℕ} (hb : b ∈ B) :
    ¬ EntryFree kernelHeap k'.mem b := by
  unfold EntryFree
  rw [h.single b hb]
  exact blockEntry_type 1 0

/-- A block that was taken already is none of the new ones. -/
theorem Takes.not_mem {k k' : Kernel} {B : Set ℕ} (h : Takes k k' B) {b : ℕ}
    (hb : ¬ EntryFree kernelHeap k.mem b) : b ∉ B := fun hmem => hb (h.free b hmem)

/-- A block that was taken already is still taken. -/
theorem Takes.still_taken {k k' : Kernel} {B : Set ℕ} (h : Takes k k' B) {b : ℕ} (hlt : b < 25600)
    (hb : ¬ EntryFree kernelHeap k.mem b) : ¬ EntryFree kernelHeap k'.mem b := by
  unfold EntryFree
  rw [h.entries b hlt (h.not_mem hb)]
  exact hb

/-- The bytes of a block that was taken already are the same. -/
theorem Takes.same {k k' : Kernel} {B : Set ℕ} (h : Takes k k' B) {b : ℕ} (hlt : b < 25600)
    (hb : ¬ EntryFree kernelHeap k.mem b) {x : UInt32} (hx : InBlock b x) :
    k'.mem x = k.mem x :=
  h.frame x (hx.not_inTable hlt) fun c hc hxc =>
    h.not_mem hb (InBlock.unique hlt (h.lt c hc) hx hxc ▸ hc)

theorem Takes.trans {k₁ k₂ k₃ : Kernel} {B C : Set ℕ} (h₁ : Takes k₁ k₂ B)
    (h₂ : Takes k₂ k₃ C) : Takes k₁ k₃ (B ∪ C) := by
  have hdisj : ∀ b ∈ C, b ∉ B := fun b hc hb => h₁.taken hb (h₂.free b hc)
  refine ⟨fun b hb => hb.elim (h₁.lt b) (h₂.lt b), fun b hb => ?_, fun b hb => ?_,
    fun i hi hB => ?_, fun x hx hB => ?_⟩
  · refine hb.elim (h₁.free b) fun hc => ?_
    unfold EntryFree
    rw [← h₁.entries b (h₂.lt b hc) (hdisj b hc)]
    exact h₂.free b hc
  · refine hb.elim (fun hb => ?_) (h₂.single b)
    rw [h₂.entries b (h₁.lt b hb) fun hc => hdisj b hc hb]
    exact h₁.single b hb
  · rw [h₂.entries i hi fun hc => hB (Or.inr hc), h₁.entries i hi fun hb => hB (Or.inl hb)]
  · rw [h₂.frame x hx fun b hc => hB b (Or.inr hc), h₁.frame x hx fun b hb => hB b (Or.inl hb)]

/-- Writing to the blocks taken. -/
theorem Takes.write {k k' k'' : Kernel} {B : Set ℕ} (h : Takes k k' B)
    (hw : ∀ x, (∀ b ∈ B, ¬ InBlock b x) → k''.mem x = k'.mem x) : Takes k k'' B := by
  have hentry : ∀ i < 25600, kernelHeap.entry k''.mem i = kernelHeap.entry k'.mem i :=
    fun i hi => hw _ fun b hb hx => hx.ne_entry (h.lt b hb) hi rfl
  refine ⟨h.lt, h.free, fun b hb => ?_, fun i hi hB => ?_, fun x hx hB => ?_⟩
  · rw [hentry b (h.lt b hb)]
    exact h.single b hb
  · rw [hentry i hi, h.entries i hi hB]
  · rw [hw x hB, h.frame x hx hB]

/-- A one-block request on any table: served from a free entry, or refused when there is
none. -/
theorem kzalloc_block {size : UInt32} (h1 : 1 ≤ size.toNat) (h2 : size.toNat ≤ 4096) (k : Kernel) :
    ((∃ b, (kzalloc size k).1 = blockAddr b ∧ Takes k (kzalloc size k).2 {b} ∧
        (∀ x, InRange (blockAddr b) size.toNat x → (kzalloc size k).2.mem x = 0) ∧
        (kzalloc size k).2.oom = k.oom)) ∨
      (kzalloc size k = (0, ⟨k.mem, true⟩) ∧ ∀ i < 25600, ¬ EntryFree kernelHeap k.mem i) := by
  have hblocks : (heapAlignValueToUpper size / peachosHeapBlockSize).toNat = 1 := by
    rw [heapMalloc_blocks (by omega)]
    unfold blocksFor
    omega
  rcases heapGetStartBlock_spec (h := kernelHeap) (m := k.mem)
      (n := heapAlignValueToUpper size / peachosHeapBlockSize) (by omega) (by decide) with
    ⟨b, hb, hfirst⟩ | ⟨hno, t, ht, hstart, hrun, -⟩
  · left
    rw [hblocks] at hfirst
    have hlt : b < 25600 := by have := hfirst.inside; rw [kernelHeap_total] at this; omega
    have hfree : EntryFree kernelHeap k.mem b := hfirst.run 0 (by omega)
    obtain ⟨hnew, hold⟩ := heapMarkBlocksTaken_apply kernelHeap (s := b) (n := 1) (by omega)
      (by omega) k.mem
    have hkz : kzalloc size k = (blockAddr b, ⟨memset (blockAddr b) 0 size
        (heapMarkBlocksTaken kernelHeap b (1 : ℕ) k.mem), k.oom⟩) := by
      refine kzalloc_of_ne ?_ (blockAddr_ne_zero hlt)
      unfold heapMalloc
      dsimp only
      rw [heapMallocBlocks_of_start hb, hblocks]
      rfl
    have hout : ∀ i < 25600, ¬ InRange (blockAddr b) size.toNat (off 0x7e00 i) := by
      intro i hi hr
      exact InBlock.ne_entry hlt hi (Nat.lt_of_lt_of_le hr h2) rfl
    refine ⟨b, by rw [hkz], ⟨?_, ?_, ?_, fun i hi hib => ?_, fun x hx hxb => ?_⟩,
      fun x hx => ?_, by rw [hkz]⟩
    · intro c hc
      rwa [Set.mem_singleton_iff.mp hc]
    · intro c hc
      rwa [Set.mem_singleton_iff.mp hc]
    · intro c hc
      rw [Set.mem_singleton_iff.mp hc, hkz]
      simp only [Heap.entry, memset, kernelHeap_entries]
      rw [Mem.fill_apply, if_neg (hout b hlt)]
      have := hnew 0 (by omega)
      simp only [kernelHeap_entries, add_zero] at this
      exact this
    · rw [hkz]
      simp only [Heap.entry, memset, kernelHeap_entries]
      rw [Mem.fill_apply, if_neg (hout i hi)]
      refine hold _ fun j hj e => hib ?_
      obtain rfl : j = 0 := by omega
      exact off_inj (by omega) (by omega) e
    · rw [hkz]
      simp only [memset]
      rw [Mem.fill_apply, if_neg fun hr : InRange _ _ _ => hxb b rfl (Nat.lt_of_lt_of_le hr h2)]
      refine hold _ fun j hj e => hx ?_
      rw [e]
      exact inRange_off (by omega)
    · rw [hkz]
      simp only [memset]
      rw [Mem.fill_apply, if_pos hx]
  · right
    rw [hblocks] at hno
    have hnone : ∀ i < 25600, ¬ EntryFree kernelHeap k.mem i := by
      intro i hi hf
      refine hno i (by rw [kernelHeap_total]; omega) fun j hj => ?_
      rwa [show i + j = i by omega]
    refine ⟨?_, hnone⟩
    have htotal : t = 25600 := by
      rw [kernelHeap_total] at ht hrun
      by_contra hne
      exact hnone t (by omega) (hrun 0 (by omega))
    subst htotal
    have hneg : heapGetStartBlock kernelHeap (heapAlignValueToUpper size / peachosHeapBlockSize)
        k.mem < 0 := by
      rw [hstart, kernelHeap_total, if_pos rfl]
      decide
    exact kzalloc_of_null (heapMallocBlocks_of_neg hneg)

/-- A one-block request that succeeded. -/
theorem kzalloc_block_of_ok {size : UInt32} (h1 : 1 ≤ size.toNat) (h2 : size.toNat ≤ 4096)
    {k : Kernel} (hok : (kzalloc size k).2.oom = false) :
    ∃ b, (kzalloc size k).1 = blockAddr b ∧ Takes k (kzalloc size k).2 {b} ∧
      (∀ x, InRange (blockAddr b) size.toNat x → (kzalloc size k).2.mem x = 0) := by
  rcases kzalloc_block h1 h2 k with ⟨b, h₁, h₂, h₃, -⟩ | ⟨hoom, -⟩
  · exact ⟨b, h₁, h₂, h₃⟩
  · rw [hoom] at hok; cases hok

/-- Freeing an allocation of one block clears its entry and nothing else. -/
theorem kfree_block {b : ℕ} (hb : b < 25600) {k : Kernel}
    (hone : kernelHeap.entry k.mem b = blockEntry 1 0) :
    kernelHeap.entry (kfree (blockAddr b) k).mem b = heapBlockTableEntryFree ∧
      ∀ x, x ≠ off 0x7e00 b → (kfree (blockAddr b) k).mem x = k.mem x := by
  obtain ⟨hclear, hkeep⟩ := heapMarkBlocksFree_apply kernelHeap (s := b) (n := 1) (m := k.mem)
    (by omega) (by rw [kernelHeap_total]; omega) (by decide) fun j hj => by
      obtain rfl : j = 0 := by omega
      exact hone
  have hblock : heapAddressToBlock kernelHeap (blockAddr b) = b :=
    heapAddressToBlock_off kernelHeap (by omega)
  rw [kfree_mem, heapFree, hblock]
  refine ⟨hclear 0 (by omega), fun x hx => hkeep x fun j hj => ?_⟩
  obtain rfl : j = 0 := by omega
  exact hx

/-- The blocks taken in `k` are taken in `k'`, with the same bytes outside `W`. -/
structure Keeps (k k' : Kernel) (W : UInt32 → Prop) : Prop where
  taken : ∀ b < 25600, ¬ EntryFree kernelHeap k.mem b → ¬ EntryFree kernelHeap k'.mem b
  same : ∀ b < 25600, ¬ EntryFree kernelHeap k.mem b →
    ∀ x, InBlock b x → ¬ W x → k'.mem x = k.mem x

theorem Keeps.trans {k₁ k₂ k₃ : Kernel} {W V : UInt32 → Prop} (h₁ : Keeps k₁ k₂ W)
    (h₂ : Keeps k₂ k₃ V)
    (hV : ∀ b < 25600, ¬ EntryFree kernelHeap k₁.mem b → ∀ x, InBlock b x → V x → W x) :
    Keeps k₁ k₃ W where
  taken b hb ht := h₂.taken b hb (h₁.taken b hb ht)
  same b hb ht x hx hw := by
    rw [h₂.same b hb (h₁.taken b hb ht) x hx fun hv => hw (hV b hb ht x hx hv),
      h₁.same b hb ht x hx hw]

theorem Keeps.mono {k k' : Kernel} {W V : UInt32 → Prop} (h : Keeps k k' W)
    (hV : ∀ x, W x → V x) : Keeps k k' V :=
  ⟨h.taken, fun b hb ht x hx hv => h.same b hb ht x hx fun hw => hv (hV x hw)⟩

theorem Takes.keeps {k k' : Kernel} {B : Set ℕ} (h : Takes k k' B) (W : UInt32 → Prop) :
    Keeps k k' W where
  taken _ hb ht := h.still_taken hb ht
  same _ hb ht _ hx _ := h.same hb ht hx

/-- Stores that reach no byte of the table. -/
theorem Keeps.of_write {k k' : Kernel} {W : UInt32 → Prop} (hW : ∀ x, W x → ¬ InTable x)
    (h : ∀ x, ¬ W x → k'.mem x = k.mem x) : Keeps k k' W where
  taken b hb ht := by
    unfold EntryFree Heap.entry
    rw [kernelHeap_entries, h _ fun hw => hW _ hw (inRange_off hb)]
    exact ht
  same _ _ _ x _ hw := h x hw

/-- A block taken and given back. -/
theorem Takes.keeps_kfree {k k' : Kernel} {b : ℕ} (h : Takes k k' {b}) (W : UInt32 → Prop) :
    Keeps k (kfree (blockAddr b) k') W := by
  have hb : b < 25600 := h.lt b rfl
  obtain ⟨-, hkeep⟩ := kfree_block hb (h.single b rfl)
  refine ⟨fun c hc ht => ?_, fun c hc ht x hx _ => ?_⟩
  · have hcb : c ≠ b := fun e => ht (h.free c (Set.mem_singleton_iff.mpr e))
    unfold EntryFree Heap.entry
    rw [kernelHeap_entries, hkeep _ fun e => hcb (off_inj (by omega) (by omega) e)]
    exact h.still_taken hc ht
  · rw [hkeep x (hx.ne_entry hc hb), h.same hc ht hx]

/-- The layout with an allocation of one block for each block of `B`. -/
noncomputable def addBlocks (live : Layout UInt32) (B : Set ℕ) : Layout UInt32 := fun a => by
  classical exact if h : ∃ b ∈ B, a = blockAddr b then some ⟨h.choose, 1, one_pos⟩ else live a

theorem addBlocks_blockAddr (live : Layout UInt32) {B : Set ℕ} (hB : ∀ b ∈ B, b < 25600) {b : ℕ}
    (hb : b ∈ B) : addBlocks live B (blockAddr b) = some ⟨b, 1, one_pos⟩ := by
  have h : ∃ c ∈ B, blockAddr b = blockAddr c := ⟨b, hb, rfl⟩
  have hc := h.choose_spec
  have hbc : h.choose = b := blockAddr_inj (hB _ hc.1) (hB b hb) hc.2.symm
  unfold addBlocks
  rw [dif_pos h]
  simp only [hbc]

theorem addBlocks_of_not (live : Layout UInt32) {B : Set ℕ} {a : UInt32}
    (h : ¬ ∃ b ∈ B, a = blockAddr b) : addBlocks live B a = live a := dif_neg h

/-- An allocation of the new layout is one of the old or a block of `B`. -/
theorem addBlocks_cases {B : Set ℕ} (hB : ∀ b ∈ B, b < 25600) {a : UInt32} {e : Extent}
    (h : addBlocks live B a = some e) :
    live a = some e ∨ ∃ b ∈ B, a = blockAddr b ∧ e = ⟨b, 1, one_pos⟩ := by
  by_cases ha : ∃ b ∈ B, a = blockAddr b
  · obtain ⟨b, hb, rfl⟩ := ha
    rw [addBlocks_blockAddr live hB hb] at h
    exact Or.inr ⟨b, hb, rfl, (Option.some.inj h).symm⟩
  · rw [addBlocks_of_not live ha] at h
    exact Or.inl h

/-- The blocks taken join the live allocations. -/
theorem HeapInv.takes {k' : Kernel} {B : Set ℕ} (hinv : HeapInv kernelHeap k.mem live)
    (h : Takes k k' B) :
    HeapInv kernelHeap k'.mem (addBlocks live B) ∧
      ∀ a e, live a = some e → addBlocks live B a = some e := by
  have hnot : ∀ a e, live a = some e → ∀ b, e.Has b → b ∉ B :=
    fun a e ha b hb => h.not_mem (hinv.taken ha hb)
  have hin : ∀ a e, live a = some e → e.start + e.len ≤ 25600 := hinv.encodes.packed.inside
  have hkeep : ∀ a e, live a = some e → addBlocks live B a = some e := by
    intro a e ha
    rw [addBlocks_of_not live, ha]
    rintro ⟨b, hb, rfl⟩
    have hstart := hinv.address _ e ha
    have := hin _ e ha
    have := e.len_pos
    have hbs : b = e.start := blockAddr_inj (h.lt b hb) (by omega) hstart
    exact hnot _ e ha b (hbs ▸ e.has_start) hb
  refine ⟨⟨hinv.small, ⟨⟨fun a e ha => ?_, fun a c e f hac ha hc => ?_⟩, fun a e ha j hj => ?_,
    fun i hi hu => ?_⟩, fun a e ha => ?_⟩, hkeep⟩
  · rcases addBlocks_cases h.lt ha with ha | ⟨b, hb, -, rfl⟩
    · exact hin a e ha
    · exact h.lt b hb
  · rcases addBlocks_cases h.lt ha with ha | ⟨b, hb, rfl, rfl⟩ <;>
      rcases addBlocks_cases h.lt hc with hc | ⟨d, hd, rfl, rfl⟩
    · exact hinv.encodes.packed.apart a c e f hac ha hc
    · exact fun i hi hid => hnot a e ha i hi (Extent.has_single.mp hid ▸ hd)
    · exact fun i hib hi => hnot c f hc i hi (Extent.has_single.mp hib ▸ hb)
    · exact fun i hib hid =>
        hac (by rw [← Extent.has_single.mp hib, ← Extent.has_single.mp hid])
  · rcases addBlocks_cases h.lt ha with ha | ⟨b, hb, rfl, rfl⟩
    · have := hin a e ha
      rw [h.entries _ (by omega) (hnot a e ha _ (e.has_add hj))]
      exact hinv.encodes.taken a e ha j hj
    · obtain rfl : j = 0 := Nat.lt_one_iff.mp hj
      exact h.single b hb
  · have hiB : i ∉ B := fun hiB =>
      hu _ _ (addBlocks_blockAddr live h.lt hiB) ⟨le_rfl, Nat.lt_succ_self i⟩
    rw [h.entries i hi hiB]
    exact hinv.encodes.free i hi fun a e ha => hu a e (hkeep a e ha)
  · rcases addBlocks_cases h.lt ha with ha | ⟨b, hb, rfl, rfl⟩
    · exact hinv.address a e ha
    · rfl

/-! ### Free blocks -/

/-- The blocks whose entry is free. -/
noncomputable def freeBlocks (k : Kernel) : Finset ℕ := by
  classical exact (Finset.range 25600).filter fun i => EntryFree kernelHeap k.mem i

theorem mem_freeBlocks {k : Kernel} {i : ℕ} :
    i ∈ freeBlocks k ↔ i < 25600 ∧ EntryFree kernelHeap k.mem i := by
  unfold freeBlocks
  rw [Finset.mem_filter, Finset.mem_range]

/-- Stores to blocks of the pool do not change which blocks are free. -/
theorem freeBlocks_congr {k k' : Kernel} (h : ∀ x, InTable x → k'.mem x = k.mem x) :
    freeBlocks k' = freeBlocks k := by
  ext i
  rw [mem_freeBlocks, mem_freeBlocks]
  refine and_congr_right fun hi => ?_
  unfold EntryFree Heap.entry
  rw [kernelHeap_entries, h _ (inRange_off hi)]

/-- The blocks not taken stay free. -/
theorem Takes.card_le {k k' : Kernel} {B : Set ℕ} (h : Takes k k' B) (F : Finset ℕ)
    (hF : ∀ b ∈ B, b ∈ F) : (freeBlocks k).card ≤ (freeBlocks k').card + F.card := by
  have hsub : freeBlocks k ⊆ freeBlocks k' ∪ F := by
    intro i hi
    rw [mem_freeBlocks] at hi
    rw [Finset.mem_union, mem_freeBlocks]
    by_cases hib : i ∈ B
    · exact Or.inr (hF i hib)
    · refine Or.inl ⟨hi.1, ?_⟩
      unfold EntryFree
      rw [h.entries i hi.1 hib]
      exact hi.2
  exact (Finset.card_le_card hsub).trans (Finset.card_union_le _ _)

/-- Every byte of `m'` is that of `m` or zero. -/
def Lowers (m m' : Mem) : Prop := ∀ x, m' x = m x ∨ m' x = 0

theorem Lowers.refl (m : Mem) : Lowers m m := fun _ => Or.inl rfl

theorem Lowers.trans {m m₁ m₂ : Mem} (h₁ : Lowers m m₁) (h₂ : Lowers m₁ m₂) : Lowers m m₂ := by
  intro x
  rcases h₂ x with h | h
  · rw [h]
    exact h₁ x
  · exact Or.inr h

theorem lowers_write_zero (m : Mem) (a : UInt32) :
    Lowers m (m.write a heapBlockTableEntryFree) := by
  intro x
  by_cases hx : x = a
  · subst hx
    exact Or.inr (Mem.write_same _ _ _)
  · exact Or.inl (Mem.write_ne _ _ hx)

theorem heapMarkFreeLoop_lowers (t : HeapTable) : ∀ (left : ℕ) (i : ℤ) (m : Mem),
    Lowers m (heapMarkFreeLoop t left i m)
  | 0, _, m => Lowers.refl m
  | left + 1, i, m => by
      have hwrite := lowers_write_zero m (t.entryAddr i)
      rw [heapMarkFreeLoop_succ]
      dsimp only
      split_ifs
      · exact hwrite
      · exact hwrite.trans (heapMarkFreeLoop_lowers t left (i + 1) _)

theorem kfree_lowers (a : UInt32) (k : Kernel) : Lowers k.mem (kfree a k).mem :=
  heapMarkFreeLoop_lowers _ _ _ _

/-- Freeing takes no block. -/
theorem freeBlocks_kfree_le (a : UInt32) (k : Kernel) :
    (freeBlocks k).card ≤ (freeBlocks (kfree a k)).card := by
  refine Finset.card_le_card fun i hi => ?_
  rw [mem_freeBlocks] at hi ⊢
  refine ⟨hi.1, ?_⟩
  have hfree := hi.2
  unfold EntryFree Heap.entry at hfree ⊢
  rcases kfree_lowers a k (off kernelHeap.table.entries i) with h | h
  · rw [h]
    exact hfree
  · rw [h]
    rfl

/-- A block that is taken and given back is free again. -/
theorem Takes.freeBlocks_kfree {k k' : Kernel} {b : ℕ} (h : Takes k k' {b}) :
    freeBlocks (kfree (blockAddr b) k') = freeBlocks k := by
  have hb : b < 25600 := h.lt b rfl
  obtain ⟨hclear, hkeep⟩ := kfree_block hb (h.single b rfl)
  ext i
  rw [mem_freeBlocks, mem_freeBlocks]
  refine and_congr_right fun hi => ?_
  by_cases hib : i = b
  · subst hib
    refine iff_of_true ?_ (h.free i rfl)
    unfold EntryFree
    rw [hclear]
    rfl
  · have hsame : kernelHeap.entry (kfree (blockAddr b) k').mem i =
        kernelHeap.entry k.mem i := by
      rw [← h.entries i hi hib]
      refine hkeep _ fun e => hib ?_
      rw [kernelHeap_entries] at e
      exact off_inj (by omega) (by omega) e
    unfold EntryFree
    rw [hsame]

/-- A request of at most one block succeeds while a block is free, and uses one. -/
theorem kzalloc_block_ok (size : UInt32) (h1 : 1 ≤ size.toNat) (h2 : size.toNat ≤ 4096) {c : ℕ}
    (hk : k.oom = false) (hc : c + 1 ≤ (freeBlocks k).card) :
    (kzalloc size k).2.oom = false ∧ c ≤ (freeBlocks (kzalloc size k).2).card := by
  rcases kzalloc_block h1 h2 k with ⟨b, -, htake, -, hoom⟩ | ⟨-, hnone⟩
  · refine ⟨hoom.trans hk, ?_⟩
    have hcard := htake.card_le {b} fun c hc => Finset.mem_singleton.mpr hc
    rw [Finset.card_singleton] at hcard
    omega
  · have hempty : freeBlocks k = ∅ := by
      refine Finset.eq_empty_of_forall_notMem fun i hi => ?_
      rw [mem_freeBlocks] at hi
      exact hnone i hi.1 hi.2
    rw [hempty, Finset.card_empty] at hc
    omega

/-! ### A heap with room at the top -/

/-- Every entry from `p` on is free, and nothing has failed. -/
structure TopFree (k : Kernel) (live : Layout UInt32) (p : ℕ) : Prop where
  heap : HeapInv kernelHeap k.mem live
  ok : k.oom = false
  free : ∀ i < 25600, p ≤ i → EntryFree kernelHeap k.mem i

/-- A request that fits in the room is served, at the first fit and so below its end. -/
theorem TopFree.kzalloc {p : ℕ} (h : TopFree k live p) (size : UInt32) (h1 : 1 ≤ size.toNat)
    (hp : p + blocksFor size ≤ 25600) :
    ∃ a k' live', PeachOS.kzalloc size k = (a, k') ∧ TopFree k' live' (p + blocksFor size) ∧
      Allocated live' size a ∧ live a = none ∧ ∀ a e, live a = some e → live' a = some e := by
  have h2 : size.toNat ≤ 0xFFFFF000 := by unfold blocksFor at hp; omega
  have hrun : Run (EntryFree kernelHeap k.mem) p (blocksFor size) :=
    fun j hj => h.free (p + j) (by omega) (by omega)
  obtain ⟨e, k', hk, hoom, hlen, hin, hfirst, hnone, hinv, -, -⟩ :=
    kzalloc_spec h.heap h1 h2 ⟨p, hp, hrun⟩
  have hstart := hfirst.least p hp hrun
  refine ⟨_, k', _, hk, ⟨hinv, hoom.trans h.ok, fun i hi hpi => ?_⟩,
    ⟨e, assign_self _ _ _, hlen⟩, hnone, fun a f ha => ?_⟩
  · have hu : Uncovered (assign live (blockAddr e.start) e) i := by
      intro a f ha hf
      by_cases hae : a = blockAddr e.start
      · rw [hae, assign_self] at ha
        obtain rfl := Option.some.inj ha
        have := hf.2
        omega
      · rw [assign_of_ne _ _ hae] at ha
        exact h.heap.uncovered (h.free i hi (by omega)) a f ha hf
    have hentry := hinv.encodes.free i hi hu
    unfold EntryFree
    rw [hentry]
    rfl
  · rw [assign_of_ne _ _ fun hae => ?_]
    · exact ha
    · rw [hae, hnone] at ha
      cases ha

/-- Stores outside the table. -/
theorem TopFree.write {k' : Kernel} {p : ℕ} (h : TopFree k live p) (hok : k'.oom = false)
    (hw : ∀ x, InTable x → k'.mem x = k.mem x) : TopFree k' live p where
  heap := h.heap.congr fun i hi => hw _ (inRange_off (by rwa [kernelHeap_total] at hi))
  ok := hok
  free i hi hpi := by
    unfold EntryFree Heap.entry
    rw [kernelHeap_entries, hw _ (inRange_off hi)]
    exact h.free i hi hpi

theorem TopFree.card_le {p : ℕ} (h : TopFree k live p) : 25600 - p ≤ (freeBlocks k).card := by
  have hsub : Finset.Ico p 25600 ⊆ freeBlocks k := by
    intro i hi
    rw [Finset.mem_Ico] at hi
    exact mem_freeBlocks.mpr ⟨hi.2, h.free i hi.2 hi.1⟩
  have := Finset.card_le_card hsub
  rwa [Nat.card_Ico] at this

/-- A kernel whose heap was just initialised over zeroed memory. -/
def freshKernel : Kernel := ⟨(kheapInit fun _ => 0).2, false⟩

theorem freshKernel_topFree : TopFree freshKernel Extents.empty 0 where
  heap := kheapInit_inv fun _ => 0
  ok := rfl
  free := by
    intro i hi _
    have henc := (kheapInit_inv fun _ => 0).encodes
    have hentry := henc.free i hi fun a e ha => nomatch ha
    unfold EntryFree
    exact (congrArg heapGetEntryType hentry).trans (by decide)

end PeachOS
