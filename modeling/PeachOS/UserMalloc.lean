import PeachOS.AddressSpace
import PeachOS.ProcessMap
import PeachOS.Process
import PeachOS.HeapExhaustion

/-! # Memory of the `malloc` system call

`process_malloc` allocates on the kernel heap and records the pointer, and maps nothing.  The
directory that `task_init` built gives every page the flags present and accessible, not
writable.  So the pages of an allocation can be used by the program only when something
else mapped them before (`processMalloc_usable_iff`). -/

namespace PeachOS

open ByteMemory Extents

/-- Present, accessible from user mode and writable there. -/
def Usable (entry : UInt32) : Prop := entry &&& pagingIsPresent ≠ 0 ∧ UserWritable entry

/-- The directory in the blocks `s` maps the page `w` for a user program to write: both the
entry of the directory and the entry of the page allow it. -/
structure UserMapped (m : Mem) (s : SpaceBlocks) (w : UInt32) : Prop where
  tables : PageTables m s
  entry : Usable (m.read32 (wordAddr s.directory (w.toNat / 4194304)))
  page : Usable (pagingGet (paging4gbChunkGetDirectory (blockAddr s.chunk) m) w m)

/-- The page `w` intersects `[ptr, ptr + size)`. -/
def Meets (ptr size w : UInt32) : Prop := ∃ x, InRange ptr size.toNat x ∧ InRange w 4096 x

/-- Every page of `[ptr, ptr + size)` is mapped for the program. -/
def AllMapped (m : Mem) (s : SpaceBlocks) (ptr size : UInt32) : Prop :=
  ∀ w, PageAligned w → Meets ptr size w → UserMapped m s w

/-- The block where the scan of `heap_malloc` finds room for `size` bytes, or an error. -/
def requestedBlock (size : UInt32) (m : Mem) : ℤ :=
  heapGetStartBlock kernelHeap (heapAlignValueToUpper size / peachosHeapBlockSize) m

variable {k : Kernel} {m m' : Mem} {s : SpaceBlocks} {size w : UInt32}

/-! ### The directory lies in the heap -/

theorem InBlock.above {b : ℕ} {x : UInt32} (hb : b < 25600) (hx : InBlock b x) :
    16777216 ≤ x.toNat := by
  rw [inBlock_iff hb] at hx
  omega

/-- What a page is mapped to is read from the heap alone. -/
theorem UserMapped.congr (h : UserMapped m s w) (hw : PageAligned w)
    (hsame : ∀ b ∈ s.blocks, ∀ x, InBlock b x → m' x = m x) : UserMapped m' s w := by
  have htables : PageTables m' s :=
    h.tables.congr (hsame _ (Or.inl rfl)) (hsame _ (Or.inr (Or.inl rfl)))
  obtain ⟨hi, hj⟩ := slot_lt w
  refine ⟨htables, ?_, ?_⟩
  · rw [read32_wordAddr_congr s.directory_lt hi (hsame _ (Or.inr (Or.inl rfl)))]
    exact h.entry
  · have hpage := h.page
    unfold paging4gbChunkGetDirectory at hpage ⊢
    rw [h.tables.chunk, pagingGet_eq h.tables hw] at hpage
    rw [htables.chunk, pagingGet_eq htables hw]
    unfold SpaceBlocks.slot at hpage ⊢
    rwa [read32_wordAddr_congr (s.table_lt _ hi) hj (hsame _ (Or.inr (Or.inr ⟨_, hi, rfl⟩)))]

theorem allMapped_congr {ptr : UInt32} (hsame : ∀ x, 16777216 ≤ x.toNat → m' x = m x) :
    AllMapped m' s ptr size ↔ AllMapped m s ptr size := by
  constructor
  · exact fun h w hw hmeets => (h w hw hmeets).congr hw fun b hb x hx =>
      (hsame x (hx.above (SpaceBlocks.lt hb))).symm
  · exact fun h w hw hmeets => (h w hw hmeets).congr hw fun b hb x hx =>
      hsame x (hx.above (SpaceBlocks.lt hb))

/-! ### What `kzalloc` does to the heap -/

/-- The scan ends in an error or at a block of the table. -/
theorem requestedBlock_cases (h1 : 1 ≤ size.toNat) (h2 : size.toNat ≤ 0xFFFFF000) (m : Mem) :
    requestedBlock size m < 0 ∨ ∃ b : ℕ, b < 25600 ∧ requestedBlock size m = b := by
  have hn : 0 < (heapAlignValueToUpper size / peachosHeapBlockSize).toNat := by
    rw [heapMalloc_blocks h2]
    exact blocksFor_pos h1
  have htotal : kernelHeap.table.total.toNat = 25600 := rfl
  unfold requestedBlock
  rcases heapGetStartBlock_spec (m := m) hn (h := kernelHeap) (by rw [htotal]; norm_num) with
    ⟨b, hb, hfirst⟩ | ⟨-, t, ht, hstart, -, -⟩
  · have := hfirst.inside
    exact Or.inr ⟨b, by omega, hb⟩
  · rw [hstart]
    split_ifs with hend
    · exact Or.inl (by decide)
    · exact Or.inr ⟨t, by omega, rfl⟩

theorem kzalloc_unfound (h : requestedBlock size k.mem < 0) :
    (kzalloc size k).1 = 0 ∧ (kzalloc size k).2.mem = k.mem := by
  have hnull : heapMalloc kernelHeap size k.mem = (0, k.mem) := by
    unfold heapMalloc
    exact heapMallocBlocks_of_neg h
  rw [kzalloc_of_null hnull]
  exact ⟨rfl, rfl⟩

/-- An allocation clears its bytes, and the rest of the heap keeps its contents. -/
theorem kzalloc_above (h1 : 1 ≤ size.toNat) (h2 : size.toNat ≤ 0xFFFFF000) {b : ℕ}
    (hb : b < 25600) (hstart : requestedBlock size k.mem = b) :
    (kzalloc size k).1 = blockAddr b ∧ ∀ x, 16777216 ≤ x.toNat →
      (kzalloc size k).2.mem x = k.mem.fill (blockAddr b) 0 size.toNat x := by
  have hn := blocksFor_pos h1
  have hlarge : blocksFor size ≤ 1048576 := by unfold blocksFor; omega
  have hmalloc : heapMalloc kernelHeap size k.mem =
      (blockAddr b, heapMarkBlocksTaken kernelHeap b (blocksFor size) k.mem) := by
    unfold heapMalloc
    dsimp only
    rw [heapMallocBlocks_of_start hstart, heapMalloc_blocks h2,
      i32_of_range (by omega) (by omega)]
    rfl
  rw [kzalloc_of_ne hmalloc (blockAddr_ne_zero hb)]
  refine ⟨rfl, fun x hx => ?_⟩
  obtain ⟨-, hold⟩ := heapMarkBlocksTaken_apply kernelHeap hn (s := b) (by omega) k.mem
  dsimp only [memset]
  rw [Mem.fill_apply, Mem.fill_apply, hold x fun j hj e => ?_]
  -- the table lies below the heap
  have := congrArg UInt32.toNat e
  rw [kernelHeap_entries, toNat_off, show (0x7e00 : UInt32).toNat = 32256 from rfl] at this
  omega

/-! ### `process_malloc` -/

/-- **When the memory of `malloc` can be used.**  The pages of an allocation are mapped for
the program exactly when the request fails, or the pages of the block it gets were mapped so
before the call, with the bytes of the block cleared. -/
theorem processMalloc_usable_iff (p : UInt32) (st : ProcState) (s : SpaceBlocks)
    (h1 : 1 ≤ size.toNat) (h2 : size.toNat ≤ 0xFFFFF000) :
    ((processMalloc p size st).1 ≠ 0 →
      AllMapped (processMalloc p size st).2.kernel.mem s (processMalloc p size st).1 size) ↔
    (requestedBlock size st.kernel.mem < 0 ∨ 0 ∉ (st.procs p).allocations ∨
      AllMapped
        (st.kernel.mem.fill
          (heapBlockToAddress kernelHeap (requestedBlock size st.kernel.mem)) 0 size.toNat)
        s (heapBlockToAddress kernelHeap (requestedBlock size st.kernel.mem)) size) := by
  rcases requestedBlock_cases h1 h2 st.kernel.mem with hneg | ⟨b, hb, hstart⟩
  · refine iff_of_true (fun hne => ?_) (Or.inl hneg)
    rcases processMalloc_cases p size st with ⟨hnull, -, -⟩ | ⟨i, hptr, -, -⟩
    · exact absurd hnull hne
    · exact absurd (kzalloc_unfound hneg).1 hptr
  · obtain ⟨hptr, hmem⟩ := kzalloc_above (k := st.kernel) (b := b) h1 h2 hb hstart
    have hne := blockAddr_ne_zero hb
    have haddr : heapBlockToAddress kernelHeap (b : ℤ) = blockAddr b := by
      rw [heapBlockToAddress_natCast]
      rfl
    rw [hstart, haddr]
    rcases processMalloc_cases p size st with ⟨hnull, -, hfull⟩ | ⟨i, -, hi, heq⟩
    · rw [hptr] at hfull
      exact iff_of_true (fun h => absurd hnull h) (Or.inr (Or.inl (hfull.resolve_left hne)))
    · have hempty : 0 ∈ (st.procs p).allocations := List.mem_of_getElem? hi
      have hkernel : (processMalloc p size st).2.kernel = (kzalloc size st.kernel).2 := by
        rw [heq]
        rfl
      have hres : (processMalloc p size st).1 = blockAddr b := by rw [heq, hptr]
      rw [hkernel, hres, allMapped_congr hmem]
      constructor
      · exact fun h => Or.inr (Or.inr (h hne))
      · rintro (hneg | hfull | hmapped) -
        · omega
        · exact absurd hempty hfull
        · exact hmapped

theorem usable_write {w : UInt32} (hw : PageAligned w) : Usable (w ||| 7) := by
  refine ⟨?_, userWritable_write hw⟩
  rw [and_two_pow_ne_zero_iff (i := 0) _ rfl, toNat_or_of_aligned hw (by decide)]
  have hflags : (7 : UInt32).toNat = 7 := rfl
  unfold PageAligned at hw
  omega

/-- The block that a request of 16 bytes gets. -/
theorem requestedBlock_first {live : Layout UInt32} {n : ℕ} (htop : TopFree k live n)
    (hn : n + 1 ≤ 25600) :
    ∃ b : ℕ, requestedBlock 16 k.mem = b ∧ FirstRun (EntryFree kernelHeap k.mem) 25600 1 b := by
  have hblocks : (heapAlignValueToUpper 16 / peachosHeapBlockSize).toNat = 1 := by decide
  have hfit : ∃ b, b + (heapAlignValueToUpper 16 / peachosHeapBlockSize).toNat ≤ 25600 ∧
      Run (EntryFree kernelHeap k.mem) b
        (heapAlignValueToUpper 16 / peachosHeapBlockSize).toNat := by
    rw [hblocks]
    exact ⟨n, hn, fun j hj => htop.free _ (by omega) (by omega)⟩
  obtain ⟨b, hb, hfirst⟩ := heapGetStartBlock_firstRun (h := kernelHeap) (by rw [hblocks]; decide)
    (by decide) hfit
  rw [hblocks] at hfirst
  exact ⟨b, hb, hfirst⟩

/-- A new directory in which the page of the next block has been made writable. -/
theorem exists_writableBlock : ∃ (k : Kernel) (s : SpaceBlocks) (b : ℕ), b < 25600 ∧
    requestedBlock 16 k.mem = b ∧ b ∉ s.blocks ∧ UserMapped k.mem s (blockAddr b) := by
  obtain ⟨chunk, k, live, hnew, -, htop, -⟩ :=
    freshKernel_topFree.pagingNew4gb (1 ||| 4) (by norm_num)
  have hok : (pagingNew4gb (1 ||| 4) freshKernel).2.oom = false := by
    rw [hnew]
    exact htop.ok
  obtain ⟨s, -, htake, hrep, hopen⟩ := pagingNew4gb_open (by decide) hok
  rw [hnew] at htake hrep hopen
  obtain ⟨b, -, hfirst⟩ := requestedBlock_first htop (by norm_num)
  have hb : b < 25600 := hfirst.inside
  have hw := pageAligned_blockAddr hb
  obtain ⟨m, hset, hrepm, hsame⟩ := pagingSet_spec hrep hw (blockAddr b ||| 7)
  have htable : ∀ x, InTable x → m x = k.mem x := by
    refine fun x hx => hsame x ?_
    rintro ⟨i, hi, hxi⟩
    exact hxi.not_inTable (s.table_lt i hi) hx
  have hopenm : OpenTables m s := by
    have := hopen.set hrep.tables (blockAddr b) (blockAddr b ||| 7)
    rwa [hset] at this
  -- the block is still the first free one
  have htopm : TopFree ⟨m, k.oom⟩ live (0 + 1026) := htop.write htop.ok htable
  obtain ⟨c, hc, hfirstm⟩ := requestedBlock_first htopm (by norm_num)
  obtain rfl := hfirstm.unique hfirst fun i hi => by
    unfold EntryFree Heap.entry
    dsimp only
    rw [kernelHeap_entries, htable _ (inRange_off hi)]
  refine ⟨⟨m, k.oom⟩, s, c, hb, hc, fun hmem => htake.taken hmem (hfirst.run 0 one_pos),
    hrepm.tables, ?_, ?_⟩
  · rw [hopenm _ (slot_lt _).1]
    exact usable_write (pageAligned_blockAddr (s.table_lt _ (slot_lt _).1))
  · unfold paging4gbChunkGetDirectory
    rw [hrepm.tables.chunk, pagingGet_spec hrepm hw, Function.update_self]
    exact usable_write hw

/-- A process gets the 16 bytes it asks for in that page, and can use them. -/
theorem processMalloc_usable_writable : ∃ (st : ProcState) (s : SpaceBlocks),
    (processMalloc 0x1000 16 st).1 ≠ 0 ∧
      AllMapped (processMalloc 0x1000 16 st).2.kernel.mem s (processMalloc 0x1000 16 st).1 16 := by
  obtain ⟨k, s, b, hb, hfound, hout, hmapped⟩ := exists_writableBlock
  have hptr := (kzalloc_above (by decide) (by decide) hb hfound).1
  have hne : (processMalloc 0x1000 16 ⟨k, fun _ => processInit⟩).1 ≠ 0 := by
    rcases processMalloc_cases 0x1000 16 ⟨k, fun _ => processInit⟩ with
      ⟨-, -, hnull | hfull⟩ | ⟨i, hne, -, heq⟩
    · exact absurd (hptr.symm.trans hnull) (blockAddr_ne_zero hb)
    · exact absurd (List.mem_replicate.mpr ⟨by decide, rfl⟩) hfull
    · rw [heq]
      exact hne
  have haddr : heapBlockToAddress kernelHeap (requestedBlock 16 k.mem) = blockAddr b := by
    rw [hfound, heapBlockToAddress_natCast]
    rfl
  refine ⟨⟨k, fun _ => processInit⟩, s, hne, (processMalloc_usable_iff 0x1000 _ s (by decide)
    (by decide)).mpr (Or.inr (Or.inr fun w hw hmeets => ?_)) hne⟩
  dsimp only at hmeets ⊢
  rw [haddr] at hmeets ⊢
  obtain ⟨x, hx, hxw⟩ := hmeets
  have hxb : InBlock b x := lt_of_lt_of_le hx (by decide)
  obtain rfl : w = blockAddr b := by
    have haddr := toNat_blockAddr hb
    have hlt := toNat_lt w
    unfold PageAligned at hw
    rw [inRange_iff (by omega)] at hxw
    rw [inBlock_iff hb] at hxb
    apply UInt32.toNat.inj
    omega
  refine hmapped.congr hw fun c hc y hy => ?_
  rw [Mem.fill_apply, if_neg fun hyb => hout ?_]
  rwa [← InBlock.unique (SpaceBlocks.lt hc) hb hy (lt_of_lt_of_le hyb (by decide))]

/-- A directory without a writable page stays so: no allocation can be used. -/
theorem not_usable_of_identity {live : Layout UInt32} {n : ℕ} (htop : TopFree k live n)
    (hn : n + 1 ≤ 25600) (htaken : ∀ b ∈ s.blocks, ¬ EntryFree kernelHeap k.mem b)
    (hrep : Represents k.mem s fun w => w ||| pageFlagsRead) (p : UInt32) :
    (processMalloc p 16 ⟨k, fun _ => processInit⟩).1 ≠ 0 ∧
      ¬ AllMapped (processMalloc p 16 ⟨k, fun _ => processInit⟩).2.kernel.mem s
        (processMalloc p 16 ⟨k, fun _ => processInit⟩).1 16 := by
  have hone : blocksFor 16 = 1 := by decide
  have hfit : FreeRun kernelHeap k.mem (blocksFor 16) := by
    rw [hone]
    refine ⟨n, hn, fun j hj => htop.free _ ?_ ?_⟩ <;> omega
  obtain ⟨e, k', hk, -, hlen, hin, hfirst, -, -, -, hframe⟩ :=
    kzalloc_spec htop.heap (by decide) (by decide) hfit
  have hpos := e.len_pos
  have he : e.start < 25600 := by omega
  have hsame : ∀ b ∈ s.blocks, ∀ x, InBlock b x → k'.mem x = k.mem x := by
    intro b hb x hx
    have hlt := SpaceBlocks.lt hb
    refine hframe x (hx.not_inTable hlt) fun hext => ?_
    obtain ⟨c, hc, hxc⟩ := hext
    have hcb : c = b := InBlock.unique (by have := hc.2; omega) hlt hxc hx
    obtain ⟨j, hj, hcj⟩ := hc.exists_add
    refine htaken b hb ?_
    rw [← hcb, hcj]
    exact hfirst.run j (by omega)
  have hmalloc : (processMalloc p 16 ⟨k, fun _ => processInit⟩).1 = blockAddr e.start ∧
      (processMalloc p 16 ⟨k, fun _ => processInit⟩).2.kernel = k' := by
    rcases processMalloc_cases p 16 ⟨k, fun _ => processInit⟩ with ⟨-, -, hfail⟩ | ⟨i, -, -, heq⟩
    · dsimp only at hfail
      rw [hk] at hfail
      rcases hfail with hnull | hfull
      · exact absurd hnull (blockAddr_ne_zero he)
      · exact absurd (List.mem_replicate.mpr ⟨by decide, rfl⟩) hfull
    · rw [heq]
      dsimp only
      rw [hk]
      exact ⟨rfl, rfl⟩
  rw [hmalloc.1, hmalloc.2]
  refine ⟨blockAddr_ne_zero he, fun hall => ?_⟩
  have hw := pageAligned_blockAddr he
  have hx : InBlock e.start (blockAddr e.start) := by
    have := inRange_off (p := blockAddr e.start) (n := 4096) (k := 0) (by norm_num)
    rwa [off_zero] at this
  have hmapped := hall _ hw ⟨blockAddr e.start, by
    have := inRange_off (p := blockAddr e.start) (n := 16) (k := 0) (by norm_num)
    rwa [off_zero] at this, hx⟩
  have hpage := hmapped.page.2
  have hrep' := hrep.congr hsame
  unfold paging4gbChunkGetDirectory at hpage
  rw [hmapped.tables.chunk, pagingGet_spec hrep' hw] at hpage
  exact not_userWritable_read hw hpage

/-- A process whose directory is new asks for 16 bytes: it gets a page it cannot write. -/
theorem processMalloc_read_only :
    ∃ s : SpaceBlocks, (pagingNew4gb (1 ||| 4) freshKernel).1 = blockAddr s.chunk ∧
      ¬ ((processMalloc 0x1000 16
          ⟨(pagingNew4gb (1 ||| 4) freshKernel).2, fun _ => processInit⟩).1 ≠ 0 →
        AllMapped (processMalloc 0x1000 16
            ⟨(pagingNew4gb (1 ||| 4) freshKernel).2, fun _ => processInit⟩).2.kernel.mem s
          (processMalloc 0x1000 16
            ⟨(pagingNew4gb (1 ||| 4) freshKernel).2, fun _ => processInit⟩).1 16) := by
  obtain ⟨chunk, k', live', hnew, -, htop, -⟩ :=
    freshKernel_topFree.pagingNew4gb (1 ||| 4) (by norm_num)
  have hok : (pagingNew4gb (1 ||| 4) freshKernel).2.oom = false := by
    rw [hnew]
    exact htop.ok
  obtain ⟨s, hchunk, htake, hrep⟩ := pagingNew4gb_spec hok
  rw [hnew] at hchunk htake hrep ⊢
  refine ⟨s, hchunk, fun h => ?_⟩
  obtain ⟨hne, hnot⟩ := not_usable_of_identity htop (by norm_num)
    (fun b hb => htake.taken hb) hrep 0x1000
  exact hnot (h hne)

end PeachOS
