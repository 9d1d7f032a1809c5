import PeachOS.UserMalloc

/-! # What a failed `malloc` leaves behind

`process_malloc` takes its block before it looks for a slot to record it in, and does not give
it back when the array is full.  So a call that returns null changes the block table, except
where the heap has no block for the request or the request takes none
(`processMalloc_atomic_iff`).

A request of `0xff00e200` bytes or more that the scan serves is cleared around the end of the
address space and over the whole block table.  The process structures, which the model keeps
apart from memory, are not reached by it. -/

namespace PeachOS

open ByteMemory Extents

/-- The block table of the kernel heap is the same in both memories. -/
def SameTable (m m' : Mem) : Prop := ∀ i < 25600, kernelHeap.entry m' i = kernelHeap.entry m i

/-- The blocks `heap_malloc` computes for a request. -/
def requestedBlocks (size : UInt32) : UInt32 := heapAlignValueToUpper size / peachosHeapBlockSize

variable {k : Kernel} {m : Mem} {size : UInt32} {b : ℕ}

/-! ### The block of a request -/

/-- The scan returned the block `b` for a request of `size` bytes. -/
structure FoundBlock (size : UInt32) (m : Mem) (b : ℕ) : Prop where
  start : requestedBlock size m = b
  lt : b < 25600
  free : EntryFree kernelHeap m b
  /-- A request that fits nowhere gets the free run at the end of the table. -/
  tail : requestedBlocks size = 0 ∨ 25600 < (requestedBlocks size).toNat →
    (∀ i < 25600, b ≤ i → EntryFree kernelHeap m i) ∧ (b = 0 ∨ ¬ EntryFree kernelHeap m (b - 1))

theorem foundBlock_cases (size : UInt32) (m : Mem) :
    requestedBlock size m < 0 ∨ ∃ b, FoundBlock size m b := by
  have htotal : kernelHeap.table.total.toNat ≤ 2147483648 := by rw [kernelHeap_total]; omega
  by_cases hunfit : Unfit kernelHeap m (requestedBlocks size)
  · obtain ⟨t, ht, hstart, hrun, hgap⟩ := heapGetStartBlock_unfit htotal hunfit
    rw [kernelHeap_total] at ht hstart hrun
    change requestedBlock size m = _ at hstart
    split_ifs at hstart with hend
    · left
      rw [hstart]
      decide
    · have hfree : ∀ i < 25600, t ≤ i → EntryFree kernelHeap m i := by
        intro i hi hti
        have := hrun (i - t) (by omega)
        rwa [Nat.add_sub_cancel' hti] at this
      exact Or.inr ⟨t, hstart, by omega, hfree t (by omega) le_rfl, fun _ => ⟨hfree, hgap⟩⟩
  · obtain ⟨hne, hfit⟩ := not_or.mp hunfit
    have hfit := not_not.mp hfit
    have hpos : 0 < (requestedBlocks size).toNat :=
      Nat.pos_of_ne_zero fun e => hne (UInt32.toNat.inj e)
    obtain ⟨s, hstart, hfirst⟩ := heapGetStartBlock_firstRun hpos htotal hfit
    have hin := hfirst.inside
    rw [kernelHeap_total] at hin
    exact Or.inr ⟨s, hstart, by omega, hfirst.run 0 hpos, fun h =>
      absurd h (not_or.mpr ⟨hne, by omega⟩)⟩

/-- A request that was served: its blocks are marked, its bytes cleared. -/
theorem kzalloc_found (h : FoundBlock size k.mem b) :
    (kzalloc size k).1 = blockAddr b ∧
      (kzalloc size k).2.mem =
        (heapMarkBlocksTaken kernelHeap b (i32 (requestedBlocks size).toNat) k.mem).fill
          (blockAddr b) 0 size.toNat := by
  have hmalloc : heapMalloc kernelHeap size k.mem = (blockAddr b,
      heapMarkBlocksTaken kernelHeap b (i32 (requestedBlocks size).toNat) k.mem) := by
    unfold heapMalloc
    dsimp only
    rw [heapMallocBlocks_of_start h.start]
    rfl
  rw [kzalloc_of_ne hmalloc (blockAddr_ne_zero h.lt)]
  exact ⟨rfl, rfl⟩

/-! ### When the block table stays the same -/

/-- Entry `i` lies in the bytes of a request at block `b` when the request runs around. -/
theorem inRange_entry_iff (hb : b < 25600) {i : ℕ} (hi : i < 25600) (n : ℕ) :
    InRange (blockAddr b) n (off 0x7e00 i) ↔ 4278222336 + i < n + 4096 * b := by
  have ha := toNat_blockAddr hb
  have hi' : (off 0x7e00 i).toNat = 32256 + i := by
    rw [toNat_off_of_lt] <;> rw [show (0x7e00 : UInt32).toNat = 32256 from rfl]
    omega
  unfold InRange
  rw [toNat_sub', ha, hi']
  omega

theorem requestedBlocks_of_roundable (h : Roundable size) :
    (requestedBlocks size).toNat = blocksFor size := heapMalloc_blocks h.2

theorem requestedBlocks_of_not_roundable (h : ¬ Roundable size) : requestedBlocks size = 0 :=
  alignedBlocks_of_not_roundable h

/-- The entry of a marked block that is not cleared again differs from the one before. -/
theorem inRange_of_sameTable (h : FoundBlock size k.mem b) (hsize : Roundable size)
    (hsame : SameTable k.mem (kzalloc size k).2.mem) {i : ℕ} (hi : i < blocksFor size)
    (hin : b + i < 25600) (hfree : EntryFree kernelHeap k.mem (b + i)) :
    InRange (blockAddr b) size.toNat (off 0x7e00 (b + i)) := by
  have hlarge : blocksFor size ≤ 1048576 := by have := hsize.2; unfold blocksFor; omega
  have hlt := h.lt
  by_contra hout
  obtain ⟨hmark, -⟩ := heapMarkBlocksTaken_apply kernelHeap (blocksFor_pos hsize.1) (s := b)
    (by omega) k.mem
  have hentry := hsame (b + i) hin
  rw [(kzalloc_found h).2, requestedBlocks_of_roundable hsize,
    i32_of_range (by omega) (by omega)] at hentry
  simp only [Heap.entry, kernelHeap_entries] at hentry hmark
  rw [Mem.fill_apply, if_neg hout, hmark i hi] at hentry
  simp only [EntryFree, Heap.entry, kernelHeap_entries] at hfree
  rw [← hentry] at hfree
  exact blockEntry_type _ _ hfree

/-- A request that clears the whole table leaves zeroes there. -/
theorem kzalloc_entry_zero (h : FoundBlock size k.mem b)
    (hall : 4278247935 < size.toNat + 4096 * b) {i : ℕ} (hi : i < 25600) :
    kernelHeap.entry (kzalloc size k).2.mem i = 0 := by
  rw [(kzalloc_found h).2]
  simp only [Heap.entry, kernelHeap_entries]
  rw [Mem.fill_apply, if_pos ((inRange_entry_iff h.lt hi _).mpr (by omega))]

theorem kzalloc_sameTable_iff (h : FoundBlock size k.mem b) :
    SameTable k.mem (kzalloc size k).2.mem ↔
      size = 0 ∨ (∀ i < 25600, kernelHeap.entry k.mem i = 0) ∧ 0xff00e200 ≤ size.toNat := by
  have hb := h.lt
  constructor
  · intro hsame
    by_cases hsize : Roundable size
    · have hone := inRange_of_sameTable h hsize hsame (blocksFor_pos hsize.1) hb h.free
      rw [add_zero, inRange_entry_iff hb hb] at hone
      have hblocks : 25600 < blocksFor size := by unfold blocksFor; omega
      obtain ⟨htail, hgap⟩ := h.tail (Or.inr (by rwa [requestedBlocks_of_roundable hsize]))
      have hlast := inRange_of_sameTable h hsize hsame (i := 25599 - b) (by omega) (by omega)
        (htail _ (by omega) (by omega))
      rw [show b + (25599 - b) = 25599 by omega, inRange_entry_iff hb (by omega)] at hlast
      have hzero : ∀ i < 25600, kernelHeap.entry k.mem i = 0 := fun i hi => by
        rw [← hsame i hi]
        exact kzalloc_entry_zero h (by omega) hi
      have hstart : b = 0 := hgap.resolve_right fun htaken => htaken (by
        unfold EntryFree
        rw [hzero (b - 1) (by omega)]
        rfl)
      exact Or.inr ⟨hzero, by omega⟩
    · by_cases hnone : size = 0
      · exact Or.inl hnone
      · have hpos : 0 < size.toNat := Nat.pos_of_ne_zero fun e => hnone (UInt32.toNat.inj e)
        have hbig : 0xFFFFF000 < size.toNat := by
          by_contra hle
          exact hsize ⟨hpos, by omega⟩
        refine Or.inr ⟨fun i hi => ?_, by omega⟩
        rw [← hsame i hi]
        exact kzalloc_entry_zero h (by omega) hi
  · rintro (rfl | ⟨hzero, hbig⟩) i hi
    · rw [(kzalloc_found h).2, requestedBlocks_of_not_roundable (by unfold Roundable; decide)]
      exact congrFun (heapMarkBlocksTaken_zero b (by omega)) _
    · rw [hzero i hi]
      exact kzalloc_entry_zero h (by omega) hi

/-! ### `process_malloc` -/

/-- **When a failed `malloc` changes nothing.**  A call of `process_malloc` that returns null
leaves the block table and the array as they were exactly when the array has an empty slot or
the heap no block for the request, when nothing was requested, or when the request is so large
that the whole of a table without entries is cleared once more. -/
theorem processMalloc_atomic_iff (p size : UInt32) (st : ProcState) :
    ((processMalloc p size st).1 = 0 →
      SameTable st.kernel.mem (processMalloc p size st).2.kernel.mem ∧
        ((processMalloc p size st).2.procs p).allocations = (st.procs p).allocations) ↔
    (0 ∈ (st.procs p).allocations ∨ requestedBlock size st.kernel.mem < 0 ∨ size = 0 ∨
      (∀ i < 25600, kernelHeap.entry st.kernel.mem i = 0) ∧ 0xff00e200 ≤ size.toNat) := by
  rcases foundBlock_cases size st.kernel.mem with hneg | ⟨b, hfound⟩
  · refine iff_of_true (fun _ => ?_) (Or.inr (Or.inl hneg))
    obtain ⟨hnull, hmem⟩ := kzalloc_unfound (k := st.kernel) hneg
    rcases processMalloc_cases p size st with ⟨-, hst, -⟩ | ⟨i, hptr, -, -⟩
    · rw [hst]
      exact ⟨fun i _ => by rw [hmem], rfl⟩
    · exact absurd hnull hptr
  · obtain ⟨hptr, -⟩ := kzalloc_found (k := st.kernel) hfound
    have hne := blockAddr_ne_zero hfound.lt
    have hstart : ¬ requestedBlock size st.kernel.mem < 0 := by
      rw [hfound.start]
      omega
    rcases processMalloc_cases p size st with ⟨hnull, hst, hfull⟩ | ⟨i, -, hi, heq⟩
    · rw [hptr] at hfull
      have hfull := hfull.resolve_left hne
      have htable := kzalloc_sameTable_iff (k := st.kernel) hfound
      rw [hst, or_iff_right hfull, or_iff_right hstart, ← htable]
      exact ⟨fun h => (h hnull).1, fun h _ => ⟨h, rfl⟩⟩
    · refine iff_of_true (fun h => ?_) (Or.inl (List.mem_of_getElem? hi))
      rw [heq, hptr] at h
      exact absurd h hne

/-- A process whose array of allocations is full. -/
def fullProcess : Process :=
  { processInit with
    allocations := List.replicate 1024 1
    length_allocations := List.length_replicate }

theorem fullProcess_full : 0 ∉ fullProcess.allocations := fun h =>
  absurd (List.eq_of_mem_replicate h) (by decide)

/-- A process with a full array asks for 16 bytes on a heap with room. -/
theorem processMalloc_full_leaks {live : Layout UInt32} (htop : TopFree k live 0) :
    ¬ ((processMalloc 0x1000 16 ⟨k, fun _ => fullProcess⟩).1 = 0 →
      SameTable k.mem
          (processMalloc 0x1000 16 ⟨k, fun _ => fullProcess⟩).2.kernel.mem ∧
        ((processMalloc 0x1000 16 ⟨k, fun _ => fullProcess⟩).2.procs
          0x1000).allocations = fullProcess.allocations) := by
  intro h
  obtain ⟨a, k', live', hk, htop, -⟩ := htop.kzalloc 16 (by decide) (by decide)
  have hne : (kzalloc 16 k).1 ≠ 0 := kzalloc_ne_zero_of_ok (by rw [hk]; exact htop.ok)
  rcases foundBlock_cases 16 k.mem with hneg | ⟨b, hfound⟩
  · exact hne (kzalloc_unfound hneg).1
  · rcases processMalloc_cases 0x1000 16 ⟨k, fun _ => fullProcess⟩ with
      ⟨hnull, hst, -⟩ | ⟨i, -, hi, -⟩
    · have hkernel : (processMalloc 0x1000 16 ⟨k, fun _ => fullProcess⟩).2.kernel =
          (kzalloc 16 k).2 := by rw [hst]
      have hsame := (h hnull).1
      rw [hkernel] at hsame
      rcases (kzalloc_sameTable_iff hfound).mp hsame with hzero | ⟨-, hbig⟩
      · exact absurd hzero (by decide)
      · exact absurd hbig (by decide)
    · change fullProcess.allocations[i]? = some 0 at hi
      exact fullProcess_full (List.mem_of_getElem? hi)

/-- The same on a fresh heap. -/
theorem processMalloc_leaks :
    ¬ ((processMalloc 0x1000 16 ⟨freshKernel, fun _ => fullProcess⟩).1 = 0 →
      SameTable freshKernel.mem
          (processMalloc 0x1000 16 ⟨freshKernel, fun _ => fullProcess⟩).2.kernel.mem ∧
        ((processMalloc 0x1000 16 ⟨freshKernel, fun _ => fullProcess⟩).2.procs
          0x1000).allocations = fullProcess.allocations) :=
  processMalloc_full_leaks freshKernel_topFree

end PeachOS
