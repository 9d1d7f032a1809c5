import PeachOS.HeapRuns

/-! # Requests and where they fit

`heap_get_start_block` returns the first place where a request fits: `heapGetStartBlock_isLeast`.
The rest is about what `heap_malloc` does when no free run is long enough, and for the sizes
whose block count is zero.  `heap_get_start_block` remembers the start of the free run it is in
when the table ends, and does not ask whether that run is complete.  So everything depends on
the last entry of the table:

* when it is not free, the scan ends in `-ENOMEM` and the request fails without a trace;
* when it is free, the request succeeds with too few blocks, or with none. -/

namespace PeachOS

open ByteMemory Extents

/-- The pool lies in the address space and null is none of its addresses. -/
structure Heap.Placed (h : Heap) : Prop where
  pos : 0 < h.saddr.toNat
  fits : h.saddr.toNat + 4096 * h.table.total.toNat ≤ 4294967296

/-- The table ends in a free entry. -/
def TailFree (h : Heap) (m : Mem) : Prop := ∃ i, i + 1 = h.table.total.toNat ∧ EntryFree h m i

/-- A request for which the scan runs to the end of the table. -/
def Unfit (h : Heap) (m : Mem) (n : UInt32) : Prop := n = 0 ∨ ¬ FreeRun h m n.toNat

variable {h : Heap} {m : Mem} {live : Layout UInt32} {n : UInt32}

theorem Heap.Placed.total_le (hp : h.Placed) : h.table.total.toNat ≤ 1048576 := by
  have := hp.fits
  omega

/-- Null is not the address of a block. -/
theorem Heap.Placed.address_ne (hp : h.Placed) {t : ℕ} (ht : t < h.table.total.toNat) :
    off h.saddr (4096 * t) ≠ 0 := by
  intro e
  have hpos := hp.pos
  have hfits := hp.fits
  have := congrArg UInt32.toNat e
  rw [toNat_off, UInt32.toNat_zero] at this
  omega

/-! ### The scan -/

/-- **First fit.**  The start block is the least index from which on `n` entries of the table
are free. -/
theorem heapGetStartBlock_isLeast (hn : 0 < n.toNat) (htotal : h.table.total.toNat ≤ 2147483648)
    (hfit : ∃ s, s + n.toNat ≤ h.table.total.toNat ∧
      ∀ i < n.toNat, heapGetEntryType (h.entry m (s + i)) = heapBlockTableEntryFree) :
    ∃ s : ℕ, heapGetStartBlock h n m = s ∧
      IsLeast {s | s + n.toNat ≤ h.table.total.toNat ∧
        ∀ i < n.toNat, heapGetEntryType (h.entry m (s + i)) = heapBlockTableEntryFree} s := by
  obtain ⟨s, hs, hfirst⟩ := heapGetStartBlock_firstRun (m := m) hn htotal hfit
  exact ⟨s, hs, ⟨hfirst.inside, hfirst.run⟩, fun s' hs' => hfirst.least s' hs'.1 hs'.2⟩

/-- A gap of one entry before a gap of two. -/
theorem heapGetStartBlock_isLeast_second :
    ∃ s : ℕ, heapGetStartBlock ⟨⟨0, 5⟩, 0x1000⟩ 2
        (fun a => if a = 0 ∨ a = 2 then 0x41 else 0) = s ∧
      IsLeast {s | s + 2 ≤ 5 ∧ ∀ i < 2, heapGetEntryType ((⟨⟨0, 5⟩, 0x1000⟩ : Heap).entry
        (fun a => if a = 0 ∨ a = 2 then 0x41 else 0) (s + i)) = heapBlockTableEntryFree} s :=
  heapGetStartBlock_isLeast (h := ⟨⟨0, 5⟩, 0x1000⟩) (n := 2) (by decide) (by decide)
    ⟨3, by decide, by decide⟩

/-- The scan of a request that does not fit returns the start of the free run at the end of
the table. -/
theorem heapGetStartBlock_unfit (htotal : h.table.total.toNat ≤ 2147483648) (hn : Unfit h m n) :
    ∃ t ≤ h.table.total.toNat,
      heapGetStartBlock h n m = (if t = h.table.total.toNat then -ENOMEM else (t : ℤ)) ∧
      Run (EntryFree h m) t (h.table.total.toNat - t) ∧ (t = 0 ∨ ¬ EntryFree h m (t - 1)) := by
  by_cases hzero : n = 0
  · subst hzero
    exact heapGetStartBlock_zero htotal
  · have hpos : 0 < n.toNat := Nat.pos_of_ne_zero fun e => hzero (UInt32.toNat.inj e)
    rcases heapGetStartBlock_spec (m := m) hpos htotal with ⟨s, _, hfirst⟩ | ⟨_, ht⟩
    · exact absurd ⟨s, hfirst.inside, hfirst.run⟩ (hn.resolve_left hzero)
    · exact ht

/-- With the last entry taken the request fails and changes nothing. -/
theorem heapMallocBlocks_unfit_of_not_tailFree (htotal : h.table.total.toNat ≤ 2147483648)
    (hn : Unfit h m n) (htail : ¬ TailFree h m) : heapMallocBlocks h n m = (0, m) := by
  obtain ⟨t, ht, hs, hrun, -⟩ := heapGetStartBlock_unfit htotal hn
  have hend : t = h.table.total.toNat := by
    by_contra hne
    refine htail ⟨h.table.total.toNat - 1, by omega, ?_⟩
    have hlast := hrun (h.table.total.toNat - 1 - t) (by omega)
    rwa [show t + (h.table.total.toNat - 1 - t) = h.table.total.toNat - 1 by omega] at hlast
  rw [if_pos hend] at hs
  exact heapMallocBlocks_of_neg (by rw [hs]; decide)

/-- With the last entry free the request takes the block where the last free run begins. -/
theorem heapMallocBlocks_unfit_of_tailFree (htotal : h.table.total.toNat ≤ 2147483648)
    (hn : Unfit h m n) (htail : TailFree h m) :
    ∃ t < h.table.total.toNat, Run (EntryFree h m) t (h.table.total.toNat - t) ∧
      heapMallocBlocks h n m =
        (off h.saddr (4096 * t), heapMarkBlocksTaken h t (i32 n.toNat) m) := by
  obtain ⟨t, ht, hs, hrun, hgap⟩ := heapGetStartBlock_unfit htotal hn
  obtain ⟨i, hi, hfree⟩ := htail
  have hne : t ≠ h.table.total.toNat := by
    intro e
    cases hgap with
    | inl hzero => omega
    | inr htaken =>
        rw [show t - 1 = i by omega] at htaken
        exact htaken hfree
  rw [if_neg hne] at hs
  exact ⟨t, by omega, hrun, heapMallocBlocks_of_start hs⟩

/-! ### Exhaustion -/

/-- **When exhaustion is reported cleanly.**  A request of `n ≥ 1` blocks for which no run of
`n` free entries exists returns null and changes nothing exactly when the last entry of the
table is not free. -/
theorem heapMallocBlocks_exhausted_iff (hp : h.Placed) (hno : ¬ FreeRun h m n.toNat) :
    ((heapMallocBlocks h n m).1 = 0 ∧ ∀ x, (heapMallocBlocks h n m).2 x = m x) ↔
      ¬ TailFree h m := by
  have htotal : h.table.total.toNat ≤ 2147483648 := hp.total_le.trans (by norm_num)
  constructor
  · rintro ⟨hnull, -⟩ htail
    obtain ⟨t, ht, -, heq⟩ := heapMallocBlocks_unfit_of_tailFree htotal (Or.inr hno) htail
    rw [heq] at hnull
    exact hp.address_ne ht hnull
  · intro htail
    rw [heapMallocBlocks_unfit_of_not_tailFree htotal (Or.inr hno) htail]
    exact ⟨rfl, fun x => rfl⟩

/-- Two blocks, the first of them taken. -/
def halfFreeMem : Mem := Mem.write (fun _ => 0) 0x7e00 0x41

theorem halfFreeMem_noRun : ¬ FreeRun twoBlockHeap halfFreeMem 2 := by
  rintro ⟨s, hs, hrun⟩
  obtain rfl : s = 0 := by
    change s + 2 ≤ 2 at hs
    omega
  exact absurd (hrun 0 (by decide)) (by decide)

/-- A request of two blocks with one block left, the last: the caller gets its address. -/
theorem heapMallocBlocks_short_tail :
    ¬ FreeRun twoBlockHeap halfFreeMem 2 ∧
      ¬ ((heapMallocBlocks twoBlockHeap 2 halfFreeMem).1 = 0 ∧
        ∀ x, (heapMallocBlocks twoBlockHeap 2 halfFreeMem).2 x = halfFreeMem x) := by
  refine ⟨halfFreeMem_noRun, fun hclean => ?_⟩
  exact absurd hclean.1 (by decide)

theorem heapMallocBlocks_exhausted_full :
    (heapMallocBlocks ⟨⟨0x7e00, 1⟩, 0x1000⟩ 2 halfFreeMem).1 = 0 :=
  ((heapMallocBlocks_exhausted_iff (h := ⟨⟨0x7e00, 1⟩, 0x1000⟩) (m := halfFreeMem) (n := 2)
    ⟨by decide, by decide⟩
    (by rintro ⟨s, hs, -⟩; change s + 2 ≤ 1 at hs; omega)).mpr
    (by
      rintro ⟨i, hi, hfree⟩
      obtain rfl : i = 0 := by change i + 1 = 1 at hi; omega
      exact absurd hfree (by decide))).1

/-! ### Size arithmetic -/

/-- The blocks that were free before a call and are not free after it. -/
def newlyTaken (h : Heap) (m m' : Mem) : Finset ℕ :=
  {i ∈ Finset.range h.table.total.toNat | EntryFree h m i ∧ ¬ EntryFree h m' i}

/-- The outcome of a request of `size` bytes: null, or a fresh address whose newly taken
blocks number at least one and cover `size` bytes. -/
def Serves (h : Heap) (live : Layout UInt32) (m : Mem) (size : UInt32) (r : UInt32 × Mem) : Prop :=
  r.1 = 0 ∨ live r.1 = none ∧ 1 ≤ (newlyTaken h m r.2).card ∧
    size.toNat ≤ 4096 * (newlyTaken h m r.2).card

/-- The sizes whose number of blocks the rounding computes. -/
def Roundable (size : UInt32) : Prop := 1 ≤ size.toNat ∧ size.toNat ≤ 0xFFFFF000

theorem mem_newlyTaken {m' : Mem} {i : ℕ} :
    i ∈ newlyTaken h m m' ↔ i < h.table.total.toNat ∧ EntryFree h m i ∧ ¬ EntryFree h m' i := by
  unfold newlyTaken
  rw [Finset.mem_filter, Finset.mem_range]

theorem newlyTaken_self : newlyTaken h m m = ∅ := by
  refine Finset.eq_empty_of_forall_notMem fun i hi => ?_
  have := mem_newlyTaken.mp hi
  exact this.2.2 this.2.1

/-- Every other size wraps around to a request of no blocks. -/
theorem alignedBlocks_of_not_roundable {size : UInt32} (hsize : ¬ Roundable size) :
    heapAlignValueToUpper size / peachosHeapBlockSize = 0 := by
  refine UInt32.toNat.inj ?_
  have hlt := toNat_lt size
  have hmod : (size % peachosHeapBlockSize).toNat = size.toNat % 4096 := UInt32.toNat_mod _ _
  rw [UInt32.toNat_div, peachosHeapBlockSize_toNat, UInt32.toNat_zero]
  unfold Roundable at hsize
  unfold heapAlignValueToUpper
  split_ifs with h0
  · have := congrArg UInt32.toNat h0
    rw [hmod, UInt32.toNat_zero] at this
    omega
  · have hne : size.toNat % 4096 ≠ 0 := by
      rw [← hmod]
      exact fun e => h0 (UInt32.toNat.inj e)
    rw [UInt32.toNat_add, toNat_sub', hmod, peachosHeapBlockSize_toNat]
    omega

theorem heapMalloc_of_not_roundable {size : UInt32} (hsize : ¬ Roundable size) :
    heapMalloc h size m = heapMallocBlocks h 0 m := by
  unfold heapMalloc
  simp only [alignedBlocks_of_not_roundable hsize]

theorem heapMalloc_of_roundable {size : UInt32} (hsize : Roundable size) :
    ∃ n : UInt32, n.toNat = blocksFor size ∧ heapMalloc h size m = heapMallocBlocks h n m :=
  ⟨_, heapMalloc_blocks hsize.2, rfl⟩

/-- A request of no blocks takes none. -/
theorem heapMarkBlocksTaken_zero (t : ℕ) (ht : t < 2147483648) :
    heapMarkBlocksTaken h t (i32 (0 : UInt32).toNat) m = m := by
  have hend : i32 ((t : ℤ) + i32 ((0 : UInt32).toNat : ℤ)) - 1 + 1 - t = 0 := by
    rw [UInt32.toNat_zero, Nat.cast_zero, i32_of_range (x := 0) (by norm_num) (by norm_num),
      add_zero, i32_of_range (by omega) (by omega)]
    ring
  unfold heapMarkBlocksTaken
  simp only [hend, Int.toNat_zero, heapMarkTakenLoop]

/-- The blocks newly taken at the end of the table are too few. -/
theorem card_newlyTaken_tail {t N : ℕ} (hN : 0 < N) (htotal : h.table.total.toNat ≤ 1048576)
    (ht : t < h.table.total.toNat) (hlarge : N ≤ 1048576) :
    (newlyTaken h m (heapMarkBlocksTaken h t N m)).card ≤ h.table.total.toNat - t := by
  obtain ⟨-, hold⟩ := heapMarkBlocksTaken_apply h hN (s := t) (by omega) m
  rw [← Nat.card_Ico]
  refine Finset.card_le_card fun i hi => ?_
  obtain ⟨hlt, hfree, htaken⟩ := mem_newlyTaken.mp hi
  rw [Finset.mem_Ico]
  refine ⟨?_, hlt⟩
  by_contra hbefore
  refine htaken ?_
  have hsame : h.entry (heapMarkBlocksTaken h t N m) i = h.entry m i := by
    refine hold _ fun k hk e => ?_
    have := off_inj (by omega) (by omega) e
    omega
  unfold EntryFree at hfree ⊢
  rwa [hsame]

/-- A request that fits is served. -/
theorem serves_of_freeRun (hinv : HeapInv h m live) {size : UInt32} (hsize : Roundable size)
    (hfit : FreeRun h m (blocksFor size)) : Serves h live m size (heapMalloc h size m) := by
  obtain ⟨e, m', heq, hlen, hin, hfirst, hnone, hinv', -⟩ :=
    heapMalloc_spec hinv hsize.1 hsize.2 hfit
  have hsub : Finset.Ico e.start (e.start + e.len) ⊆ newlyTaken h m m' := by
    intro i hi
    rw [Finset.mem_Ico] at hi
    have hk : i - e.start < e.len := by omega
    have hidx : e.start + (i - e.start) = i := by omega
    refine mem_newlyTaken.mpr ⟨by omega, ?_, ?_⟩
    · rw [← hidx]
      exact hfirst.run _ (by omega)
    · have hcode := hinv'.encodes.taken _ e (assign_self _ _ _) _ hk
      rw [hidx] at hcode
      unfold EntryFree
      rw [hcode]
      exact blockEntry_type _ _
  have hcard := Finset.card_le_card hsub
  rw [Nat.card_Ico, Nat.add_sub_cancel_left, hlen] at hcard
  have hpos := blocksFor_pos hsize.1
  have hcover : size.toNat ≤ 4096 * blocksFor size := by unfold blocksFor; omega
  rw [heq]
  refine Or.inr ⟨hnone, by dsimp only; omega, ?_⟩
  dsimp only
  omega

/-- **When a request of any size is answered correctly.**  `heap_malloc` serves the request
or returns null exactly when the size rounds to at least one block and a run of that many
free blocks exists, or the last entry of the table is not free. -/
theorem heapMalloc_serves_iff (hinv : HeapInv h m live) (hp : h.Placed) (size : UInt32) :
    Serves h live m size (heapMalloc h size m) ↔
      (Roundable size ∧ FreeRun h m (blocksFor size)) ∨ ¬ TailFree h m := by
  have hsmall := hp.total_le
  have htotal : h.table.total.toNat ≤ 2147483648 := hsmall.trans (by norm_num)
  constructor
  · intro hserves
    by_contra hcond
    rw [not_or, not_not] at hcond
    obtain ⟨hunfit, htail⟩ := hcond
    by_cases hround : Roundable size
    · -- too few blocks: the run at the end of the table is shorter than the request
      obtain ⟨n, hn, heq⟩ := heapMalloc_of_roundable (h := h) (m := m) hround
      have hno : ¬ FreeRun h m n.toNat := by
        rw [hn]
        exact fun hfit => hunfit ⟨hround, hfit⟩
      obtain ⟨t, ht, hrun, hres⟩ := heapMallocBlocks_unfit_of_tailFree htotal (Or.inr hno) htail
      have hshort : h.table.total.toNat - t < n.toNat := by
        by_contra hlong
        exact hno ⟨t, by omega, fun k hk => hrun k (by omega)⟩
      have hsize : n.toNat = (size.toNat + 4095) / 4096 := hn
      have hlarge : n.toNat ≤ 1048576 := by
        have := hround.2
        omega
      rw [heq, hres, i32_of_range (by omega) (by omega)] at hserves
      rcases hserves with hnull | ⟨-, -, hcover⟩
      · exact hp.address_ne ht hnull
      · have hcard := card_newlyTaken_tail (m := m) (by omega : 0 < n.toNat) hsmall ht hlarge
        dsimp only at hcover
        omega
    · -- no block at all
      rw [heapMalloc_of_not_roundable hround] at hserves
      obtain ⟨t, ht, -, hres⟩ :=
        heapMallocBlocks_unfit_of_tailFree (n := 0) htotal (Or.inl rfl) htail
      rw [hres, heapMarkBlocksTaken_zero t (by omega)] at hserves
      rcases hserves with hnull | ⟨-, hone, -⟩
      · exact hp.address_ne ht hnull
      · dsimp only at hone
        rw [newlyTaken_self] at hone
        simp at hone
  · rintro (⟨hround, hfit⟩ | htail)
    · exact serves_of_freeRun hinv hround hfit
    · by_cases hround : Roundable size
      · by_cases hfit : FreeRun h m (blocksFor size)
        · exact serves_of_freeRun hinv hround hfit
        · obtain ⟨n, hn, heq⟩ := heapMalloc_of_roundable (h := h) (m := m) hround
          rw [← hn] at hfit
          rw [heq, heapMallocBlocks_unfit_of_not_tailFree htotal (Or.inr hfit) htail]
          exact Or.inl rfl
      · rw [heapMalloc_of_not_roundable hround,
          heapMallocBlocks_unfit_of_not_tailFree htotal (Or.inl rfl) htail]
        exact Or.inl rfl

theorem twoBlockHeap_inv : HeapInv twoBlockHeap (fun _ => 0) Extents.empty :=
  ⟨by decide, encodes_empty fun _ _ => rfl, fun _ _ ha => nomatch ha⟩

/-- A request of no bytes on a fresh heap of two blocks: an address, but no block. -/
theorem heapMalloc_zero_size :
    HeapInv twoBlockHeap (fun _ => 0) Extents.empty ∧
      ¬ Serves twoBlockHeap Extents.empty (fun _ => 0) 0
        (heapMalloc twoBlockHeap 0 fun _ => 0) := by
  refine ⟨twoBlockHeap_inv, fun hserves => ?_⟩
  rcases hserves with hnull | ⟨-, hone, -⟩
  · exact absurd hnull (by decide)
  · exact absurd hone (by decide)

theorem heapMalloc_serves_one_byte :
    Serves twoBlockHeap Extents.empty (fun _ => 0) 1 (heapMalloc twoBlockHeap 1 fun _ => 0) :=
  (heapMalloc_serves_iff twoBlockHeap_inv ⟨by decide, by decide⟩ 1).mpr
    (Or.inl ⟨⟨by decide, by decide⟩, 0, by decide, fun _ _ =>
      (by decide : heapGetEntryType 0 = heapBlockTableEntryFree)⟩)

end PeachOS
