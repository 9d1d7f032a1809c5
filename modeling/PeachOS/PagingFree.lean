import PeachOS.PagingRange

/-! # Releasing a page directory

`paging_free_4gb` frees the blocks of the tables, in order, then the directory and the chunk:
it is the loop of `kfree` over `pagingFreed`, the addresses it reads from the directory.

* `kfreeAll_apply`: freeing a list of different allocations of one block each clears their
  entries and nothing else.
* `pagingFree4gb_eq`: on a directory, whatever its tables hold, the addresses are those of its
  blocks.
* `pagingNew_free`: building a directory, changing it and releasing it restores the block
  table. -/

namespace PeachOS

open ByteMemory Extents

/-! ### Freeing a list of blocks -/

/-- `kfree` of each address of the list, in order. -/
def kfreeAll (ptrs : List UInt32) (k : Kernel) : Kernel := ptrs.foldl (fun k a => kfree a k) k

theorem kfreeAll_concat (ptrs : List UInt32) (a : UInt32) (k : Kernel) :
    kfreeAll (ptrs ++ [a]) k = kfree a (kfreeAll ptrs k) := by
  unfold kfreeAll
  rw [List.foldl_append]
  rfl

variable {k : Kernel}

/-- Different allocations of one block each. -/
theorem kfreeAll_apply : ∀ {l : List ℕ} {k : Kernel}, l.Nodup → (∀ b ∈ l, b < 25600) →
    (∀ b ∈ l, kernelHeap.entry k.mem b = blockEntry 1 0) →
      (∀ b ∈ l, kernelHeap.entry (kfreeAll (l.map blockAddr) k).mem b =
        heapBlockTableEntryFree) ∧
      ∀ x, (∀ b ∈ l, x ≠ off 0x7e00 b) → (kfreeAll (l.map blockAddr) k).mem x = k.mem x
  | [], _, _, _, _ => ⟨fun _ h => absurd h List.not_mem_nil, fun _ _ => rfl⟩
  | b :: l, k, hnodup, hlt, hone => by
      obtain ⟨hb, hnodup⟩ := List.nodup_cons.mp hnodup
      have hbl := hlt b List.mem_cons_self
      have hll := fun c hc => hlt c (List.mem_cons_of_mem b hc)
      obtain ⟨hclear, hkeep⟩ := kfree_block hbl (hone b List.mem_cons_self)
      have hne : ∀ c ∈ l, off 0x7e00 c ≠ off 0x7e00 b := by
        intro c hc e
        have hcl := hll c hc
        exact hb (off_inj (by omega) (by omega) e ▸ hc)
      obtain ⟨hrest, hframe⟩ := kfreeAll_apply (k := kfree (blockAddr b) k) hnodup hll
        fun c hc => (hkeep _ (hne c hc)).trans (hone c (List.mem_cons_of_mem b hc))
      refine ⟨fun c hc => ?_, fun x hx => ?_⟩
      · rcases List.mem_cons.mp hc with rfl | hc
        · exact (hframe _ fun d hd => (hne d hd).symm).trans hclear
        · exact hrest c hc
      · exact (hframe x fun c hc => hx c (List.mem_cons_of_mem b hc)).trans
          (hkeep x (hx b List.mem_cons_self))

/-! ### The addresses freed -/

/-- The pointers the loop of `paging_free_4gb` passes to `kfree` in its first rounds. -/
def pagingFreedTables (chunk : UInt32) : ℕ → Kernel → List UInt32
  | 0, _ => []
  | i + 1, k =>
      let m := (pagingFreeTables chunk i k).mem
      pagingFreedTables chunk i k ++ [m.read32 (off (m.read32 chunk) (4 * i)) &&& 0xfffff000]

/-- The pointers `paging_free_4gb` passes to `kfree`, in order. -/
def pagingFreed (chunk : UInt32) (k : Kernel) : List UInt32 :=
  pagingFreedTables chunk 1024 k ++ [(pagingFreeTables chunk 1024 k).mem.read32 chunk, chunk]

theorem pagingFreeTables_eq_kfreeAll (chunk : UInt32) (k : Kernel) : ∀ n,
    pagingFreeTables chunk n k = kfreeAll (pagingFreedTables chunk n k) k
  | 0 => rfl
  | n + 1 => by
      unfold pagingFreedTables
      rw [kfreeAll_concat, ← pagingFreeTables_eq_kfreeAll chunk k n]
      rfl

theorem pagingFree4gb_eq_kfreeAll (chunk : UInt32) (k : Kernel) :
    pagingFree4gb chunk k = kfreeAll (pagingFreed chunk k) k := by
  unfold pagingFree4gb pagingFreed
  rw [pagingFreeTables_eq_kfreeAll]
  unfold kfreeAll
  rw [List.foldl_append]
  rfl

/-- The blocks of a directory in the order in which they are freed. -/
def SpaceBlocks.list (s : SpaceBlocks) : List ℕ :=
  (List.range 1024).map s.table ++ [s.directory, s.chunk]

variable {s : SpaceBlocks}

theorem SpaceBlocks.mem_list {b : ℕ} : b ∈ s.list ↔ b ∈ s.blocks := by
  unfold SpaceBlocks.list SpaceBlocks.blocks
  simp only [List.mem_append, List.mem_map, List.mem_range, List.mem_cons, List.not_mem_nil,
    or_false, Set.mem_ofPred_eq]
  constructor
  · rintro (⟨i, hi, rfl⟩ | rfl | rfl)
    · exact Or.inr (Or.inr ⟨i, hi, rfl⟩)
    · exact Or.inr (Or.inl rfl)
    · exact Or.inl rfl
  · rintro (rfl | rfl | ⟨i, hi, rfl⟩)
    · exact Or.inr (Or.inr rfl)
    · exact Or.inr (Or.inl rfl)
    · exact Or.inl ⟨i, hi, rfl⟩

theorem SpaceBlocks.nodup_tables {n : ℕ} (hn : n ≤ 1024) : ((List.range n).map s.table).Nodup := by
  refine List.Nodup.map_on (fun i hi j hj h => ?_) List.nodup_range
  rw [List.mem_range] at hi hj
  exact s.table_inj i (by omega) j (by omega) h

theorem SpaceBlocks.nodup_list (s : SpaceBlocks) : s.list.Nodup := by
  refine List.nodup_append.mpr ⟨SpaceBlocks.nodup_tables le_rfl, ?_, fun a ha b hb => ?_⟩
  · simp [s.chunk_ne_directory.symm]
  · obtain ⟨i, hi, rfl⟩ := List.mem_map.mp ha
    rw [List.mem_range] at hi
    simp only [List.mem_cons, List.not_mem_nil, or_false] at hb
    rcases hb with rfl | rfl
    · exact s.table_ne_directory i hi
    · exact s.table_ne_chunk i hi

/-! ### Releasing a directory -/

/-- The loop reads the addresses of the tables, also while it frees them. -/
theorem pagingFreedTables_eq (htables : PageTables k.mem s)
    (hsingle : ∀ c ∈ s.blocks, kernelHeap.entry k.mem c = blockEntry 1 0) : ∀ {n : ℕ}, n ≤ 1024 →
      pagingFreedTables (blockAddr s.chunk) n k = ((List.range n).map s.table).map blockAddr ∧
        PageTables (pagingFreeTables (blockAddr s.chunk) n k).mem s
  | 0, _ => ⟨rfl, htables⟩
  | n + 1, hn => by
      obtain ⟨hfreed, htables₁⟩ := pagingFreedTables_eq htables hsingle (Nat.le_of_succ_le hn)
      have hlist : pagingFreedTables (blockAddr s.chunk) (n + 1) k =
          ((List.range (n + 1)).map s.table).map blockAddr := by
        have hentry := htables₁.entry n (by omega)
        unfold wordAddr at hentry
        unfold pagingFreedTables
        dsimp only
        rw [htables₁.chunk, hentry, hfreed, List.range_succ]
        simp
      have hmem : ∀ c ∈ (List.range (n + 1)).map s.table, c ∈ s.blocks := by
        intro c hc
        obtain ⟨i, hi, rfl⟩ := List.mem_map.mp hc
        rw [List.mem_range] at hi
        exact Or.inr (Or.inr ⟨i, by omega, rfl⟩)
      obtain ⟨-, hframe⟩ := kfreeAll_apply (k := k) (SpaceBlocks.nodup_tables hn)
        (fun c hc => SpaceBlocks.lt (hmem c hc)) fun c hc => hsingle c (hmem c hc)
      refine ⟨hlist, ?_⟩
      rw [pagingFreeTables_eq_kfreeAll, hlist]
      exact htables.congr
        (fun x hx => hframe x fun c hc => hx.ne_entry s.chunk_lt (SpaceBlocks.lt (hmem c hc)))
        fun x hx => hframe x fun c hc => hx.ne_entry s.directory_lt (SpaceBlocks.lt (hmem c hc))

/-- The addresses `paging_free_4gb` frees are those of the blocks of the directory. -/
theorem pagingFreed_eq (htables : PageTables k.mem s)
    (hsingle : ∀ c ∈ s.blocks, kernelHeap.entry k.mem c = blockEntry 1 0) :
    pagingFreed (blockAddr s.chunk) k = s.list.map blockAddr := by
  obtain ⟨hfreed, htables₁⟩ := pagingFreedTables_eq htables hsingle le_rfl
  unfold pagingFreed SpaceBlocks.list
  rw [hfreed, htables₁.chunk, List.map_append]
  rfl

/-- Releasing a directory clears the entries of its blocks and nothing else. -/
theorem pagingFree4gb_spec (htables : PageTables k.mem s)
    (hsingle : ∀ c ∈ s.blocks, kernelHeap.entry k.mem c = blockEntry 1 0) :
    (∀ c ∈ s.blocks, kernelHeap.entry (pagingFree4gb (blockAddr s.chunk) k).mem c =
      heapBlockTableEntryFree) ∧
    ∀ x, (∀ c ∈ s.blocks, x ≠ off 0x7e00 c) →
      (pagingFree4gb (blockAddr s.chunk) k).mem x = k.mem x := by
  rw [pagingFree4gb_eq_kfreeAll, pagingFreed_eq htables hsingle]
  obtain ⟨hclear, hframe⟩ := kfreeAll_apply (k := k) s.nodup_list
    (fun c hc => SpaceBlocks.lt (SpaceBlocks.mem_list.mp hc))
    fun c hc => hsingle c (SpaceBlocks.mem_list.mp hc)
  exact ⟨fun c hc => hclear c (SpaceBlocks.mem_list.mpr hc),
    fun x hx => hframe x fun c hc => hx c (SpaceBlocks.mem_list.mp hc)⟩

theorem pagingFree4gb_apply (htables : PageTables k.mem s)
    (hsingle : ∀ c ∈ s.blocks, kernelHeap.entry k.mem c = blockEntry 1 0) {x : UInt32}
    (hx : ∀ c ∈ s.blocks, x ≠ off 0x7e00 c) :
    (pagingFree4gb (blockAddr s.chunk) k).mem x = k.mem x :=
  (pagingFree4gb_spec htables hsingle).2 x hx

/-! ### A directory from its allocation to its release -/

/-- A byte of one of the tables is not a byte of the block table. -/
theorem SpaceBlocks.InTables.not_inTable {x : UInt32} (h : s.InTables x) : ¬ InTable x := by
  obtain ⟨i, hi, hx⟩ := h
  exact hx.not_inTable (s.table_lt i hi)

/-- **A page directory is released completely.**  On a well-formed heap with 1026 free blocks,
building a directory, any calls that change it and `paging_free_4gb` leave the block table as
it was.  Each pointer that is freed is the address of another block that
`paging_new_4gb` took. -/
theorem pagingNew_free {m : Mem} {live : Layout UInt32} (hinv : HeapInv kernelHeap m live)
    (hfree : 1026 ≤ (freeBlocks ⟨m, false⟩).card) (flags : UInt8) (calls : List PagingCall) :
    let (chunk, k₁) := pagingNew4gb flags ⟨m, false⟩
    let k₂ : Kernel := { k₁ with mem := pagingCalls chunk calls k₁.mem }
    (∀ x, InTable x → (pagingFree4gb chunk k₂).mem x = m x) ∧
      pagingFree4gb chunk k₂ = kfreeAll (pagingFreed chunk k₂) k₂ ∧
      (pagingFreed chunk k₂).Nodup ∧
      ∀ a ∈ pagingFreed chunk k₂, ∃ b, a = blockAddr b ∧ EntryFree kernelHeap m b ∧
        kernelHeap.entry k₂.mem b = blockEntry 1 0 := by
  have hok : (pagingNew4gb flags ⟨m, false⟩).2.oom = false := pagingNew4gb_ok rfl hfree
  obtain ⟨s, hchunk, htakes, hrep⟩ := pagingNew4gb_spec hok
  rcases hnew : pagingNew4gb flags ⟨m, false⟩ with ⟨chunk, k₁⟩
  rw [hnew] at hchunk htakes hrep
  dsimp only at hchunk htakes hrep ⊢
  subst hchunk
  generalize hk₂ : ({ k₁ with mem := pagingCalls (blockAddr s.chunk) calls k₁.mem } : Kernel) = k₂
  have hcalls : ∀ x, ¬ s.InTables x → k₂.mem x = k₁.mem x := by
    rw [← hk₂]
    exact pagingCalls_apply calls hrep.tables
  have hsingle : ∀ c ∈ s.blocks, kernelHeap.entry k₂.mem c = blockEntry 1 0 := fun c hc =>
    (hcalls _ fun h => h.not_inTable (inRange_off (SpaceBlocks.lt hc))).trans (htakes.single c hc)
  have htables : PageTables k₂.mem s := hrep.tables.congr_of_tables hcalls
  obtain ⟨hclear, hframe⟩ := pagingFree4gb_spec htables hsingle
  have hfreed := pagingFreed_eq htables hsingle
  refine ⟨fun x hx => ?_, pagingFree4gb_eq_kfreeAll _ _, ?_, fun a ha => ?_⟩
  · obtain ⟨i, hi, rfl⟩ := hx.exists_off
    by_cases his : i ∈ s.blocks
    · refine (hclear i his).trans ?_
      have hfree := htakes.free i his
      exact (hinv.encodes.free i hi (hinv.uncovered hfree)).symm
    · have := htakes.entries i hi his
      rw [hframe _ fun c hc e => his ?_, hcalls _ fun h => h.not_inTable hx]
      · exact this
      · have hc' := SpaceBlocks.lt hc
        rwa [off_inj (by omega) (by omega) e]
  · rw [hfreed]
    refine List.Nodup.map_on (fun b hb c hc h => ?_) s.nodup_list
    exact blockAddr_inj (SpaceBlocks.lt (SpaceBlocks.mem_list.mp hb))
      (SpaceBlocks.lt (SpaceBlocks.mem_list.mp hc)) h
  · rw [hfreed] at ha
    obtain ⟨b, hb, rfl⟩ := List.mem_map.mp ha
    have hb := SpaceBlocks.mem_list.mp hb
    refine ⟨b, rfl, htakes.free b hb, ?_⟩
    rw [← hsingle b hb, ← hk₂]

/-- A directory in which a page was mapped, on a fresh heap. -/
theorem pagingNew_free_mapped :
    ∃ chunk k₁, pagingNew4gb 7 freshKernel = (chunk, k₁) ∧ ∀ x, InTable x →
      (pagingFree4gb chunk { k₁ with
        mem := pagingCalls chunk [.map 0x400000 0x1000 7, .set 1 0] k₁.mem }).mem x =
        freshKernel.mem x := by
  have h := pagingNew_free (kheapInit_inv fun _ => 0)
    (le_trans (by decide) freshKernel_topFree.card_le) 7 [.map 0x400000 0x1000 7, .set 1 0]
  rcases hnew : pagingNew4gb 7 ⟨(kheapInit fun _ => 0).2, false⟩ with ⟨chunk, k₁⟩
  rw [hnew] at h
  exact ⟨chunk, k₁, hnew, h.1⟩

end PeachOS
