import PeachOS.MallocFailure
import PeachOS.ProcessTable
import PeachOS.TaskList

/-! # What a failed load leaves behind

`process_load_for_slot` allocates the process structure first, and its label `out` frees the
task at most: the comment there about the process data has no code behind it.  `KeepsTaken`
follows the blocks that are taken through the rest of the call; the first one of the structure is
still taken at the end, so a failed load changes the block table as soon as it got the structure
(`processLoadForSlot_leaks`). -/

namespace PeachOS

open ByteMemory Extents

/-! ### Blocks that stay taken -/

/-- The blocks that are taken before are taken afterwards. -/
def KeepsTaken (k k' : Kernel) : Prop :=
  ∀ b < 25600, ¬ EntryFree kernelHeap k.mem b → ¬ EntryFree kernelHeap k'.mem b

variable {k k' k'' : Kernel} {size : UInt32}

theorem KeepsTaken.trans (h₁ : KeepsTaken k k') (h₂ : KeepsTaken k' k'') : KeepsTaken k k'' :=
  fun b hb h => h₂ b hb (h₁ b hb h)

theorem KeepsTaken.of_same (h : ∀ x, InTable x → k'.mem x = k.mem x) : KeepsTaken k k' := by
  intro b hb htaken
  unfold EntryFree Heap.entry at htaken ⊢
  rwa [kernelHeap_entries, h _ (inRange_off hb)]

/-- The entries of a request that is not cleared around the end of the address space: those of
its own blocks are taken, the others as before. -/
theorem kzalloc_entry (h1 : 1 ≤ size.toNat) (h2 : size.toNat ≤ 0xf0000000) {b : ℕ}
    (h : FoundBlock size k.mem b) {i : ℕ} (hi : i < 25600) :
    (b ≤ i ∧ i < b + blocksFor size → ¬ EntryFree kernelHeap (kzalloc size k).2.mem i) ∧
      (¬ (b ≤ i ∧ i < b + blocksFor size) →
        kernelHeap.entry (kzalloc size k).2.mem i = kernelHeap.entry k.mem i) := by
  have hsize : Roundable size := ⟨h1, h2.trans (by decide)⟩
  have hlarge : blocksFor size ≤ 1048576 := by unfold blocksFor; omega
  have hlt := h.lt
  obtain ⟨hmark, hframe⟩ := heapMarkBlocksTaken_apply kernelHeap (blocksFor_pos h1) (s := b)
    (by omega) k.mem
  have hout : ¬ InRange (blockAddr b) size.toNat (off 0x7e00 i) := by
    rw [inRange_entry_iff hlt hi]
    omega
  have hentry : (kzalloc size k).2.mem (off 0x7e00 i) =
      heapMarkBlocksTaken kernelHeap b (blocksFor size) k.mem (off 0x7e00 i) := by
    rw [(kzalloc_found h).2, requestedBlocks_of_roundable hsize,
      i32_of_range (by omega) (by omega), Mem.fill_apply, if_neg hout]
  unfold EntryFree Heap.entry
  simp only [kernelHeap_entries] at hmark hframe ⊢
  rw [hentry]
  refine ⟨fun hin => ?_, fun hno => hframe _ fun j hj e => hno ?_⟩
  · have hself := hmark (i - b) (by omega)
    rw [Nat.add_sub_cancel' hin.1] at hself
    rw [hself]
    exact blockEntry_type _ _
  · have hsame := off_inj (by omega) (by omega) e
    omega

/-- A request takes no block away. -/
theorem kzalloc_keepsTaken (h1 : 1 ≤ size.toNat) (h2 : size.toNat ≤ 0xf0000000) (k : Kernel) :
    KeepsTaken k (kzalloc size k).2 := by
  intro i hi htaken
  rcases foundBlock_cases size k.mem with hneg | ⟨b, hfound⟩
  · rwa [(kzalloc_unfound hneg).2]
  · obtain ⟨hown, hother⟩ := kzalloc_entry h1 h2 hfound hi
    by_cases hin : b ≤ i ∧ i < b + blocksFor size
    · exact hown hin
    · unfold EntryFree
      rwa [hother hin]

/-- A request that was served took a free block, at the address it returned. -/
theorem kzalloc_taken (h1 : 1 ≤ size.toNat) (h2 : size.toNat ≤ 0xf0000000)
    (hne : (kzalloc size k).1 ≠ 0) :
    ∃ b < 25600, (kzalloc size k).1 = blockAddr b ∧ EntryFree kernelHeap k.mem b ∧
      ¬ EntryFree kernelHeap (kzalloc size k).2.mem b := by
  rcases foundBlock_cases size k.mem with hneg | ⟨b, hfound⟩
  · exact absurd (kzalloc_unfound hneg).1 hne
  · have hpos := blocksFor_pos h1
    exact ⟨b, hfound.lt, (kzalloc_found hfound).1, hfound.free,
      (kzalloc_entry h1 h2 hfound hfound.lt).1 ⟨le_rfl, by omega⟩⟩

/-- A request that was refused changed nothing. -/
theorem kzalloc_null_mem (h : (kzalloc size k).1 = 0) : (kzalloc size k).2.mem = k.mem := by
  rcases foundBlock_cases size k.mem with hneg | ⟨b, hfound⟩
  · exact (kzalloc_unfound hneg).2
  · rw [(kzalloc_found hfound).1] at h
    exact absurd h (blockAddr_ne_zero hfound.lt)

/-! ### Mapping -/

/-- Only bytes of the tables were changed. -/
def OnlyTables (s : SpaceBlocks) (m m' : Mem) : Prop := ∀ x, ¬ s.InTables x → m' x = m x

variable {s : SpaceBlocks} {m m' m'' : Mem}

theorem OnlyTables.trans (h₁ : OnlyTables s m m') (h₂ : OnlyTables s m' m'') :
    OnlyTables s m m'' := fun x hx => (h₂ x hx).trans (h₁ x hx)

theorem pagingMap_onlyTables (h : PageTables m s) (virt phys flags : UInt32) :
    OnlyTables s m (pagingMap (blockAddr s.chunk) virt phys flags m).2 :=
  fun _ hx => PagingCall.run_apply h (.map virt phys flags) hx

theorem pagingMapLoop_onlyTables (flags : UInt32) : ∀ (n : ℕ) (virt phys : UInt32) (res : ℤ)
    {m : Mem}, PageTables m s →
      OnlyTables s m (pagingMapLoop (blockAddr s.chunk) flags n virt phys res m).2
  | 0, _, _, _, _, _ => fun _ _ => rfl
  | n + 1, virt, phys, res, m, h => by
      have hfirst := pagingMap_onlyTables h virt phys flags
      unfold pagingMapLoop
      dsimp only
      split_ifs
      · exact hfirst
      · exact hfirst.trans (pagingMapLoop_onlyTables flags n _ _ _ (h.congr_of_tables hfirst))

theorem pagingMapTo_onlyTables (h : PageTables m s) (virt phys physEnd flags : UInt32) :
    OnlyTables s m (pagingMapTo (blockAddr s.chunk) virt phys physEnd flags m).2 := by
  unfold pagingMapTo
  dsimp only
  split_ifs
  · exact fun _ _ => rfl
  · exact fun _ _ => rfl
  · exact fun _ _ => rfl
  · exact fun _ _ => rfl
  · exact pagingMapLoop_onlyTables _ _ _ _ _ h

variable {task : Task}

/-- The rounds of `process_map_elf`, wherever the headers lie. -/
theorem processMapElfLoop_onlyTables (elfFile : ElfFile)
    (htask : task.pageDirectory = blockAddr s.chunk) (header phdrs : UInt32) (i : ℕ) (res : ℤ)
    (h : PageTables m s) :
    OnlyTables s m (processMapElfLoop elfFile task header phdrs i res m).2 := by
  have hphdr : ∀ (phdr : Elf32Phdr) {m : Mem}, PageTables m s →
      OnlyTables s m (processMapPhdr elfFile task phdr m).2 := by
    intro phdr m h
    unfold processMapPhdr
    rw [htask]
    exact pagingMapTo_onlyTables h _ _ _ _
  fun_induction processMapElfLoop elfFile task header phdrs i res m with
  | case1 i res m hi r hneg => exact hphdr _ h
  | case2 i res m hi r hneg ih => exact (hphdr _ h).trans (ih (h.congr_of_tables (hphdr _ h)))
  | case3 => exact fun _ _ => rfl

theorem processMapStack_onlyTables (process : Process) (htask : task.pageDirectory =
    blockAddr s.chunk) (h : PageTables m s) {r : ℤ × Mem} (hr : OnlyTables s m r.2) :
    OnlyTables s m (processMapStack process task r).2 := by
  unfold processMapStack
  split_ifs
  · exact hr
  · rw [htask]
    exact hr.trans (pagingMapTo_onlyTables (h.congr_of_tables hr) _ _ _ _)

/-- `process_map_memory` changes bytes of the tables only. -/
theorem processMapMemory_onlyTables {process : Process} (htask : task.pageDirectory =
    blockAddr s.chunk) (h : PageTables m s) {r : ℤ × Mem}
    (hr : processMapMemory process task m = some r) : OnlyTables s m r.2 := by
  unfold processMapMemory at hr
  split_ifs at hr
  · cases hr
    exact processMapStack_onlyTables process htask h
      (processMapElfLoop_onlyTables _ htask _ _ _ _ h)
  · cases hr
    refine processMapStack_onlyTables process htask h ?_
    unfold processMapBinary
    rw [htask]
    exact pagingMapTo_onlyTables h _ _ _ _

/-! ### The rest of the call -/

variable {p out : UInt32} {slot : ℤ} {st : Machine} {r : LoadResult}

theorem processLoadOut_of_no_task (res : ℤ) (out : UInt32) (htask : (st.procs p).task = 0) :
    processLoadOut res p out st = ⟨res, out, st⟩ := if_neg fun h => h.2.2 htask

/-- A failed mapping frees the new task and nothing else. -/
theorem processLoadMap_keeps {own : TaskBlocks}
    (hheld : HoldsTask st.sched.kernel (st.sched.tasks (st.procs p).task) (st.procs p).task own)
    (h : processLoadMap p slot out st = some r) {b : ℕ} (hb : b < 25600) (hown : b ∉ own.blocks) :
    kernelHeap.entry r.st.sched.kernel.mem b = kernelHeap.entry st.sched.kernel.mem b := by
  unfold processLoadMap at h
  obtain ⟨q, hmap, rfl⟩ := Option.map_eq_some_iff.mp h
  have htables := processMapMemory_onlyTables hheld.pageDirectory hheld.tables hmap
  have hentry : ∀ c < 25600, kernelHeap.entry q.2 c = kernelHeap.entry st.sched.kernel.mem c :=
    fun c hc => htables _ fun hin => hin.not_inTable (inRange_off hc)
  dsimp only
  split_ifs
  · unfold processLoadOut
    split_ifs
    · have hheld' : HoldsTask { st.sched.kernel with mem := q.2 }
          (st.sched.tasks (st.procs p).task) (st.procs p).task own :=
        ⟨hheld.addr, hheld.pageDirectory, hheld.tables.congr_of_tables htables,
          fun c hc => (hentry c (own.lt hc)).trans (hheld.single c hc)⟩
      refine (@taskFree_apply { st.sched with kernel := { st.sched.kernel with mem := q.2 } }
        (st.procs p).task own hheld' _ fun c hc e => ?_).trans (hentry b hb)
      have hc' := own.lt hc
      rw [kernelHeap_entries] at e
      exact hown (off_inj (by omega) (by omega) e ▸ hc)
    · exact hentry b hb
  · exact hentry b hb

/-- The mapping writes no process structure, and no allocation is made. -/
theorem processLoadMap_procs (h : processLoadMap p slot out st = some r) :
    r.st.procs = st.procs ∧ r.st.sched.kernel.oom = st.sched.kernel.oom := by
  unfold processLoadMap at h
  obtain ⟨q, -, rfl⟩ := Option.map_eq_some_iff.mp h
  dsimp only
  split_ifs
  · unfold processLoadOut
    split_ifs
    · exact ⟨rfl, taskFree_oom _ _⟩
    · exact ⟨rfl, rfl⟩
  · exact ⟨rfl, rfl⟩

/-- A task that was made lies in blocks of its own. -/
theorem NewTask.exists_holds {sched sched' : TaskState} {k : Kernel} {b : ℕ} {t : Task}
    (hnew : NewTask p sched.kernel k b s t) (hsched : sched' = taskAppend (blockAddr b)
      { sched with kernel := k, tasks := Function.update sched.tasks (blockAddr b) t }) :
    sched'.kernel = k ∧ ∃ own : TaskBlocks, own.blocks = insert b s.blocks ∧
      HoldsTask sched'.kernel (sched'.tasks (blockAddr b)) (blockAddr b) own := by
  have hsame := (taskAppend_sameTask (blockAddr b)
    { sched with kernel := k, tasks := Function.update sched.tasks (blockAddr b) t }
    (blockAddr b)).1
  dsimp only at hsame
  rw [Function.update_self, hnew.pageDirectory, ← hsched] at hsame
  have hkernel : sched'.kernel = k := by
    rw [hsched]
    exact taskAppend_kernel _ _
  refine ⟨hkernel, ⟨b, s, hnew.lt, hnew.not_mem⟩, rfl, rfl, hsame, ?_, ?_⟩
  · rw [hkernel]
    exact hnew.space.tables
  · rw [hkernel]
    exact hnew.takes.single

/-- From `task_new` on, if its allocations are served. -/
theorem processLoadTask_keepsTaken (h : processLoadTask p slot out st = some r)
    (hok : r.st.sched.kernel.oom = false) : KeepsTaken st.sched.kernel r.st.sched.kernel := by
  unfold processLoadTask at h
  dsimp only at h
  split_ifs at h with hnull
  · obtain rfl := Option.some.inj h
    have hkeep : ∀ st' : Machine, (processLoadOut 0 p out st').st = st' := fun st' => by
      unfold processLoadOut
      rw [if_neg fun h => absurd h.1 (lt_irrefl 0)]
    rw [hkeep] at hok
    obtain ⟨b, s, t, k, hnew, -, heq⟩ := taskNew_ok hok
    rw [heq] at hnull
    exact absurd hnull (blockAddr_ne_zero hnew.lt)
  · rw [(processLoadMap_procs h).2] at hok
    obtain ⟨b, s, t, k, hnew, -, heq⟩ := taskNew_ok hok
    rw [heq] at h
    obtain ⟨sched, hsched⟩ : ∃ sched, sched = taskAppend (blockAddr b)
        { st.sched with kernel := k, tasks := Function.update st.sched.tasks (blockAddr b) t } :=
      ⟨_, rfl⟩
    obtain ⟨hkernel, own, hblocks, hheld⟩ := hnew.exists_holds hsched
    rw [← hsched] at h
    intro c hc htaken
    have hown : c ∉ insert b s.blocks := hnew.takes.not_mem htaken
    have hentry := processLoadMap_keeps
      (by rw [Machine.setProc_self]; exact hheld : HoldsTask _ _ _ own) h hc (hblocks ▸ hown)
    rw [Machine.setProc_sched, hkernel, hnew.takes.entries c hc hown] at hentry
    unfold EntryFree
    rwa [hentry]

/-- A call that fails there got a task, whose allocations were served. -/
theorem processLoadTask_keeps (h : processLoadTask p slot out st = some r) (hneg : r.res < 0)
    (hserved : (r.st.procs p).task ≠ 0 → r.st.sched.kernel.oom = false) :
    KeepsTaken st.sched.kernel r.st.sched.kernel := by
  have h' := h
  unfold processLoadTask at h
  dsimp only at h
  split_ifs at h with hnull
  · obtain rfl := Option.some.inj h
    unfold processLoadOut at hneg
    split_ifs at hneg <;> exact absurd hneg (lt_irrefl 0)
  · refine processLoadTask_keepsTaken h' (hserved ?_)
    rw [(processLoadMap_procs h).1, Machine.setProc_self]
    exact hnull

theorem processLoadStack_keeps {filename : List UInt8}
    (h : processLoadStack filename p slot out st = some r) (hneg : r.res < 0)
    (htask : (st.procs p).task = 0)
    (hserved : (r.st.procs p).task ≠ 0 → r.st.sched.kernel.oom = false) :
    KeepsTaken st.sched.kernel r.st.sched.kernel := by
  have hstack : KeepsTaken st.sched.kernel
      (kzalloc peachosUserProgramStackSize st.sched.kernel).2 :=
    kzalloc_keepsTaken (by decide) (by decide) _
  unfold processLoadStack at h
  dsimp only at h
  split_ifs at h
  · rw [processLoadOut_of_no_task] at h
    · obtain rfl := Option.some.inj h
      exact hstack
    · exact htask
  · have htaskKeeps := processLoadTask_keeps h hneg hserved
    exact hstack.trans htaskKeeps

/-- The structure that a failed load got is still there. -/
theorem processLoadForSlot_not_sameTable {load : Loader} {uninit : UInt32}
    {filename : List UInt8} (hslot : processGet slot st = 0)
    (hne : (kzalloc 5260 st.sched.kernel).1 ≠ 0)
    (h : processLoadForSlot load uninit filename slot out st = some r) (hneg : r.res < 0)
    (hload : KeepsTaken (kzalloc 5260 st.sched.kernel).2
      (load filename (kzalloc 5260 st.sched.kernel).2).2)
    (hserved : (r.st.procs (kzalloc 5260 st.sched.kernel).1).task ≠ 0 →
      r.st.sched.kernel.oom = false) :
    ¬ SameTable st.sched.kernel.mem r.st.sched.kernel.mem := by
  obtain ⟨b, hb, -, hfree, htaken⟩ := kzalloc_taken (by decide) (by decide) hne
  unfold processLoadForSlot at h
  rw [if_neg (not_not.mpr hslot)] at h
  dsimp only at h
  rw [if_neg hne] at h
  have hdata : ∀ data : LoadedData, (data.store processFullZero).task = 0 := by
    intro data
    cases data <;> rfl
  have hkeeps : KeepsTaken (kzalloc 5260 st.sched.kernel).2 r.st.sched.kernel := by
    split_ifs at h
    · rw [processLoadOut_of_no_task] at h
      · obtain rfl := Option.some.inj h
        exact hload
      · rw [Machine.setProc_self]
        exact hdata _
    · refine hload.trans (processLoadStack_keeps h hneg ?_ hserved)
      rw [Machine.setProc_self]
      exact hdata _
  intro hsame
  refine hkeeps b hb htaken ?_
  unfold EntryFree
  rw [hsame b hb]
  exact hfree

/-- **What a failed load leaves behind.**  A call for a free slot that fails leaves the block
table as it was if it did not get a process structure.  If it got one, then its block is still
taken afterwards, so the table is another, for every load that gives back no block that was taken
before; only a `task_new` without memory is left out, since the call goes on with an error code
for a task. -/
theorem processLoadForSlot_leaks {load : Loader} {uninit : UInt32} {filename : List UInt8}
    (hslot : processGet slot st = 0)
    (h : processLoadForSlot load uninit filename slot out st = some r) (hneg : r.res < 0) :
    let process := kzalloc 5260 st.sched.kernel
    (process.1 = 0 → SameTable st.sched.kernel.mem r.st.sched.kernel.mem) ∧
      (KeepsTaken process.2 (load filename process.2).2 →
        ((r.st.procs process.1).task ≠ 0 → r.st.sched.kernel.oom = false) →
        SameTable st.sched.kernel.mem r.st.sched.kernel.mem → process.1 = 0) := by
  refine ⟨fun hnull => ?_, fun hload hserved hsame => ?_⟩
  · unfold processLoadForSlot at h
    rw [if_neg (not_not.mpr hslot)] at h
    dsimp only at h
    rw [if_pos hnull] at h
    obtain rfl := Option.some.inj h
    intro i _
    change kernelHeap.entry (kzalloc 5260 st.sched.kernel).2.mem i = _
    rw [kzalloc_null_mem hnull]
  · by_contra hne
    exact processLoadForSlot_not_sameTable hslot hne h hneg hload hserved hsame

/-- A heap without a free block. -/
theorem kzalloc_full_null (size : UInt32) : (kzalloc size ⟨fun _ => 0x41, false⟩).1 = 0 := by
  rcases foundBlock_cases size (fun _ => 0x41) with hneg | ⟨b, hfound⟩
  · exact (kzalloc_unfound (k := ⟨fun _ => 0x41, false⟩) hneg).1
  · have htaken : heapGetEntryType 0x41 ≠ heapBlockTableEntryFree := by decide
    exact absurd hfound.free htaken

/-- No structure can be allocated there. -/
theorem processLoadForSlot_leaks_full :
    ∃ r, processLoadForSlot (processLoadData fun _ => zeroFile) 0 [] 0 0
        (freshMachine.setKernel ⟨fun _ => 0x41, false⟩) = some r ∧ r.res < 0 ∧
      SameTable (fun _ => 0x41) r.st.sched.kernel.mem := by
  have hnull := kzalloc_full_null 5260
  obtain ⟨st, hst⟩ : ∃ st, st = freshMachine.setKernel ⟨fun _ => 0x41, false⟩ := ⟨_, rfl⟩
  have hslot : processGet 0 st = 0 := by
    rw [hst]
    rfl
  have hmem : st.sched.kernel = ⟨fun _ => 0x41, false⟩ := by
    rw [hst]
    rfl
  rw [← hst]
  rw [← hmem] at hnull
  have h : processLoadForSlot (processLoadData fun _ => zeroFile) 0 [] 0 0 st =
      some (processLoadOut (-ENOMEM) 0 0 (st.setKernel (kzalloc 5260 st.sched.kernel).2)) := by
    unfold processLoadForSlot
    rw [if_neg (not_not.mpr hslot)]
    exact if_pos hnull
  have hneg : (processLoadOut (-ENOMEM) 0 0 (st.setKernel (kzalloc 5260 st.sched.kernel).2)).res <
      0 := by
    have hlt : -ENOMEM < 0 := by decide
    unfold processLoadOut
    split_ifs <;> exact hlt
  have htable : (fun _ => 0x41) = st.sched.kernel.mem := by rw [hmem]
  rw [htable]
  exact ⟨_, h, hneg, (processLoadForSlot_leaks hslot h hneg).1 hnull⟩

/-- A file that cannot be opened: `fopen` returns 0, and `fstat` rejects that number. -/
def missingFile : FileAccess := ⟨0, (- EIO), 0, 0, fun _ => 0⟩

/-- The process structure of a missing file stays allocated. -/
theorem processLoadForSlot_missing :
    ∃ r, processLoadForSlot (processLoadData fun _ => missingFile) 0 [] 0 0 freshMachine =
        some r ∧ r.res = (- EIO) ∧
      ¬ SameTable freshMachine.sched.kernel.mem r.st.sched.kernel.mem := by
  have hslot : processGet 0 freshMachine = 0 := rfl
  obtain ⟨st, hst⟩ : ∃ st, st = freshMachine := ⟨_, rfl⟩
  have htop : TopFree st.sched.kernel Extents.empty 0 := by
    rw [hst]
    exact freshKernel_topFree
  rw [← hst] at hslot ⊢
  obtain ⟨p, k, live, hk, hlive, halloc, -, -⟩ := htop.kzalloc 5260 (by decide) (by decide)
  have hne : (kzalloc 5260 st.sched.kernel).1 ≠ 0 := by
    rw [hk]
    exact hlive.heap.allocated_ne_zero halloc
  have hload : ∀ k, processLoadData (fun _ => missingFile) [] k =
      (.unchanged (- EIO), (kzalloc 132 k).2) := fun _ => rfl
  have hneg : (- EIO) < 0 := by decide
  have h : processLoadForSlot (processLoadData fun _ => missingFile) 0 [] 0 0 st =
      some (processLoadOut (- EIO) (kzalloc 5260 st.sched.kernel).1 0
        ((st.setKernel (kzalloc 132 (kzalloc 5260 st.sched.kernel).2).2).setProc
          (kzalloc 5260 st.sched.kernel).1 processFullZero)) := by
    unfold processLoadForSlot
    rw [if_neg (not_not.mpr hslot)]
    dsimp only
    rw [if_neg hne, hload]
    exact if_pos hneg
  rw [processLoadOut_of_no_task _ _ (by rw [Machine.setProc_self]; rfl)] at h
  refine ⟨_, h, rfl, processLoadForSlot_not_sameTable hslot hne h hneg ?_ fun htask => ?_⟩
  · rw [hload]
    exact kzalloc_keepsTaken (by decide) (by decide) _
  · rw [Machine.setProc_self] at htask
    exact absurd rfl htask

end PeachOS
