import PeachOS.PagingFree
import PeachOS.ProcessTable

/-! # Loading into a full process table

`process_get_free_slot` reports a full table as slot 8, which `process_load_for_slot` then finds
occupied.  It fails before it has assigned `_process`, and its label `out` follows that pointer:
whatever task it finds there is freed.  `processLoad_full_iff` says for which stale pointers
this does no harm. -/

namespace PeachOS

open ByteMemory Extents

/-! ### When `kfree` changes nothing -/

/-- The byte of the block table that `kfree` clears first for the pointer, where there is one,
is not zero. -/
def FreesEntry (m : Mem) (a : UInt32) : Prop :=
  heapAddressToBlock kernelHeap a < 25600 ∧
    m (kernelHeap.table.entryAddr (heapAddressToBlock kernelHeap a)) ≠ 0

variable {m m₁ m₂ : Mem} {k : Kernel} {a : UInt32}

/-- Nothing was lowered on the way to the same memory. -/
theorem Lowers.eq_of_eq (h₁ : Lowers m m₁) (h₂ : Lowers m₁ m₂) (h : m₂ = m) : m₁ = m := by
  funext x
  rcases h₁ x with hx | hx
  · exact hx
  · rcases h₂ x with hx₂ | hx₂
    · rw [← hx₂, h]
    · rw [hx, ← hx₂, h]

theorem kfreeAll_lowers : ∀ (l : List UInt32) (k : Kernel), Lowers k.mem (kfreeAll l k).mem
  | [], k => Lowers.refl k.mem
  | a :: l, k => (kfree_lowers a k).trans (kfreeAll_lowers l (kfree a k))

theorem kfree_eq_self_iff : (kfree a k).mem = k.mem ↔ ¬ FreesEntry k.mem a := by
  have htotal : i32 (kernelHeap.table.total.toNat : ℤ) = 25600 := by
    rw [kernelHeap_total]
    exact i32_of_range (by norm_num) (by norm_num)
  rw [kfree_mem, heapFree, heapMarkBlocksFree, htotal]
  generalize hi : heapAddressToBlock kernelHeap a = i
  unfold FreesEntry
  rw [hi]
  by_cases hlt : i < 25600
  · obtain ⟨n, hn⟩ : ∃ n, (25600 - i).toNat = n + 1 := ⟨(25600 - i).toNat - 1, by omega⟩
    rw [hn, heapMarkFreeLoop_succ]
    dsimp only
    have hrest : Lowers (k.mem.write (kernelHeap.table.entryAddr i) heapBlockTableEntryFree)
        (if k.mem (kernelHeap.table.entryAddr i) &&& heapBlockHasNext = 0 then
          k.mem.write (kernelHeap.table.entryAddr i) heapBlockTableEntryFree
        else heapMarkFreeLoop kernelHeap.table n (i + 1)
          (k.mem.write (kernelHeap.table.entryAddr i) heapBlockTableEntryFree)) := by
      split_ifs
      · exact Lowers.refl _
      · exact heapMarkFreeLoop_lowers _ _ _ _
    constructor
    · rintro h ⟨-, hne⟩
      have hwrite := (lowers_write_zero _ _).eq_of_eq hrest h
      exact hne ((Mem.write_eq_self_iff _ _ _).mp hwrite)
    · intro h
      have hzero : k.mem (kernelHeap.table.entryAddr i) = 0 := by
        by_contra hne
        exact h ⟨hlt, hne⟩
      rw [hzero, if_pos (by decide)]
      exact (Mem.write_eq_self_iff _ _ _).mpr hzero
  · rw [show (25600 - i).toNat = 0 by omega]
    exact iff_of_true rfl fun h => hlt h.1

theorem kfree_eq_self (h : ¬ FreesEntry k.mem a) : kfree a k = k := by
  have hmem := kfree_eq_self_iff.mpr h
  rw [kfree_mem] at hmem
  unfold kfree
  rw [hmem]

theorem kfreeAll_eq_self_iff : ∀ {l : List UInt32} {k : Kernel},
    (kfreeAll l k).mem = k.mem ↔ ∀ a ∈ l, ¬ FreesEntry k.mem a
  | [], k => iff_of_true rfl fun _ h => absurd h List.not_mem_nil
  | a :: l, k => by
      rw [List.forall_mem_cons]
      constructor
      · intro h
        have hmem := (kfree_lowers a k).eq_of_eq (kfreeAll_lowers l (kfree a k)) h
        have hfirst := kfree_eq_self_iff.mp hmem
        refine ⟨hfirst, ?_⟩
        change (kfreeAll l (kfree a k)).mem = k.mem at h
        rw [kfree_eq_self hfirst] at h
        exact kfreeAll_eq_self_iff.mp h
      · rintro ⟨hfirst, hrest⟩
        change (kfreeAll l (kfree a k)).mem = k.mem
        rw [kfree_eq_self hfirst]
        exact kfreeAll_eq_self_iff.mpr hrest

/-! ### When `task_free` changes nothing -/

/-- The pointers of the address space at `chunk` as `m` holds it: the tables, the directory and
the chunk. -/
def spacePointers (chunk : UInt32) (m : Mem) : List UInt32 :=
  ((List.range 1024).map fun i => m.read32 (off (m.read32 chunk) (4 * i)) &&& 0xfffff000) ++
    [m.read32 chunk, chunk]

/-- While the loop changes nothing it reads the pointers of the memory it began with. -/
theorem pagingFreedTables_of_same (chunk : UInt32) (k : Kernel) : ∀ {n : ℕ},
    (∀ i < n, (pagingFreeTables chunk i k).mem = k.mem) → pagingFreedTables chunk n k =
      (List.range n).map fun i => k.mem.read32 (off (k.mem.read32 chunk) (4 * i)) &&& 0xfffff000
  | 0, _ => rfl
  | n + 1, h => by
      unfold pagingFreedTables
      dsimp only
      rw [h n (Nat.lt_succ_self n), List.range_succ, List.map_append,
        pagingFreedTables_of_same chunk k fun i hi => h i (Nat.lt_succ_of_lt hi)]
      rfl

theorem pagingFreed_of_same {chunk : UInt32}
    (h : ∀ i ≤ 1024, (pagingFreeTables chunk i k).mem = k.mem) :
    pagingFreed chunk k = spacePointers chunk k.mem := by
  unfold pagingFreed spacePointers
  rw [h 1024 le_rfl, pagingFreedTables_of_same chunk k fun i hi => h i hi.le]

theorem pagingFreeTables_lowers (chunk : UInt32) (k : Kernel) {n : ℕ} : ∀ {l : ℕ}, n ≤ l →
    Lowers (pagingFreeTables chunk n k).mem (pagingFreeTables chunk l k).mem
  | 0, h => by
      obtain rfl : n = 0 := by omega
      exact Lowers.refl _
  | l + 1, h => by
      rcases Nat.lt_or_ge l n with hl | hl
      · obtain rfl : n = l + 1 := by omega
        exact Lowers.refl _
      · exact (pagingFreeTables_lowers chunk k hl).trans (kfree_lowers _ _)

/-- `paging_free_4gb` and one more `kfree`: they change nothing exactly when none of the
pointers has an entry to clear. -/
theorem pagingFree4gb_eq_self_iff {chunk task : UInt32} :
    (kfree task (pagingFree4gb chunk k)).mem = k.mem ↔
      ∀ a ∈ spacePointers chunk k.mem ++ [task], ¬ FreesEntry k.mem a := by
  have hall : ∀ l, pagingFreed chunk k = l →
      ((kfree task (pagingFree4gb chunk k)).mem = k.mem ↔
        ∀ a ∈ l ++ [task], ¬ FreesEntry k.mem a) := by
    rintro l rfl
    rw [pagingFree4gb_eq_kfreeAll, ← kfreeAll_concat]
    exact kfreeAll_eq_self_iff
  constructor
  · intro h
    have hend : Lowers (pagingFreeTables chunk 1024 k).mem
        (kfree task (pagingFree4gb chunk k)).mem :=
      ((kfree_lowers _ _).trans (kfree_lowers _ _)).trans (kfree_lowers _ _)
    refine (hall _ (pagingFreed_of_same fun i hi => ?_)).mp h
    exact (pagingFreeTables_lowers chunk k (Nat.zero_le i)).eq_of_eq
      ((pagingFreeTables_lowers chunk k hi).trans hend) h
  · intro h
    have hsame : ∀ n ≤ 1024, pagingFreeTables chunk n k = k := by
      intro n
      induction n with
      | zero => exact fun _ => rfl
      | succ n ih =>
          intro hn
          unfold pagingFreeTables
          dsimp only
          rw [ih (by omega)]
          refine kfree_eq_self (h _ (List.mem_append_left _ (List.mem_append_left _ ?_)))
          exact List.mem_map_of_mem (List.mem_range.mpr (by omega))
    exact (hall _ (pagingFreed_of_same fun i hi => by rw [hsame i hi])).mpr h

/-- Taking the task out of the list changes no link, neither end and not the current task. -/
structure Unlinked (task : UInt32) (st : TaskState) : Prop where
  prev : (st.tasks task).prev ≠ 0 →
    (st.tasks (st.tasks task).prev).next = (st.tasks task).next
  head : task = st.taskHead → (st.tasks task).next = task
  tail : task = st.taskTail → (st.tasks task).prev = task
  current : task = st.currentTask → taskGetNext st = task

theorem update_next_eq_self_iff {tasks : UInt32 → Task} {a next : UInt32} :
    Function.update tasks a { tasks a with next := next } = tasks ↔ (tasks a).next = next := by
  rw [Function.update_eq_self_iff]
  constructor
  · intro h
    rw [← h]
  · rintro rfl
    rfl

theorem taskListRemove_of_unlinked {task : UInt32} {st : TaskState} (h : Unlinked task st) :
    taskListRemove task st = st := by
  have hprev : (if (st.tasks task).prev ≠ 0 then
      { st with
        tasks := Function.update st.tasks (st.tasks task).prev
          { st.tasks (st.tasks task).prev with next := (st.tasks task).next } }
      else st) = st := by
    split_ifs with hp
    · rw [update_next_eq_self_iff.mpr (h.prev hp)]
    · rfl
  have hhead : (if task = st.taskHead then { st with taskHead := (st.tasks task).next }
      else st) = st := by
    split_ifs with hh
    · rw [h.head hh, hh]
    · rfl
  have htail : (if task = st.taskTail then { st with taskTail := (st.tasks task).prev }
      else st) = st := by
    split_ifs with ht
    · rw [h.tail ht, ht]
    · rfl
  unfold taskListRemove
  dsimp only
  rw [hprev, hhead, htail]
  split_ifs with hc
  · rw [h.current hc, hc]
  · rfl

theorem taskListRemove_eq_self_iff {task : UInt32} {st : TaskState} :
    taskListRemove task st = st ↔ Unlinked task st := by
  refine ⟨fun h => ?_, taskListRemove_of_unlinked⟩
  unfold taskListRemove at h
  dsimp only at h
  -- each of the four tests is the last one to write its field
  generalize h₁ : (if (st.tasks task).prev ≠ 0 then
    { st with
      tasks := Function.update st.tasks (st.tasks task).prev
        { st.tasks (st.tasks task).prev with next := (st.tasks task).next } }
    else st) = st₁ at h
  generalize h₂ : (if task = st₁.taskHead then { st₁ with taskHead := (st₁.tasks task).next }
    else st₁) = st₂ at h
  generalize h₃ : (if task = st₂.taskTail then { st₂ with taskTail := (st₂.tasks task).prev }
    else st₂) = st₃ at h
  have hfirst : st₁.tasks = st.tasks := by
    have h₁₂ : st₁.tasks = st₂.tasks := by rw [← h₂]; split_ifs <;> rfl
    have h₂₃ : st₂.tasks = st₃.tasks := by rw [← h₃]; split_ifs <;> rfl
    have h₄ := congrArg TaskState.tasks h
    rw [h₁₂, h₂₃, ← h₄]
    split_ifs <;> rfl
  have hprev : (st.tasks task).prev ≠ 0 →
      (st.tasks (st.tasks task).prev).next = (st.tasks task).next := by
    intro hp
    rw [← h₁, if_pos hp] at hfirst
    exact update_next_eq_self_iff.mp hfirst
  have hst₁ : st₁ = st := by
    rw [← h₁]
    split_ifs with hp
    · rw [update_next_eq_self_iff.mpr (hprev hp)]
    · rfl
  rw [hst₁] at h₂
  have hsecond : st₂.taskHead = st.taskHead := by
    have h₂₃ : st₂.taskHead = st₃.taskHead := by rw [← h₃]; split_ifs <;> rfl
    have h₄ := congrArg TaskState.taskHead h
    rw [h₂₃, ← h₄]
    split_ifs <;> rfl
  have hhead : task = st.taskHead → (st.tasks task).next = task := by
    intro hh
    rw [← h₂, if_pos hh] at hsecond
    exact hsecond.trans hh.symm
  have hst₂ : st₂ = st := by
    rw [← h₂]
    split_ifs with hh
    · rw [hhead hh, hh]
    · rfl
  rw [hst₂] at h₃
  have hthird : st₃.taskTail = st.taskTail := by
    have h₄ := congrArg TaskState.taskTail h
    rw [← h₄]
    split_ifs <;> rfl
  have htail : task = st.taskTail → (st.tasks task).prev = task := by
    intro ht
    rw [← h₃, if_pos ht] at hthird
    exact hthird.trans ht.symm
  have hst₃ : st₃ = st := by
    rw [← h₃]
    split_ifs with ht
    · rw [htail ht, ht]
    · rfl
  rw [hst₃] at h
  refine ⟨hprev, hhead, htail, fun hc => ?_⟩
  rw [if_pos hc] at h
  exact (congrArg TaskState.currentTask h).trans hc.symm

/-- `task_free` changes nothing. -/
def NothingToFree (task : UInt32) (st : TaskState) : Prop :=
  Unlinked task st ∧
    ∀ a ∈ spacePointers (st.tasks task).pageDirectory st.kernel.mem ++ [task],
      ¬ FreesEntry st.kernel.mem a

/-- The links, the ends of the list and the current task are the same. -/
structure SameTasks (st st' : TaskState) : Prop where
  tasks : st'.tasks = st.tasks
  head : st'.taskHead = st.taskHead
  tail : st'.taskTail = st.taskTail
  current : st'.currentTask = st.currentTask

theorem taskListRemove_setKernel (task : UInt32) (st : TaskState) (k : Kernel) :
    taskListRemove task { st with kernel := k } = { taskListRemove task st with kernel := k } := by
  unfold taskListRemove taskGetNext
  dsimp only
  split_ifs <;> rfl

theorem sameTasks_taskListRemove_iff {task : UInt32} {st : TaskState} :
    SameTasks st (taskListRemove task st) ↔ Unlinked task st := by
  rw [← taskListRemove_eq_self_iff]
  constructor
  · intro h
    have hkernel := taskListRemove_kernel task st
    obtain ⟨htasks, hhead, htail, hcurrent⟩ := h
    generalize taskListRemove task st = st' at *
    cases st
    cases st'
    simp_all
  · intro h
    rw [h]
    exact ⟨rfl, rfl, rfl, rfl⟩

theorem taskFree_same_iff {task : UInt32} {st : TaskState} :
    SameTasks st (taskFree task st) ∧ (taskFree task st).kernel.mem = st.kernel.mem ↔
      NothingToFree task st := by
  have hfree : taskFree task st = { taskListRemove task st with
      kernel := kfree task (pagingFree4gb (st.tasks task).pageDirectory st.kernel) } := by
    unfold taskFree
    dsimp only
    rw [taskListRemove_setKernel]
  rw [hfree]
  refine and_congr (Iff.trans ?_ sameTasks_taskListRemove_iff) pagingFree4gb_eq_self_iff
  exact ⟨fun ⟨h₁, h₂, h₃, h₄⟩ => ⟨h₁, h₂, h₃, h₄⟩, fun ⟨h₁, h₂, h₃, h₄⟩ => ⟨h₁, h₂, h₃, h₄⟩⟩

/-! ### `process_load` -/

/-- The call failed and changed neither the table, nor the list of tasks, nor the heap, nor
`*process`. -/
structure LoadHarmless (out : UInt32) (st : Machine) (r : LoadResult) : Prop where
  failed : r.res < 0
  process : r.process = out
  table : r.st.processes = st.processes
  tasks : SameTasks st.sched r.st.sched
  heap : r.st.sched.kernel.mem = st.sched.kernel.mem

variable {st : Machine}

/-- Every slot is occupied. -/
def TableFull (st : Machine) : Prop := ∀ i, IsSlot i → st.processes i ≠ 0

/-- A full table ends in the label `out` with the value `_process` happens to have. -/
theorem processLoad_of_full (hfull : TableFull st) (load : Loader) (uninit : UInt32)
    (filename : List UInt8) (out : UInt32) :
    processLoad load uninit filename out st = some (processLoadOut (-EISTKN) uninit out st) := by
  have hslot := processGetFreeSlot_isSlot st
  unfold processLoad processLoadForSlot
  dsimp only
  rw [if_neg (Int.not_lt.mpr hslot.1), if_pos]
  rw [processGet_of_isSlot hslot]
  exact hfull _ hslot

theorem neg_EISTKN_lt : -EISTKN < 0 := by decide

theorem processLoadOut_harmless_iff (uninit out : UInt32) (st : Machine) :
    LoadHarmless out st (processLoadOut (-EISTKN) uninit out st) ↔
      uninit = 0 ∨ (st.procs uninit).task = 0 ∨
        NothingToFree (st.procs uninit).task st.sched := by
  unfold processLoadOut
  by_cases hp : uninit = 0
  · rw [if_neg fun h => h.2.1 hp]
    exact iff_of_true ⟨neg_EISTKN_lt, rfl, rfl, ⟨rfl, rfl, rfl, rfl⟩, rfl⟩ (Or.inl hp)
  · by_cases htask : (st.procs uninit).task = 0
    · rw [if_neg fun h => h.2.2 htask]
      exact iff_of_true ⟨neg_EISTKN_lt, rfl, rfl, ⟨rfl, rfl, rfl, rfl⟩, rfl⟩ (Or.inr (Or.inl htask))
    · rw [if_pos ⟨neg_EISTKN_lt, hp, htask⟩, or_iff_right hp, or_iff_right htask,
        ← taskFree_same_iff]
      exact ⟨fun h => ⟨h.tasks, h.heap⟩, fun h => ⟨neg_EISTKN_lt, rfl, rfl, h.1, h.2⟩⟩

/-- **When loading into a full table is harmless.**  `process_load` fails on a full table, and
it changes nothing exactly when the stale value of `_process` is null, or the structure it
points to has no task, or that task is in no list and none of its pointers that `task_free` frees
has an entry in the block table. -/
theorem processLoad_full_iff (hfull : TableFull st) (load : Loader) (uninit : UInt32)
    (filename : List UInt8) (out : UInt32) :
    ∃ r, processLoad load uninit filename out st = some r ∧
      (LoadHarmless out st r ↔ uninit = 0 ∨ (st.procs uninit).task = 0 ∨
        NothingToFree (st.procs uninit).task st.sched) :=
  ⟨_, processLoad_of_full hfull load uninit filename out,
    processLoadOut_harmless_iff uninit out st⟩

/-! ### A full table with twelve processes -/

variable {live : Layout UInt32}

theorem processLoadForSlot_processes {load : Loader} {uninit out : UInt32} {filename : List UInt8}
    {slot : ℤ} {r : LoadResult}
    (h : processLoadForSlot load uninit filename slot out st = some r) {j : ℤ} (hj : j ≠ slot) :
    r.st.processes j = st.processes j := by
  rcases processLoadForSlot_effect h with ⟨-, hsame⟩ | ⟨b, -, -, -, -, heffect⟩
  · rw [hsame]
  · rcases heffect.table with hsame | ⟨-, htable, -⟩
    · rw [hsame]
    · rw [htable, Function.update_of_ne hj]

/-- The first `n` slots hold processes with live structures, the others are free, and no
structure but those of the processes has a task. -/
structure Loads (n : ℕ) (st : Machine) (live : Layout UInt32) : Prop where
  run : LoadRun freshMachine st
  top : TopFree st.sched.kernel live (1036 * n)
  loaded : ∀ i < n, ∃ e, live (st.processes (i : ℤ)) = some e
  free : ∀ i : ℕ, n ≤ i → i < 12 → st.processes (i : ℤ) = 0
  others : ∀ q, (∀ i < n, q ≠ st.processes (i : ℤ)) → (st.procs q).task = 0

theorem Loads.taken {n : ℕ} (h : Loads n st live) : ProcessesTaken st := by
  rintro i ⟨h₁, h₂⟩ hne
  obtain ⟨j, rfl⟩ := Int.eq_ofNat_of_zero_le h₁
  have hj : j < n := by
    by_contra hge
    refine hne (h.free j (by omega) ?_)
    unfold peachosMaxProcesses at h₂
    omega
  obtain ⟨e, he⟩ := h.loaded j hj
  have hin := h.top.heap.encodes.packed.inside _ e he
  have hpos := e.len_pos
  rw [kernelHeap_total] at hin
  exact ⟨e.start, by omega, h.top.heap.address _ e he, h.top.heap.taken he e.has_start⟩

/-- One more process. -/
theorem Loads.step {n : ℕ} (h : Loads n st live) (hn : n < 12) :
    ∃ (r : LoadResult) (live' : Layout UInt32), Loads (n + 1) r.st live' ∧ r.process ≠ 0 ∧
      (r.st.procs r.process).task ≠ 0 ∧ ∃ e, live' (r.st.procs r.process).task = some e := by
  have hslot : IsSlot n := ⟨Int.natCast_nonneg n, by unfold peachosMaxProcesses; omega⟩
  have hget : processGet n st = 0 := by
    rw [processGet_of_isSlot hslot]
    exact h.free n le_rfl hn
  obtain ⟨r, live', task, hr, -, hne, hentry, htop, hprocess, htask, happend, hown⟩ :=
    processLoadForSlot_zeroFile h.top (by omega) hget 0 [] 0
  refine ⟨r, live', ⟨?_, ?_, fun i hi => ?_, fun i hi hlt => ?_, fun q hq => ?_⟩, hne, ?_, ?_⟩
  · refine h.run.call ⟨processLoadData fun _ => zeroFile, 0, [], some n, 0⟩ ⟨?_, h.taken⟩ hr
    rintro i ⟨⟩
    exact hslot
  · rw [mul_add, mul_one]
    exact htop
  · rcases Nat.lt_succ_iff_lt_or_eq.mp hi with hi | rfl
    · obtain ⟨e, he⟩ := h.loaded i hi
      rw [processLoadForSlot_processes hr (by omega)]
      exact ⟨e, htask.keep _ e he⟩
    · rw [hentry]
      exact hprocess.after
  · rw [processLoadForSlot_processes hr (by omega)]
    exact h.free i (by omega) hlt
  · have hold : (st.procs q).task = 0 := h.others q fun i hi => by
      rw [← processLoadForSlot_processes hr (by omega)]
      exact hq i (by omega)
    rcases processLoadForSlot_effect hr with ⟨hprocs, -⟩ | ⟨b, -, -, -, -, heffect⟩
    · rwa [hprocs]
    · rcases heffect.table with hsame | ⟨-, htable, -⟩
      · rw [hsame, h.free n le_rfl hn] at hentry
        exact absurd hentry.symm hne
      · rw [heffect.others q fun hqp => hq n (Nat.lt_succ_self n) ?_]
        · exact hold
        · rw [htable, Function.update_self, hqp]
  · rw [hown]
    exact happend.1
  · rw [hown]
    exact htask.after

theorem exists_loads : ∀ n ≤ 12, ∃ st live, Loads n st live
  | 0, _ => ⟨freshMachine, Extents.empty, LoadRun.start, freshKernel_topFree,
      fun i hi => absurd hi (Nat.not_lt_zero i), fun _ _ _ => rfl, fun _ _ => rfl⟩
  | n + 1, hn => by
      obtain ⟨st, live, h⟩ := exists_loads n (by omega)
      obtain ⟨r, live', h', -⟩ := h.step (by omega)
      exact ⟨r.st, live', h'⟩

theorem Loads.lt {n i : ℕ} (h : Loads n st live) (hi : i < n) :
    ∃ b < 25600, st.processes (i : ℤ) = blockAddr b := by
  obtain ⟨e, he⟩ := h.loaded i hi
  have hin := h.top.heap.encodes.packed.inside _ e he
  have hpos := e.len_pos
  rw [kernelHeap_total] at hin
  exact ⟨e.start, by omega, h.top.heap.address _ e he⟩

theorem Loads.full (h : Loads 12 st live) : TableFull st := by
  rintro i ⟨h₁, h₂⟩ hzero
  obtain ⟨j, rfl⟩ := Int.eq_ofNat_of_zero_le h₁
  unfold peachosMaxProcesses at h₂
  obtain ⟨b, hb, haddr⟩ := h.lt (i := j) (by omega)
  exact blockAddr_ne_zero hb (haddr.symm.trans hzero)

/-- Twelve processes are loaded, and `_process` holds the address `0x5ff000`, which lies in no
process. -/
theorem processLoad_full_iff_loaded :
    ∃ st : Machine, LoadRun freshMachine st ∧ TableFull st ∧
      ∃ r, processLoad (processLoadData fun _ => zeroFile) 0x5ff000 [] 0 st = some r ∧
        LoadHarmless 0 st r := by
  obtain ⟨st, live, h⟩ := exists_loads 12 le_rfl
  obtain ⟨r, hr, hiff⟩ :=
    processLoad_full_iff h.full (processLoadData fun _ => zeroFile) 0x5ff000 [] 0
  refine ⟨st, h.run, h.full, r, hr, hiff.mpr (Or.inr (Or.inl (h.others _ fun i hi heq => ?_)))⟩
  obtain ⟨b, hb, haddr⟩ := h.lt hi
  have hnat := congrArg UInt32.toNat (heq.trans haddr)
  rw [toNat_blockAddr hb, show (0x5ff000 : UInt32).toNat = 6287360 from rfl] at hnat
  omega

/-- Twelve processes are loaded, and `_process` still holds what the last call left in it: its
task is freed. -/
theorem processLoad_full_frees :
    ∃ st uninit r, LoadRun freshMachine st ∧ TableFull st ∧
      processLoad (processLoadData fun _ => zeroFile) uninit [] 0 st = some r ∧
      ¬ LoadHarmless 0 st r := by
  obtain ⟨st₀, live₀, h₀⟩ := exists_loads 11 (by omega)
  obtain ⟨r, live, h, hne, htask, e, he⟩ := h₀.step (by omega)
  refine ⟨r.st, r.process, _, h.run, h.full, processLoad_of_full h.full _ _ _ _, ?_⟩
  rw [processLoadOut_harmless_iff, not_or, not_or]
  refine ⟨hne, htask, fun hnothing => ?_⟩
  -- the block of the task is one of those that are freed
  refine hnothing.2 _ (List.mem_append_right _ (List.mem_singleton_self _)) ?_
  have haddr := h.top.heap.address _ e he
  have hin := h.top.heap.encodes.packed.inside _ e he
  have hpos := e.len_pos
  rw [kernelHeap_total] at hin
  have hblock : heapAddressToBlock kernelHeap (r.st.procs r.process).task = e.start := by
    rw [haddr]
    exact heapAddressToBlock_off kernelHeap (by omega)
  unfold FreesEntry
  rw [hblock, HeapTable.entryAddr_natCast]
  refine ⟨by omega, fun hzero => h.top.heap.taken he e.has_start ?_⟩
  unfold EntryFree
  rw [show kernelHeap.entry r.st.sched.kernel.mem e.start = 0 from hzero]
  rfl

end PeachOS
