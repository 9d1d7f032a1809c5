import PeachOS.Process

/-! # Allocation bookkeeping over whole runs

Two results about any interleaving of `process_malloc` and `process_free` calls of any
number of processes.

* **Ownership.**  `OwnState` adds to the state the set of pointers each process was given
  and has not freed.  In every reachable state the non-null slots of an array are that set
  (`OwnRun.slots`), whatever happens to memory in between.  A `free` of any other pointer is
  refused, except that null is found in every empty slot: the block index of null is -4096,
  and the byte at `0x6e00` is cleared (`processFree_confined_iff`).
* **Bookkeeping.**  `BookState` adds the live heap allocations.  As long as null is not
  freed, every recorded pointer starts a live allocation and is recorded once, and a `free`
  touches only its own slot and its own extent (`process_bookkeeping`). -/

namespace PeachOS

open ByteMemory Extents SlotTable

/-! ### Ownership -/

/-- The state, and the pointers each process was given and has not freed since. -/
structure OwnState where
  state : ProcState
  owned : UInt32 → Set UInt32

/-- One step: a system call of some process with any argument, or any change that the rest
of the machine makes to memory and to the heap table. -/
inductive OwnStep : OwnState → OwnState → Prop
  | malloc (st : OwnState) (p size : UInt32) :
      OwnStep st ⟨(processMalloc p size st.state).2, Function.update st.owned p
        (st.owned p ∪ {a | a = (processMalloc p size st.state).1 ∧ a ≠ 0})⟩
  | free (st : OwnState) (p ptr : UInt32) :
      OwnStep st ⟨processFree p ptr st.state, Function.update st.owned p (st.owned p \ {ptr})⟩
  | other (st : OwnState) (k : Kernel) : OwnStep st ⟨{ st.state with kernel := k }, st.owned⟩

/-- Every array is empty and nothing has been given out. -/
def OwnInit (st : OwnState) : Prop :=
  (∀ p, (st.state.procs p).allocations = processInit.allocations) ∧ ∀ p, st.owned p = ∅

/-- The states reached by any run of such steps. -/
def OwnReach (st : OwnState) : Prop := ∃ st₀, OwnInit st₀ ∧ Relation.ReflTransGen OwnStep st₀ st

/-- The non-null slots of each array are the pointers its process owns. -/
def OwnInv (st : OwnState) : Prop :=
  ∀ p a, a ∈ st.owned p ↔ a ≠ 0 ∧ a ∈ (st.state.procs p).allocations

theorem OwnInit.inv {st : OwnState} (h : OwnInit st) : OwnInv st := by
  intro p a
  rw [h.1 p, h.2 p]
  simp only [processInit, Set.mem_empty_iff_false, List.mem_replicate, false_iff]
  tauto

/-- `process_free` drops exactly the freed pointer from the array. -/
theorem mem_allocations_processFree {p ptr q a : UInt32} {s : ProcState} (ha : a ≠ 0) :
    a ∈ ((processFree p ptr s).procs q).allocations ↔
      a ∈ (s.procs q).allocations ∧ ¬ (q = p ∧ a = ptr) := by
  by_cases hmem : ptr ∈ (s.procs p).allocations
  · rw [processFree_of_mem hmem]
    by_cases hq : q = p
    · subst hq
      simp only [ProcState.setProc_self, processAllocationUnjoin, mem_clear ha]
      tauto
    · rw [ProcState.setProc_of_ne _ _ hq]
      tauto
  · rw [processFree_of_not_mem hmem]
    refine ⟨fun h => ⟨h, ?_⟩, fun h => h.1⟩
    rintro ⟨rfl, rfl⟩
    exact hmem h

/-- `process_malloc` adds exactly the pointer it returns. -/
theorem mem_allocations_processMalloc {p size q a : UInt32} {s : ProcState} (ha : a ≠ 0) :
    a ∈ ((processMalloc p size s).2.procs q).allocations ↔
      a ∈ (s.procs q).allocations ∨ (q = p ∧ a = (processMalloc p size s).1) := by
  rcases processMalloc_cases p size s with ⟨h0, hs, -⟩ | ⟨i, -, hi, hs⟩
  · rw [hs, h0]
    simp [ha]
  · rw [hs]
    by_cases hq : q = p
    · subst hq
      simp only [ProcState.setProc_self, Process.setAllocation, mem_fill hi ha]
      tauto
    · rw [ProcState.setProc_of_ne _ _ hq]
      simp [hq]

theorem OwnStep.inv {st st' : OwnState} (hs : OwnStep st st') (h : OwnInv st) : OwnInv st' := by
  intro q a
  cases hs with
  | malloc p size =>
      by_cases ha : a = 0
      · subst ha
        by_cases hq : q = p
        · subst hq; simp [h q 0]
        · simp [Function.update_of_ne hq, h q 0]
      · rw [mem_allocations_processMalloc ha]
        by_cases hq : q = p
        · subst hq; simp [h q a, ha]
        · simp [h q a, hq]
  | free p ptr =>
      by_cases ha : a = 0
      · subst ha
        by_cases hq : q = p
        · subst hq; simp [h q 0]
        · simp [Function.update_of_ne hq, h q 0]
      · rw [mem_allocations_processFree ha]
        by_cases hq : q = p
        · subst hq; simp [h q a, ha]
        · simp [h q a, hq]
  | other k => exact h q a

/-- In every reachable state the arrays hold what the processes own. -/
theorem OwnReach.inv {st : OwnState} (h : OwnReach st) : OwnInv st := by
  obtain ⟨st₀, h₀, hr⟩ := h
  induction hr with
  | refl => exact h₀.inv
  | tail _ hs ih => exact hs.inv ih

/-! ### Freeing null -/

/-- The freeing loop leaves a cleared byte cleared. -/
theorem heapMarkFreeLoop_of_zero (t : HeapTable) {x : UInt32} :
    ∀ (left : ℕ) (i : ℤ) (m : Mem), m x = 0 → heapMarkFreeLoop t left i m x = 0
  | 0, _, _, h => h
  | left + 1, i, m, h => by
      have hw : (m.write (t.entryAddr i) heapBlockTableEntryFree) x = 0 := by
        unfold Mem.write
        split_ifs
        · rfl
        · exact h
      simp only [heapMarkFreeLoop]
      split_ifs
      · exact hw
      · exact heapMarkFreeLoop_of_zero t left (i + 1) _ hw

/-- Null is taken for block -4096, whose entry is the byte at `0x6e00`: the loop starts by
clearing it and stops there unless it carries `HAS_NEXT`. -/
theorem heapFree_null (m : Mem) : heapFree kernelHeap 0 m =
    let m' := m.write 0x6e00 heapBlockTableEntryFree
    if m 0x6e00 &&& heapBlockHasNext = 0 then m'
    else heapMarkFreeLoop kernelHeap.table 29695 (-4095) m' := by
  have hblock : heapAddressToBlock kernelHeap 0 = -4096 := by decide
  have haddr : kernelHeap.table.entryAddr (-4096) = 0x6e00 := by decide
  have hcount : (i32 kernelHeap.table.total.toNat - -4096).toNat = 29695 + 1 := by decide
  unfold heapFree heapMarkBlocksFree
  rw [hblock, hcount, heapMarkFreeLoop_succ, haddr]
  rfl

theorem heapFree_null_eq_self_iff (m : Mem) : heapFree kernelHeap 0 m = m ↔ m 0x6e00 = 0 := by
  rw [heapFree_null]
  constructor
  · intro h
    rw [← h]
    dsimp only
    split_ifs
    · exact Mem.write_same _ _ _
    · exact heapMarkFreeLoop_of_zero _ _ _ _ (Mem.write_same _ _ _)
  · intro h
    rw [h]
    dsimp only
    rw [if_pos (by decide)]
    exact (Mem.write_eq_self_iff _ _ _).mpr h

/-- Unjoining null changes no slot. -/
theorem setProc_unjoin_null (s : ProcState) (p : UInt32) :
    s.setProc p (processAllocationUnjoin (s.procs p) 0) = s := by
  have hproc : processAllocationUnjoin (s.procs p) 0 = s.procs p := by
    unfold processAllocationUnjoin
    simp only [clear_eq_self (Or.inl rfl)]
  rw [hproc]
  unfold ProcState.setProc
  rw [Function.update_eq_self]

/-- `process_free` of null, for a process with an empty slot, is `kfree` of null. -/
theorem processFree_null {p : UInt32} {s : ProcState} (h : 0 ∈ (s.procs p).allocations) :
    processFree p 0 s = { s with kernel := kfree 0 s.kernel } := by
  rw [processFree_of_mem h, setProc_unjoin_null]

/-- **Free confinement.**  In every reachable state, a `free` of a pointer the process does
not own leaves the whole state unchanged, exactly when the pointer is not null, or no slot
of the array is empty, or the byte 4096 below the block table is zero already. -/
theorem processFree_confined_iff {st : OwnState} (hreach : OwnReach st) {p ptr : UInt32}
    (hnot : ptr ∉ st.owned p) :
    processFree p ptr st.state = st.state ↔
      ptr ≠ 0 ∨ 0 ∉ (st.state.procs p).allocations ∨ st.state.kernel.mem 0x6e00 = 0 := by
  have hinv := hreach.inv
  by_cases hptr : ptr = 0
  · subst hptr
    by_cases hmem : 0 ∈ (st.state.procs p).allocations
    · rw [processFree_null hmem]
      simp only [ne_eq, not_true_eq_false, hmem, false_or]
      rw [← heapFree_null_eq_self_iff]
      constructor
      · intro h
        exact congrArg (fun s : ProcState => s.kernel.mem) h
      · intro h
        unfold kfree
        rw [h]
    · exact iff_of_true (processFree_of_not_mem hmem) (Or.inr (Or.inl hmem))
  · refine iff_of_true (processFree_of_not_mem fun hmem => hnot ?_) (Or.inl hptr)
    exact (hinv p ptr).mpr ⟨hptr, hmem⟩

/-- No process has allocated anything, and the byte at `0x6e00` is not zero. -/
def strayByteState : OwnState :=
  ⟨⟨⟨fun x => if x = 0x6e00 then 1 else 0, false⟩, fun _ => processInit⟩, fun _ => ∅⟩

theorem strayByteState_reach : OwnReach strayByteState :=
  ⟨strayByteState, ⟨fun _ => rfl, fun _ => rfl⟩, .refl⟩

/-- Null is freed by a process that owns nothing, and memory changes. -/
theorem processFree_null_changes :
    OwnReach strayByteState ∧ (0 : UInt32) ∉ strayByteState.owned 1 ∧
      processFree 1 0 strayByteState.state ≠ strayByteState.state := by
  have hslot : (0 : UInt32) ∈ (strayByteState.state.procs 1).allocations :=
    List.mem_replicate.mpr ⟨by decide, rfl⟩
  refine ⟨strayByteState_reach, fun h => h, fun h => ?_⟩
  rw [processFree_null hslot] at h
  have hmem : heapFree kernelHeap 0 strayByteState.state.kernel.mem =
      strayByteState.state.kernel.mem := congrArg (fun s : ProcState => s.kernel.mem) h
  have hzero := (heapFree_null_eq_self_iff _).mp hmem
  exact absurd hzero (by decide)

/-- A process frees the pointer 5, which it was never given. -/
theorem processFree_confined_five :
    processFree 1 5 strayByteState.state = strayByteState.state :=
  (processFree_confined_iff strayByteState_reach fun h => h).mpr (Or.inl (by decide))

/-! ### Bookkeeping -/

/-- The state and the live heap allocations. -/
structure BookState where
  state : ProcState
  live : Layout UInt32

/-- One system call: a `malloc` that fits, or a `free` of any pointer but null. -/
inductive BookStep : BookState → BookState → Prop
  | malloc (st : BookState) (p size : UInt32) (h1 : 1 ≤ size.toNat) (h2 : size.toNat ≤ 0xFFFFF000)
      (hfit : FreeRun kernelHeap st.state.kernel.mem (blocksFor size)) :
      BookStep st ⟨(processMalloc p size st.state).2,
        assign st.live (kzalloc size st.state.kernel).1
          (extentAt kernelHeap (kzalloc size st.state.kernel).1 size h1)⟩
  | free (st : BookState) (p ptr : UInt32) (hptr : ptr ≠ 0) :
      BookStep st ⟨processFree p ptr st.state,
        if ptr ∈ (st.state.procs p).allocations then release st.live ptr else st.live⟩

abbrev BookRun : BookState → BookState → Prop := Relation.ReflTransGen BookStep

/-- Every recorded pointer starts a live allocation, and it is recorded once. -/
structure Booked (s : ProcState) (live : Layout UInt32) : Prop where
  live : ∀ p (i : ℕ) a, a ≠ 0 → (s.procs p).allocations[i]? = some a → ∃ e, live a = some e
  once : ∀ p q (i j : ℕ) a, a ≠ 0 → (s.procs p).allocations[i]? = some a →
    (s.procs q).allocations[j]? = some a → p = q ∧ i = j

/-- `process_free` of the recorded pointer `ptr` clears its slot, frees its extent, and
leaves every other slot, every other extent and every other byte as it was. -/
structure FreesOwn (s : ProcState) (live : Layout UInt32) (p ptr : UInt32) (i : ℕ) (e : Extent) :
    Prop where
  slot : (s.procs p).allocations[i]? = some ptr
  extent : live ptr = some e
  cleared : ((processFree p ptr s).procs p).allocations = (s.procs p).allocations.set i 0
  others : ∀ q, q ≠ p → (processFree p ptr s).procs q = s.procs q
  heap : HeapInv kernelHeap (processFree p ptr s).kernel.mem (release live ptr)
  freed : ∀ b, e.Has b →
    kernelHeap.entry (processFree p ptr s).kernel.mem b = heapBlockTableEntryFree
  frame : ∀ x, (∀ b, e.Has b → x ≠ off 0x7e00 b) →
    (processFree p ptr s).kernel.mem x = s.kernel.mem x
  kept : ∀ q (j : ℕ) a, a ≠ 0 → ((processFree p ptr s).procs q).allocations[j]? = some a →
    (s.procs q).allocations[j]? = some a ∧ release live ptr a = live a

/-- The invariant of a bookkeeping run. -/
structure BookInv (st : BookState) : Prop where
  heap : HeapInv kernelHeap st.state.kernel.mem st.live
  booked : Booked st.state st.live

variable {st st' : BookState}

theorem BookInv.freesOwn (h : BookInv st) {p ptr : UInt32} (hptr : ptr ≠ 0)
    (hmem : ptr ∈ (st.state.procs p).allocations) :
    ∃ i e, FreesOwn st.state st.live p ptr i e := by
  obtain ⟨i, hi⟩ := List.mem_iff_getElem?.mp hmem
  obtain ⟨e, he⟩ := h.booked.live p i ptr hptr hi
  obtain ⟨hinv, hfreed, hframe⟩ := kfree_spec h.heap he
  have honce : ∀ j, (st.state.procs p).allocations[j]? = some ptr → j = i :=
    fun j hj => (h.booked.once p p j i ptr hptr hj hi).2
  have hfree := processFree_of_mem hmem
  refine ⟨i, e, hi, he, ?_, fun q hq => ?_, ?_, ?_, ?_, fun q j a ha haj => ?_⟩
  · rw [hfree]
    simp only [ProcState.setProc_self, processAllocationUnjoin]
    exact clear_eq_set hi honce
  · rw [hfree]
    exact ProcState.setProc_of_ne _ _ hq
  · rw [hfree]
    exact hinv
  · rw [hfree]
    exact hfreed
  · rw [hfree]
    exact hframe
  · have hkeep : a ≠ ptr ∧ (st.state.procs q).allocations[j]? = some a := by
      rw [hfree] at haj
      by_cases hq : q = p
      · subst hq
        simp only [ProcState.setProc_self, processAllocationUnjoin] at haj
        exact (getElem?_clear ha).mp haj
      · rw [ProcState.setProc_of_ne _ _ hq] at haj
        refine ⟨fun e' => hq ?_, haj⟩
        exact (h.booked.once q p j i ptr hptr (e' ▸ haj) hi).1
    exact ⟨hkeep.2, release_of_ne _ hkeep.1⟩

theorem BookStep.inv (hs : BookStep st st') (h : BookInv st) : BookInv st' := by
  cases hs with
  | malloc p size h1 h2 hfit =>
      obtain ⟨e, k', hk, -, hlen, hin, -, hnone, hinv, -, -⟩ := kzalloc_spec h.heap h1 h2 hfit
      have hpos := e.len_pos
      have he : extentAt kernelHeap (blockAddr e.start) size h1 = e := by
        have := extentAt_off kernelHeap (s := e.start) (by omega) size h1
        rw [show blockAddr e.start = off kernelHeap.saddr (4096 * e.start) from rfl, this]
        exact Extent.ext rfl hlen.symm
      -- the new address is fresh: no array holds it
      have hfresh : ∀ q (j : ℕ) a, a ≠ 0 → (st.state.procs q).allocations[j]? = some a →
          a ≠ blockAddr e.start := by
        rintro q j a ha hj rfl
        obtain ⟨f, hf⟩ := h.booked.live q j _ ha hj
        rw [hnone] at hf
        cases hf
      have hlive : ∀ q (j : ℕ) a, a ≠ 0 → (st.state.procs q).allocations[j]? = some a →
          ∃ f, assign st.live (blockAddr e.start) e a = some f := by
        intro q j a ha hj
        rw [assign_of_ne _ _ (hfresh q j a ha hj)]
        exact h.booked.live q j a ha hj
      rcases processMalloc_cases p size st.state with ⟨-, hs, -⟩ | ⟨i, -, hi, hs⟩
      · rw [hs]
        simp only [hk, he]
        exact ⟨hinv, ⟨hlive, h.booked.once⟩⟩
      · rw [hs]
        simp only [hk, he]
        -- a slot holds the new address exactly if it is slot `i` of `p`
        have hslot : ∀ q (j : ℕ) a, a ≠ 0 →
            ((({ st.state with kernel := k' } : ProcState).setProc p
              ((st.state.procs p).setAllocation i (blockAddr e.start))).procs q).allocations[j]? =
                some a →
            (q = p ∧ j = i ∧ a = blockAddr e.start) ∨
              (st.state.procs q).allocations[j]? = some a := by
          intro q j a ha hj
          by_cases hq : q = p
          · subst hq
            rw [ProcState.setProc_self] at hj
            rcases (getElem?_fill hi ha).mp hj with ⟨rfl, rfl⟩ | hold
            · exact Or.inl ⟨rfl, rfl, rfl⟩
            · exact Or.inr hold
          · rw [ProcState.setProc_of_ne _ _ hq] at hj
            exact Or.inr hj
        refine ⟨hinv, ⟨fun q j a ha hj => ?_, fun q r j l a ha hj hl => ?_⟩⟩
        · rcases hslot q j a ha hj with ⟨-, -, rfl⟩ | hold
          · exact ⟨e, assign_self _ _ _⟩
          · exact hlive q j a ha hold
        · rcases hslot q j a ha hj with ⟨hq, hji, hae⟩ | holdj <;>
            rcases hslot r l a ha hl with ⟨hr, hli, hae'⟩ | holdl
          · exact ⟨hq.trans hr.symm, hji.trans hli.symm⟩
          · exact absurd hae (hfresh r l a ha holdl)
          · exact absurd hae' (hfresh q j a ha holdj)
          · exact h.booked.once q r j l a ha holdj holdl
  | free p ptr hptr =>
      by_cases hmem : ptr ∈ (st.state.procs p).allocations
      · obtain ⟨i, e, hf⟩ := h.freesOwn hptr hmem
        rw [if_pos hmem]
        refine ⟨hf.heap, ⟨fun q j a ha hj => ?_, fun q r j l a ha hj hl => ?_⟩⟩
        · obtain ⟨hold, hlive⟩ := hf.kept q j a ha hj
          obtain ⟨f, hlf⟩ := h.booked.live q j a ha hold
          exact ⟨f, hlive.trans hlf⟩
        · exact h.booked.once q r j l a ha (hf.kept q j a ha hj).1 (hf.kept r l a ha hl).1
      · rw [if_neg hmem, processFree_of_not_mem hmem]
        exact h

theorem BookRun.inv (hr : BookRun st st') (h : BookInv st) : BookInv st' := by
  induction hr with
  | refl => exact h
  | tail _ hs ih => exact hs.inv ih

/-- Empty arrays over a well-formed kernel heap. -/
theorem bookInv_init {s : ProcState} {live : Layout UInt32}
    (hheap : HeapInv kernelHeap s.kernel.mem live)
    (hempty : ∀ p, (s.procs p).allocations = processInit.allocations) : BookInv ⟨s, live⟩ := by
  have hnone : ∀ p (i : ℕ) a, a ≠ 0 → (s.procs p).allocations[i]? ≠ some a := by
    intro p i a ha hi
    rw [hempty p] at hi
    exact ha (List.eq_of_mem_replicate (List.mem_of_getElem? hi))
  exact ⟨hheap, ⟨fun p i a ha hi => absurd hi (hnone p i a ha),
    fun p _ i _ a ha hi _ => absurd hi (hnone p i a ha)⟩⟩

/-- **Process allocation bookkeeping.**  From empty arrays over a well-formed kernel heap, in
every state reached: recorded pointers are live and recorded once; a `free` of any other
non-null pointer changes nothing; a `free` of a recorded one clears and frees exactly it. -/
theorem process_bookkeeping {s : ProcState} {live : Layout UInt32}
    (hheap : HeapInv kernelHeap s.kernel.mem live)
    (hempty : ∀ p, (s.procs p).allocations = processInit.allocations)
    (hrun : BookRun ⟨s, live⟩ st) :
    Booked st.state st.live ∧
      (∀ p ptr, ptr ≠ 0 → ptr ∉ (st.state.procs p).allocations →
        processFree p ptr st.state = st.state) ∧
      ∀ p ptr, ptr ≠ 0 → ptr ∈ (st.state.procs p).allocations →
        ∃ i e, FreesOwn st.state st.live p ptr i e := by
  have hinv := hrun.inv (bookInv_init hheap hempty)
  exact ⟨hinv.booked, fun p ptr _ hmem => processFree_of_not_mem hmem,
    fun p ptr hptr hmem => hinv.freesOwn hptr hmem⟩

/-- A fresh kernel, and processes that hold nothing. -/
def freshProcState : ProcState := ⟨freshKernel, fun _ => processInit⟩

/-- One process allocates 100 bytes and frees a pointer it does not hold. -/
theorem process_bookkeeping_two_calls :
    ∃ st, BookRun ⟨freshProcState, Extents.empty⟩ st ∧ Booked st.state st.live := by
  have hfit : FreeRun kernelHeap freshProcState.kernel.mem (blocksFor 100) :=
    ⟨0, by decide, fun k hk => by
      have h1 : blocksFor 100 = 1 := by decide
      exact freshKernel_topFree.free _ (by omega) (by omega)⟩
  have hrun : BookRun ⟨freshProcState, Extents.empty⟩ _ :=
    (Relation.ReflTransGen.single (.malloc _ 1 100 (by decide) (by decide) hfit)).tail
      (.free _ 2 4096 (by decide))
  exact ⟨_, hrun, (process_bookkeeping (kheapInit_inv fun _ => 0) (fun _ => rfl) hrun).1⟩

end PeachOS
