import PeachOS.MallocFailure
import PeachOS.ProcessRuns

/-! # What user allocations leave alone

A block is held when it belongs to a live allocation whose address no process has in its array:
the blocks of the kernel itself, of page tables and of program images.  `userCalls_held` is about
any interleaving of `process_malloc` with any size and `process_free` of any pointer, by any
number of processes: held blocks stay held and keep their contents, but for the structures of the
processes, which lie in such blocks and which the calls write.

Two calls are left out.  A request that fits nowhere while the last block of the heap is free
takes too few blocks, and marks entries behind the block table; and null, which is found in every
empty slot, clears the byte at `0x6e00` and goes on from there if that byte says so. -/

namespace PeachOS

open ByteMemory Extents

/-! ### Held blocks -/

/-- The blocks `K` belong to allocations that no process can free. -/
def Held (K : Set ℕ) (s : ProcState) (live : Layout UInt32) : Prop :=
  ∀ b ∈ K, ∃ a e, live a = some e ∧ e.Has b ∧ ∀ p, a ∉ (s.procs p).allocations

/-- The bookkeeping, the held blocks, and the byte that stands for the entry of null. -/
structure HeldInv (K : Set ℕ) (s : ProcState) (live : Layout UInt32) : Prop where
  book : BookInv ⟨s, live⟩
  held : Held K s live
  stray : s.kernel.mem 0x6e00 &&& heapBlockHasNext = 0

/-- A byte of the blocks `K`. -/
def InBlocks (K : Set ℕ) (x : UInt32) : Prop := ∃ b ∈ K, InBlock b x

theorem InBlocks.mono {K L : Set ℕ} {x : UInt32} (h : InBlocks K x) (hsub : K ⊆ L) :
    InBlocks L x := by
  obtain ⟨b, hb, hx⟩ := h
  exact ⟨b, hsub hb, hx⟩

/-- The request fits, or the last block of the heap is taken. -/
def Served (size : UInt32) (m : Mem) : Prop :=
  Roundable size ∧ FreeRun kernelHeap m (blocksFor size) ∨ ¬ TailFree kernelHeap m

variable {K : Set ℕ} {s s' : ProcState} {live : Layout UInt32} {m : Mem} {size p ptr : UInt32}

theorem HeldInv.heap (h : HeldInv K s live) : HeapInv kernelHeap s.kernel.mem live := h.book.heap

theorem Held.lt (hinv : HeapInv kernelHeap m live) (h : Held K s live) {b : ℕ} (hb : b ∈ K) :
    b < 25600 := by
  obtain ⟨a, e, he, ⟨-, hend⟩, -⟩ := h b hb
  have hin := hinv.encodes.packed.inside a e he
  rw [kernelHeap_total] at hin
  omega

/-- A free block is not held. -/
theorem Held.not_free (hinv : HeapInv kernelHeap m live) (h : Held K s live) {b : ℕ}
    (hb : b ∈ K) : ¬ EntryFree kernelHeap m b := by
  obtain ⟨a, e, he, hhas, -⟩ := h b hb
  exact fun hfree => hinv.uncovered hfree a e he hhas

/-- A taken block belongs to a live allocation. -/
theorem HeapInv.covered (hinv : HeapInv kernelHeap m live) {b : ℕ} (hb : b < 25600)
    (htaken : ¬ EntryFree kernelHeap m b) : ∃ a e, live a = some e ∧ e.Has b := by
  by_contra hnot
  refine htaken ?_
  have hfree := hinv.encodes.free b hb fun a e he hhas => hnot ⟨a, e, he, hhas⟩
  unfold EntryFree
  rw [hfree]
  decide

/-- Memory may change outside the block table and the byte of null. -/
theorem HeldInv.congr (h : HeldInv K s live) {k : Kernel}
    (hsame : ∀ x, InTable x ∨ x = 0x6e00 → k.mem x = s.kernel.mem x) :
    HeldInv K { s with kernel := k } live where
  book := ⟨h.book.heap.congr fun i hi => hsame _ (Or.inl (inRange_off hi)),
    ⟨h.book.booked.live, h.book.booked.once⟩⟩
  held := h.held
  stray := by
    change k.mem 0x6e00 &&& _ = _
    rw [hsame _ (Or.inr rfl)]
    exact h.stray

/-! ### The two calls -/

/-- A request that does not fit, with the last block taken, leaves no trace. -/
theorem kzalloc_unserved {k : Kernel} (hfit : ¬ (Roundable size ∧
      FreeRun kernelHeap k.mem (blocksFor size))) (htail : ¬ TailFree kernelHeap k.mem) :
    kzalloc size k = (0, ⟨k.mem, true⟩) := by
  have htotal : kernelHeap.table.total.toNat ≤ 2147483648 := by rw [kernelHeap_total]; omega
  have hunfit : Unfit kernelHeap k.mem (requestedBlocks size) := by
    by_cases hsize : Roundable size
    · right
      rw [requestedBlocks_of_roundable hsize]
      exact fun hrun => hfit ⟨hsize, hrun⟩
    · exact Or.inl (requestedBlocks_of_not_roundable hsize)
  refine kzalloc_of_null ?_
  exact heapMallocBlocks_unfit_of_not_tailFree htotal hunfit htail

theorem not_inTable_null : ¬ InTable 0x6e00 := by
  rw [inTable_iff, show (0x6e00 : UInt32).toNat = 28160 from rfl]
  omega

theorem freshKernel_null : freshKernel.mem 0x6e00 = 0 := by
  unfold freshKernel
  rw [kheapInit_eq]
  dsimp only
  rw [Mem.fill_apply, if_neg (show ¬ InRange 0x7e00 25600 0x6e00 from not_inTable_null)]

theorem InBlock.ne_null {b : ℕ} {x : UInt32} (hb : b < 25600) (hx : InBlock b x) :
    x ≠ 0x6e00 := by
  rintro rfl
  rw [inBlock_iff hb, show (0x6e00 : UInt32).toNat = 28160 from rfl] at hx
  omega

/-- Null is not the address of a live allocation. -/
theorem HeldInv.address_ne_zero (h : HeldInv K s live) {a : UInt32} {e : Extent}
    (he : live a = some e) : a ≠ 0 := by
  have hin := h.heap.encodes.packed.inside a e he
  have hpos := e.len_pos
  rw [kernelHeap_total] at hin
  rw [h.heap.address a e he]
  exact blockAddr_ne_zero (b := e.start) (by omega)

/-- The memory that `process_malloc` leaves is that of `kzalloc`. -/
theorem processMalloc_kernel (p size : UInt32) (s : ProcState) :
    (processMalloc p size s).2.kernel = (kzalloc size s.kernel).2 := by
  rcases processMalloc_cases p size s with ⟨-, hs, -⟩ | ⟨i, -, -, hs⟩
  · rw [hs]
  · rw [hs]
    rfl

/-- `process_malloc` changes no byte outside the block table and the heap. -/
theorem HeldInv.malloc_frame (h : HeldInv K s live) (p : UInt32)
    (hserved : Served size s.kernel.mem) {x : UInt32} (htable : ¬ InTable x)
    (hheap : ∀ b < 25600, ¬ InBlock b x) :
    (processMalloc p size s).2.kernel.mem x = s.kernel.mem x := by
  rw [processMalloc_kernel]
  by_cases hfit : Roundable size ∧ FreeRun kernelHeap s.kernel.mem (blocksFor size)
  · obtain ⟨⟨h1, h2⟩, hfit⟩ := hfit
    obtain ⟨e, k', hk, -, -, hin, -, -, -, -, hframe⟩ := kzalloc_spec h.heap h1 h2 hfit
    rw [hk]
    refine hframe x htable ?_
    rintro ⟨b, ⟨-, hb⟩, hx⟩
    exact hheap b (by omega) hx
  · rw [kzalloc_unserved hfit (hserved.resolve_left hfit)]

/-- `process_malloc` leaves held blocks alone. -/
theorem HeldInv.malloc (h : HeldInv K s live) (p : UInt32) (hserved : Served size s.kernel.mem) :
    ∃ live', HeldInv K (processMalloc p size s).2 live' ∧
      SameOn (InBlocks K) s.kernel.mem (processMalloc p size s).2.kernel.mem := by
  have hstray : (processMalloc p size s).2.kernel.mem 0x6e00 = s.kernel.mem 0x6e00 :=
    h.malloc_frame p hserved not_inTable_null fun b hb hx => hx.ne_null hb rfl
  by_cases hfit : Roundable size ∧ FreeRun kernelHeap s.kernel.mem (blocksFor size)
  · obtain ⟨⟨h1, h2⟩, hfit⟩ := hfit
    have hbook := (BookStep.malloc ⟨s, live⟩ p size h1 h2 hfit).inv h.book
    obtain ⟨e, k', hk, -, hlen, hin, hfirst, hnone, -, -, hframe⟩ := kzalloc_spec h.heap h1 h2 hfit
    have hnew : (processMalloc p size s).1 ≠ 0 →
        (processMalloc p size s).1 = blockAddr e.start := by
      rcases processMalloc_cases p size s with ⟨hnull, -, -⟩ | ⟨i, -, -, hs⟩
      · exact fun hne => absurd hnull hne
      · rw [hs, hk]
        exact fun _ => rfl
    have hcovered : ∀ b ∈ K, ¬ e.Has b := by
      intro b hb hhas
      obtain ⟨i, hi, rfl⟩ := hhas.exists_add
      exact h.held.not_free h.heap hb (hfirst.run i (by omega))
    refine ⟨_, ⟨hbook, fun b hb => ?_, by rw [hstray]; exact h.stray⟩, ?_⟩
    · obtain ⟨a, f, hf, hhas, hfree⟩ := h.held b hb
      have ha : a ≠ blockAddr e.start := fun ea => by rw [ea, hnone] at hf; cases hf
      have ha0 := h.address_ne_zero hf
      refine ⟨a, f, ?_, hhas, fun q hq => ?_⟩
      · dsimp only
        rw [hk, assign_of_ne _ _ ha]
        exact hf
      · rcases (mem_allocations_processMalloc ha0).mp hq with hold | ⟨-, rfl⟩
        · exact hfree q hold
        · exact ha (hnew ha0)
    · rintro x ⟨b, hb, hx⟩
      have hlt := h.held.lt h.heap hb
      rw [processMalloc_kernel, hk]
      refine hframe x (hx.not_inTable hlt) ?_
      rintro ⟨c, hc, hxc⟩
      have hclt : c < 25600 := by
        obtain ⟨-, hend⟩ := hc
        omega
      exact hcovered b hb (InBlock.unique hlt hclt hx hxc ▸ hc)
  · have hk := kzalloc_unserved hfit (hserved.resolve_left hfit)
    rcases processMalloc_cases p size s with ⟨-, hs, -⟩ | ⟨i, hne, -, -⟩
    · rw [hs, hk]
      exact ⟨live, h.congr fun _ _ => rfl, SameOn.refl _ _⟩
    · rw [hk] at hne
      exact absurd rfl hne

/-- `process_free` of null clears the byte at `0x6e00`. -/
theorem HeldInv.kfree_null (h : HeldInv K s live) :
    (kfree 0 s.kernel).mem = s.kernel.mem.write 0x6e00 heapBlockTableEntryFree := by
  change heapFree kernelHeap 0 s.kernel.mem = _
  rw [heapFree_null]
  exact if_pos h.stray

/-- `process_free` changes the block table and the byte of null. -/
theorem HeldInv.free_frame (h : HeldInv K s live) (p ptr : UInt32) {x : UInt32}
    (htable : ¬ InTable x) (hnull : x ≠ 0x6e00 ∨ ptr ≠ 0) :
    (processFree p ptr s).kernel.mem x = s.kernel.mem x := by
  by_cases hmem : ptr ∈ (s.procs p).allocations
  swap
  · rw [processFree_of_not_mem hmem]
  by_cases hptr : ptr = 0
  · subst hptr
    rw [processFree_null hmem]
    change (kfree 0 s.kernel).mem x = _
    rw [h.kfree_null, Mem.write_ne _ _ (hnull.resolve_right fun hne => hne rfl)]
  · obtain ⟨i, e, hf⟩ := h.book.freesOwn hptr hmem
    refine hf.frame x ?_
    rintro b ⟨-, hend⟩ hxb
    have hin := h.heap.encodes.packed.inside ptr e hf.extent
    rw [kernelHeap_total] at hin
    have hb : b < 25600 := by omega
    exact htable (hxb ▸ inRange_off hb)

/-- `process_free` leaves held blocks alone. -/
theorem HeldInv.free (h : HeldInv K s live) (p ptr : UInt32) :
    ∃ live', HeldInv K (processFree p ptr s) live' ∧
      SameOn (InBlocks K) s.kernel.mem (processFree p ptr s).kernel.mem := by
  have hsame : SameOn (InBlocks K) s.kernel.mem (processFree p ptr s).kernel.mem := by
    rintro x ⟨b, hb, hx⟩
    have hlt := h.held.lt h.heap hb
    exact h.free_frame p ptr (hx.not_inTable hlt) (Or.inl (hx.ne_null hlt))
  by_cases hmem : ptr ∈ (s.procs p).allocations
  swap
  · rw [processFree_of_not_mem hmem]
    exact ⟨live, h, SameOn.refl _ _⟩
  by_cases hptr : ptr = 0
  · -- the byte of null is cleared, and the loop ends there
    subst hptr
    refine ⟨live, ?_, hsame⟩
    rw [processFree_null hmem]
    refine ⟨⟨h.heap.congr fun i hi => ?_, ⟨h.book.booked.live, h.book.booked.once⟩⟩, h.held, ?_⟩
    · change (kfree 0 s.kernel).mem _ = _
      rw [h.kfree_null]
      refine Mem.write_ne _ _ fun e => not_inTable_null (e ▸ inRange_off ?_)
      rwa [kernelHeap_total] at hi
    · change (kfree 0 s.kernel).mem _ &&& _ = _
      rw [h.kfree_null, Mem.write_same]
      rfl
  · obtain ⟨i, e, hf⟩ := h.book.freesOwn hptr hmem
    have hbook := (BookStep.free ⟨s, live⟩ p ptr hptr).inv h.book
    rw [if_pos hmem] at hbook
    refine ⟨_, ⟨hbook, fun b hb => ?_, ?_⟩, hsame⟩
    · obtain ⟨a, f, he, hhas, hfree⟩ := h.held b hb
      have hne : a ≠ ptr := fun ea => hfree p (ea ▸ hmem)
      refine ⟨a, f, (release_of_ne _ hne).trans he, hhas, fun q hq => hfree q ?_⟩
      exact ((mem_allocations_processFree (h.address_ne_zero he)).mp hq).1
    · rw [h.free_frame p ptr not_inTable_null (Or.inr hptr)]
      exact h.stray

/-! ### Runs -/

/-- `sizeof(struct process)`. -/
def sizeofProcess : ℕ := 5260

/-- A byte of the process structures at `P`. -/
def InStructures (P : Set UInt32) (x : UInt32) : Prop := ∃ p ∈ P, InRange p sizeofProcess x

/-- A call of a process whose structure is one of `P`.  What the structures hold in memory is not
followed, and may change in any way. -/
inductive UserCall (P : Set UInt32) : ProcState → ProcState → Prop
  | malloc {s : ProcState} (p size : UInt32) (hp : p ∈ P) (h : Served size s.kernel.mem) :
      UserCall P s (processMalloc p size s).2
  | free {s : ProcState} (p ptr : UInt32) (hp : p ∈ P) : UserCall P s (processFree p ptr s)
  | structures {s : ProcState} {m : Mem} (h : ∀ x, ¬ InStructures P x → m x = s.kernel.mem x) :
      UserCall P s { s with kernel := { s.kernel with mem := m } }

variable {P : Set UInt32}

theorem Held.not_inTable (hinv : HeapInv kernelHeap m live) (h : Held K s live) {x : UInt32}
    (hx : InBlocks K x) : ¬ InTable x ∧ x ≠ 0x6e00 := by
  obtain ⟨b, hb, hxb⟩ := hx
  have hlt := h.lt hinv hb
  exact ⟨hxb.not_inTable hlt, hxb.ne_null hlt⟩

theorem HeldInv.call (h : HeldInv K s live) (hP : ∀ x, InStructures P x → InBlocks K x)
    (hc : UserCall P s s') : ∃ live', HeldInv K s' live' ∧
      SameOn (fun x => InBlocks K x ∧ ¬ InStructures P x) s.kernel.mem s'.kernel.mem := by
  cases hc with
  | malloc p size _ hserved =>
      obtain ⟨live', h', hsame⟩ := h.malloc p hserved
      exact ⟨live', h', fun x hx => hsame x hx.1⟩
  | free p ptr _ =>
      obtain ⟨live', h', hsame⟩ := h.free p ptr
      exact ⟨live', h', fun x hx => hsame x hx.1⟩
  | structures hsame =>
      refine ⟨live, h.congr fun x hx => hsame x fun hin => ?_, fun x hx => hsame x hx.2⟩
      obtain ⟨htable, hnull⟩ := h.held.not_inTable h.heap (hP x hin)
      exact hx.elim htable hnull

/-- **Held blocks keep their contents** over every run of `malloc` and `free` calls of any
processes, with any sizes and any pointers, but for the structures of these processes; they stay
allocated, and the heap stays well formed. -/
theorem userCalls_held (h : HeldInv K s live) (hP : ∀ x, InStructures P x → InBlocks K x)
    (hrun : Relation.ReflTransGen (UserCall P) s s') :
    (∃ live', HeapInv kernelHeap s'.kernel.mem live' ∧ Held K s' live') ∧
      ∀ x, InBlocks K x → ¬ InStructures P x → s'.kernel.mem x = s.kernel.mem x := by
  have hall : ∃ live', HeldInv K s' live' ∧
      SameOn (fun x => InBlocks K x ∧ ¬ InStructures P x) s.kernel.mem s'.kernel.mem := by
    induction hrun with
    | refl => exact ⟨live, h, SameOn.refl _ _⟩
    | tail _ hc ih =>
        obtain ⟨live₁, h₁, hsame₁⟩ := ih
        obtain ⟨live₂, h₂, hsame₂⟩ := h₁.call hP hc
        exact ⟨live₂, h₂, hsame₁.trans hsame₂⟩
  obtain ⟨live', h', hsame⟩ := hall
  exact ⟨⟨live', h'.heap, h'.held⟩, fun x hx hout => hsame x ⟨hx, hout⟩⟩

/-! ### A process with its structure -/

/-- A request that fits leaves the byte of null alone. -/
theorem TopFree.kzalloc_null {k : Kernel} {n : ℕ} (h : TopFree k live n) (size : UInt32)
    (h1 : 1 ≤ size.toNat) (hn : n + blocksFor size ≤ 25600) :
    (PeachOS.kzalloc size k).2.mem 0x6e00 = k.mem 0x6e00 := by
  obtain ⟨e, k', hk, -, -, hin, -, -, -, -, hframe⟩ := kzalloc_spec h.heap h1
    (by unfold blocksFor at hn; omega) ⟨n, hn, fun j hj => h.free (n + j) (by omega) (by omega)⟩
  rw [hk]
  refine hframe _ not_inTable_null ?_
  rintro ⟨b, ⟨-, hb⟩, hx⟩
  exact hx.ne_null (by omega) rfl

/-- The blocks of all live allocations. -/
def liveBlocks (live : Layout UInt32) : Set ℕ := {b | ∃ a e, live a = some e ∧ e.Has b}

/-- While the arrays of the processes are empty, everything is held. -/
theorem HeldInv.of_empty {k : Kernel} (hinv : HeapInv kernelHeap k.mem live)
    (hstray : k.mem 0x6e00 &&& heapBlockHasNext = 0) :
    HeldInv (liveBlocks live) ⟨k, fun _ => processInit⟩ live where
  book := bookInv_init hinv fun _ => rfl
  held b hb := by
    obtain ⟨a, e, he, hhas⟩ := hb
    refine ⟨a, e, he, hhas, fun p hp => ?_⟩
    have hzero : a = 0 := List.eq_of_mem_replicate hp
    have hpos := e.len_pos
    have hin := hinv.encodes.packed.inside a e he
    rw [kernelHeap_total] at hin
    rw [hinv.address a e he] at hzero
    exact blockAddr_ne_zero (b := e.start) (by omega) hzero
  stray := hstray

/-- A fresh kernel takes a structure and a page. -/
theorem exists_structure_page : ∃ (p q : UInt32) (k : Kernel) (live : Layout UInt32),
    TopFree k live 3 ∧ k.mem 0x6e00 = 0 ∧
      (∀ x, InStructures {p} x → InBlocks (liveBlocks live) x) ∧
      InBlocks (liveBlocks live) q ∧ ¬ InStructures {p} q := by
  have htwo : blocksFor 5260 = 2 := by decide
  have hone : blocksFor 4096 = 1 := by decide
  obtain ⟨p, k₁, live₁, hk₁, h₁, ⟨e, he, hlen⟩, -, -⟩ :=
    freshKernel_topFree.kzalloc 5260 (by decide) (by omega)
  obtain ⟨q, k₂, live₂, hk₂, h₂, ⟨f, hf, -⟩, hnone, hkeep⟩ := h₁.kzalloc 4096 (by decide) (by omega)
  have hnull₁ := freshKernel_topFree.kzalloc_null 5260 (by decide) (by omega)
  have hnull₂ := h₁.kzalloc_null 4096 (by decide) (by omega)
  rw [hk₁] at hnull₁
  rw [hk₂] at hnull₂
  have hstructure : ∀ x, InStructures {p} x → InExtent e x := by
    rintro x ⟨_, rfl, hx⟩
    have hin := h₁.heap.encodes.packed.inside _ e he
    rw [kernelHeap_total] at hin
    rw [h₁.heap.address _ e he] at hx
    exact inExtent_of_inRange hin (by unfold sizeofProcess; omega) hx
  have hpage : InBlock f.start q := by
    rw [show q = blockAddr f.start from h₂.heap.address q f hf]
    have hin := inRange_off (p := blockAddr f.start) (k := 0) (show 0 < 4096 by decide)
    rwa [off_zero] at hin
  have hnull : k₂.mem 0x6e00 = 0 := hnull₂.trans (hnull₁.trans freshKernel_null)
  rw [htwo, hone] at h₂
  refine ⟨p, q, k₂, live₂, h₂, hnull, fun x hx => ?_, ⟨f.start, ⟨q, f, hf, f.has_start⟩, hpage⟩,
    fun hx => ?_⟩
  · obtain ⟨b, hb, hxb⟩ := hstructure x hx
    exact ⟨b, ⟨_, e, hkeep _ e he, hb⟩, hxb⟩
  -- the page and the structure are different allocations
  · obtain ⟨b, hb, hxb⟩ := hstructure q hx
    have hin := h₂.heap.encodes.packed.inside _ e (hkeep p e he)
    have hinf := h₂.heap.encodes.packed.inside _ f hf
    have hpos := f.len_pos
    rw [kernelHeap_total] at hin hinf
    have hlt := hb.2
    obtain rfl := InBlock.unique (by omega) (by omega) hxb hpage
    refine h₂.heap.encodes.packed.apart p q e f ?_ (hkeep p e he) hf f.start hb f.has_start
    rintro rfl
    rw [he] at hnone
    cases hnone

/-- A process with an empty array gets memory while the heap has some. -/
theorem processMalloc_first {k : Kernel} {n : ℕ} (h : TopFree k live n) (hn : n < 25600)
    (p : UInt32) : ∃ a s₁, processMalloc p 16 ⟨k, fun _ => processInit⟩ = (a, s₁) ∧ a ≠ 0 ∧
      a ∈ (s₁.procs p).allocations ∧ Served 16 k.mem := by
  have hone : blocksFor 16 = 1 := by decide
  have hfit : FreeRun kernelHeap k.mem (blocksFor 16) :=
    ⟨n, by rw [kernelHeap_total]; omega, fun j hj => h.free (n + j) (by omega) (by omega)⟩
  obtain ⟨a, k₁, live₁, hk₁, h₁, halloc, -, -⟩ := h.kzalloc 16 (by decide) (by omega)
  have hne : a ≠ 0 := h₁.heap.allocated_ne_zero halloc
  have hmalloc : (processMalloc p 16 ⟨k, fun _ => processInit⟩).1 = a := by
    rcases processMalloc_cases p 16 ⟨k, fun _ => processInit⟩ with
      ⟨-, -, hnull | hfull⟩ | ⟨i, -, -, hs⟩
    · rw [hk₁] at hnull
      exact absurd hnull hne
    · exact absurd (List.mem_replicate.mpr ⟨by decide, rfl⟩) hfull
    · rw [hs, hk₁]
  exact ⟨a, _, Prod.ext hmalloc rfl, hne,
    (mem_allocations_processMalloc hne).mpr (Or.inr ⟨rfl, hmalloc.symm⟩),
    Or.inl ⟨⟨by decide, by decide⟩, hfit⟩⟩

/-- The kernel takes a structure and a page; the process gets memory and frees it. -/
theorem userCalls_held_freed : ∃ (K : Set ℕ) (p q a : UInt32) (s s₁ : ProcState),
    processMalloc p 16 s = (a, s₁) ∧ a ≠ 0 ∧ a ∈ (s₁.procs p).allocations ∧
      Relation.ReflTransGen (UserCall {p}) s (processFree p a s₁) ∧
      InBlocks K q ∧ ¬ InStructures {p} q ∧
      ∀ x, InBlocks K x → ¬ InStructures {p} x →
        (processFree p a s₁).kernel.mem x = s.kernel.mem x := by
  obtain ⟨p, q, k, live, h, hnull, hP, hpage, hq⟩ := exists_structure_page
  obtain ⟨s, hs⟩ : ∃ s : ProcState, s = ⟨k, fun _ => processInit⟩ := ⟨_, rfl⟩
  obtain ⟨a, s₁, hmalloc, hne, hmem, hserved⟩ := processMalloc_first h (by decide) p
  have hheld : HeldInv (liveBlocks live) s live := by
    rw [hs]
    exact HeldInv.of_empty h.heap (by rw [hnull]; rfl)
  rw [← hs] at hmalloc
  have hrun : Relation.ReflTransGen (UserCall {p}) s (processFree p a s₁) := by
    have hfirst := UserCall.malloc (s := s) p 16 (Set.mem_singleton p) (by rwa [hs])
    rw [hmalloc] at hfirst
    exact (Relation.ReflTransGen.single hfirst).tail (UserCall.free p a (Set.mem_singleton p))
  exact ⟨liveBlocks live, p, q, a, s, s₁, hmalloc, hne, hmem, hrun, hpage, hq,
    (userCalls_held hheld hP hrun).2⟩

end PeachOS
