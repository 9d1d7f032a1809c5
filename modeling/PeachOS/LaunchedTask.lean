import PeachOS.SystemRun

/-! # A task that is about to run

`TaskSpace` is the address space of a task whose directory `task_init` built and
`process_map_memory` filled: all pages are present, those that the task may write lie in allocations
of its own, and below the stack of the task and from `0x5F0000` on every page is mapped to itself.
Such a space is a confinement, so whatever the program does, it changes no other allocation, and it
keeps its address space (`TaskSpace.Launched.confined`).

An image that reaches `0x5F0000` is left out.  It would hide the stack of the kernel, which grows
down from `0x600000`, or the page directories, which the kernel reads through the directory of the
task. -/

namespace PeachOS

open ByteMemory Extents X86

/-! ### The address space -/

/-- The directory that `task_init` builds. -/
theorem taskInit_open {p : UInt32} {process : Process} {k k' : Kernel} {res : ℤ} {task : Task}
    (hinit : taskInit p process k = ((res, task), k')) (hok : k'.oom = false) :
    ∃ s : SpaceBlocks, task.pageDirectory = blockAddr s.chunk ∧ Takes k k' s.blocks ∧
      Represents k'.mem s (fun w => w ||| pageFlagsRead) ∧ OpenTables k'.mem s := by
  rcases hnew : pagingNew4gb (1 ||| 4) k with ⟨chunk, k₁⟩
  rw [taskInit_eq hnew] at hinit
  obtain ⟨hregs, hk⟩ := Prod.mk.inj hinit
  have hok' : (pagingNew4gb (1 ||| 4) k).2.oom = false := by
    rw [hnew, hk]
    exact hok
  obtain ⟨s, hchunk, htakes, hrep, hopen⟩ := pagingNew4gb_open (by decide) hok'
  rw [hnew, hk] at htakes hrep hopen
  rw [hnew] at hchunk
  have hne : chunk ≠ 0 := by
    rw [show chunk = _ from hchunk]
    exact blockAddr_ne_zero s.chunk_lt
  obtain ⟨-, hdir, -⟩ := taskInitRegisters_of_ne p process k₁.mem hne
  rw [hregs] at hdir
  exact ⟨s, hdir.trans hchunk, htakes, hrep, hopen⟩

/-- The blocks of the live allocations at the addresses `A`. -/
def blocksAt (live : Layout UInt32) (A : Set UInt32) : Set ℕ :=
  {x | ∃ a e, a ∈ A ∧ live a = some e ∧ e.Has x}

theorem not_mem_blocksAt {m : Mem} {live : Layout UInt32} {A B : Set UInt32} {x : ℕ}
    (hinv : HeapInv kernelHeap m live) (hAB : ∀ a ∈ A, a ∉ B) (hx : x ∈ blocksAt live A) :
    x ∉ blocksAt live B := by
  rintro ⟨a', e', ha', he', hhas'⟩
  obtain ⟨a, e, ha, he, hhas⟩ := hx
  refine hinv.encodes.packed.apart a a' e e' ?_ he he' x hhas hhas'
  rintro rfl
  exact hAB a ha ha'

/-- The addresses outside the stack and the image of a program. -/
def OutsideProgram (v : UInt32) : Prop := v.toNat < 0x3FB000 ∨ 0x5F0000 ≤ v.toNat

theorem outsideProgram_blockAddr {c : ℕ} (hc : c < 25600) : OutsideProgram (blockAddr c) := by
  refine Or.inr ?_
  rw [toNat_blockAddr hc]
  omega

theorem outsideProgram_kernelByte {v : UInt32} (hv : KernelByte v) : OutsideProgram v := by
  unfold KernelByte at hv
  unfold OutsideProgram
  omega

/-- The space of a task: the kernel and its allocations before the directory was built, the
allocations `own` of the program, the blocks and the map of the directory, the kernel with the new
directory, and the memory once it is filled. -/
structure TaskSpace where
  kernel : Kernel
  live : Layout UInt32
  own : Set UInt32
  space : SpaceBlocks
  map : UInt32 → UInt32
  built : Kernel
  mem : Mem
  heap : HeapInv kernelHeap kernel.mem live
  own_live : ∀ a ∈ own, ∃ e, live a = some e
  takes : Takes kernel built space.blocks
  frame : ∀ x, ¬ space.InTables x → mem x = built.mem x
  represents : Represents mem space map
  openTables : OpenTables mem space
  present : ∀ v, (viewOf .supervisor map v).isSome
  userWrite : ∀ v x, viewOf .userWrite map v = some x →
    ∃ a e, a ∈ own ∧ live a = some e ∧ InExtent e x
  selfMapped : ∀ w, PageAligned w → OutsideProgram w → SelfMapped map w

namespace TaskSpace

variable {t : TaskSpace} {s₀ : SpaceBlocks} {st st' : System}

/-- The allocations once the directory is built. -/
noncomputable def layout (t : TaskSpace) : Layout UInt32 := addBlocks t.live t.space.blocks

theorem mem_heap (t : TaskSpace) : HeapInv kernelHeap t.mem t.layout := by
  refine (t.heap.takes t.takes).1.congr fun i hi => t.frame _ ?_
  rintro ⟨j, hj, hx⟩
  rw [kernelHeap_total] at hi
  exact hx.not_inTable (t.space.table_lt j hj) (inRange_off hi)

/-- The allocations that were live keep their extents. -/
theorem layout_eq (t : TaskSpace) {a : UInt32} {e : Extent} (he : t.live a = some e) :
    t.layout a = some e :=
  (t.heap.takes t.takes).2 a e he

/-- Those of the program are what they were. -/
theorem layout_own (t : TaskSpace) {a : UInt32} (ha : a ∈ t.own) {e : Extent}
    (he : t.layout a = some e) : t.live a = some e := by
  obtain ⟨e', he'⟩ := t.own_live a ha
  rw [t.layout_eq he'] at he
  rw [he', he]

/-- The blocks of the directory belong to the kernel. -/
theorem space_held (t : TaskSpace) {x : ℕ} (hx : x ∈ t.space.blocks) :
    x ∈ blocksAt t.layout {a | a ∉ t.own} := by
  have hlt := SpaceBlocks.lt hx
  have htaken : ¬ EntryFree kernelHeap t.built.mem x := t.takes.taken hx
  obtain ⟨a, e, he, hhas⟩ := HeapInv.covered (t.heap.takes t.takes).1 hlt htaken
  refine ⟨a, e, fun ha => ?_, he, hhas⟩
  -- what the program has was taken before
  exact t.heap.uncovered (t.takes.free x hx) a e (t.layout_own ha he) hhas

/-- The directory was built away from the live allocations. -/
theorem mem_block (t : TaskSpace) {b : ℕ} {e : Extent} {a x : UInt32} (he : t.live a = some e)
    (hb : e.Has b) (hx : InBlock b x) : t.mem x = t.kernel.mem x := by
  have htaken := t.heap.taken he hb
  have hin := t.heap.encodes.packed.inside a e he
  rw [kernelHeap_total] at hin
  have hlt : b < 25600 := by have := hb.2; omega
  have hnot : b ∉ t.space.blocks := fun hs => htaken (t.takes.free b hs)
  rw [t.frame x, t.takes.same hlt htaken hx]
  rintro ⟨i, hi, hxi⟩
  obtain rfl := InBlock.unique hlt (t.space.table_lt i hi) hx hxi
  exact hnot (Or.inr (Or.inr ⟨i, hi, rfl⟩))

/-- The byte of null is outside the heap. -/
theorem mem_null (t : TaskSpace) : t.mem 0x6e00 = t.kernel.mem 0x6e00 := by
  rw [t.frame, t.takes.frame _ not_inTable_null fun b hb hx => hx.ne_null (t.takes.lt b hb) rfl]
  rintro ⟨i, hi, hx⟩
  exact hx.ne_null (t.space.table_lt i hi) rfl

theorem block_selfMapped (t : TaskSpace) {c : ℕ} (hc : c < 25600) :
    SelfMapped t.map (blockAddr c) :=
  t.selfMapped _ (pageAligned_blockAddr hc) (outsideProgram_blockAddr hc)

/-- The task is the current one under the kernel whose space is `s₀`, and nothing has been allocated
for it yet. -/
structure Ready (t : TaskSpace) (s₀ : SpaceBlocks) (st : System) : Prop where
  kernel : Represents t.kernel.mem s₀ fun w => w ||| 7
  kernelOpen : OpenTables t.kernel.mem s₀
  kernelLive : ∀ x ∈ s₀.blocks, x ∈ blocksAt t.live {a | a ∉ t.own}
  mem : st.mem = t.mem
  kernelChunk : st.kernelChunk = blockAddr s₀.chunk
  directory : st.task.pageDirectory = blockAddr t.space.chunk
  current : taskCurrent st.machine ≠ 0
  registered : st.Registered
  fresh : ∀ p, (st.machine.procs p).allocations = processInit.allocations
  stray : st.mem 0x6e00 &&& heapBlockHasNext = 0
  records : ∀ x, st.machine.InRecords x → ¬ s₀.InSpace x ∧
    ∃ a e, a ∉ t.own ∧ t.live a = some e ∧ InExtent e x

/-- Its directory is in use. -/
structure Launched (t : TaskSpace) (s₀ : SpaceBlocks) (st : System) : Prop extends
    t.Ready s₀ st where
  cr3 : st.cr3 = blockAddr t.space.directory

/-- The confinement of the program. -/
noncomputable def Ready.confinement (h : t.Ready s₀ st) : Confinement where
  kernel := s₀
  task := t.space
  map := t.map
  held := blocksAt t.layout {a | a ∉ t.own}
  image := blocksAt t.live t.own
  records := st.machine.InRecords
  spaces_held x hx := by
    rcases hx with hx | hx
    · obtain ⟨a, e, ha, he, hhas⟩ := h.kernelLive x hx
      exact ⟨a, e, ha, t.layout_eq he, hhas⟩
    · exact t.space_held hx
  image_apart x hx := by
    obtain ⟨a, e, ha, he, hhas⟩ := hx
    exact not_mem_blocksAt t.mem_heap (fun a ha hnot => hnot ha)
      ⟨a, e, ha, t.layout_eq he, hhas⟩
  records_held x hx := by
    obtain ⟨-, a, e, ha, he, b, hb, hxb⟩ := h.records x hx
    exact ⟨b, ⟨a, e, ha, t.layout_eq he, hb⟩, hxb⟩
  records_apart x hx := by
    obtain ⟨hkernel, a, e, -, he, b, hb, hxb⟩ := h.records x hx
    refine ⟨hkernel, ?_⟩
    rintro ⟨c, hc, hxc⟩
    -- the blocks of the directory were free
    have hin := t.heap.encodes.packed.inside a e he
    rw [kernelHeap_total] at hin
    have hlt := hb.2
    obtain rfl := InBlock.unique (SpaceBlocks.lt hc) (by omega) hxc hxb
    exact t.heap.taken he hb (t.takes.free c hc)
  present := t.present
  userWrite v x hx := by
    obtain ⟨a, e, ha, he, c, hc, hxc⟩ := t.userWrite v x hx
    exact ⟨c, ⟨a, e, ha, he, hc⟩, hxc⟩

/-- The kernel's blocks were taken when the directory was built, and are none of its blocks. -/
theorem Ready.kernel_block (h : t.Ready s₀ st) {x : ℕ} (hx : x ∈ s₀.blocks) :
    x ∉ t.space.blocks ∧ ∀ y, InBlock x y → st.mem y = t.kernel.mem y := by
  obtain ⟨a, e, -, he, hhas⟩ := h.kernelLive x hx
  refine ⟨fun hs => t.heap.taken he hhas (t.takes.free x hs), fun y hy => ?_⟩
  rw [h.mem]
  exact t.mem_block he hhas hy

theorem Ready.hosts (h : t.Ready s₀ st) : st.Hosts s₀ t.space t.map where
  spaces :=
    { kernel := h.kernel.congr fun _ hx => (h.kernel_block hx).2
      kernelOpen := h.kernelOpen.congr (h.kernel_block (Or.inr (Or.inl rfl))).2
      task := h.mem ▸ t.represents
      taskOpen := h.mem ▸ t.openTables
      apart := fun _ hx hx₀ => (h.kernel_block hx₀).1 hx
      seesImage := fun w hw hbyte => t.selfMapped w hw (outsideProgram_kernelByte hbyte)
      seesKernel := t.block_selfMapped s₀.chunk_lt
      seesTask := t.block_selfMapped t.space.chunk_lt }
  kernelChunk := h.kernelChunk
  pageDirectory := h.directory

/-- Nothing is allocated for the processes yet, so all live allocations are held. -/
theorem Ready.heldInv (h : t.Ready s₀ st) (K : Set ℕ)
    (hK : ∀ x ∈ K, ∃ a e, t.layout a = some e ∧ e.Has x) :
    HeldInv K st.procState t.layout where
  book := by
    have hheap : HeapInv kernelHeap st.mem t.layout := h.mem ▸ t.mem_heap
    exact bookInv_init hheap h.fresh
  held x hx := by
    obtain ⟨a, e, he, hhas⟩ := hK x hx
    refine ⟨a, e, he, hhas, fun p hp => ?_⟩
    have hzero : a = 0 := by
      have hmem : a ∈ (st.machine.procs p).allocations := hp
      rw [h.fresh p] at hmem
      exact List.eq_of_mem_replicate hmem
    have haddr : a = blockAddr e.start := t.mem_heap.address a e he
    have hin := t.mem_heap.encodes.packed.inside a e he
    have hpos := e.len_pos
    rw [kernelHeap_total] at hin
    rw [hzero] at haddr
    exact blockAddr_ne_zero (by omega) haddr.symm
  stray := h.stray

/-- The invariant of a running task holds. -/
theorem Ready.kept (h : t.Ready s₀ st) : h.confinement.Kept st t.layout where
  procs := by
    refine h.heldInv _ fun x hx => ?_
    rcases hx with ⟨a, e, -, he, hhas⟩ | ⟨a, e, -, he, hhas⟩
    · exact ⟨a, e, he, hhas⟩
    · exact ⟨a, e, t.layout_eq he, hhas⟩
  hosts := h.hosts
  current := h.current
  registered := h.registered
  records _ hx := hx

/-- The switch to its directory. -/
theorem Ready.taskPage (h : t.Ready s₀ st) (hcr3 : st.cr3 = blockAddr s₀.directory) :
    st.taskPage = some (st.under t.space) ∧ t.Launched s₀ (st.under t.space) :=
  ⟨h.hosts.taskPage (Or.inl hcr3), ⟨⟨h.kernel, h.kernelOpen, h.kernelLive, h.mem, h.kernelChunk,
    h.directory, h.current, ⟨h.registered.commands, h.registered.callbacks⟩, h.fresh, h.stray,
    h.records⟩, rfl⟩⟩

/-- What a program has not changed when `st` has become `st'`: the heap is well formed, every
address is translated as it was, the code and the stack of the kernel are where the kernel expects
them, and every allocation from before, other than its own, has its contents, but for the records
of the task and of its process. -/
structure Confined (t : TaskSpace) (st st' : System) : Prop where
  heap : ∃ live, HeapInv kernelHeap st'.mem live
  space : ∀ a v, X86.walk a st'.cr3 v st'.mem = viewOf a t.map v
  outside : ∀ v, OutsideProgram v → X86.walk .supervisor st'.cr3 v st'.mem = some v
  others : ∀ a e, t.live a = some e → a ∉ t.own → ∀ x, InExtent e x →
    ¬ st.machine.InRecords x → st'.mem x = st.mem x

end TaskSpace

end PeachOS
