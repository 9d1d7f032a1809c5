import PeachOS.ProcessMap

/-! # The address space of a flat-binary process

For a process of type `PROCESS_FILETYPE_BINARY` the directory after `process_map_memory` is
known at every page: the image window at `0x400000`, the stack window at `0x3FB000`, and the
identity without write access elsewhere (`BinarySpace`).  So the writable frames are the
process's own blocks, and those of two processes are different. -/

namespace PeachOS

open ByteMemory Extents WriteHistory

/-- The entries of all pages of the address space: `n` image pages, four stack pages, and
the identity. -/
structure BinarySpace (directory image : UInt32) (n : ℕ) (stack : UInt32) (m : Mem) : Prop where
  image : ∀ i < n, pagingGet directory (off 0x400000 (4096 * i)) m =
    off image (4096 * i) ||| pageFlagsWrite
  stack : ∀ j < 4, pagingGet directory (off 0x3FB000 (4096 * j)) m =
    off stack (4096 * j) ||| pageFlagsWrite
  other : ∀ w, PageAligned w → (∀ i < n, off 0x400000 (4096 * i) ≠ w) →
    (∀ j < 4, off 0x3FB000 (4096 * j) ≠ w) → pagingGet directory w m = w ||| pageFlagsRead

/-- A flat-binary process whose image and stack are live allocations, with the directory
that `task_init` built for it. -/
structure BinaryBuild where
  kernel : Kernel
  live : Layout UInt32
  process : Process
  p : UInt32
  task : Task
  res : ℤ
  kernel' : Kernel
  heap : HeapInv kernelHeap kernel.mem live
  filetype : process.filetype = processFiletypeBinary
  image : Allocated live process.size process.ptr
  stack : Allocated live peachosUserProgramStackSize process.stack
  init : taskInit p process kernel = ((res, task), kernel')
  ok : kernel'.oom = false

/-- The writes of `process_map_memory` for a flat-binary process. -/
def binaryHistory (process : Process) : List (UInt32 × UInt32) :=
  mapHistory peachosProgramVirtualAddress process.ptr
      (pagingAlignAddress (process.ptr + process.size)) pageFlagsWrite ++
    mapHistory peachosProgramVirtualStackAddressEnd process.stack
      (pagingAlignAddress (process.stack + peachosUserProgramStackSize)) pageFlagsWrite

/-- `process_map_memory` for a flat binary performs that history and writes nothing but the
tables. -/
theorem processMapMemory_binary {k : Kernel} {live : Layout UInt32} {process : Process}
    {task : Task} {m : Mem} {s : SpaceBlocks} {f : UInt32 → UInt32}
    (hheap : HeapInv kernelHeap k.mem live) (hfile : process.filetype = processFiletypeBinary)
    (himage : Allocated live process.size process.ptr)
    (hstack : Allocated live peachosUserProgramStackSize process.stack)
    (hrep : Represents m s f) (hdir : task.pageDirectory = blockAddr s.chunk) :
    ∃ m', processMapMemory process task m = some (0, m') ∧
      Represents m' s (replay f (binaryHistory process)) ∧ ∀ x, ¬ s.InTables x → m' x = m x := by
  obtain ⟨himg, himgEnd, -, -, -⟩ := allocation_range hheap himage
  obtain ⟨hstk, hstkEnd, -, -, -⟩ := allocation_range hheap hstack
  obtain ⟨m₁, hmap₁, hrep₁, hframe₁⟩ := pagingMapTo_spec hrep
    (show PageAligned peachosProgramVirtualAddress by decide) himg
    (pageAligned_pagingAlignAddress _) himgEnd pageFlagsWrite
  obtain ⟨m₂, hmap₂, hrep₂, hframe₂⟩ := pagingMapTo_spec hrep₁
    (show PageAligned peachosProgramVirtualStackAddressEnd by decide) hstk
    (pageAligned_pagingAlignAddress _) hstkEnd pageFlagsWrite
  refine ⟨m₂, ?_, ?_, fun x hx => (hframe₂ x hx).trans (hframe₁ x hx)⟩
  · unfold processMapMemory processMapStack processMapBinary
    rw [hfile, if_neg (by decide), if_pos rfl, hdir, hmap₁]
    dsimp only
    rw [if_neg (by decide), hmap₂]
  · unfold binaryHistory
    rw [replay_append]
    exact hrep₂

/-- For a new process it performs that history on the identity. -/
theorem BinaryBuild.represents (b : BinaryBuild) : ∃ s m', processMapMemory b.process b.task
    b.kernel'.mem = some (0, m') ∧ b.task.pageDirectory = blockAddr s.chunk ∧
      Represents m' s (replay (fun w => w ||| pageFlagsRead) (binaryHistory b.process)) := by
  obtain ⟨-, s, hspace⟩ := taskInit_spec b.heap b.init b.ok
  obtain ⟨m', hmap, hrep, -⟩ := processMapMemory_binary b.heap b.filetype b.image b.stack
    hspace.identity hspace.directory
  exact ⟨s, m', hmap, hspace.directory, hrep⟩

/-- No stack page is an image page. -/
theorem stackPage_ne_imagePage {i j : ℕ} (hi : i < 25600) (hj : j < 4) :
    off 0x3FB000 (4096 * j) ≠ off 0x400000 (4096 * i) := by
  intro h
  have h' := congrArg UInt32.toNat h
  have h₁ : (0x3FB000 : UInt32).toNat = 4173824 := rfl
  have h₂ : (0x400000 : UInt32).toNat = 4194304 := rfl
  rw [toNat_off, toNat_off, h₁, h₂] at h'
  omega

/-- The directory of the process. -/
def BinaryBuild.directory (b : BinaryBuild) (m : Mem) : UInt32 :=
  paging4gbChunkGetDirectory b.task.pageDirectory m

/-- The whole address space after `process_map_memory`. -/
theorem BinaryBuild.space (b : BinaryBuild) :
    ∃ m', processMapMemory b.process b.task b.kernel'.mem = some (0, m') ∧
      BinarySpace (b.directory m') b.process.ptr (blocksFor b.process.size) b.process.stack m' := by
  obtain ⟨s, m', hmap, hchunk, hrep⟩ := b.represents
  obtain ⟨-, -, himg, hle, -⟩ := allocation_range b.heap b.image
  obtain ⟨-, -, hstk, -, -⟩ := allocation_range b.heap b.stack
  have hfour : blocksFor peachosUserProgramStackSize = 4 := by decide
  have hdir : b.directory m' = blockAddr s.directory := by
    unfold BinaryBuild.directory paging4gbChunkGetDirectory
    rw [hchunk, hrep.tables.chunk]
  -- what a page holds is the last write of the stack, or else of the image, or the identity
  have hget : ∀ w, PageAligned w → pagingGet (b.directory m') w m' =
      ((lastWrite (mapHistory peachosProgramVirtualStackAddressEnd b.process.stack
          (pagingAlignAddress (b.process.stack + peachosUserProgramStackSize)) pageFlagsWrite) w).or
        (lastWrite (mapHistory peachosProgramVirtualAddress b.process.ptr
          (pagingAlignAddress (b.process.ptr + b.process.size)) pageFlagsWrite) w)).getD
          (w ||| pageFlagsRead) := by
    intro w hw
    rw [hdir, pagingGet_spec hrep hw, replay_apply]
    unfold binaryHistory
    rw [lastWrite_append]
  have hstkEnd : peachosProgramVirtualStackAddressEnd = 0x3FB000 := by decide
  have himgAddr : peachosProgramVirtualAddress = 0x400000 := rfl
  rw [hstkEnd, himgAddr] at hget
  refine ⟨m', hmap, fun i hi => ?_, fun j hj => ?_, fun w hw hni hnj => ?_⟩
  · rw [hget _ (pageAligned_off (by decide) i)]
    rw [lastWrite_mapHistory_eq_none_iff.mpr, lastWrite_mapHistory _ _ _ _ (by omega)]
    · rfl
    · intro j hj
      rw [hstk, hfour] at hj
      exact stackPage_ne_imagePage (by omega) hj
  · rw [hget _ (pageAligned_off (by decide) j), lastWrite_mapHistory _ _ _ _ (by omega)]
    rfl
  · rw [hget w hw, lastWrite_mapHistory_eq_none_iff.mpr, lastWrite_mapHistory_eq_none_iff.mpr]
    · rfl
    · intro i hi
      exact hni i (by omega)
    · intro j hj
      exact hnj j (by omega)

/-- The frames behind the writable pages. -/
theorem BinarySpace.writableFrame {directory image stack a : UInt32} {n : ℕ} {m : Mem}
    (h : BinarySpace directory image n stack m) (himage : PageAligned image)
    (hstack : PageAligned stack) (ha : WritableFrame directory m a) :
    (∃ i < n, a = off image (4096 * i)) ∨ ∃ j < 4, a = off stack (4096 * j) := by
  obtain ⟨w, hw, hwrite, rfl⟩ := ha
  by_cases hi : ∃ i < n, off 0x400000 (4096 * i) = w
  · obtain ⟨i, hi, rfl⟩ := hi
    rw [h.image i hi, frameOf_write (pageAligned_off himage i)]
    exact Or.inl ⟨i, hi, rfl⟩
  · by_cases hj : ∃ j < 4, off 0x3FB000 (4096 * j) = w
    · obtain ⟨j, hj, rfl⟩ := hj
      rw [h.stack j hj, frameOf_write (pageAligned_off hstack j)]
      exact Or.inr ⟨j, hj, rfl⟩
    · rw [h.other w hw (fun i hin e => hi ⟨i, hin, e⟩) fun j hjn e => hj ⟨j, hjn, e⟩] at hwrite
      exact absurd hwrite (not_userWritable_read hw)

/-- At some moment the images and the stacks of both processes are live, and they are
different allocations. -/
structure BinaryBuild.Separate (b c : BinaryBuild) (k : Kernel) (live : Layout UInt32) : Prop where
  heap : HeapInv kernelHeap k.mem live
  image₁ : Allocated live b.process.size b.process.ptr
  stack₁ : Allocated live peachosUserProgramStackSize b.process.stack
  image₂ : Allocated live c.process.size c.process.ptr
  stack₂ : Allocated live peachosUserProgramStackSize c.process.stack
  apart : ∀ x ∈ [b.process.ptr, b.process.stack], ∀ y ∈ [c.process.ptr, c.process.stack], x ≠ y

/-- The writable frames of a mapped process lie in its image and in its stack, in whatever
layout these are live. -/
theorem BinarySpace.inAllocation {directory image stack size a : UInt32} {m : Mem} {k : Kernel}
    {live : Layout UInt32} (h : BinarySpace directory image (blocksFor size) stack m)
    (hheap : HeapInv kernelHeap k.mem live) (himage : Allocated live size image)
    (hstack : Allocated live peachosUserProgramStackSize stack)
    (ha : WritableFrame directory m a) : InAllocation live image a ∨ InAllocation live stack a := by
  obtain ⟨himg, -, -, -, hin₁⟩ := allocation_range hheap himage
  obtain ⟨hstk, -, -, -, hin₂⟩ := allocation_range hheap hstack
  rcases h.writableFrame himg hstk ha with ⟨i, hi, rfl⟩ | ⟨j, hj, rfl⟩
  · exact Or.inl (hin₁ i hi)
  · exact Or.inr (hin₂ j hj)

/-- **Address space of a flat-binary process.**  `process_map_memory` succeeds; the directory
then maps exactly the image pages and the four stack pages writable, and is the identity
elsewhere; the writable frames are blocks of the image or the stack; and no writable frame
is one of another such process. -/
theorem binary_address_space (b : BinaryBuild) :
    ∃ m', processMapMemory b.process b.task b.kernel'.mem = some (0, m') ∧
      BinarySpace (b.directory m') b.process.ptr (blocksFor b.process.size) b.process.stack m' ∧
      (∀ a, WritableFrame (b.directory m') m' a →
        InAllocation b.live b.process.ptr a ∨ InAllocation b.live b.process.stack a) ∧
      ∀ (c : BinaryBuild) (k : Kernel) (live : Layout UInt32) (m'' : Mem), b.Separate c k live →
        processMapMemory c.process c.task c.kernel'.mem = some (0, m'') →
          ∀ a, WritableFrame (b.directory m') m' a → ¬ WritableFrame (c.directory m'') m'' a := by
  obtain ⟨m', hmap, hspace⟩ := b.space
  refine ⟨m', hmap, hspace, fun a ha => hspace.inAllocation b.heap b.image b.stack ha,
    fun c k live m'' hsep hmap' a ha ha' => ?_⟩
  obtain ⟨m₂, hmap₂, hspace₂⟩ := c.space
  rw [hmap'] at hmap₂
  obtain rfl : m'' = m₂ := congrArg Prod.snd (Option.some.inj hmap₂)
  have hb := hspace.inAllocation hsep.heap hsep.image₁ hsep.stack₁ ha
  have hc := hspace₂.inAllocation hsep.heap hsep.image₂ hsep.stack₂ ha'
  rcases hb with hb | hb <;> rcases hc with hc | hc <;>
    exact hsep.apart _ (by simp) _ (by simp) (hsep.heap.inAllocation_unique hb hc)

/-- A process whose allocations are live can be built while 1026 blocks are free. -/
theorem exists_binaryBuild {k : Kernel} {live : Layout UInt32} {n : ℕ} (h : TopFree k live n)
    (hn : n ≤ 24000) {size image stack : UInt32} (himage : Allocated live size image)
    (hstack : Allocated live peachosUserProgramStackSize stack) :
    ∃ b : BinaryBuild, b.process.size = size ∧ b.process.ptr = image ∧
      b.process.stack = stack := by
  have hcard := h.card_le
  let process : Process :=
    { processInit with
      filetype := processFiletypeBinary, ptr := image, stack := stack, size := size }
  have hok : (pagingNew4gb (1 ||| 4) k).2.oom = false := pagingNew4gb_ok h.ok (by omega)
  rcases hnew : pagingNew4gb (1 ||| 4) k with ⟨chunk, k'⟩
  rw [hnew] at hok
  exact ⟨⟨k, live, process, 0, _, _, k', h.heap, rfl, himage, hstack, taskInit_eq hnew, hok⟩, rfl,
    rfl, rfl⟩

/-- Four live allocations are at four addresses. -/
theorem four_addresses {l₁ l₂ l₃ : Layout UInt32} {s₁ s₂ a₁ a₂ a₃ a₄ : UInt32}
    (h₁ : Allocated l₁ s₁ a₁) (h₂ : Allocated l₂ s₂ a₂) (k₂ : ∀ a e, l₁ a = some e → l₂ a = some e)
    (k₃ : ∀ a e, l₂ a = some e → l₃ a = some e) (n₃ : l₂ a₃ = none) (n₄ : l₃ a₄ = none) :
    ∀ x ∈ [a₁, a₂], ∀ y ∈ [a₃, a₄], x ≠ y := by
  obtain ⟨e₁, he₁, -⟩ := h₁
  obtain ⟨e₂, he₂, -⟩ := h₂
  have hlive : ∀ x ∈ [a₁, a₂], ∃ e, l₂ x = some e := by
    intro x hx
    rcases List.mem_pair.mp hx with rfl | rfl
    exacts [⟨e₁, k₂ _ _ he₁⟩, ⟨e₂, he₂⟩]
  intro x hx y hy hxy
  obtain ⟨e, he⟩ := hlive x hx
  rcases List.mem_pair.mp hy with rfl | rfl
  · rw [hxy, n₃] at he
    cases he
  · have he' := k₃ _ _ he
    rw [hxy, n₄] at he'
    cases he'

/-- Two processes over a fresh heap, with images of 5000 and of 100 bytes. -/
theorem binary_address_space_two :
    ∃ (b c : BinaryBuild) (m' m'' : Mem),
      processMapMemory b.process b.task b.kernel'.mem = some (0, m') ∧
      processMapMemory c.process c.task c.kernel'.mem = some (0, m'') ∧
      ∀ a, WritableFrame (b.directory m') m' a → ¬ WritableFrame (c.directory m'') m'' a := by
  obtain ⟨a₁, k₁, l₁, -, h₁, ha₁, -, -⟩ := freshKernel_topFree.kzalloc 5000 (by decide) (by decide)
  obtain ⟨a₂, k₂, l₂, -, h₂, ha₂, -, hk₂⟩ := h₁.kzalloc 16384 (by decide) (by decide)
  obtain ⟨a₃, k₃, l₃, -, h₃, ha₃, hn₃, hk₃⟩ := h₂.kzalloc 100 (by decide) (by decide)
  obtain ⟨a₄, k₄, l₄, -, h₄, ha₄, hn₄, hk₄⟩ := h₃.kzalloc 16384 (by decide) (by decide)
  have hapart := four_addresses ha₁ ha₂ hk₂ hk₃ hn₃ hn₄
  have himage₁ := (ha₁.mono hk₂).mono hk₃ |>.mono hk₄
  have hstack₁ := (ha₂.mono hk₃).mono hk₄
  obtain ⟨b, hb₁, hb₂, hb₃⟩ := exists_binaryBuild h₄ (by decide) himage₁ hstack₁
  obtain ⟨c, hc₁, hc₂, hc₃⟩ := exists_binaryBuild h₄ (by decide) (ha₃.mono hk₄) ha₄
  obtain ⟨m', hm', -, -, hdisj⟩ := binary_address_space b
  obtain ⟨m'', hm'', -⟩ := c.space
  refine ⟨b, c, m', m'', hm', hm'', hdisj c _ l₄ m'' ⟨h₄.heap, ?_, ?_, ?_, ?_, ?_⟩ hm''⟩
  · rw [hb₁, hb₂]
    exact himage₁
  · rw [hb₃]
    exact hstack₁
  · rw [hc₁, hc₂]
    exact ha₃.mono hk₄
  · rw [hc₃]
    exact ha₄
  · rw [hb₂, hb₃, hc₂, hc₃]
    exact hapart

end PeachOS
