import PeachOS.BinarySpace
import PeachOS.ElfConfinement
import PeachOS.LaunchedTask

/-! # The spaces of programs

The address space that `process_map_memory` gives a flat binary, and the one that it gives an ELF
program, as a `TaskSpace`: the pages that the program may write are its image and its stack.

An image must lie between `0x3FB000` and `0x5F0000`, and a header with `PF_W` must not reach behind
the buffer that was allocated for the file. -/

namespace PeachOS

open ByteMemory Extents WriteHistory X86

/-! ### Stores of a task -/

section Stores

variable {m m' : Mem} {s : SpaceBlocks} {f : UInt32 → UInt32} {v x : UInt32}

theorem passes_read {a : Access} (ha : a ≠ .userWrite) : a.Passes pageFlagsRead := by
  cases a
  · decide
  · decide
  · exact absurd rfl ha

/-- An entry that lets the stores of a task pass is user-writable. -/
theorem userWritable_of_passes {entry : UInt32} (h : Access.userWrite.Passes entry) :
    UserWritable entry := by
  unfold Access.Passes Access.needs at h
  have hbits : ∀ g : UInt32, entry &&& (7 &&& g) = 7 &&& g := by
    intro g
    rw [← UInt32.and_assoc, h]
  have h4 : entry &&& pagingAccessFromAll = pagingAccessFromAll := hbits 4
  have h2 : entry &&& pagingIsWritable = pagingIsWritable := hbits 2
  unfold UserWritable
  rw [h4, h2]
  decide

theorem pageAligned_frameOf (entry : UInt32) : PageAligned (frameOf entry) := by
  unfold PageAligned frameOf
  rw [toNat_and_frame]
  omega

/-- The stores to the tables leave the directory open. -/
theorem OpenTables.of_frame (h : OpenTables m s) (hframe : ∀ x, ¬ s.InTables x → m' x = m x) :
    OpenTables m' s := by
  refine h.congr fun x hx => hframe x ?_
  rintro ⟨i, hi, hxi⟩
  exact s.table_ne_directory i hi (InBlock.unique (s.table_lt i hi) s.directory_lt hxi hx)

/-- A store of a task goes to a frame of a writable page. -/
theorem Represents.userWrite (h : Represents m s f) (hx : viewOf .userWrite f v = some x) :
    ∃ a, WritableFrame (blockAddr s.directory) m a ∧ PageAligned a ∧ InRange a 4096 x := by
  have hpage := pageAligned_pagingAlignToLowerPage v
  unfold viewOf at hx
  dsimp only at hx
  split_ifs at hx with hpass
  obtain rfl := Option.some.inj hx
  refine ⟨_, ⟨_, hpage, ?_, rfl⟩, pageAligned_frameOf _, ?_⟩ <;> rw [pagingGet_spec h hpage]
  · exact userWritable_of_passes hpass
  · exact inRange_off (Nat.mod_lt _ (by decide))

/-- The bytes of a frame are in the blocks that it is in. -/
theorem inAllocation_frame {k : Kernel} {live : Layout UInt32} {a b : UInt32}
    (hheap : HeapInv kernelHeap k.mem live) (h : InAllocation live b a) (ha : PageAligned a)
    (hx : InRange a 4096 x) : InAllocation live b x := by
  obtain ⟨e, he, c, hc, hac⟩ := h
  have hin := hheap.encodes.packed.inside b e he
  rw [kernelHeap_total] at hin
  have hend := hc.2
  refine ⟨e, he, c, hc, ?_⟩
  have hlt := toNat_lt a
  unfold PageAligned at ha
  rw [inBlock_iff (by omega)] at hac ⊢
  rw [inRange_iff (by omega)] at hx
  omega

end Stores

/-! ### Flat binaries -/

section Binary

variable {b : BinaryBuild} {m m' : Mem} {s s₀ : SpaceBlocks}

/-- The entries that the mapping leaves. -/
def BinaryBuild.map (b : BinaryBuild) : UInt32 → UInt32 :=
  replay (fun w => w ||| pageFlagsRead) (binaryHistory b.process)

/-- The directory after `process_map_memory`. -/
structure BinaryBuild.Mapped (b : BinaryBuild) (s : SpaceBlocks) (m : Mem) : Prop where
  directory : b.task.pageDirectory = blockAddr s.chunk
  takes : Takes b.kernel b.kernel' s.blocks
  represents : Represents m s b.map
  openTables : OpenTables m s
  frame : ∀ x, ¬ s.InTables x → m x = b.kernel'.mem x
  space : BinarySpace (blockAddr s.directory) b.process.ptr (blocksFor b.process.size)
    b.process.stack m

theorem BinaryBuild.mapped (h : processMapMemory b.process b.task b.kernel'.mem = some (0, m)) :
    ∃ s, b.Mapped s m := by
  obtain ⟨s, hdir, htakes, hrep, hopen⟩ := taskInit_open b.init b.ok
  obtain ⟨m₁, hmap, hrep₁, hframe⟩ := processMapMemory_binary b.heap b.filetype b.image b.stack
    hrep hdir
  rw [h] at hmap
  obtain rfl : m = m₁ := congrArg Prod.snd (Option.some.inj hmap)
  obtain ⟨m₂, hmap₂, hspace⟩ := b.space
  rw [h] at hmap₂
  obtain rfl : m = m₂ := congrArg Prod.snd (Option.some.inj hmap₂)
  have hdirectory : b.directory m = blockAddr s.directory := by
    unfold BinaryBuild.directory paging4gbChunkGetDirectory
    rw [hdir, hrep₁.tables.chunk]
  rw [hdirectory] at hspace
  exact ⟨s, hdir, htakes, hrep₁, hopen.of_frame hframe, hframe, hspace⟩

/-- The pages of the image, those of the stack, and the others. -/
theorem BinaryBuild.Mapped.cases (h : b.Mapped s m) {w : UInt32} (hw : PageAligned w) :
    (∃ i < blocksFor b.process.size, off 0x400000 (4096 * i) = w ∧
        b.map w = off b.process.ptr (4096 * i) ||| pageFlagsWrite) ∨
      (∃ j < 4, off 0x3FB000 (4096 * j) = w ∧
        b.map w = off b.process.stack (4096 * j) ||| pageFlagsWrite) ∨
      b.map w = w ||| pageFlagsRead := by
  have hget := pagingGet_spec h.represents hw
  by_cases hi : ∃ i < blocksFor b.process.size, off 0x400000 (4096 * i) = w
  · obtain ⟨i, hi, rfl⟩ := hi
    exact Or.inl ⟨i, hi, rfl, hget.symm.trans (h.space.image i hi)⟩
  · by_cases hj : ∃ j < 4, off 0x3FB000 (4096 * j) = w
    · obtain ⟨j, hj, rfl⟩ := hj
      exact Or.inr (Or.inl ⟨j, hj, rfl, hget.symm.trans (h.space.stack j hj)⟩)
    · refine Or.inr (Or.inr (hget.symm.trans (h.space.other w hw ?_ ?_)))
      · exact fun i hin e => hi ⟨i, hin, e⟩
      · exact fun j hjn e => hj ⟨j, hjn, e⟩

/-! ### What the processor sees -/

namespace BinaryBuild.Mapped

theorem present (h : b.Mapped s m) (v : UInt32) : (viewOf .supervisor b.map v).isSome := by
  have hpage := pageAligned_pagingAlignToLowerPage v
  have hpass : Access.supervisor.Passes (b.map (pagingAlignToLowerPage v)) := by
    rcases h.cases hpage with ⟨i, -, -, hmap⟩ | ⟨j, -, -, hmap⟩ | hmap
    · rw [hmap]
      exact (passes_seven _).or _
    · rw [hmap]
      exact (passes_seven _).or _
    · rw [hmap]
      exact (passes_read (by decide)).or _
  unfold viewOf
  dsimp only
  rw [if_pos hpass]
  rfl

/-- The stores of the task land in its image or in its stack. -/
theorem userWrite (h : b.Mapped s m) {v x : UInt32} (hx : viewOf .userWrite b.map v = some x) :
    InAllocation b.live b.process.ptr x ∨ InAllocation b.live b.process.stack x := by
  obtain ⟨a, ha, hpage, hin⟩ := h.represents.userWrite hx
  rcases h.space.inAllocation b.heap b.image b.stack ha with himage | hstack
  · exact Or.inl (inAllocation_frame b.heap himage hpage hin)
  · exact Or.inr (inAllocation_frame b.heap hstack hpage hin)

/-- Outside the program every page is mapped to itself. -/
theorem selfMapped (h : b.Mapped s m) (hsize : blocksFor b.process.size ≤ 496) {w : UInt32}
    (hpage : PageAligned w) (hout : OutsideProgram w) : SelfMapped b.map w := by
  unfold OutsideProgram at hout
  rcases h.cases hpage with ⟨i, hi, hw, -⟩ | ⟨j, hj, hw, -⟩ | hmap
  · have := congrArg UInt32.toNat hw
    rw [toNat_off, show (0x400000 : UInt32).toNat = 4194304 from rfl] at this
    omega
  · have := congrArg UInt32.toNat hw
    rw [toNat_off, show (0x3FB000 : UInt32).toNat = 4173824 from rfl] at this
    omega
  · exact ⟨pageFlagsRead, by decide, by decide, hmap⟩

end BinaryBuild.Mapped

/-- The space of a flat binary. -/
theorem BinaryBuild.exists_taskSpace (b : BinaryBuild) (hsize : blocksFor b.process.size ≤ 496)
    (h : processMapMemory b.process b.task b.kernel'.mem = some (0, m)) :
    ∃ t : TaskSpace, t.kernel = b.kernel ∧ t.live = b.live ∧
      t.own = {b.process.ptr, b.process.stack} ∧ t.map = b.map ∧ t.built = b.kernel' ∧ t.mem = m ∧
      b.task.pageDirectory = blockAddr t.space.chunk := by
  obtain ⟨s, hm⟩ := BinaryBuild.mapped h
  refine ⟨⟨b.kernel, b.live, {b.process.ptr, b.process.stack}, s, b.map, b.kernel', m, b.heap,
    fun a ha => ?_, hm.takes, hm.frame, hm.represents, hm.openTables, hm.present,
    fun v x hx => ?_, fun w hw hout => hm.selfMapped hsize hw hout⟩, rfl, rfl, rfl, rfl, rfl, rfl,
    hm.directory⟩
  · rcases ha with rfl | rfl
    · obtain ⟨e, he, -⟩ := b.image
      exact ⟨e, he⟩
    · obtain ⟨e, he, -⟩ := b.stack
      exact ⟨e, he⟩
  · rcases hm.userWrite hx with ⟨e, he, hin⟩ | ⟨e, he, hin⟩
    · exact ⟨_, e, Or.inl rfl, he, hin⟩
    · exact ⟨_, e, Or.inr rfl, he, hin⟩

end Binary

/-! ### ELF programs -/

section Elf

variable {b : ElfBuild} {m m₀ : Mem} {s s' : SpaceBlocks} {f : UInt32 → UInt32}

/-- Two families of blocks with the same chunk and the same words that lead to the tables are the
same. -/
theorem PageTables.agree (h : PageTables m₀ s) (h' : PageTables m₀ s')
    (hchunk : s'.chunk = s.chunk) :
    s'.directory = s.directory ∧ ∀ i < 1024, s'.table i = s.table i := by
  have hdirectory : s'.directory = s.directory := by
    refine blockAddr_inj s'.directory_lt s.directory_lt ?_
    rw [← h'.chunk, ← h.chunk, hchunk]
  refine ⟨hdirectory, fun i hi => blockAddr_inj (s'.table_lt i hi) (s.table_lt i hi) ?_⟩
  rw [← h'.entry i hi, ← h.entry i hi, hdirectory]

theorem Represents.agree (h : Represents m s f) (hchunk : s'.chunk = s.chunk)
    (hdirectory : s'.directory = s.directory) (htable : ∀ i < 1024, s'.table i = s.table i) :
    Represents m s' f := by
  refine ⟨⟨?_, fun i hi => ?_⟩, fun w hw => ?_⟩
  · rw [hchunk, hdirectory]
    exact h.tables.chunk
  · rw [hdirectory, htable i hi]
    exact h.tables.entry i hi
  · have hslot : s'.slot w = s.slot w := by
      unfold SpaceBlocks.slot
      rw [htable _ (slot_lt w).1]
    rw [hslot]
    exact h.page w hw

/-- The pages of the stack, those that a header maps last, and the others. -/
theorem ElfBuild.space_cases (b : ElfBuild) (w : UInt32) :
    (∃ j < 4, off 0x3FB000 (4096 * j) = w ∧
        elfSpace b.process b.mapped w = off b.process.stack (4096 * j) ||| pageFlagsWrite) ∨
      (∃ phdr ∈ b.mapped, ∃ i < phdrPages b.process.elfFile phdr, phdrPage phdr i = w ∧
        elfSpace b.process b.mapped w = phdrFrame b.process.elfFile phdr i ||| phdrFlags phdr) ∨
      elfSpace b.process b.mapped w = w ||| pageFlagsRead := by
  by_cases hstack : StackPage w
  · obtain ⟨j, hj, rfl⟩ := hstack
    exact Or.inl ⟨j, hj, rfl, elfSpace_stack b _ hj⟩
  · by_cases hheader : ∃ phdr ∈ b.mapped, MapsPage b.process.elfFile phdr w
    · obtain ⟨pre, phdr, post, hsplit, ⟨i, hi, rfl⟩, hpost⟩ := exists_last hheader
      have hmem : phdr ∈ b.mapped := hsplit ▸ List.mem_append_cons_self
      refine Or.inr (Or.inl ⟨phdr, hmem, i, hi, rfl, ?_⟩)
      rw [hsplit]
      exact elfSpace_header b hi hstack hpost
    · exact Or.inr (Or.inr (elfSpace_none b hstack fun phdr hmem hmaps =>
        hheader ⟨phdr, hmem, hmaps⟩))

theorem passes_phdrFlags (phdr : Elf32Phdr) : Access.supervisor.Passes (phdrFlags phdr) := by
  unfold phdrFlags
  split_ifs <;> decide

/-- The directory after `process_map_memory`. -/
structure ElfBuild.Mapped (b : ElfBuild) (s : SpaceBlocks) (m : Mem) : Prop where
  directory : b.task.pageDirectory = blockAddr s.chunk
  takes : Takes b.kernel b.kernel' s.blocks
  represents : Represents m s (elfSpace b.process b.mapped)
  openTables : OpenTables m s
  frame : ∀ x, ¬ s.InTables x → m x = b.kernel'.mem x

theorem ElfBuild.exists_mapped {res : ℤ}
    (h : processMapMemory b.process b.task b.kernel'.mem = some (res, m)) (hres : 0 ≤ res) :
    ∃ s, b.Mapped s m := by
  obtain ⟨s, hdir, htakes, hrep, hopen⟩ := taskInit_open b.init b.ok
  obtain ⟨s₁, hspace, hrep₁, hframe₁, -⟩ := ElfBuild.mapMemory h hres
  have hchunk : s.chunk = s₁.chunk :=
    blockAddr_inj s.chunk_lt s₁.chunk_lt (hdir.symm.trans hspace.directory)
  obtain ⟨hdirectory, htable⟩ := hspace.identity.tables.agree hrep.tables hchunk
  have hframe : ∀ x, ¬ s.InTables x → m x = b.kernel'.mem x := by
    refine fun x hx => hframe₁ x ?_
    rintro ⟨i, hi, hxi⟩
    exact hx ⟨i, hi, htable i hi ▸ hxi⟩
  exact ⟨s, hdir, htakes, hrep₁.agree hchunk hdirectory htable, hopen.of_frame hframe, hframe⟩

/-- All headers map pages of the program. -/
def ElfBuild.InProgram (b : ElfBuild) : Prop :=
  ∀ phdr ∈ b.mapped, ∀ i < phdrPages b.process.elfFile phdr, ¬ OutsideProgram (phdrPage phdr i)

theorem ElfBuild.present (b : ElfBuild) (v : UInt32) :
    (viewOf .supervisor (elfSpace b.process b.mapped) v).isSome := by
  have hpass : Access.supervisor.Passes
      (elfSpace b.process b.mapped (pagingAlignToLowerPage v)) := by
    rcases b.space_cases (pagingAlignToLowerPage v) with ⟨j, -, -, hmap⟩ |
      ⟨phdr, -, i, -, -, hmap⟩ | hmap
    · rw [hmap]
      exact (passes_seven _).or _
    · rw [hmap]
      exact (passes_phdrFlags phdr).or _
    · rw [hmap]
      exact (passes_read (by decide)).or _
  unfold viewOf
  dsimp only
  rw [if_pos hpass]
  rfl

/-- Outside the program every page is mapped to itself. -/
theorem ElfBuild.selfMapped (hprogram : b.InProgram) {w : UInt32} (hout : OutsideProgram w) :
    SelfMapped (elfSpace b.process b.mapped) w := by
  rcases b.space_cases w with ⟨j, hj, hw, -⟩ | ⟨phdr, hmem, i, hi, rfl, -⟩ | hmap
  · unfold OutsideProgram at hout
    have := congrArg UInt32.toNat hw
    rw [toNat_off, show (0x3FB000 : UInt32).toNat = 4173824 from rfl] at this
    omega
  · exact absurd hout (hprogram phdr hmem i hi)
  · exact ⟨pageFlagsRead, by decide, by decide, hmap⟩

namespace ElfBuild.Mapped

theorem directory_eq (h : b.Mapped s m) : b.directory m = blockAddr s.directory := by
  unfold ElfBuild.directory paging4gbChunkGetDirectory
  rw [h.directory]
  exact h.represents.tables.chunk

/-- The stores of a confined program land in the buffer of its file or in its stack. -/
theorem userWrite (h : b.Mapped s m) (hconfined : b.Confined m) {v x : UInt32}
    (hx : viewOf .userWrite (elfSpace b.process b.mapped) v = some x) :
    InAllocation b.live b.buffer x ∨ InAllocation b.live b.process.stack x := by
  obtain ⟨a, ha, hpage, hin⟩ := h.represents.userWrite hx
  rw [← h.directory_eq] at ha
  rcases hconfined.own a ha with hbuffer | hstack
  · exact Or.inl (inAllocation_frame b.heap hbuffer hpage hin)
  · exact Or.inr (inAllocation_frame b.heap hstack hpage hin)

end ElfBuild.Mapped

/-- The space of an ELF program. -/
theorem ElfBuild.exists_taskSpace (b : ElfBuild) (hprogram : b.InProgram)
    (hconfined : b.Confined m) {res : ℤ}
    (h : processMapMemory b.process b.task b.kernel'.mem = some (res, m)) (hres : 0 ≤ res) :
    ∃ t : TaskSpace, t.kernel = b.kernel ∧ t.live = b.live ∧
      t.own = {b.buffer, b.process.stack} ∧ t.map = elfSpace b.process b.mapped ∧
      t.built = b.kernel' ∧ t.mem = m ∧ b.task.pageDirectory = blockAddr t.space.chunk := by
  obtain ⟨s, hm⟩ := ElfBuild.exists_mapped h hres
  refine ⟨⟨b.kernel, b.live, {b.buffer, b.process.stack}, s, elfSpace b.process b.mapped, b.kernel',
    m, b.heap, fun a ha => ?_, hm.takes, hm.frame, hm.represents, hm.openTables, b.present,
    fun v x hx => ?_, fun w _ hout => ElfBuild.selfMapped hprogram hout⟩, rfl, rfl, rfl, rfl, rfl,
    rfl, hm.directory⟩
  · rcases ha with rfl | rfl
    · obtain ⟨e, he, -⟩ := b.file
      exact ⟨e, he⟩
    · obtain ⟨e, he, -⟩ := b.stack
      exact ⟨e, he⟩
  · rcases hm.userWrite hconfined hx with ⟨e, he, hin⟩ | ⟨e, he, hin⟩
    · exact ⟨_, e, Or.inl rfl, he, hin⟩
    · exact ⟨_, e, Or.inr rfl, he, hin⟩

end Elf

end PeachOS
