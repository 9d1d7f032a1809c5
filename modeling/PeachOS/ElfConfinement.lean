import PeachOS.ElfSpace

/-! # What an ELF process can write to

The user-writable pages of an ELF process after `process_map_memory`.  The range that a header
maps has `p_memsz` bytes, while the buffer was allocated for the length of the file, and no
check relates the two.  `elf_confined_iff` says for which header tables the writable pages
lie in the buffer and the stack nevertheless. -/

namespace PeachOS

open ByteMemory Extents WriteHistory

variable {b : ElfBuild} {m' : Mem} {elfFile : ElfFile} {phdr : Elf32Phdr} {w : UInt32}

/-! ### The pages of a header -/

/-- The number of pages that a header maps. -/
def phdrPages (elfFile : ElfFile) (phdr : Elf32Phdr) : ℕ :=
  ((pagingAlignAddress (elfPhdrPhysAddress elfFile phdr + phdr.memsz) -
    pagingAlignToLowerPage (elfPhdrPhysAddress elfFile phdr)) / pagingPageSize).toNat

/-- Its `i`-th page, and the frame of it. -/
def phdrPage (phdr : Elf32Phdr) (i : ℕ) : UInt32 :=
  off (pagingAlignToLowerPage phdr.vaddr) (4096 * i)

def phdrFrame (elfFile : ElfFile) (phdr : Elf32Phdr) (i : ℕ) : UInt32 :=
  off (pagingAlignToLowerPage (elfPhdrPhysAddress elfFile phdr)) (4096 * i)

/-- The header maps the page `w`. -/
def MapsPage (elfFile : ElfFile) (phdr : Elf32Phdr) (w : UInt32) : Prop :=
  ∃ i < phdrPages elfFile phdr, phdrPage phdr i = w

/-- `w` is one of the four pages of the stack. -/
def StackPage (w : UInt32) : Prop := ∃ j < 4, off 0x3FB000 (4096 * j) = w

theorem pageAligned_phdrPage (phdr : Elf32Phdr) (i : ℕ) : PageAligned (phdrPage phdr i) :=
  pageAligned_off (pageAligned_pagingAlignToLowerPage _) i

theorem pageAligned_phdrFrame (elfFile : ElfFile) (phdr : Elf32Phdr) (i : ℕ) :
    PageAligned (phdrFrame elfFile phdr i) :=
  pageAligned_off (pageAligned_pagingAlignToLowerPage _) i

theorem lastWrite_phdrHistory {i : ℕ} (hi : i < phdrPages elfFile phdr) :
    lastWrite (phdrHistory elfFile phdr) (phdrPage phdr i) =
      some (phdrFrame elfFile phdr i ||| phdrFlags phdr) :=
  lastWrite_mapHistory _ _ _ _ hi

theorem lastWrite_phdrHistory_eq_none_iff :
    lastWrite (phdrHistory elfFile phdr) w = none ↔ ¬ MapsPage elfFile phdr w := by
  unfold phdrHistory MapsPage
  rw [lastWrite_mapHistory_eq_none_iff]
  push Not
  exact Iff.rfl

/-! ### The entries -/

/-- A page of the stack. -/
theorem elfSpace_stack (b : ElfBuild) (headers : List Elf32Phdr) {j : ℕ} (hj : j < 4) :
    elfSpace b.process headers (off 0x3FB000 (4096 * j)) =
      off b.process.stack (4096 * j) ||| pageFlagsWrite := by
  unfold elfSpace
  rw [replay_apply, lastWrite_append, b.lastWrite_stack hj]
  rfl

/-- A page that only headers map: the last of them decides. -/
theorem elfSpace_header (b : ElfBuild) {pre post : List Elf32Phdr} {i : ℕ}
    (hi : i < phdrPages b.process.elfFile phdr) (hstack : ¬ StackPage (phdrPage phdr i))
    (hpost : ∀ later ∈ post, ¬ MapsPage b.process.elfFile later (phdrPage phdr i)) :
    elfSpace b.process (pre ++ phdr :: post) (phdrPage phdr i) =
      phdrFrame b.process.elfFile phdr i ||| phdrFlags phdr := by
  have hnone : lastWrite (stackHistory b.process) (phdrPage phdr i) = none :=
    b.lastWrite_stack_eq_none_iff.mpr fun j hj e => hstack ⟨j, hj, e⟩
  unfold elfSpace
  rw [replay_apply, lastWrite_append, hnone, List.flatMap_append, List.flatMap_cons,
    lastWrite_append, lastWrite_append,
    lastWrite_flatMap_eq_none fun later h => lastWrite_phdrHistory_eq_none_iff.mpr (hpost later h),
    lastWrite_phdrHistory hi]
  rfl

/-- A page that nothing maps. -/
theorem elfSpace_none (b : ElfBuild) {headers : List Elf32Phdr} (hstack : ¬ StackPage w)
    (hheaders : ∀ phdr ∈ headers, ¬ MapsPage b.process.elfFile phdr w) :
    elfSpace b.process headers w = w ||| pageFlagsRead := by
  have hnone : lastWrite (stackHistory b.process) w = none :=
    b.lastWrite_stack_eq_none_iff.mpr fun j hj e => hstack ⟨j, hj, e⟩
  unfold elfSpace
  rw [replay_apply, lastWrite_append, hnone,
    lastWrite_flatMap_eq_none fun phdr h => lastWrite_phdrHistory_eq_none_iff.mpr (hheaders phdr h)]
  rfl

/-- A header makes its pages user-writable if it has the flag `PF_W`. -/
theorem userWritable_phdr {frame : UInt32} (hframe : PageAligned frame) :
    UserWritable (frame ||| phdrFlags phdr) ↔ phdr.flags &&& pfW ≠ 0 := by
  obtain ⟨huser, hwrite⟩ := flags_of_phdr phdr hframe
  exact ⟨fun h => hwrite.mp h.2, fun h => ⟨huser, hwrite.mpr h⟩⟩

/-- The directory of the process. -/
def ElfBuild.directory (b : ElfBuild) (m : Mem) : UInt32 :=
  paging4gbChunkGetDirectory b.task.pageDirectory m

/-- The frames behind the writable pages: those of the stack, and those that a writable header
maps last. -/
theorem ElfBuild.writableFrame_iff {res : ℤ}
    (hmap : processMapMemory b.process b.task b.kernel'.mem = some (res, m')) (hres : 0 ≤ res)
    (a : UInt32) :
    WritableFrame (b.directory m') m' a ↔ (∃ j < 4, a = off b.process.stack (4096 * j)) ∨
      ∃ pre phdr post, b.mapped = pre ++ phdr :: post ∧ phdr.flags &&& pfW ≠ 0 ∧
        ∃ i < phdrPages b.process.elfFile phdr, ¬ StackPage (phdrPage phdr i) ∧
          (∀ later ∈ post, ¬ MapsPage b.process.elfFile later (phdrPage phdr i)) ∧
          a = phdrFrame b.process.elfFile phdr i := by
  obtain ⟨s, hspace, hrep, -, -⟩ := ElfBuild.mapMemory hmap hres
  obtain ⟨hstk, -, -, -, -⟩ := allocation_range b.heap b.stack
  have hget : ∀ w, PageAligned w →
      pagingGet (b.directory m') w m' = elfSpace b.process b.mapped w := by
    intro w hw
    unfold ElfBuild.directory paging4gbChunkGetDirectory
    rw [hspace.directory, hrep.tables.chunk, pagingGet_spec hrep hw]
  constructor
  · rintro ⟨w, hw, hwrite, rfl⟩
    rw [hget w hw] at hwrite ⊢
    by_cases hstack : StackPage w
    · obtain ⟨j, hj, rfl⟩ := hstack
      refine Or.inl ⟨j, hj, ?_⟩
      rw [elfSpace_stack b _ hj, frameOf_write (pageAligned_off hstk j)]
    · by_cases hheader : ∃ phdr ∈ b.mapped, MapsPage b.process.elfFile phdr w
      · obtain ⟨pre, phdr, post, hsplit, ⟨i, hi, rfl⟩, hpost⟩ := exists_last hheader
        have hentry : elfSpace b.process (pre ++ phdr :: post) (phdrPage phdr i) =
            phdrFrame b.process.elfFile phdr i ||| phdrFlags phdr :=
          elfSpace_header b hi hstack hpost
        rw [← hsplit] at hentry
        have hframe := pageAligned_phdrFrame b.process.elfFile phdr i
        rw [hentry] at hwrite ⊢
        refine Or.inr ⟨pre, phdr, post, hsplit, (userWritable_phdr hframe).mp hwrite, i, hi, hstack,
          hpost, or_and_frame hframe (phdrFlags_lt _)⟩
      · rw [elfSpace_none b hstack fun phdr hmem hmaps => hheader ⟨phdr, hmem, hmaps⟩] at hwrite
        exact absurd hwrite (not_userWritable_read hw)
  · rintro (⟨j, hj, rfl⟩ | ⟨pre, phdr, post, hsplit, hflag, i, hi, hstack, hpost, rfl⟩)
    · have hpage : PageAligned (off 0x3FB000 (4096 * j)) := pageAligned_off (by decide) j
      refine ⟨_, hpage, ?_, ?_⟩ <;> rw [hget _ hpage, elfSpace_stack b _ hj]
      · exact userWritable_write (pageAligned_off hstk j)
      · exact frameOf_write (pageAligned_off hstk j)
    · have hpage := pageAligned_phdrPage phdr i
      have hframe := pageAligned_phdrFrame b.process.elfFile phdr i
      refine ⟨_, hpage, ?_, ?_⟩ <;>
        rw [hget _ hpage, hsplit, elfSpace_header b hi hstack hpost]
      · exact (userWritable_phdr hframe).mpr hflag
      · exact or_and_frame hframe (phdrFlags_lt _)

/-! ### Frames of an allocation -/

/-- The pages in the blocks of an allocation. -/
theorem inAllocation_page_iff {k : Kernel} {live : Layout UInt32}
    (hheap : HeapInv kernelHeap k.mem live) {size a x : UInt32} (ha : Allocated live size a)
    (hx : PageAligned x) : InAllocation live a x ↔ ∃ j < blocksFor size, x = off a (4096 * j) := by
  constructor
  · rintro ⟨e, he, c, hc, hxc⟩
    obtain ⟨e', he', hlen⟩ := ha
    obtain rfl : e = e' := Option.some.inj (he.symm.trans he')
    have hin := hheap.encodes.packed.inside a e he
    have haddr : a = blockAddr e.start := hheap.address a e he
    have hstart := hc.1
    have hend := hc.2
    have hpos := e.len_pos
    rw [kernelHeap_total] at hin
    rw [inBlock_iff (by omega)] at hxc
    have hnat : a.toNat = 16777216 + 4096 * e.start := by
      rw [haddr, toNat_blockAddr (by omega)]
    unfold PageAligned at hx
    refine ⟨c - e.start, by omega, UInt32.toNat.inj ?_⟩
    rw [toNat_off_of_lt (by omega), hnat]
    omega
  · rintro ⟨j, hj, rfl⟩
    obtain ⟨-, -, -, -, hin⟩ := allocation_range hheap ha
    exact hin j hj

/-- The file ranges of the headers are ordered and lie in the file. -/
def ElfBuild.RangesInside (b : ElfBuild) : Prop :=
  ∀ phdr ∈ b.headers, phdr.filesz.toNat ≤ phdr.memsz.toNat ∧
    phdr.offset.toNat + phdr.filesz.toNat ≤ b.size.toNat

/-- Frame `i` of a header is page `p_offset / 4096 + i` from the start of the buffer. -/
theorem ElfBuild.phdrFrame_eq (b : ElfBuild) (phdr : Elf32Phdr) (i : ℕ) :
    phdrFrame b.process.elfFile phdr i =
      off b.buffer (4096 * (phdr.offset.toNat / 4096 + i)) := by
  obtain ⟨haligned, -, -, -, -⟩ := allocation_range b.heap b.file
  unfold PageAligned at haligned
  have hphys : (elfPhdrPhysAddress b.process.elfFile phdr).toNat =
      (b.buffer.toNat + phdr.offset.toNat) % 4294967296 := UInt32.toNat_add _ _
  change b.buffer.toNat % 4096 = 0 at haligned
  have := toNat_lt b.buffer
  have := toNat_lt phdr.offset
  apply UInt32.toNat.inj
  unfold phdrFrame
  rw [toNat_off, toNat_off, toNat_pagingAlignToLowerPage, hphys]
  omega

/-- A frame of a header that lies in the file is in the blocks of the buffer exactly when it does
not come after the last of them. -/
theorem ElfBuild.inBuffer_iff (b : ElfBuild) (horder : PhdrInOrder b.process.elfFile phdr)
    (hinside : phdr.offset.toNat ≤ b.size.toNat) {i : ℕ}
    (hi : i < phdrPages b.process.elfFile phdr) :
    InAllocation b.live b.buffer (phdrFrame b.process.elfFile phdr i) ↔
      phdr.offset.toNat / 4096 + i < blocksFor b.size := by
  obtain ⟨c, hc, haddr⟩ := b.heap.allocated_block b.file
  have hbuffer : b.buffer.toNat = 16777216 + 4096 * c := by
    rw [← toNat_blockAddr hc, ← haddr]
    rfl
  obtain ⟨-, -, -, hblocks, -⟩ := allocation_range b.heap b.file
  have hsize : b.size.toNat ≤ 4096 * 25600 := b.size_le.2.trans (by omega)
  -- the range of the header does not wrap, so the number of the page is below `2 ^ 20`
  have hphys : (elfPhdrPhysAddress b.process.elfFile phdr).toNat =
      b.buffer.toNat + phdr.offset.toNat := by
    refine (UInt32.toNat_add _ _).trans (Nat.mod_eq_of_lt ?_)
    change b.buffer.toNat + phdr.offset.toNat < 4294967296
    omega
  have hsmall : phdr.offset.toNat / 4096 + i < 1048576 := by
    unfold PhdrInOrder at horder
    unfold phdrPages at hi
    have hend := toNat_lt (pagingAlignAddress
      (elfPhdrPhysAddress b.process.elfFile phdr + phdr.memsz))
    rw [UInt32.toNat_div, UInt32.toNat_sub_of_le _ _ (UInt32.not_lt.mp horder),
      toNat_pagingAlignToLowerPage, hphys, show pagingPageSize.toNat = 4096 from rfl] at hi
    omega
  have hpages : InAllocation b.live b.buffer (phdrFrame b.process.elfFile phdr i) ↔
      ∃ j < blocksFor b.size, phdrFrame b.process.elfFile phdr i = off b.buffer (4096 * j) :=
    inAllocation_page_iff b.heap b.file (pageAligned_phdrFrame _ _ _)
  rw [hpages, b.phdrFrame_eq]
  constructor
  · rintro ⟨j, hj, h⟩
    have := off_inj (p := b.buffer) (by omega) (by omega) h
    omega
  · exact fun h => ⟨_, h, rfl⟩

/-! ### Confinement -/

/-- The user-writable pages of the process are mapped to its own memory, and hence to no block of
another allocation. -/
structure ElfBuild.Confined (b : ElfBuild) (m : Mem) : Prop where
  own : ∀ a, WritableFrame (b.directory m) m a →
    InAllocation b.live b.buffer a ∨ InAllocation b.live b.process.stack a
  other : ∀ x, x ≠ b.buffer → x ≠ b.process.stack → ∀ a, InAllocation b.live x a →
    ¬ WritableFrame (b.directory m) m a

theorem ElfBuild.confined_iff (b : ElfBuild) (m : Mem) :
    b.Confined m ↔ ∀ a, WritableFrame (b.directory m) m a →
      InAllocation b.live b.buffer a ∨ InAllocation b.live b.process.stack a := by
  refine ⟨ElfBuild.Confined.own, fun h => ⟨h, fun x hbuffer hstack a hx ha => ?_⟩⟩
  rcases h a ha with hown | hown
  · exact hbuffer (b.heap.inAllocation_unique hx hown)
  · exact hstack (b.heap.inAllocation_unique hx hown)

/-- **When an ELF process is confined.**  After `process_map_memory` the user-writable pages lie
in the buffer and the stack exactly when, for each writable header and each of its pages that
neither a later header nor the stack maps again, the page of the file is one of the buffer or
is one of the four frames of the stack. -/
theorem elf_confined_iff (b : ElfBuild) (htable : b.TableInside) (hranges : b.RangesInside)
    {res : ℤ} (hmap : processMapMemory b.process b.task b.kernel'.mem = some (res, m'))
    (hres : 0 ≤ res) :
    b.Confined m' ↔
      ∀ pre phdr post, b.headers = pre ++ phdr :: post → phdr.flags &&& pfW ≠ 0 →
        ∀ i < phdrPages b.process.elfFile phdr, ¬ StackPage (phdrPage phdr i) →
          (∀ later ∈ post, ¬ MapsPage b.process.elfFile later (phdrPage phdr i)) →
          phdr.offset.toNat / 4096 + i < blocksFor b.size ∨
            ∃ j < 4, off b.buffer (4096 * (phdr.offset.toNat / 4096 + i)) =
              off b.process.stack (4096 * j) := by
  have horder := (ElfBuild.mapMemory_iff htable).mp ⟨res, m', hmap, hres⟩
  have hmapped := (ElfBuild.mapMemory_headers htable horder).1
  have hstk : ∀ {x}, PageAligned x →
      (InAllocation b.live b.process.stack x ↔ ∃ j < 4, x = off b.process.stack (4096 * j)) :=
    inAllocation_page_iff b.heap b.stack
  rw [b.confined_iff]
  simp only [b.writableFrame_iff hmap hres, hmapped]
  constructor
  · intro h pre phdr post hsplit hflag i hi hstack hpost
    have hmem : phdr ∈ b.headers := hsplit ▸ List.mem_append_cons_self
    have hown := h _ (Or.inr ⟨pre, phdr, post, hsplit, hflag, i, hi, hstack, hpost, rfl⟩)
    rw [b.inBuffer_iff (horder phdr hmem) (by have := hranges phdr hmem; omega) hi,
      hstk (pageAligned_phdrFrame _ _ _), b.phdrFrame_eq] at hown
    exact hown
  · rintro h a (⟨j, hj, rfl⟩ | ⟨pre, phdr, post, hsplit, hflag, i, hi, hstack, hpost, rfl⟩)
    · obtain ⟨haligned, -, -, -, -⟩ := allocation_range b.heap b.stack
      exact Or.inr ((hstk (pageAligned_off haligned j)).mpr ⟨j, hj, rfl⟩)
    · have hmem : phdr ∈ b.headers := hsplit ▸ List.mem_append_cons_self
      rw [b.inBuffer_iff (horder phdr hmem) (by have := hranges phdr hmem; omega) hi,
        hstk (pageAligned_phdrFrame _ _ _), b.phdrFrame_eq]
      exact h pre phdr post hsplit hflag i hi hstack hpost

/-! ### A header larger than its file -/

/-- A file of 84 bytes with one writable program header at `0x400000`; its `p_memsz` is 84 or,
with the high byte `x`, more than the whole heap. -/
def wideElf (x : UInt8) (i : ℕ) : UInt8 :=
  ([(0, 0x7f), (1, 0x45), (2, 0x4c), (3, 0x46), (28, 52), (44, 1),
    (52, 1), (62, 0x40), (68, 84), (72, 84), (75, x), (76, 6)].lookup i).getD 0

/-- Its header. -/
def wideSegment (memsz : UInt32) : Elf32Phdr := ⟨1, 0, 0x400000, 84, memsz, 6⟩

theorem wideElf_oneHeader :
    OneHeader (wideElf 0) (wideSegment 84) ∧ OneHeader (wideElf 10) (wideSegment 0x0a000054) := by
  unfold wideSegment
  constructor
  all_goals exact ⟨by unfold ElfChecks; decide, by decide, by decide, by decide⟩

/-- A process of such a file, mapped. -/
theorem exists_wideElf {x : UInt8} {memsz : UInt32}
    (hone : OneHeader (wideElf x) (wideSegment memsz)) (h84 : 84 ≤ memsz.toNat)
    (hmemsz : memsz.toNat < 4000000000) :
    ∃ (b : ElfBuild) (m' : Mem), b.size = 84 ∧ ElfChecks b.kernel'.mem b.buffer ∧ b.TableInside ∧
      b.RangesInside ∧ b.headers = [wideSegment memsz] ∧ b.mapped = [wideSegment memsz] ∧
      processMapMemory b.process b.task b.kernel'.mem = some (0, m') := by
  obtain ⟨b, hsize, hchecks, htable, hheaders, -⟩ :=
    exists_oneHeader hone (show 84 ≤ (84 : UInt32).toNat by decide) (by decide)
  have hranges : b.RangesInside := by
    unfold ElfBuild.RangesInside
    rw [hheaders, List.forall_mem_singleton, hsize]
    exact ⟨h84, show (0 : UInt32).toNat + (84 : UInt32).toNat ≤ (84 : UInt32).toNat by decide⟩
  obtain ⟨hmapped, m', hmap⟩ := ElfBuild.mapMemory_headers htable (by
    rw [hheaders, List.forall_mem_singleton]
    exact b.phdrInOrder ((zero_add _).trans_lt hmemsz))
  exact ⟨b, m', hsize, hchecks, htable, hranges, hheaders, hmapped.trans hheaders, hmap⟩

/-- With 84 bytes in memory the process is confined. -/
theorem elf_confined_iff_small :
    ∃ (b : ElfBuild) (m' : Mem), b.TableInside ∧ b.headers = [wideSegment 84] ∧
      processMapMemory b.process b.task b.kernel'.mem = some (0, m') ∧ b.Confined m' := by
  obtain ⟨b, m', hsize, -, htable, hranges, hheaders, -, hmap⟩ :=
    exists_wideElf wideElf_oneHeader.1 (by decide) (by decide)
  refine ⟨b, m', htable, hheaders, hmap,
    (elf_confined_iff b htable hranges hmap le_rfl).mpr ?_⟩
  intro pre phdr post hsplit _ i hi _ _
  have hmem : phdr ∈ b.headers := hsplit ▸ List.mem_append_cons_self
  rw [hheaders] at hmem
  obtain rfl := List.mem_singleton.mp hmem
  obtain ⟨c, hc, haddr⟩ := b.heap.allocated_block b.file
  have hblock := toNat_blockAddr hc
  have hpages : phdrPages b.process.elfFile (wideSegment 84) = 1 := by
    have hphys : elfPhdrPhysAddress b.process.elfFile (wideSegment 84) = blockAddr c := by
      rw [← haddr]
      exact add_zero _
    unfold phdrPages
    rw [hphys, show (wideSegment 84).memsz = 84 from rfl, UInt32.toNat_div, toNat_sub',
      toNat_pagingAlignAddress, toNat_pagingAlignToLowerPage, UInt32.toNat_add, hblock,
      show pagingPageSize.toNat = 4096 from rfl, show (84 : UInt32).toNat = 84 from rfl]
    omega
  left
  rw [hpages] at hi
  obtain rfl : i = 0 := by omega
  rw [hsize]
  decide

/-- With more, it can write behind the end of the heap. -/
theorem elf_not_confined :
    ∃ (b : ElfBuild) (m' : Mem), ElfChecks b.kernel'.mem b.buffer ∧ b.TableInside ∧
      b.RangesInside ∧ processMapMemory b.process b.task b.kernel'.mem = some (0, m') ∧
      ¬ b.Confined m' := by
  obtain ⟨b, m', hsize, hchecks, htable, hranges, hheaders, hmapped, hmap⟩ :=
    exists_wideElf wideElf_oneHeader.2 (by decide) (by decide)
  refine ⟨b, m', hchecks, htable, hranges, hmap, fun hconf => ?_⟩
  obtain ⟨c, hc, haddr⟩ := b.heap.allocated_block b.file
  have hblock := toNat_blockAddr hc
  have hphys : elfPhdrPhysAddress b.process.elfFile (wideSegment 0x0a000054) = blockAddr c := by
    rw [← haddr]
    exact add_zero _
  -- page 30000 of the header is behind the last block of the heap
  have hpages : 30000 < phdrPages b.process.elfFile (wideSegment 0x0a000054) := by
    unfold phdrPages
    rw [hphys, show (wideSegment 0x0a000054).memsz = 0x0a000054 from rfl, UInt32.toNat_div,
      toNat_sub', toNat_pagingAlignAddress, toNat_pagingAlignToLowerPage, UInt32.toNat_add, hblock,
      show pagingPageSize.toNat = 4096 from rfl,
      show (0x0a000054 : UInt32).toNat = 167772244 from rfl]
    omega
  have hframe : (phdrFrame b.process.elfFile (wideSegment 0x0a000054) 30000).toNat =
      139657216 + 4096 * c := by
    unfold phdrFrame
    rw [toNat_off, toNat_pagingAlignToLowerPage, hphys, hblock]
    omega
  have hwritable := (b.writableFrame_iff hmap le_rfl _).mpr (Or.inr ⟨[], wideSegment 0x0a000054, [],
    hmapped, by decide, 30000, hpages, ?_, fun _ h => (nomatch h), rfl⟩)
  · rcases hconf.own _ hwritable with ⟨e, he, d, hd, hx⟩ | ⟨e, he, d, hd, hx⟩
    all_goals
      have hin := b.heap.encodes.packed.inside _ e he
      have hend := hd.2
      rw [kernelHeap_total] at hin
      rw [inBlock_iff (by omega), hframe] at hx
      omega
  · rintro ⟨j, hj, h⟩
    exact stackPage_ne (by decide) j hj h

end PeachOS
