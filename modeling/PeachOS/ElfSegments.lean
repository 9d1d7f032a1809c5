import PeachOS.ElfValidation
import PeachOS.ProcessMap

/-! # The segments of an ELF process

`process_map_elf` on the directory that `task_init` just built.  The program headers are read
from the loaded file while the tables change; the file lies in blocks of its own, so every
round sees the headers that were loaded, and the whole loop performs the history
`elfHistory`: the pages of one header after the other.

For headers with disjoint page ranges the history is read off segment by segment
(`elf_segments`). -/

namespace PeachOS

open ByteMemory Extents WriteHistory

/-- An ELF process whose file and stack are live allocations, with the directory that
`task_init` built for it. -/
structure ElfBuild where
  kernel : Kernel
  live : Layout UInt32
  process : Process
  /-- The length of the file. -/
  size : UInt32
  p : UInt32
  task : Task
  res : ℤ
  kernel' : Kernel
  heap : HeapInv kernelHeap kernel.mem live
  filetype : process.filetype = processFiletypeElf
  file : Allocated live size process.elfFile.elfMemory
  stack : Allocated live peachosUserProgramStackSize process.stack
  init : taskInit p process kernel = ((res, task), kernel')
  ok : kernel'.oom = false

/-- Where the file is. -/
def ElfBuild.buffer (b : ElfBuild) : UInt32 := b.process.elfFile.elfMemory

/-- The number of program headers. -/
def ElfBuild.phnum (b : ElfBuild) : ℕ := (readElfHeader b.kernel'.mem b.buffer).phnum.toNat

/-- Program header `i` of the loaded file. -/
def ElfBuild.phdr (b : ElfBuild) (i : ℕ) : Elf32Phdr :=
  readElf32Phdr b.kernel'.mem (elfProgramHeader b.kernel'.mem b.buffer i)

/-- The file has a program header table, and it lies in the file. -/
def ElfBuild.TableInside (b : ElfBuild) : Prop :=
  (readElfHeader b.kernel'.mem b.buffer).phoff ≠ 0 ∧
    (readElfHeader b.kernel'.mem b.buffer).phoff.toNat + 32 * b.phnum ≤ b.size.toNat

/-! ### Reading the headers -/

/-- The header depends on its first 46 bytes only. -/
theorem readElfHeader_congr {m m' : Mem} {a : UInt32} {n : ℕ} (hn : 46 ≤ n)
    (h : ∀ x, InRange a n x → m' x = m x) : readElfHeader m' a = readElfHeader m a := by
  have hbyte : ∀ j < 46, m' (off a j) = m (off a j) := fun j hj => h _ (inRange_off (by omega))
  have hword : ∀ j, j + 4 ≤ 46 → m'.read32 (off a j) = m.read32 (off a j) := by
    intro j hj
    refine Mem.read32_congr fun x hx => ?_
    obtain ⟨i, hi, rfl⟩ := hx.exists_off
    rw [off_off]
    exact hbyte _ (by omega)
  have hhalf : ∀ j, j + 2 ≤ 46 → read16 m' (off a j) = read16 m (off a j) := by
    intro j hj
    unfold read16
    rw [hbyte j (by omega), off_off, hbyte (j + 1) (by omega)]
  unfold readElfHeader
  rw [hbyte 4 (by omega), hbyte 5 (by omega), hhalf 16 (by omega), hword 24 (by omega),
    hword 28 (by omega), hhalf 44 (by omega)]

/-- A program header depends on its 32 bytes only. -/
theorem readElf32Phdr_congr {m m' : Mem} {a : UInt32} (h : ∀ j < 32, m' (off a j) = m (off a j)) :
    readElf32Phdr m' a = readElf32Phdr m a := by
  have hword : ∀ j, j + 4 ≤ 32 → m'.read32 (off a j) = m.read32 (off a j) := by
    intro j hj
    refine Mem.read32_congr fun x hx => ?_
    obtain ⟨i, hi, rfl⟩ := hx.exists_off
    rw [off_off]
    exact h _ (by omega)
  have hfirst : m'.read32 a = m.read32 a := by
    have := hword 0 (by omega)
    rwa [off_zero] at this
  unfold readElf32Phdr
  rw [hfirst, hword 4 (by omega), hword 8 (by omega), hword 16 (by omega), hword 20 (by omega),
    hword 24 (by omega)]

/-- `m'` holds the blocks of the file as `m` does. -/
def ElfBuild.FileKept (b : ElfBuild) (m m' : Mem) : Prop :=
  ∀ x, InRange b.buffer (4096 * blocksFor b.size) x → m' x = m x

variable {b : ElfBuild} {m : Mem} {s : SpaceBlocks} {f : UInt32 → UInt32}

theorem ElfBuild.size_le (b : ElfBuild) :
    1 ≤ blocksFor b.size ∧ b.size.toNat ≤ 4096 * blocksFor b.size := by
  obtain ⟨e, -, hlen⟩ := b.file
  have := e.len_pos
  refine ⟨by omega, ?_⟩
  unfold blocksFor
  omega

/-- Stores to the tables leave the file alone. -/
theorem ElfBuild.fileKept (hspace : MappedSpace b.kernel b.live b.task b.kernel'.mem s) {m' : Mem}
    (h : ∀ x, ¬ s.InTables x → m' x = m x) : b.FileKept m m' := by
  obtain ⟨e, he, hlen⟩ := b.file
  have hin := b.heap.encodes.packed.inside _ e he
  have haddr : b.buffer = blockAddr e.start := b.heap.address _ e he
  rw [kernelHeap_total] at hin
  intro x hx
  refine h x fun htab => ?_
  obtain ⟨i, hi, hxi⟩ := htab
  rw [haddr, ← hlen] at hx
  obtain ⟨c, hc, hxc⟩ := inExtent_of_inRange hin le_rfl hx
  have hct : c = s.table i :=
    InBlock.unique (by have := hc.2; omega) (s.table_lt i hi) hxc hxi
  exact b.heap.taken he hc (hct ▸ hspace.free _ (Or.inr (Or.inr ⟨i, hi, rfl⟩)))

/-- The number of headers is read again in each round, and stays the same. -/
theorem ElfBuild.FileKept.header (h : b.FileKept b.kernel'.mem m) :
    readElfHeader m b.buffer = readElfHeader b.kernel'.mem b.buffer := by
  have := b.size_le
  exact readElfHeader_congr (n := 4096 * blocksFor b.size) (by omega) h

/-- The headers are in the file. -/
theorem ElfBuild.programHeader_eq (htable : b.TableInside) (i : ℕ) :
    elfProgramHeader b.kernel'.mem b.buffer i =
      off b.buffer ((readElfHeader b.kernel'.mem b.buffer).phoff.toNat + 32 * i) := by
  unfold elfProgramHeader elfPheader
  dsimp only
  rw [if_neg htable.1, ← off_off]
  congr 1
  unfold off
  rw [UInt32.ofNat_toNat]

theorem ElfBuild.FileKept.phdr (h : b.FileKept b.kernel'.mem m) (htable : b.TableInside) {i : ℕ}
    (hi : i < b.phnum) :
    readElf32Phdr m (elfProgramHeader b.kernel'.mem b.buffer i) = b.phdr i := by
  have hsize := b.size_le
  have hinside := htable.2
  unfold ElfBuild.phdr
  refine readElf32Phdr_congr fun j hj => h _ ?_
  rw [b.programHeader_eq htable, off_off]
  exact inRange_off (by omega)

/-! ### The loop -/

/-- The writes for one program header. -/
def phdrHistory (elfFile : ElfFile) (phdr : Elf32Phdr) : List (UInt32 × UInt32) :=
  mapHistory (pagingAlignToLowerPage phdr.vaddr)
    (pagingAlignToLowerPage (elfPhdrPhysAddress elfFile phdr))
    (pagingAlignAddress (elfPhdrPhysAddress elfFile phdr + phdr.memsz)) (phdrFlags phdr)

/-- The physical end of the header's pages does not come before their start: the only way in
which `paging_map_to` can refuse a header. -/
def PhdrInOrder (elfFile : ElfFile) (phdr : Elf32Phdr) : Prop :=
  ¬ pagingAlignAddress (elfPhdrPhysAddress elfFile phdr + phdr.memsz) <
    pagingAlignToLowerPage (elfPhdrPhysAddress elfFile phdr)

theorem processMapPhdr_spec {elfFile : ElfFile} {task : Task} {phdr : Elf32Phdr}
    (hdir : task.pageDirectory = blockAddr s.chunk) (hrep : Represents m s f)
    (horder : PhdrInOrder elfFile phdr) :
    ∃ m', processMapPhdr elfFile task phdr m = (0, m') ∧
      Represents m' s (replay f (phdrHistory elfFile phdr)) ∧
      ∀ x, ¬ s.InTables x → m' x = m x := by
  unfold processMapPhdr
  rw [hdir]
  exact pagingMapTo_spec hrep (pageAligned_pagingAlignToLowerPage _)
    (pageAligned_pagingAlignToLowerPage _) (pageAligned_pagingAlignAddress _) horder _

theorem processMapPhdr_refused {elfFile : ElfFile} {task : Task} {phdr : Elf32Phdr}
    (horder : ¬ PhdrInOrder elfFile phdr) (m : Mem) :
    processMapPhdr elfFile task phdr m = (-EINVARG, m) :=
  pagingMapTo_of_lt (pageAligned_pagingAlignToLowerPage _) (pageAligned_pagingAlignToLowerPage _)
    (not_not.mp horder) _ _ _

/-- The writes of the loop from header `i` on, for `left` headers. -/
def ElfBuild.history (b : ElfBuild) (i left : ℕ) : List (UInt32 × UInt32) :=
  (List.range' i left).flatMap fun j => phdrHistory b.process.elfFile (b.phdr j)

/-- The loop of `process_map_elf` from round `i` on, by induction on the headers that remain:
when it succeeds, it has performed the writes of all of them. -/
theorem processMapElfLoop_spec (hspace : MappedSpace b.kernel b.live b.task b.kernel'.mem s)
    (htable : b.TableInside) : ∀ (left i : ℕ) {m : Mem} {f : UInt32 → UInt32},
      i + left = b.phnum → Represents m s f → b.FileKept b.kernel'.mem m →
      let r := processMapElfLoop b.process.elfFile b.task b.buffer
        (elfPheader b.kernel'.mem b.buffer) i 0 m
      ((∀ j, i ≤ j → j < b.phnum → PhdrInOrder b.process.elfFile (b.phdr j)) ↔ 0 ≤ r.1) ∧
      (0 ≤ r.1 → r.1 = 0 ∧ Represents r.2 s (replay f (b.history i left)) ∧
        ∀ x, ¬ s.InTables x → r.2 x = m x)
  | 0, i, m, f, hi, hrep, hkept => by
      have hend : ¬ i < (readElfHeader m b.buffer).phnum.toNat := by
        rw [hkept.header]
        unfold ElfBuild.phnum at hi
        omega
      dsimp only
      rw [processMapElfLoop, dif_neg hend]
      exact ⟨iff_of_true (fun j hj hjn => by omega) le_rfl,
        fun _ => ⟨rfl, hrep, fun x _ => rfl⟩⟩
  | left + 1, i, m, f, hi, hrep, hkept => by
      have hin : i < b.phnum := by omega
      have hround : i < (readElfHeader m b.buffer).phnum.toNat := by
        rw [hkept.header]
        exact hin
      have hphdr : readElf32Phdr m (off (elfPheader b.kernel'.mem b.buffer) (32 * i)) = b.phdr i :=
        hkept.phdr htable hin
      dsimp only
      rw [processMapElfLoop, dif_pos hround, hphdr]
      by_cases horder : PhdrInOrder b.process.elfFile (b.phdr i)
      · obtain ⟨m₁, hmap, hrep₁, hframe₁⟩ := processMapPhdr_spec hspace.directory hrep horder
        rw [hmap]
        dsimp only
        rw [if_neg (by decide)]
        have hkept₁ : b.FileKept b.kernel'.mem m₁ := fun x hx =>
          (b.fileKept hspace hframe₁ x hx).trans (hkept x hx)
        obtain ⟨hiff, hspec⟩ := processMapElfLoop_spec hspace htable left (i + 1) (by omega) hrep₁
          hkept₁
        refine ⟨?_, fun hres => ?_⟩
        · rw [← hiff]
          constructor
          · exact fun h j hj hjn => h j (by omega) hjn
          · intro h j hj hjn
            rcases Nat.lt_or_ge i j with hlt | hge
            · exact h j hlt hjn
            · obtain rfl : j = i := by omega
              exact horder
        · obtain ⟨hzero, hrep', hframe'⟩ := hspec hres
          refine ⟨hzero, ?_, fun x hx => (hframe' x hx).trans (hframe₁ x hx)⟩
          unfold ElfBuild.history at hrep' ⊢
          rw [List.range'_succ, List.flatMap_cons, replay_append]
          exact hrep'
      · rw [processMapPhdr_refused horder]
        dsimp only
        rw [if_pos (by decide)]
        have hneg : ¬ (0 : ℤ) ≤ -EINVARG := by decide
        exact ⟨iff_of_false (fun h => horder (h i le_rfl hin)) hneg, fun h => absurd h hneg⟩

/-- `process_map_elf` on a new directory. -/
theorem ElfBuild.map (htable : b.TableInside) :
    ∃ s, MappedSpace b.kernel b.live b.task b.kernel'.mem s ∧
      let r := processMapElf b.process b.task b.kernel'.mem
      ((∀ j < b.phnum, PhdrInOrder b.process.elfFile (b.phdr j)) ↔ 0 ≤ r.1) ∧
      (0 ≤ r.1 → r.1 = 0 ∧
        Represents r.2 s (replay (fun w => w ||| pageFlagsRead) (b.history 0 b.phnum)) ∧
        ∀ x, ¬ s.InTables x → r.2 x = b.kernel'.mem x) := by
  obtain ⟨-, s, hspace⟩ := taskInit_spec b.heap b.init b.ok
  obtain ⟨hiff, hspec⟩ := processMapElfLoop_spec hspace htable b.phnum 0 (Nat.zero_add _)
    hspace.identity fun x _ => rfl
  exact ⟨s, hspace, hiff.symm.trans (by simp) |>.symm, hspec⟩

/-! ### Segments -/

/-- A loadable segment of a file of `size` bytes at `buffer`: its bytes lie in the file, the
offset and the address agree within a page, and nothing wraps. -/
structure ElfSegment (buffer : UInt32) (size : ℕ) (phdr : Elf32Phdr) : Prop where
  load : phdr.type = ptLoad
  filesz_le : phdr.filesz.toNat ≤ phdr.memsz.toNat
  inside : phdr.offset.toNat + phdr.filesz.toNat ≤ size
  congruent : phdr.offset.toNat % 4096 = phdr.vaddr.toNat % 4096
  virt : phdr.vaddr.toNat + phdr.memsz.toNat < 4294967296
  phys : buffer.toNat + phdr.offset.toNat + phdr.memsz.toNat < 4294967296

/-- The address `w` lies in the pages of the segment, from the page of its first byte to the
end of the page of its last. -/
def InPages (phdr : Elf32Phdr) (w : ℕ) : Prop :=
  phdr.vaddr.toNat / 4096 * 4096 ≤ w ∧
    w < (phdr.vaddr.toNat + phdr.memsz.toNat + 4095) / 4096 * 4096

/-- The physical address that a virtual address is translated to. -/
def translate (directory v : UInt32) (m : Mem) : UInt32 :=
  off (frameOf (pagingGet directory (pagingAlignToLowerPage v) m)) (v.toNat % 4096)

section Segment

variable {elfFile : ElfFile} {size : ℕ} {phdr : Elf32Phdr}

/-- The file starts at a page other than the first. -/
def ElfFile.OnPage (elfFile : ElfFile) : Prop :=
  elfFile.elfMemory.toNat % 4096 = 0 ∧ 0 < elfFile.elfMemory.toNat

/-- The number of pages is the same on the virtual and on the physical side. -/
theorem ElfSegment.pages (h : ElfSegment elfFile.elfMemory size phdr)
    (hbuffer : elfFile.OnPage) (horder : PhdrInOrder elfFile phdr) :
    (elfPhdrPhysAddress elfFile phdr).toNat = elfFile.elfMemory.toNat + phdr.offset.toNat ∧
    4096 * ((pagingAlignAddress (elfPhdrPhysAddress elfFile phdr + phdr.memsz) -
      pagingAlignToLowerPage (elfPhdrPhysAddress elfFile phdr)) / pagingPageSize).toNat =
        (phdr.vaddr.toNat + phdr.memsz.toNat + 4095) / 4096 * 4096 -
          phdr.vaddr.toNat / 4096 * 4096 := by
  have hcong := h.congruent
  have hphys := h.phys
  have haddr : (elfPhdrPhysAddress elfFile phdr).toNat =
      elfFile.elfMemory.toNat + phdr.offset.toNat := by
    unfold elfPhdrPhysAddress elfMemory
    rw [UInt32.toNat_add]
    omega
  have hend : (elfPhdrPhysAddress elfFile phdr + phdr.memsz).toNat =
      elfFile.elfMemory.toNat + phdr.offset.toNat + phdr.memsz.toNat := by
    rw [UInt32.toNat_add, haddr]
    omega
  obtain ⟨haligned, hpos⟩ := hbuffer
  have hceil := toNat_pagingAlignAddress (elfPhdrPhysAddress elfFile phdr + phdr.memsz)
  have hfloor := toNat_pagingAlignToLowerPage (elfPhdrPhysAddress elfFile phdr)
  rw [hend] at hceil
  rw [haddr] at hfloor
  -- an end that wraps to zero lies before the start
  have hnowrap : (elfFile.elfMemory.toNat + phdr.offset.toNat + phdr.memsz.toNat + 4095) / 4096 *
      4096 < 4294967296 := by
    by_contra hwrap
    refine horder ?_
    rw [UInt32.lt_iff_toNat_lt, hceil, hfloor]
    omega
  rw [Nat.mod_eq_of_lt hnowrap] at hceil
  refine ⟨haddr, ?_⟩
  rw [UInt32.toNat_div, UInt32.toNat_sub_of_le, hceil, hfloor,
    show pagingPageSize.toNat = 4096 from rfl]
  · omega
  · rw [UInt32.le_iff_toNat_le, hceil, hfloor]
    omega

/-- Outside its pages a segment writes nothing. -/
theorem ElfSegment.lastWrite_eq_none (h : ElfSegment elfFile.elfMemory size phdr)
    (hbuffer : elfFile.OnPage) (horder : PhdrInOrder elfFile phdr) {w : UInt32}
    (hw : ¬ InPages phdr w.toNat) : lastWrite (phdrHistory elfFile phdr) w = none := by
  obtain ⟨-, hpages⟩ := h.pages hbuffer horder
  have hvirt := h.virt
  unfold phdrHistory
  rw [lastWrite_mapHistory_eq_none_iff]
  rintro i hi rfl
  refine hw ?_
  unfold InPages
  rw [toNat_off, toNat_pagingAlignToLowerPage]
  omega

/-- The page of byte `k` is mapped to the frame of that byte. -/
theorem ElfSegment.lastWrite_page (h : ElfSegment elfFile.elfMemory size phdr)
    (hbuffer : elfFile.OnPage) (horder : PhdrInOrder elfFile phdr) {k : ℕ}
    (hk : k < phdr.memsz.toNat) :
    InPages phdr (pagingAlignToLowerPage (off phdr.vaddr k)).toNat ∧
    ∃ frame, PageAligned frame ∧
      lastWrite (phdrHistory elfFile phdr) (pagingAlignToLowerPage (off phdr.vaddr k)) =
        some (frame ||| phdrFlags phdr) ∧
      off frame ((off phdr.vaddr k).toNat % 4096) =
        off elfFile.elfMemory (phdr.offset.toNat + k) := by
  obtain ⟨hphys, hpages⟩ := h.pages hbuffer horder
  have hvirt := h.virt
  have hcong := h.congruent
  have hwrap := h.phys
  have hv : (off phdr.vaddr k).toNat = phdr.vaddr.toNat + k := toNat_off_of_lt (by omega)
  have hpage : pagingAlignToLowerPage (off phdr.vaddr k) =
      off (pagingAlignToLowerPage phdr.vaddr) (4096 * ((phdr.vaddr.toNat % 4096 + k) / 4096)) := by
    apply UInt32.toNat.inj
    rw [toNat_off, toNat_pagingAlignToLowerPage, toNat_pagingAlignToLowerPage, hv]
    omega
  refine ⟨?_, off (pagingAlignToLowerPage (elfPhdrPhysAddress elfFile phdr))
    (4096 * ((phdr.vaddr.toNat % 4096 + k) / 4096)), ?_, ?_, ?_⟩
  · unfold InPages
    rw [toNat_pagingAlignToLowerPage, hv]
    omega
  · exact pageAligned_off (pageAligned_pagingAlignToLowerPage _) _
  · rw [hpage]
    exact lastWrite_mapHistory _ _ _ _ (by omega)
  · have haligned := hbuffer.1
    apply UInt32.toNat.inj
    rw [hv, toNat_off, toNat_off, toNat_off, toNat_pagingAlignToLowerPage, hphys]
    omega

theorem phdrFlags_lt (phdr : Elf32Phdr) : (phdrFlags phdr).toNat < 4096 := by
  unfold phdrFlags
  split_ifs <;> decide

/-- The flags of a page of the segment. -/
theorem flags_of_phdr (phdr : Elf32Phdr) {frame : UInt32} (hframe : PageAligned frame) :
    (frame ||| phdrFlags phdr) &&& pagingAccessFromAll ≠ 0 ∧
      ((frame ||| phdrFlags phdr) &&& pagingIsWritable ≠ 0 ↔ phdr.flags &&& pfW ≠ 0) := by
  unfold PageAligned at hframe
  have hor := toNat_or_of_aligned hframe (phdrFlags_lt phdr)
  rw [and_two_pow_ne_zero_iff (i := 2) _ rfl, and_two_pow_ne_zero_iff (i := 1) _ rfl, hor]
  unfold phdrFlags
  by_cases hw : phdr.flags &&& pfW ≠ 0
  · rw [if_pos hw, show (pageFlagsRead ||| pagingIsWritable).toNat = 7 from rfl]
    exact ⟨by omega, iff_of_true (by omega) hw⟩
  · rw [if_neg hw, show pageFlagsRead.toNat = 5 from rfl]
    exact ⟨by omega, iff_of_false (by omega) hw⟩

end Segment

/-- **Segments appear at their addresses.**  For a file whose program headers are loadable
segments with disjoint pages, once `process_map_elf` has succeeded on a new directory, each
address of the loaded part of a segment is translated to the byte of the file, in a page that
user mode may read, and write exactly when the header says so; every other page keeps its
entry. -/
theorem elf_segments (b : ElfBuild) (htable : b.TableInside)
    (hseg : ∀ i < b.phnum, ElfSegment b.buffer b.size.toNat (b.phdr i))
    (hdisj : ∀ i < b.phnum, ∀ j < b.phnum, i ≠ j →
      ∀ w, InPages (b.phdr i) w → ¬ InPages (b.phdr j) w)
    {m' : Mem} (hmap : processMapElf b.process b.task b.kernel'.mem = (0, m')) :
    (∀ i < b.phnum, ∀ k < (b.phdr i).filesz.toNat,
      let directory := paging4gbChunkGetDirectory b.task.pageDirectory m'
      let v := off (b.phdr i).vaddr k
      let entry := pagingGet directory (pagingAlignToLowerPage v) m'
      translate directory v m' = off b.buffer ((b.phdr i).offset.toNat + k) ∧
        entry &&& pagingAccessFromAll ≠ 0 ∧
        (entry &&& pagingIsWritable ≠ 0 ↔ (b.phdr i).flags &&& pfW ≠ 0)) ∧
    ∀ w, PageAligned w → (∀ i < b.phnum, ¬ InPages (b.phdr i) w.toNat) →
      pagingGet (paging4gbChunkGetDirectory b.task.pageDirectory m') w m' =
        pagingGet (paging4gbChunkGetDirectory b.task.pageDirectory b.kernel'.mem) w
          b.kernel'.mem := by
  obtain ⟨s, hspace, hiff, hspec⟩ := b.map htable
  rw [hmap] at hiff hspec
  obtain ⟨-, hrep, -⟩ := hspec le_rfl
  have horder := hiff.mpr le_rfl
  have hbuffer : b.process.elfFile.OnPage := by
    obtain ⟨c, hc, haddr⟩ := b.heap.allocated_block b.file
    unfold ElfFile.OnPage
    rw [haddr, toNat_blockAddr hc]
    omega
  have hdir : paging4gbChunkGetDirectory b.task.pageDirectory m' = blockAddr s.directory := by
    unfold paging4gbChunkGetDirectory
    rw [hspace.directory, hrep.tables.chunk]
  have hdir₀ : paging4gbChunkGetDirectory b.task.pageDirectory b.kernel'.mem =
      blockAddr s.directory := by
    unfold paging4gbChunkGetDirectory
    rw [hspace.directory, hspace.identity.tables.chunk]
  have hget : ∀ w, PageAligned w → pagingGet (blockAddr s.directory) w m' =
      (lastWrite (b.history 0 b.phnum) w).getD (w ||| pageFlagsRead) := by
    intro w hw
    rw [pagingGet_spec hrep hw, replay_apply]
  have hmem : ∀ i, i ∈ List.range' 0 b.phnum ↔ i < b.phnum := by
    intro i
    simp [List.mem_range']
  rw [hdir, hdir₀]
  refine ⟨fun i hi k hk => ?_, fun w hw hout => ?_⟩
  · have hsegi : ElfSegment b.process.elfFile.elfMemory b.size.toNat (b.phdr i) := hseg i hi
    obtain ⟨hin, frame, hframe, hlast, htrans⟩ :=
      hsegi.lastWrite_page hbuffer (horder i hi) (hk.trans_le hsegi.filesz_le)
    have hentry : pagingGet (blockAddr s.directory)
        (pagingAlignToLowerPage (off (b.phdr i).vaddr k)) m' = frame ||| phdrFlags (b.phdr i) := by
      rw [hget _ (pageAligned_pagingAlignToLowerPage _)]
      unfold ElfBuild.history
      rw [lastWrite_flatMap (i := i) (h := fun j => phdrHistory b.process.elfFile (b.phdr j))
        hlast ((hmem i).mpr hi) fun j hj hji => ?_]
      · rfl
      · have hj := (hmem j).mp hj
        exact (hseg j hj).lastWrite_eq_none hbuffer (horder j hj)
          (hdisj i hi j hj (Ne.symm hji) _ hin)
    obtain ⟨huser, hwrite⟩ := flags_of_phdr (b.phdr i) hframe
    dsimp only
    unfold translate frameOf
    rw [hentry, or_and_frame hframe (phdrFlags_lt _)]
    exact ⟨htrans, huser, hwrite⟩
  · rw [hget w hw, pagingGet_spec hspace.identity hw]
    unfold ElfBuild.history
    rw [lastWrite_flatMap_eq_none fun j hj => ?_]
    · rfl
    · have hj := (hmem j).mp hj
      exact (hseg j hj).lastWrite_eq_none hbuffer (horder j hj) (hout j hj)

/-! ### A process to map -/

/-- The bytes of a file at address 0. -/
def dataImage (data : ℕ → UInt8) : Mem := fun x => data x.toNat

/-- A process whose file of at most one block has the given bytes can be built while there is
room at the top of the heap. -/
theorem exists_elfBuild {k : Kernel} {live : Layout UInt32} {n : ℕ} (h : TopFree k live n)
    (hn : n ≤ 24000) {size : UInt32} (h1 : 1 ≤ size.toNat) (h2 : size.toNat ≤ 4096)
    (data : ℕ → UInt8) :
    ∃ b : ElfBuild, b.size = size ∧ b.buffer = (kzalloc size (kzalloc 16384 k).2).1 ∧
      ∀ i < size.toNat, b.kernel'.mem (off b.buffer i) = data i := by
  have hone : blocksFor size = 1 := by unfold blocksFor; omega
  have hfour : blocksFor 16384 = 4 := by decide
  obtain ⟨stack, k₁, live₁, hk₁, htop₁, hstack, -, -⟩ := h.kzalloc 16384 (by decide) (by omega)
  obtain ⟨buffer, k₂, live₂, hk₂, htop₂, hfile, -, hkeep⟩ := htop₁.kzalloc size h1 (by omega)
  obtain ⟨e, he, hlen⟩ := hfile
  have haddr : buffer = blockAddr e.start := htop₂.heap.address _ e he
  have hin := htop₂.heap.encodes.packed.inside _ e he
  have hpos := e.len_pos
  rw [kernelHeap_total] at hin
  -- the file is read into its block
  obtain ⟨k₃, hk₃⟩ : ∃ k₃ : Kernel, k₃ = ⟨writeBytes k₂.mem buffer data size.toNat, k₂.oom⟩ :=
    ⟨_, rfl⟩
  have htop₃ : TopFree k₃ live₂ (n + 4 + 1) := by
    rw [hone, hfour] at htop₂
    refine htop₂.write (by rw [hk₃]; exact htop₂.ok) fun x hx => ?_
    rw [hk₃]
    dsimp only
    rw [writeBytes_apply _ _ _ _ _ (by omega), if_neg fun hr => ?_]
    rw [haddr] at hr
    exact InBlock.not_inTable (by omega) (lt_of_lt_of_le hr h2) hx
  have hok : (pagingNew4gb (1 ||| 4) k₃).2.oom = false := by
    have hcard := htop₃.card_le
    exact pagingNew4gb_ok htop₃.ok (by omega)
  rcases hnew : pagingNew4gb (1 ||| 4) k₃ with ⟨chunk, k₄⟩
  rw [hnew] at hok
  let process : Process :=
    { processInit with
      filetype := processFiletypeElf
      elfFile := { elfFileZero with elfMemory := buffer }
      stack := stack }
  let b : ElfBuild := ⟨k₃, live₂, process, size, 0, _, _, k₄, htop₃.heap, rfl, ⟨e, he, hlen⟩,
    hstack.mono hkeep, taskInit_eq hnew, hok⟩
  refine ⟨b, rfl, by rw [hk₁, hk₂]; rfl, fun i hi => ?_⟩
  obtain ⟨-, s, hspace⟩ := taskInit_spec b.heap b.init b.ok
  have htaken : ¬ EntryFree kernelHeap k₃.mem e.start := htop₃.heap.taken he e.has_start
  have hblock : InBlock e.start (off buffer i) := by
    rw [haddr]
    exact inRange_off (by omega)
  change k₄.mem (off buffer i) = data i
  rw [show k₄.mem (off buffer i) = k₃.mem (off buffer i) from
    hspace.same e.start (by omega) htaken _ hblock, hk₃]
  dsimp only
  have hlt := toNat_lt size
  rw [writeBytes_apply _ _ _ _ _ (by omega), if_pos (inRange_off hi)]
  congr 1
  have := toNat_lt buffer
  rw [toNat_sub', toNat_off]
  omega

/-- The headers of such a process are those of its file. -/
theorem ElfBuild.headers_of_data {b : ElfBuild} {data : ℕ → UInt8} {n : ℕ} (hn : 46 ≤ n)
    (hn' : n ≤ 4294967296) (hdata : ∀ i < n, b.kernel'.mem (off b.buffer i) = data i) :
    readElfHeader b.kernel'.mem b.buffer = readElfHeader (dataImage data) 0 ∧
      ∀ a : UInt32, a.toNat + 32 ≤ n →
        readElf32Phdr b.kernel'.mem (b.buffer + a) = readElf32Phdr (dataImage data) a := by
  obtain ⟨m, hm⟩ : ∃ m : Mem, m = fun x => data (x - b.buffer).toNat := ⟨_, rfl⟩
  have hshift : Shifted (dataImage data) m b.buffer := by
    intro x
    rw [hm]
    dsimp only [dataImage]
    rw [add_sub_cancel_left]
  have hsame : ∀ x, InRange b.buffer n x → b.kernel'.mem x = m x := by
    intro x hx
    obtain ⟨i, hi, rfl⟩ := hx.exists_off
    rw [hdata i hi, hm]
    dsimp only
    congr 1
    have := toNat_lt b.buffer
    rw [toNat_sub', toNat_off]
    omega
  refine ⟨?_, fun a ha => ?_⟩
  · rw [readElfHeader_congr hn hsame, hshift.header]
  · rw [← hshift.phdr]
    refine readElf32Phdr_congr fun j hj => hsame _ ?_
    rw [off_add]
    unfold InRange
    rw [add_sub_cancel_left, toNat_off_of_lt (by omega)]
    omega

/-- A process of a file whose `n` program headers follow the ELF header. -/
theorem exists_headersBuild {data : ℕ → UInt8} {n : ℕ} {size : UInt32}
    (hnum : (readElfHeader (dataImage data) 0).phnum.toNat = n)
    (hphoff : (readElfHeader (dataImage data) 0).phoff = 52) (hend : 52 + 32 * n ≤ size.toNat)
    (h4096 : size.toNat ≤ 4096) :
    ∃ b : ElfBuild, b.size = size ∧ b.buffer = (kzalloc size (kzalloc 16384 freshKernel).2).1 ∧
      b.phnum = n ∧ b.TableInside ∧
      (∀ i < n, b.phdr i = readElf32Phdr (dataImage data) (off 52 (32 * i))) ∧
      ∀ i < size.toNat, b.kernel'.mem (off b.buffer i) = data i := by
  obtain ⟨b, hsize, hbuffer, hdata⟩ := exists_elfBuild freshKernel_topFree (n := 0) (by norm_num)
    (show 1 ≤ size.toNat by omega) h4096 data
  obtain ⟨hheader, hphdr⟩ := ElfBuild.headers_of_data (by omega) (by omega) hdata
  rw [← hheader] at hnum hphoff
  change b.phnum = n at hnum
  have htable : b.TableInside := by
    unfold ElfBuild.TableInside
    rw [hphoff, hnum, hsize]
    exact ⟨by decide, hend⟩
  refine ⟨b, hsize, hbuffer, hnum, htable, fun i hi => ?_, hdata⟩
  have hplace : off b.buffer ((52 : UInt32).toNat + 32 * i) = b.buffer + off 52 (32 * i) := by
    rw [off_eq_add, ← off_off]
    rfl
  unfold ElfBuild.phdr
  rw [b.programHeader_eq htable, hphoff, hplace]
  refine hphdr _ ?_
  rw [toNat_off_of_lt (by rw [show (52 : UInt32).toNat = 52 from rfl]; omega),
    show (52 : UInt32).toNat = 52 from rfl]
  omega

/-- The range of a header does not wrap unless it is very long. -/
theorem ElfBuild.phdrInOrder (b : ElfBuild) {phdr : Elf32Phdr}
    (hlt : phdr.offset.toNat + phdr.memsz.toNat < 4000000000) :
    PhdrInOrder b.process.elfFile phdr := by
  obtain ⟨c, hc, haddr⟩ := b.heap.allocated_block b.file
  have hblock := toNat_blockAddr hc
  unfold PhdrInOrder elfPhdrPhysAddress elfMemory
  rw [haddr, UInt32.lt_iff_toNat_lt, toNat_pagingAlignAddress, toNat_pagingAlignToLowerPage,
    UInt32.toNat_add, UInt32.toNat_add, hblock]
  omega

theorem memcmp_congr {c c' d : ℕ → UInt8} : ∀ (n i : ℕ), (∀ j < n, c' (i + j) = c (i + j)) →
    memcmp c' d i n = memcmp c d i n
  | 0, _, _ => rfl
  | n + 1, i, h => by
      have hi : c' i = c i := h 0 (Nat.succ_pos n)
      unfold memcmp
      rw [hi, memcmp_congr n (i + 1) fun j hj => ?_]
      rw [show i + 1 + j = i + (j + 1) by omega]
      exact h (j + 1) (by omega)

/-- The checks of the loader depend on the bytes of the file only. -/
theorem ElfBuild.checks_of_data {b : ElfBuild} {data : ℕ → UInt8} {n : ℕ} (hn : 46 ≤ n)
    (hn' : n ≤ 4294967296) (hdata : ∀ i < n, b.kernel'.mem (off b.buffer i) = data i) :
    ElfChecks b.kernel'.mem b.buffer ↔ ElfChecks (dataImage data) 0 := by
  have hsig : elfValidSignature b.kernel'.mem b.buffer =
      elfValidSignature (dataImage data) 0 := by
    unfold elfValidSignature
    rw [memcmp_congr elfSignature.length 0 fun j hj => ?_]
    have hj' : j < 4 := hj
    rw [zero_add, hdata j (by omega)]
    unfold dataImage
    rw [toNat_off_of_lt (by rw [UInt32.toNat_zero]; omega), UInt32.toNat_zero, zero_add]
  unfold ElfChecks
  rw [hsig, (ElfBuild.headers_of_data hn hn' hdata).1]

/-- A file of 116 bytes with two program headers.  The first one loads the whole file at
`0x400000`, the second one 16 bytes of it at `0x401064`, with 16 more and writable. -/
def twoSegmentElf : ℕ → UInt8
  | 0 => 0x7f
  | 1 => 0x45
  | 2 => 0x4c
  | 3 => 0x46
  | 28 => 52
  | 44 => 2
  | 52 => 1
  | 62 => 0x40
  | 68 => 116
  | 72 => 116
  | 76 => 5
  | 84 => 1
  | 88 => 100
  | 92 => 0x64
  | 93 => 0x10
  | 94 => 0x40
  | 100 => 16
  | 104 => 32
  | 108 => 6
  | _ => 0

/-- Its headers. -/
def twoSegmentFirst : Elf32Phdr := ⟨1, 0, 0x400000, 116, 116, 5⟩
def twoSegmentSecond : Elf32Phdr := ⟨1, 100, 0x401064, 16, 32, 6⟩

/-- A process of it, mapped. -/
theorem exists_twoSegmentElf : ∃ (b : ElfBuild) (m' : Mem),
    processMapElf b.process b.task b.kernel'.mem = (0, m') ∧ b.size = 116 ∧ b.TableInside ∧
      b.phnum = 2 ∧ b.phdr 0 = twoSegmentFirst ∧ b.phdr 1 = twoSegmentSecond := by
  have hnum : (readElfHeader (dataImage twoSegmentElf) 0).phnum.toNat = 2 := by decide
  obtain ⟨b, hsize, -, hphnum, htable, hphdr, -⟩ := exists_headersBuild hnum (by decide)
    (show 52 + 32 * 2 ≤ (116 : UInt32).toNat by decide) (by decide)
  have hzero : b.phdr 0 = twoSegmentFirst := (hphdr 0 (by decide)).trans (by decide)
  have hone : b.phdr 1 = twoSegmentSecond := (hphdr 1 (by decide)).trans (by decide)
  obtain ⟨s, -, hiff, hspec⟩ := b.map htable
  have hres := hiff.mp fun j hj => by
    obtain rfl | rfl : j = 0 ∨ j = 1 := by omega
    · rw [hzero]
      exact b.phdrInOrder (by decide)
    · rw [hone]
      exact b.phdrInOrder (by decide)
  exact ⟨b, _, Prod.ext (hspec hres).1 rfl, hsize, htable, hphnum, hzero, hone⟩

/-- Its segments lie in the file, on different pages. -/
theorem twoSegment_disjoint : ∀ w, InPages twoSegmentFirst w → ¬ InPages twoSegmentSecond w := by
  intro w hw hw'
  unfold InPages at hw hw'
  unfold twoSegmentFirst at hw
  unfold twoSegmentSecond at hw'
  simp only [UInt32.reduceToNat] at hw hw'
  omega

theorem twoSegment_elfSegment (b : ElfBuild) : ElfSegment b.buffer 116 twoSegmentFirst ∧
    ElfSegment b.buffer 116 twoSegmentSecond := by
  obtain ⟨c, hc, haddr⟩ := b.heap.allocated_block b.file
  have hbuffer : b.buffer.toNat = 16777216 + 4096 * c := by
    rw [← toNat_blockAddr hc, ← haddr]
    rfl
  refine ⟨⟨rfl, by decide, by decide, by decide, by decide, ?_⟩,
    rfl, by decide, by decide, by decide, by decide, ?_⟩
  · unfold twoSegmentFirst
    simp only [UInt32.reduceToNat]
    omega
  · unfold twoSegmentSecond
    simp only [UInt32.reduceToNat]
    omega

/-- Byte 10 of that file is found at `0x40000a`, in a page that is read only, and byte 103 at
`0x401067`, in a page that is writable. -/
theorem elf_segments_two :
    ∃ (b : ElfBuild) (m' : Mem), processMapElf b.process b.task b.kernel'.mem = (0, m') ∧
      let directory := paging4gbChunkGetDirectory b.task.pageDirectory m'
      translate directory (off 0x400000 10) m' = off b.buffer 10 ∧
        translate directory (off 0x401064 3) m' = off b.buffer 103 ∧
        pagingGet directory 0x400000 m' &&& pagingIsWritable = 0 ∧
        pagingGet directory 0x401000 m' &&& pagingIsWritable ≠ 0 := by
  obtain ⟨b, m', hmap, hsize, htable, hphnum, hzero, hone⟩ := exists_twoSegmentElf
  have hcases : ∀ i < b.phnum, i = 0 ∨ i = 1 := fun i hi => by omega
  have hseg : ∀ i < b.phnum, ElfSegment b.buffer b.size.toNat (b.phdr i) := by
    intro i hi
    rw [hsize]
    rcases hcases i hi with rfl | rfl
    · rw [hzero]
      exact (twoSegment_elfSegment b).1
    · rw [hone]
      exact (twoSegment_elfSegment b).2
  have hdisj : ∀ i < b.phnum, ∀ j < b.phnum, i ≠ j →
      ∀ w, InPages (b.phdr i) w → ¬ InPages (b.phdr j) w := by
    intro i hi j hj hij w hw hw'
    rcases hcases i hi with rfl | rfl <;> rcases hcases j hj with rfl | rfl
    · exact hij rfl
    · exact twoSegment_disjoint w (hzero ▸ hw) (hone ▸ hw')
    · exact twoSegment_disjoint w (hzero ▸ hw') (hone ▸ hw)
    · exact hij rfl
  obtain ⟨hall, -⟩ := elf_segments b htable hseg hdisj hmap
  have hfirst := hall 0 (by omega) 10 (by rw [hzero]; decide)
  have hsecond := hall 1 (by omega) 3 (by rw [hone]; decide)
  rw [hzero] at hfirst
  rw [hone] at hsecond
  exact ⟨b, m', hmap, hfirst.1, hsecond.1, not_not.mp (mt hfirst.2.2.mp (by decide)),
    hsecond.2.2.mpr (by decide)⟩

end PeachOS
