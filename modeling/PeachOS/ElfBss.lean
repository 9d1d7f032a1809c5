import PeachOS.ElfSpace

/-! # Data without bytes in the file

The bytes of a segment from `p_filesz` to `p_memsz`.  `process_map_elf` maps the pages of a
segment onto the loaded file and stores to no byte of them, so what a program finds there is
what was in memory already: the rest of the file, or what comes after it.  Only the tables of
the process change on the way (`BlankAt`). -/

namespace PeachOS

open ByteMemory Extents WriteHistory

/-! ### Bytes and entries -/

variable {m m' : Mem} {s : SpaceBlocks} {space : UInt32 → UInt32}

/-- A byte of a word that was read. -/
theorem byteOf_read32 (m : Mem) (a : UInt32) {j : ℕ} (hj : j < 4) :
    byteOf (m.read32 a) j = m (off a j) := by
  have h0 := (m a).toNat_lt
  have h1 := (m (off a 1)).toNat_lt
  have h2 := (m (off a 2)).toNat_lt
  have h3 := (m (off a 3)).toNat_lt
  apply UInt8.toNat.inj
  unfold byteOf Mem.read32
  rw [UInt8.toNat_ofNat', UInt32.toNat_ofNat']
  interval_cases j
  · rw [off_zero]
    omega
  all_goals omega

/-- Each byte of the tables belongs to the entry of one page. -/
theorem SpaceBlocks.InTables.exists_slot {x : UInt32} (h : s.InTables x) :
    ∃ w, PageAligned w ∧ ∃ j < 4, x = off (s.slot w) j := by
  obtain ⟨i, hi, hx⟩ := h
  obtain ⟨n, hn, rfl⟩ := InRange.exists_off hx
  have hw : (UInt32.ofNat (4194304 * i + 4096 * (n / 4))).toNat =
      4194304 * i + 4096 * (n / 4) := by
    rw [UInt32.toNat_ofNat']
    omega
  refine ⟨UInt32.ofNat (4194304 * i + 4096 * (n / 4)), ?_, n % 4, by omega, ?_⟩
  · unfold PageAligned
    rw [hw]
    omega
  · unfold SpaceBlocks.slot wordAddr
    rw [hw, show (4194304 * i + 4096 * (n / 4)) / 4194304 = i by omega,
      show (4194304 * i + 4096 * (n / 4)) % 4194304 / 4096 = n / 4 by omega, off_off,
      show 4 * (n / 4) + n % 4 = n by omega]

/-- The byte at `x` is 0 once the tables hold `space`: outside them it is 0 in `m`, and in them
it is a byte 0 of an entry. -/
structure SpaceBlocks.BlankAt (s : SpaceBlocks) (space : UInt32 → UInt32) (m : Mem)
    (x : UInt32) : Prop where
  memory : ¬ s.InTables x → m x = 0
  entry : ∀ w, PageAligned w → ∀ j < 4, x = off (s.slot w) j → byteOf (space w) j = 0

theorem Represents.blankAt_iff (hrep : Represents m' s space)
    (hframe : ∀ x, ¬ s.InTables x → m' x = m x) (x : UInt32) :
    m' x = 0 ↔ s.BlankAt space m x := by
  have hbyte : ∀ w, PageAligned w → ∀ j < 4, byteOf (space w) j = m' (off (s.slot w) j) := by
    intro w hw j hj
    rw [← hrep.page w hw, byteOf_read32 m' _ hj]
  constructor
  · intro hx
    refine ⟨fun hout => (hframe x hout).symm.trans hx, ?_⟩
    rintro w hw j hj rfl
    exact (hbyte w hw j hj).trans hx
  · intro hblank
    by_cases htab : s.InTables x
    · obtain ⟨w, hw, j, hj, rfl⟩ := htab.exists_slot
      rw [← hbyte w hw j hj]
      exact hblank.entry w hw j hj rfl
    · exact (hframe x htab).trans (hblank.memory htab)

/-! ### The data of a segment -/

/-- The offsets from `p_vaddr` of the bytes without a byte in the file. -/
def Elf32Phdr.Bss (phdr : Elf32Phdr) (k : ℕ) : Prop :=
  phdr.filesz.toNat ≤ k ∧ k < phdr.memsz.toNat

/-- **When data without bytes in the file is zero.**  Once a new ELF process is mapped, the
bytes from `p_filesz` to `p_memsz` of a segment are 0 in its address space exactly when the
places to which the segments and the stack put them were blank. -/
theorem processMapMemory_bss_iff (b : ElfBuild) {res : ℤ}
    (hmap : processMapMemory b.process b.task b.kernel'.mem = some (res, m')) (hres : 0 ≤ res) :
    ∃ s, MappedSpace b.kernel b.live b.task b.kernel'.mem s ∧
      (b.TableInside → b.mapped = b.headers) ∧
      ∀ phdr ∈ b.mapped, phdr.isLoad = true → phdr.filesz < phdr.memsz →
        ((∀ k, phdr.Bss k →
          m' (translate (paging4gbChunkGetDirectory b.task.pageDirectory m')
            (off phdr.vaddr k) m') = 0) ↔
        ∀ k, phdr.Bss k →
          s.BlankAt (elfSpace b.process b.mapped) b.kernel'.mem
            (placeOf (elfSpace b.process b.mapped) (off phdr.vaddr k))) := by
  obtain ⟨s, hspace, hrep, hframe, hplace⟩ := ElfBuild.mapMemory hmap hres
  refine ⟨s, hspace, fun htable => ?_, fun phdr _ _ _ => ?_⟩
  · exact (ElfBuild.mapMemory_headers htable
      ((ElfBuild.mapMemory_iff htable).mp ⟨res, m', hmap, hres⟩)).1
  · refine forall_congr' fun k => forall_congr' fun _ => ?_
    rw [hplace]
    exact hrep.blankAt_iff hframe _

/-! ### One byte behind a segment -/

/-- A file of 85 bytes with one program header: its first 84 bytes are loaded at `0x400000`, with
one byte more in memory, and `v` is the last byte of the file. -/
def bssElf (v : UInt8) (i : ℕ) : UInt8 :=
  ([(0, 0x7f), (1, 0x45), (2, 0x4c), (3, 0x46), (28, 52), (44, 1),
    (52, 1), (62, 0x40), (68, 84), (72, 85), (76, 6), (84, v)].lookup i).getD 0

/-- Its header. -/
def bssSegment : Elf32Phdr := ⟨1, 0, 0x400000, 84, 85, 6⟩

theorem bssElf_oneHeader {v : UInt8} (hv : v = 0 ∨ v = 1) :
    OneHeader (bssElf v) bssSegment ∧ bssElf v 84 = v := by
  unfold bssSegment
  rcases hv with rfl | rfl
  all_goals exact ⟨⟨by unfold ElfChecks; decide, by decide, by decide, by decide⟩, by decide⟩

/-- The process of such a file, and the byte behind its segment. -/
theorem exists_bssElf {v : UInt8} (hv : v = 0 ∨ v = 1) :
    ∃ (b : ElfBuild) (m' : Mem), ElfChecks b.kernel'.mem b.buffer ∧
      processMapMemory b.process b.task b.kernel'.mem = some (0, m') ∧
      b.mapped = [bssSegment] ∧
      m' (translate (paging4gbChunkGetDirectory b.task.pageDirectory m') (off 0x400000 84) m') =
        v := by
  obtain ⟨hone, hbyte⟩ := bssElf_oneHeader hv
  obtain ⟨b, hsize, hchecks, htable, hheaders, hdata⟩ :=
    exists_oneHeader hone (show 84 ≤ (85 : UInt32).toNat by decide) (by decide)
  obtain ⟨c, hc, haddr⟩ := b.heap.allocated_block b.file
  have hfile : b.process.elfFile.elfMemory = blockAddr c := haddr
  have hblock := toNat_blockAddr hc
  have honPage : b.process.elfFile.OnPage := by
    unfold ElfFile.OnPage
    rw [hfile, hblock]
    omega
  have hseg : ElfSegment b.process.elfFile.elfMemory 85 bssSegment := by
    refine ⟨rfl, by decide, by decide, by decide, by decide, ?_⟩
    rw [hfile, hblock, show bssSegment.offset.toNat = 0 from rfl,
      show bssSegment.memsz.toNat = 85 from rfl]
    omega
  have horder := b.phdrInOrder (show bssSegment.offset.toNat + _ < _ by decide)
  obtain ⟨hmapped, m', hmap⟩ := ElfBuild.mapMemory_headers htable (by
    rw [hheaders]
    exact List.forall_mem_singleton.mpr horder)
  rw [hheaders] at hmapped
  obtain ⟨s, hspace, -, hframe, hplace⟩ := ElfBuild.mapMemory hmap le_rfl
  refine ⟨b, m', hchecks, hmap, hmapped, ?_⟩
  have hlow : placeOf (elfSpace b.process ([] ++ bssSegment :: [])) (off bssSegment.vaddr 84) =
      off b.process.elfFile.elfMemory (bssSegment.offset.toNat + 84) :=
    placeOf_segment hseg honPage horder (by decide) (fun _ h => nomatch h)
      (b.lastWrite_stack_eq_none_iff.mpr (stackPage_ne (by decide)))
  rw [hplace, hmapped]
  refine (congrArg m' hlow).trans ?_
  have hin : InRange b.buffer (4096 * blocksFor b.size) (off b.buffer 84) := by
    refine inRange_off ?_
    rw [hsize]
    decide
  exact (b.fileKept hspace hframe _ hin).trans ((hdata 84 (by decide)).trans hbyte)

/-- If the byte behind the segment is 0 in the file, the program finds a 0 there. -/
theorem processMapMemory_bss_iff_zero :
    ∃ (b : ElfBuild) (m' : Mem) (s : SpaceBlocks),
      processMapMemory b.process b.task b.kernel'.mem = some (0, m') ∧
      MappedSpace b.kernel b.live b.task b.kernel'.mem s ∧ b.mapped = [bssSegment] ∧
      s.BlankAt (elfSpace b.process [bssSegment]) b.kernel'.mem
        (placeOf (elfSpace b.process [bssSegment]) (off 0x400000 84)) := by
  obtain ⟨b, m', -, hmap, hmapped, hbyte⟩ := exists_bssElf (Or.inl rfl)
  obtain ⟨s, hspace, -, hiff⟩ := processMapMemory_bss_iff b hmap le_rfl
  rw [hmapped] at hiff
  have hblank := (hiff bssSegment (List.mem_singleton_self _) rfl (by decide)).mp fun k hk => by
    obtain rfl : k = 84 := by
      have h₁ : 84 ≤ k := hk.1
      have h₂ : k < 85 := hk.2
      omega
    exact hbyte
  exact ⟨b, m', s, hmap, hspace, hmapped, hblank 84 ⟨by decide, by decide⟩⟩

/-- If it is 1 in the file, the program finds a 1 in its zero-initialised data. -/
theorem processMapMemory_bss_nonzero :
    ∃ (b : ElfBuild) (m' : Mem), ElfChecks b.kernel'.mem b.buffer ∧
      processMapMemory b.process b.task b.kernel'.mem = some (0, m') ∧
      ∃ phdr ∈ b.mapped, phdr.isLoad = true ∧ phdr.filesz < phdr.memsz ∧
        ∃ k, phdr.Bss k ∧ m' (translate (paging4gbChunkGetDirectory b.task.pageDirectory m')
          (off phdr.vaddr k) m') ≠ 0 := by
  obtain ⟨b, m', hchecks, hmap, hmapped, hbyte⟩ := exists_bssElf (Or.inr rfl)
  refine ⟨b, m', hchecks, hmap, bssSegment, ?_, rfl, by decide, 84, ⟨by decide, by decide⟩, ?_⟩
  · rw [hmapped]
    exact List.mem_singleton_self _
  · intro hzero
    exact absurd (hbyte.symm.trans hzero) (by decide)

end PeachOS
