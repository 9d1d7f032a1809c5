import PeachOS.ElfLoader

/-! # What the ELF validator lets through

`elf_load` accepts a file after four checks: the signature, the class and encoding bytes and
a non-zero `e_phoff` (`elfLoad_accepts_iff`).  `elf_is_executable` is never called, and
nothing compares the offsets of the headers with the length of the file.

`fileImage` is what the loader sees from the start of its buffer on: the bytes of the file,
and behind them what memory held there. -/

namespace PeachOS

open ByteMemory

/-- `ET_EXEC`. -/
def etExec : UInt16 := 2

/-- `elf_is_executable`. -/
def elfIsExecutable (header : ElfHeader) : Bool :=
  header.type = etExec ∧ header.entry ≥ peachosProgramVirtualAddress

/-- The bytes `[start, start + len)` lie inside a file of `size` bytes; `start` is signed. -/
def InFile (size : ℕ) (start : UInt32) (len : ℕ) : Prop :=
  0 ≤ i32 start.toNat ∧ i32 start.toNat + len ≤ size

/-- The file of `size` bytes at `header` is fit to be mapped and run. -/
structure ElfSound (m : Mem) (header : UInt32) (size : ℕ) : Prop where
  table : InFile size (readElfHeader m header).phoff (32 * (readElfHeader m header).phnum.toNat)
  load : ∀ i < (readElfHeader m header).phnum.toNat,
    (readElf32Phdr m (elfProgramHeader m header i)).type = ptLoad →
      InFile size (readElf32Phdr m (elfProgramHeader m header i)).offset
        (readElf32Phdr m (elfProgramHeader m header i)).filesz.toNat
  executable : elfIsExecutable (readElfHeader m header) = true

/-- The four checks of `elf_validate_loaded`. -/
def ElfChecks (m : Mem) (header : UInt32) : Prop :=
  elfValidSignature m header = true ∧ elfValidClass (readElfHeader m header) = true ∧
    elfValidEncoding (readElfHeader m header) = true ∧
    elfHasProgramHeader (readElfHeader m header) = true

/-- The bytes from the start of the buffer on once the file has been read. -/
def fileImage (file : FileAccess) (buffer : UInt32) (m : Mem) : Mem := fun x =>
  if x.toNat < file.filesize.toNat then file.data x.toNat else m (buffer + x)

/-! ### The image at another address -/

/-- `image` is what `m` holds from `buffer` on. -/
def Shifted (image m : Mem) (buffer : UInt32) : Prop := ∀ x, m (buffer + x) = image x

variable {image m : Mem} {buffer : UInt32}

theorem off_add (a b : UInt32) (k : ℕ) : off (a + b) k = a + off b k := by
  unfold off
  rw [add_assoc]

theorem off_eq_add (a : UInt32) (k : ℕ) : off a k = a + off 0 k := by
  rw [← off_add, add_zero]

theorem Shifted.word (h : Shifted image m buffer) (a : UInt32) :
    m.read32 (buffer + a) = image.read32 a := by
  unfold Mem.read32
  simp only [off_add, h _]

theorem Shifted.half (h : Shifted image m buffer) (a : UInt32) :
    read16 m (buffer + a) = read16 image a := by
  unfold read16
  simp only [off_add, h _]

theorem Shifted.header (h : Shifted image m buffer) :
    readElfHeader m buffer = readElfHeader image 0 := by
  unfold readElfHeader
  simp only [off_eq_add buffer, h.word, h.half, h _]

theorem Shifted.phdr (h : Shifted image m buffer) (a : UInt32) :
    readElf32Phdr m (buffer + a) = readElf32Phdr image a := by
  unfold readElf32Phdr
  simp only [off_add, h.word]

/-- A program header with a non-zero `e_phoff`. -/
theorem Shifted.programHeader (h : Shifted image m buffer)
    (hphoff : (readElfHeader image 0).phoff ≠ 0) (i : ℕ) :
    readElf32Phdr m (elfProgramHeader m buffer i) =
      readElf32Phdr image (elfProgramHeader image 0 i) := by
  unfold elfProgramHeader elfPheader
  rw [h.header]
  simp only [if_neg hphoff, zero_add]
  rw [off_add, h.phdr]

theorem Shifted.signature (h : Shifted image m buffer) :
    elfValidSignature m buffer = elfValidSignature image 0 := by
  have hbytes : (fun i => m (off buffer i)) = fun i => image (off 0 i) := by
    funext i
    rw [off_eq_add buffer, h]
  unfold elfValidSignature
  rw [hbytes]

theorem Shifted.checks (h : Shifted image m buffer) : ElfChecks m buffer ↔ ElfChecks image 0 := by
  unfold ElfChecks
  rw [h.signature, h.header]

/-- For a file that passes the checks. -/
theorem Shifted.sound (h : Shifted image m buffer) (hchecks : ElfChecks image 0) (size : ℕ) :
    ElfSound m buffer size ↔ ElfSound image 0 size := by
  have hphoff : (readElfHeader image 0).phoff ≠ 0 := by
    simpa [elfHasProgramHeader] using hchecks.2.2.2
  have hphdr := h.programHeader hphoff
  have hheader := h.header
  constructor
  · rintro ⟨htable, hload, hexec⟩
    simp only [hheader, hphdr] at htable hload hexec
    exact ⟨htable, hload, hexec⟩
  · rintro ⟨htable, hload, hexec⟩
    refine ⟨?_, ?_, ?_⟩ <;> simp only [hheader, hphdr]
    · exact htable
    · exact hload
    · exact hexec

/-! ### The loader -/

theorem elfProcessPheader_elfMemory (elfFile : ElfFile) (phdr : Elf32Phdr) :
    (elfProcessPheader elfFile phdr).elfMemory = elfFile.elfMemory := by
  unfold elfProcessPheader elfProcessPhdrPtLoad
  dsimp only
  split_ifs <;> rfl

/-- The loader never moves the file, by induction on the headers. -/
theorem elfProcessPheadersLoop_elfMemory (m : Mem) (elfFile : ElfFile) (i : ℕ) :
    (elfProcessPheadersLoop m elfFile i).elfMemory = elfFile.elfMemory := by
  induction i with
  | zero => rfl
  | succ i ih => rw [elfProcessPheadersLoop, elfProcessPheader_elfMemory, ih]

theorem elfProcessPheaders_elfMemory (m : Mem) (elfFile : ElfFile) :
    (elfProcessPheaders m elfFile).elfMemory = elfFile.elfMemory :=
  elfProcessPheadersLoop_elfMemory m elfFile _

/-- `elf_process_loaded` makes the four checks and no other. -/
theorem elfProcessLoaded_accepts_iff (m : Mem) (elfFile : ElfFile) :
    0 ≤ (elfProcessLoaded m elfFile).1 ↔ ElfChecks m elfFile.elfMemory := by
  have hchecks : ElfChecks m elfFile.elfMemory ↔
      elfValidateLoaded m (elfHeader elfFile) = 0 := by
    unfold ElfChecks elfValidateLoaded elfHeader
    simp only [← Bool.and_eq_true, ← Bool.and_assoc]
    split_ifs with h
    · exact iff_of_true h rfl
    · exact iff_of_false h (by decide)
  have hres : elfValidateLoaded m (elfHeader elfFile) = 0 ∨
      elfValidateLoaded m (elfHeader elfFile) = -EINFORMAT := by
    unfold elfValidateLoaded
    split_ifs
    · exact Or.inl rfl
    · exact Or.inr rfl
  rw [hchecks]
  unfold elfProcessLoaded
  dsimp only
  rcases hres with hok | hbad
  · rw [hok, if_neg (by decide)]
    exact iff_of_true le_rfl rfl
  · rw [hbad, if_pos (by decide)]
    exact iff_of_false (show ¬ (0 : ℤ) ≤ -EINFORMAT by decide) (by decide)

theorem elfProcessLoaded_elfMemory (m : Mem) (elfFile : ElfFile) :
    (elfProcessLoaded m elfFile).2.elfMemory = elfFile.elfMemory := by
  unfold elfProcessLoaded
  dsimp only
  split_ifs
  · rfl
  · exact elfProcessPheaders_elfMemory m elfFile

/-- The buffer of `elf_load`, and the kernel with the buffer allocated. -/
def elfBuffer (file : FileAccess) (k : Kernel) : UInt32 × Kernel :=
  kzalloc file.filesize (kzalloc 132 k).2

/-- The file can be opened and read. -/
def FileAccess.Readable (file : FileAccess) : Prop :=
  0 ≤ file.fopen ∧ 0 ≤ file.fstat ∧ 0 ≤ file.fread

/-- What `elf_load` does with a file that can be read. -/
theorem elfLoad_readable {file : FileAccess} (hread : file.Readable) {k k' : Kernel}
    {buffer : UInt32} (hbuffer : elfBuffer file k = (buffer, k')) :
    elfLoad file k =
      let m := writeBytes k'.mem buffer file.data file.filesize.toNat
      let loaded := elfProcessLoaded m { elfFileZero with elfMemory := buffer }
      (loaded.1, loaded.2, ⟨m, k'.oom⟩) := by
  obtain ⟨hopen, hstat, hfread⟩ := hread
  unfold elfBuffer at hbuffer
  unfold elfLoad
  rw [if_neg (by omega), if_neg (by omega)]
  simp only [hbuffer]
  rw [if_neg (by omega)]

theorem elfLoad_unreadable {file : FileAccess} (hread : ¬ file.Readable) (k : Kernel) :
    (elfLoad file k).1 < 0 := by
  unfold FileAccess.Readable at hread
  unfold elfLoad
  split_ifs with hopen hstat hfread
  · exact hopen
  · exact hstat
  · exact hfread
  · omega

/-- The file as it lies in the buffer. -/
theorem shifted_fileImage (file : FileAccess) (buffer : UInt32) (m : Mem) :
    Shifted (fileImage file buffer m) (writeBytes m buffer file.data file.filesize.toNat)
      buffer := by
  intro x
  have hlt := toNat_lt file.filesize
  have hdist : (buffer + x - buffer).toNat = x.toNat := by rw [add_sub_cancel_left]
  have hin : InRange buffer file.filesize.toNat (buffer + x) ↔ x.toNat < file.filesize.toNat := by
    unfold InRange
    rw [hdist]
  rw [writeBytes_apply _ _ _ _ _ (by omega), hdist]
  unfold fileImage
  by_cases hx : x.toNat < file.filesize.toNat
  · rw [if_pos (hin.mpr hx), if_pos hx]
  · rw [if_neg (mt hin.mp hx), if_neg hx]

/-- `elf_load` succeeds exactly on the readable files that pass the four checks. -/
theorem elfLoad_accepts_iff (file : FileAccess) {k k' : Kernel} {buffer : UInt32}
    (hbuffer : elfBuffer file k = (buffer, k')) :
    0 ≤ (elfLoad file k).1 ↔ file.Readable ∧ ElfChecks (fileImage file buffer k'.mem) 0 := by
  by_cases hread : file.Readable
  · rw [elfLoad_readable hread hbuffer]
    dsimp only
    rw [elfProcessLoaded_accepts_iff, (shifted_fileImage file buffer k'.mem).checks]
    exact (and_iff_right hread).symm
  · have := elfLoad_unreadable hread k
    exact iff_of_false (by omega) fun h => hread h.1

/-- What is loaded is as sound as the file. -/
theorem elfLoad_sound_image {file : FileAccess} (hread : file.Readable) {k k' : Kernel}
    {buffer : UInt32} (hbuffer : elfBuffer file k = (buffer, k'))
    (hchecks : ElfChecks (fileImage file buffer k'.mem) 0) (size : ℕ) :
    ElfSound (elfLoad file k).2.2.mem (elfLoad file k).2.1.elfMemory size ↔
      ElfSound (fileImage file buffer k'.mem) 0 size := by
  rw [elfLoad_readable hread hbuffer]
  dsimp only
  rw [elfProcessLoaded_elfMemory]
  exact (shifted_fileImage file buffer k'.mem).sound hchecks size

/-- **When the validator is sound.**  Whatever `elf_load` accepts is fit to be mapped and run
exactly when the file cannot be read, fails one of the four checks, or is fit by itself. -/
theorem elfLoad_sound_iff (file : FileAccess) (k : Kernel) :
    (0 ≤ (elfLoad file k).1 →
      ElfSound (elfLoad file k).2.2.mem (elfLoad file k).2.1.elfMemory file.filesize.toNat) ↔
    (¬ file.Readable ∨
      ¬ ElfChecks (fileImage file (elfBuffer file k).1 (elfBuffer file k).2.mem) 0 ∨
      ElfSound (fileImage file (elfBuffer file k).1 (elfBuffer file k).2.mem) 0
        file.filesize.toNat) := by
  rcases hbuffer : elfBuffer file k with ⟨buffer, k'⟩
  rw [elfLoad_accepts_iff file hbuffer]
  by_cases hread : file.Readable
  · by_cases hchecks : ElfChecks (fileImage file buffer k'.mem) 0
    · rw [elfLoad_sound_image hread hbuffer hchecks]
      simp [hread, hchecks]
    · simp [hchecks]
  · simp [hread]

/-- A header with the signature and `e_phoff = 1`; every other byte is 0. -/
def bareElf : FileAccess where
  fopen := 1
  fstat := 0
  filesize := 52
  fread := 1
  data
    | 0 => 0x7f
    | 1 => 0x45
    | 2 => 0x4c
    | 3 => 0x46
    | 28 => 1
    | _ => 0

/-- The file passes the four checks and is not executable. -/
theorem bareElf_image (buffer : UInt32) (m : Mem) :
    ElfChecks (fileImage bareElf buffer m) 0 ∧
      elfIsExecutable (readElfHeader (fileImage bareElf buffer m) 0) = false := by
  refine ⟨⟨rfl, rfl, rfl, rfl⟩, rfl⟩

/-- It is accepted all the same. -/
theorem elfLoad_accepts_bareElf :
    ¬ (0 ≤ (elfLoad bareElf ⟨fun _ => 0, false⟩).1 →
      ElfSound (elfLoad bareElf ⟨fun _ => 0, false⟩).2.2.mem
        (elfLoad bareElf ⟨fun _ => 0, false⟩).2.1.elfMemory bareElf.filesize.toNat) := by
  have hread : bareElf.Readable := ⟨by decide, by decide, by decide⟩
  rcases hbuffer : elfBuffer bareElf ⟨fun _ => 0, false⟩ with ⟨buffer, k'⟩
  obtain ⟨hchecks, hexec⟩ := bareElf_image buffer k'.mem
  rw [elfLoad_accepts_iff bareElf hbuffer, elfLoad_sound_image hread hbuffer hchecks]
  intro h
  have hsound := (h ⟨hread, hchecks⟩).executable
  rw [hexec] at hsound
  exact nomatch hsound

end PeachOS
