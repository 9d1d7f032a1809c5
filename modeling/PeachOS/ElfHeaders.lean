import PeachOS.ElfSegments

/-! # Program headers of other types

`process_map_elf` maps every program header of the file, whatever its type; only
`elf_process_pheader` looks at `p_type`.  `processMapElf_loadable_iff` compares the run over the
whole table with the run over its `PT_LOAD` headers. -/

namespace PeachOS

open ByteMemory Extents WriteHistory

/-- The program headers of the loaded file, in order. -/
def ElfBuild.headers (b : ElfBuild) : List Elf32Phdr := (List.range' 0 b.phnum).map b.phdr

/-- The header is of the type `PT_LOAD`. -/
def Elf32Phdr.isLoad (phdr : Elf32Phdr) : Bool := phdr.type = ptLoad

/-- The entry a header gives to the page `w`, if it maps that page. -/
def phdrEntry (elfFile : ElfFile) (phdr : Elf32Phdr) (w : UInt32) : Option UInt32 :=
  lastWrite (phdrHistory elfFile phdr) w

/-- The entry of the page `w` in a new directory after the headers are mapped in order. -/
def entryAfter (elfFile : ElfFile) (headers : List Elf32Phdr) (w : UInt32) : UInt32 :=
  replay (fun w => w ||| pageFlagsRead) (headers.flatMap (phdrHistory elfFile)) w

/-! ### The statuses -/

theorem pagingSet_res (directory virt val : UInt32) (m : Mem) :
    (pagingSet directory virt val m).1 = 0 ∨ (pagingSet directory virt val m).1 = -EINVARG := by
  by_cases hvirt : PageAligned virt
  · obtain ⟨hres, -⟩ := pagingGetIndexes_of_aligned hvirt 0 0
    unfold pagingSet
    rw [if_pos ((pagingIsAligned_iff virt).mpr hvirt)]
    dsimp only
    rw [hres]
    exact Or.inl rfl
  · rw [pagingSet_of_not_aligned hvirt]
    exact Or.inr rfl

theorem pagingMap_res (directory virt phys flags : UInt32) (m : Mem) :
    (pagingMap directory virt phys flags m).1 = 0 ∨
      (pagingMap directory virt phys flags m).1 = -EINVARG := by
  unfold pagingMap
  split_ifs
  · exact Or.inr rfl
  · exact pagingSet_res _ _ _ _

theorem pagingMapLoop_res (directory flags : UInt32) : ∀ (n : ℕ) (virt phys : UInt32) (m : Mem),
    (pagingMapLoop directory flags n virt phys 0 m).1 = 0 ∨
      (pagingMapLoop directory flags n virt phys 0 m).1 = -EINVARG
  | 0, _, _, _ => Or.inl rfl
  | n + 1, virt, phys, m => by
      unfold pagingMapLoop
      dsimp only
      rcases pagingMap_res directory virt phys flags m with hres | hres
      · rw [hres, if_neg (by decide)]
        exact pagingMapLoop_res directory flags n _ _ _
      · rw [if_pos (by rw [hres]; decide)]
        exact Or.inr hres

theorem pagingMapTo_res (directory virt phys physEnd flags : UInt32) (m : Mem) :
    (pagingMapTo directory virt phys physEnd flags m).1 = 0 ∨
      (pagingMapTo directory virt phys physEnd flags m).1 = -EINVARG := by
  unfold pagingMapTo pagingMapRange
  split_ifs
  all_goals first
    | exact Or.inr rfl
    | exact pagingMapLoop_res _ _ _ _ _ _

theorem processMapPhdr_res (elfFile : ElfFile) (task : Task) (phdr : Elf32Phdr) (m : Mem) :
    (processMapPhdr elfFile task phdr m).1 = 0 ∨
      (processMapPhdr elfFile task phdr m).1 = -EINVARG := pagingMapTo_res _ _ _ _ _ _

/-- The loop of `process_map_elf` has two results; the induction is on the rounds that an
`e_phnum` of 16 bits leaves at most. -/
theorem processMapElfLoop_res (elfFile : ElfFile) (task : Task) (header phdrs : UInt32) :
    ∀ (left i : ℕ) (m : Mem), 65536 ≤ i + left →
      (processMapElfLoop elfFile task header phdrs i 0 m).1 = 0 ∨
        (processMapElfLoop elfFile task header phdrs i 0 m).1 = -EINVARG
  | 0, i, m, hleft => by
      have := (readElfHeader m header).phnum.toNat_lt
      rw [processMapElfLoop, dif_neg (by omega)]
      exact Or.inl rfl
  | left + 1, i, m, hleft => by
      rw [processMapElfLoop]
      split_ifs with hi
      · dsimp only
        rcases processMapPhdr_res elfFile task (readElf32Phdr m (off phdrs (32 * i))) m with
          hres | hres
        · rw [hres, if_neg (by decide)]
          exact processMapElfLoop_res elfFile task header phdrs left (i + 1) _ (by omega)
        · rw [if_pos (by rw [hres]; decide)]
          exact Or.inr hres
      · exact Or.inl rfl

theorem processMapElf_res (process : Process) (task : Task) (m : Mem) :
    (processMapElf process task m).1 = 0 ∨ (processMapElf process task m).1 = -EINVARG :=
  processMapElfLoop_res _ _ _ _ 65536 0 m le_rfl

/-! ### The whole table -/

variable {b : ElfBuild} {elfFile elfFile' : ElfFile}

theorem ElfBuild.mem_headers {phdr : Elf32Phdr} :
    phdr ∈ b.headers ↔ ∃ i < b.phnum, b.phdr i = phdr := by
  unfold ElfBuild.headers
  simp [List.mem_range']

/-- What the headers do depends on where the file is, and on nothing else of it. -/
theorem phdrHistory_congr (h : elfFile'.elfMemory = elfFile.elfMemory) :
    phdrHistory elfFile' = phdrHistory elfFile := by
  funext phdr
  unfold phdrHistory elfPhdrPhysAddress elfMemory
  rw [h]

theorem phdrInOrder_congr (h : elfFile'.elfMemory = elfFile.elfMemory) (phdr : Elf32Phdr) :
    PhdrInOrder elfFile' phdr ↔ PhdrInOrder elfFile phdr := by
  unfold PhdrInOrder elfPhdrPhysAddress elfMemory
  rw [h]

/-- `process_map_elf` by the list of headers: when it succeeds, and what each page is then. -/
theorem ElfBuild.map_headers (htable : b.TableInside) :
    let r := processMapElf b.process b.task b.kernel'.mem
    (r.1 = 0 ↔ ∀ phdr ∈ b.headers, PhdrInOrder b.process.elfFile phdr) ∧
      (r.1 = 0 → ∀ w, PageAligned w →
        pagingGet (paging4gbChunkGetDirectory b.task.pageDirectory r.2) w r.2 =
          entryAfter b.process.elfFile b.headers w) := by
  obtain ⟨s, hspace, hiff, hspec⟩ := b.map htable
  have hres := processMapElf_res b.process b.task b.kernel'.mem
  generalize processMapElf b.process b.task b.kernel'.mem = r at hiff hspec hres ⊢
  have hzero : r.1 = 0 ↔ 0 ≤ r.1 := by
    constructor
    · intro h
      rw [h]
    · exact fun h => (hspec h).1
  refine ⟨?_, fun h w hw => ?_⟩
  · rw [hzero, ← hiff]
    constructor
    · intro h phdr hmem
      obtain ⟨i, hi, rfl⟩ := ElfBuild.mem_headers.mp hmem
      exact h i hi
    · exact fun h i hi => h _ (ElfBuild.mem_headers.mpr ⟨i, hi, rfl⟩)
  · obtain ⟨-, hrep, -⟩ := hspec (hzero.mp h)
    have hdir : paging4gbChunkGetDirectory b.task.pageDirectory r.2 = blockAddr s.directory := by
      unfold paging4gbChunkGetDirectory
      rw [hspace.directory, hrep.tables.chunk]
    rw [hdir, pagingGet_spec hrep hw]
    unfold entryAfter ElfBuild.history ElfBuild.headers
    rw [List.flatMap_map]

/-! ### A note over a segment -/

/-- A file of 116 bytes with room for two program headers, of which the first `phnum` count: the
whole file is loaded at `0x400000`, writable, and a note of the same bytes lies there too, before
or behind the segment. -/
def notedElf (phnum : UInt8) (noteFirst : Bool) (i : ℕ) : UInt8 :=
  let first : UInt8 × UInt8 := if noteFirst then (4, 4) else (1, 6)
  let second : UInt8 × UInt8 := if noteFirst then (1, 6) else (4, 4)
  ([(0, 0x7f), (1, 0x45), (2, 0x4c), (3, 0x46), (28, 52), (44, phnum),
    (52, first.1), (62, 0x40), (68, 116), (72, 116), (76, first.2),
    (84, second.1), (94, 0x40), (100, 116), (104, 116), (108, second.2)].lookup i).getD 0

/-- Its headers. -/
def notedSegment : Elf32Phdr := ⟨1, 0, 0x400000, 116, 116, 6⟩
def notedNote : Elf32Phdr := ⟨4, 0, 0x400000, 116, 116, 4⟩
def notedHeaders (noteFirst : Bool) : List Elf32Phdr :=
  if noteFirst then [notedNote, notedSegment] else [notedSegment, notedNote]

theorem notedElf_headers {phnum : UInt8} (hphnum : phnum = 1 ∨ phnum = 2) (noteFirst : Bool) :
    (readElfHeader (dataImage (notedElf phnum noteFirst)) 0).phnum.toNat = phnum.toNat ∧
      (readElfHeader (dataImage (notedElf phnum noteFirst)) 0).phoff = 52 ∧
      [readElf32Phdr (dataImage (notedElf phnum noteFirst)) 52,
        readElf32Phdr (dataImage (notedElf phnum noteFirst)) 84] = notedHeaders noteFirst := by
  rcases hphnum with rfl | rfl <;> cases noteFirst <;> decide

theorem exists_notedElf {phnum : UInt8} (hphnum : phnum = 1 ∨ phnum = 2) (noteFirst : Bool) :
    ∃ b : ElfBuild, b.buffer = (kzalloc 116 (kzalloc 16384 freshKernel).2).1 ∧ b.TableInside ∧
      b.headers = (notedHeaders noteFirst).take phnum.toNat := by
  obtain ⟨hnum, hphoff, hheaders⟩ := notedElf_headers hphnum noteFirst
  have hend : 52 + 32 * phnum.toNat ≤ (116 : UInt32).toNat := by
    rcases hphnum with rfl | rfl <;> decide
  obtain ⟨b, -, hbuffer, hnum', htable, hphdr, -⟩ :=
    exists_headersBuild hnum hphoff hend (by decide)
  refine ⟨b, hbuffer, htable, ?_⟩
  rw [← hheaders]
  unfold ElfBuild.headers
  rw [hnum']
  rcases hphnum with rfl | rfl
  · simp [hphdr 0 (by decide)]
  · simp [List.range', hphdr 0 (by decide), hphdr 1 (by decide)]
    rfl

/-- A header of 116 bytes at the start of the file maps the page `0x400000` to its first page. -/
theorem phdrEntry_first {elfFile : ElfFile} {c : ℕ} (hc : c < 25600)
    (hfile : elfFile.elfMemory = blockAddr c) (type flags : UInt32) :
    PhdrInOrder elfFile ⟨type, 0, 0x400000, 116, 116, flags⟩ ∧
      phdrEntry elfFile ⟨type, 0, 0x400000, 116, 116, flags⟩ 0x400000 =
        some (blockAddr c ||| phdrFlags ⟨type, 0, 0x400000, 116, 116, flags⟩) := by
  have haddr := toNat_blockAddr hc
  have hphys : elfPhdrPhysAddress elfFile ⟨type, 0, 0x400000, 116, 116, flags⟩ = blockAddr c := by
    unfold elfPhdrPhysAddress elfMemory
    rw [hfile]
    exact add_zero _
  have hlow : pagingAlignToLowerPage (blockAddr c) = blockAddr c := by
    apply UInt32.toNat.inj
    rw [toNat_pagingAlignToLowerPage, haddr]
    omega
  have hend : (pagingAlignAddress (blockAddr c + 116)).toNat = (blockAddr c).toNat + 4096 := by
    rw [toNat_pagingAlignAddress, UInt32.toNat_add, haddr, show (116 : UInt32).toNat = 116 from rfl]
    omega
  have hle : blockAddr c ≤ pagingAlignAddress (blockAddr c + 116) := by
    rw [UInt32.le_iff_toNat_le, hend]
    omega
  have hpages : ((pagingAlignAddress (blockAddr c + 116) - blockAddr c) /
      pagingPageSize).toNat = 1 := by
    rw [UInt32.toNat_div, UInt32.toNat_sub_of_le _ _ hle, hend]
    exact congrArg (· / 4096) (Nat.add_sub_cancel_left ..)
  constructor
  · unfold PhdrInOrder
    rw [hphys, hlow]
    exact UInt32.not_lt.mpr hle
  · unfold phdrEntry phdrHistory
    rw [hphys, hlow]
    have hlast := lastWrite_mapHistory (pagingAlignToLowerPage 0x400000) (blockAddr c)
      (pagingAlignAddress (blockAddr c + 116))
      (phdrFlags ⟨type, 0, 0x400000, 116, 116, flags⟩) (i := 0) (by rw [hpages]; exact one_pos)
    rw [mul_zero, off_zero, off_zero] at hlast
    exact hlast

/-! ### The loadable headers -/

/-- The headers of other types change nothing: none of them is refused, and each page that one
of them maps is mapped again by a later header, or gets the entry it has after the loadable
headers in front. -/
structure OthersIdle (elfFile : ElfFile) (headers : List Elf32Phdr) : Prop where
  order : ∀ phdr ∈ headers, PhdrInOrder elfFile phdr
  entry : ∀ pre phdr post, headers = pre ++ phdr :: post → phdr.isLoad = false →
    ∀ w, PageAligned w → ∀ e, phdrEntry elfFile phdr w = some e →
      (∃ later ∈ post, phdrEntry elfFile later w ≠ none) ∨
        entryAfter elfFile (pre.filter Elf32Phdr.isLoad) w = e

/-- **When only loadable headers count.**  The run over the whole table and the run over its
`PT_LOAD` headers, for the file at the same place, return the same status and on success leave
the same entries exactly when a loadable header is refused or the other headers change
nothing. -/
theorem processMapElf_loadable_iff (b b' : ElfBuild) (htable : b.TableInside)
    (htable' : b'.TableInside) (hfile : b'.buffer = b.buffer)
    (hheaders : b'.headers = b.headers.filter Elf32Phdr.isLoad) :
    let r := processMapElf b.process b.task b.kernel'.mem
    let r' := processMapElf b'.process b'.task b'.kernel'.mem
    (r.1 = r'.1 ∧ (r.1 = 0 → ∀ w, PageAligned w →
      pagingGet (paging4gbChunkGetDirectory b.task.pageDirectory r.2) w r.2 =
        pagingGet (paging4gbChunkGetDirectory b'.task.pageDirectory r'.2) w r'.2)) ↔
    ((∃ phdr ∈ b.headers, phdr.isLoad = true ∧ ¬ PhdrInOrder b.process.elfFile phdr) ∨
      OthersIdle b.process.elfFile b.headers) := by
  obtain ⟨hok, hpages⟩ := b.map_headers htable
  obtain ⟨hok', hpages'⟩ := b'.map_headers htable'
  have hres := processMapElf_res b.process b.task b.kernel'.mem
  have hres' := processMapElf_res b'.process b'.task b'.kernel'.mem
  have hfile : b'.process.elfFile.elfMemory = b.process.elfFile.elfMemory := hfile
  have horder' : (∀ phdr ∈ b'.headers, PhdrInOrder b'.process.elfFile phdr) ↔
      ¬ ∃ phdr ∈ b.headers, phdr.isLoad = true ∧ ¬ PhdrInOrder b.process.elfFile phdr := by
    rw [hheaders]
    simp only [List.mem_filter, phdrInOrder_congr hfile, and_imp, not_exists, not_and, not_not]
  have hentry : ∀ w, entryAfter b'.process.elfFile b'.headers w =
      entryAfter b.process.elfFile (b.headers.filter Elf32Phdr.isLoad) w := by
    intro w
    unfold entryAfter
    rw [phdrHistory_congr hfile, hheaders]
  rw [horder'] at hok'
  generalize processMapElf b.process b.task b.kernel'.mem = r at *
  generalize processMapElf b'.process b'.task b'.kernel'.mem = r' at *
  dsimp only at *
  have hne : (0 : ℤ) ≠ -EINVARG := by decide
  by_cases hload : ∃ phdr ∈ b.headers, phdr.isLoad = true ∧ ¬ PhdrInOrder b.process.elfFile phdr
  · refine iff_of_true ⟨?_, fun h => ?_⟩ (Or.inl hload)
    · have hbad : ¬ r.1 = 0 := by
        rw [hok]
        obtain ⟨phdr, hmem, -, hno⟩ := hload
        exact fun h => hno (h phdr hmem)
      have hbad' : ¬ r'.1 = 0 := fun h => hok'.mp h hload
      rw [hres.resolve_left hbad, hres'.resolve_left hbad']
    · obtain ⟨phdr, hmem, -, hno⟩ := hload
      exact absurd (hok.mp h phdr hmem) hno
  · rw [or_iff_right hload]
    have hzero' : r'.1 = 0 := hok'.mpr hload
    by_cases hall : ∀ phdr ∈ b.headers, PhdrInOrder b.process.elfFile phdr
    · have hzero : r.1 = 0 := hok.mpr hall
      have hiff := replay_flatMap_filter_iff (fun w => w ||| pageFlagsRead)
        (phdrHistory b.process.elfFile) Elf32Phdr.isLoad b.headers {w | PageAligned w}
      constructor
      · rintro ⟨-, hsame⟩
        refine ⟨hall, hiff.mp fun w hw => ?_⟩
        have := hsame hzero w hw
        rw [hpages hzero w hw, hpages' hzero' w hw, hentry] at this
        exact this
      · intro hidle
        refine ⟨hzero.trans hzero'.symm, fun _ w hw => ?_⟩
        rw [hpages hzero w hw, hpages' hzero' w hw, hentry]
        exact hiff.mpr hidle.entry w hw
    · refine iff_of_false (fun h => ?_) fun h => hall h.order
      exact hall (hok.mp (h.1.trans hzero'))

/-- A note in front of the segment: its page is mapped again. -/
theorem othersIdle_noteFirst {elfFile : ElfFile} {c : ℕ} (hc : c < 25600)
    (hfile : elfFile.elfMemory = blockAddr c) : OthersIdle elfFile [notedNote, notedSegment] where
  order := List.forall_mem_cons.mpr ⟨(phdrEntry_first hc hfile 4 4).1,
    List.forall_mem_singleton.mpr (phdrEntry_first hc hfile 1 6).1⟩
  entry pre phdr post hsplit hother w _ e he := by
    have hhead : phdr = notedNote ∧ post = [notedSegment] := by
      rcases pre with - | ⟨first, pre⟩
      · obtain ⟨rfl, rfl⟩ := List.cons.inj hsplit
        exact ⟨rfl, rfl⟩
      · have hmem : phdr ∈ [notedSegment] := by
          rw [(List.cons.inj hsplit).2]
          exact List.mem_append_right pre List.mem_cons_self
        rw [List.mem_singleton.mp hmem] at hother
        cases hother
    obtain ⟨rfl, rfl⟩ := hhead
    obtain ⟨i, hi, rfl, -⟩ := exists_of_lastWrite_mapHistory he
    refine Or.inl ⟨notedSegment, List.mem_cons_self, ?_⟩
    have hlast := lastWrite_mapHistory (pagingAlignToLowerPage notedNote.vaddr) _ _
      (phdrFlags notedSegment) hi
    exact fun hnone => Option.some_ne_none _ (hlast.symm.trans hnone)

/-- A table with a note in front of the segment, and the table with the segment alone. -/
theorem processMapElf_loadable_iff_noteFirst :
    ∃ b b' : ElfBuild, b.TableInside ∧ b'.TableInside ∧ b'.buffer = b.buffer ∧
      b.headers = [notedNote, notedSegment] ∧ b'.headers = [notedSegment] ∧
      (processMapElf b.process b.task b.kernel'.mem).1 =
          (processMapElf b'.process b'.task b'.kernel'.mem).1 ∧
        ((processMapElf b.process b.task b.kernel'.mem).1 = 0 → ∀ w, PageAligned w →
          pagingGet (paging4gbChunkGetDirectory b.task.pageDirectory
              (processMapElf b.process b.task b.kernel'.mem).2) w
              (processMapElf b.process b.task b.kernel'.mem).2 =
            pagingGet (paging4gbChunkGetDirectory b'.task.pageDirectory
              (processMapElf b'.process b'.task b'.kernel'.mem).2) w
              (processMapElf b'.process b'.task b'.kernel'.mem).2) := by
  obtain ⟨b, hbuffer, htable, hheaders⟩ := exists_notedElf (Or.inr rfl) true
  obtain ⟨b', hbuffer', htable', hheaders'⟩ := exists_notedElf (Or.inl rfl) false
  have hheaders : b.headers = [notedNote, notedSegment] := hheaders
  have hheaders' : b'.headers = [notedSegment] := hheaders'
  obtain ⟨c, hc, haddr⟩ := b.heap.allocated_block b.file
  have hidle : OthersIdle b.process.elfFile b.headers := by
    rw [hheaders]
    exact othersIdle_noteFirst hc haddr
  have hfile := hbuffer'.trans hbuffer.symm
  exact ⟨b, b', htable, htable', hfile, hheaders, hheaders',
    (processMapElf_loadable_iff b b' htable htable' hfile
      (by rw [hheaders, hheaders']; decide)).mpr (Or.inr hidle)⟩

/-- The note makes the page of the segment read-only. -/
theorem processMapElf_noted :
    ∃ b b' : ElfBuild, b.TableInside ∧ b'.TableInside ∧ b'.buffer = b.buffer ∧
      b'.headers = b.headers.filter Elf32Phdr.isLoad ∧
      ¬ ((processMapElf b.process b.task b.kernel'.mem).1 =
          (processMapElf b'.process b'.task b'.kernel'.mem).1 ∧
        ((processMapElf b.process b.task b.kernel'.mem).1 = 0 → ∀ w, PageAligned w →
          pagingGet (paging4gbChunkGetDirectory b.task.pageDirectory
              (processMapElf b.process b.task b.kernel'.mem).2) w
              (processMapElf b.process b.task b.kernel'.mem).2 =
            pagingGet (paging4gbChunkGetDirectory b'.task.pageDirectory
              (processMapElf b'.process b'.task b'.kernel'.mem).2) w
              (processMapElf b'.process b'.task b'.kernel'.mem).2)) := by
  obtain ⟨b, hbuffer, htable, hheaders⟩ := exists_notedElf (Or.inr rfl) false
  obtain ⟨b', hbuffer', htable', hheaders'⟩ := exists_notedElf (Or.inl rfl) false
  have hheaders : b.headers = [notedSegment, notedNote] := hheaders
  have hheaders' : b'.headers = [notedSegment] := hheaders'
  refine ⟨b, b', htable, htable', hbuffer'.trans hbuffer.symm,
    by rw [hheaders, hheaders']; decide, fun hsame => ?_⟩
  obtain ⟨c, hc, haddr⟩ := b.heap.allocated_block b.file
  have haddr' : b'.process.elfFile.elfMemory = blockAddr c :=
    hbuffer'.trans (hbuffer.symm.trans haddr)
  obtain ⟨horder, hsegment⟩ := phdrEntry_first hc haddr 1 6
  obtain ⟨hnoteOrder, hnote⟩ := phdrEntry_first hc haddr 4 4
  obtain ⟨horder', hsegment'⟩ := phdrEntry_first hc haddr' 1 6
  obtain ⟨hok, hpages⟩ := b.map_headers htable
  obtain ⟨hok', hpages'⟩ := b'.map_headers htable'
  have hzero := hok.mpr (by
    rw [hheaders]
    exact List.forall_mem_cons.mpr ⟨horder, List.forall_mem_singleton.mpr hnoteOrder⟩)
  have hzero' := hok'.mpr (by
    rw [hheaders']
    exact List.forall_mem_singleton.mpr horder')
  have hpage := hsame.2 hzero 0x400000 (by decide)
  rw [hpages hzero _ (by decide), hpages' hzero' _ (by decide), hheaders, hheaders'] at hpage
  -- the note comes last and gives the page its own flags
  have hwhole : entryAfter b.process.elfFile [notedSegment, notedNote] 0x400000 =
      blockAddr c ||| phdrFlags notedNote :=
    replay_flatMap_concat _ _ [notedSegment] hnote
  have hload : entryAfter b'.process.elfFile [notedSegment] 0x400000 =
      blockAddr c ||| phdrFlags notedSegment :=
    replay_flatMap_concat _ _ [] hsegment'
  rw [hwhole, hload] at hpage
  have hblock := toNat_blockAddr hc
  have hnat := congrArg UInt32.toNat hpage
  rw [toNat_or_of_aligned (by omega) (phdrFlags_lt _),
    toNat_or_of_aligned (by omega) (phdrFlags_lt _)] at hnat
  exact absurd (Nat.add_left_cancel hnat) (by decide)

end PeachOS
