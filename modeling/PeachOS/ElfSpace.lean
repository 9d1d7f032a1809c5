import PeachOS.ElfHeaders

/-! # The address space of an ELF process

What `process_map_memory` leaves of the new directory of an ELF process, wherever its program
headers lie: the loop of `process_map_elf` is replayed with the headers that it reads on the way
(`processMapElfHeaders`), and the stack is mapped last.  `elfSpace` is the map from pages to
entries, and `placeOf` the physical place of a virtual address. -/

namespace PeachOS

open ByteMemory Extents WriteHistory

/-! ### The headers that are read -/

/-- The headers that the loop of `process_map_elf` reads from round `i` on. -/
def processMapElfHeaders (elfFile : ElfFile) (task : Task) (header phdrs : UInt32) (i : ℕ)
    (m : Mem) : List Elf32Phdr :=
  if h : i < (readElfHeader m header).phnum.toNat then
    let phdr := readElf32Phdr m (off phdrs (32 * i))
    let r := processMapPhdr elfFile task phdr m
    phdr :: if r.1 < 0 then [] else processMapElfHeaders elfFile task header phdrs (i + 1) r.2
  else []
termination_by 65536 - i
decreasing_by
  have := (readElfHeader m header).phnum.toNat_lt
  omega

/-- The headers that `process_map_elf` reads. -/
def ElfBuild.mapped (b : ElfBuild) : List Elf32Phdr :=
  processMapElfHeaders b.process.elfFile b.task b.buffer (elfPheader b.kernel'.mem b.buffer) 0
    b.kernel'.mem

variable {b : ElfBuild} {m m' : Mem} {s : SpaceBlocks} {f : UInt32 → UInt32}

/-- The rounds of `process_map_elf` that succeed perform the writes of the headers they read. -/
theorem processMapElfLoop_headers {elfFile : ElfFile} {task : Task} {header phdrs : UInt32}
    {i : ℕ} {res : ℤ} {m : Mem} (hdir : task.pageDirectory = blockAddr s.chunk) :
    let r := processMapElfLoop elfFile task header phdrs i res m
    ∀ {f : UInt32 → UInt32}, Represents m s f → 0 ≤ r.1 →
      Represents r.2 s (replay f ((processMapElfHeaders elfFile task header phdrs i m).flatMap
        (phdrHistory elfFile))) ∧ ∀ x, ¬ s.InTables x → r.2 x = m x := by
  dsimp only
  fun_induction processMapElfLoop elfFile task header phdrs i res m with
  | case1 i res m hi r =>
      rename_i hneg
      intro f hrep hres
      exact absurd hneg (not_lt.mpr hres)
  | case2 i res m hi r =>
      rename_i hneg ih
      intro f hrep hres
      have horder : PhdrInOrder elfFile (readElf32Phdr m (off phdrs (32 * i))) := by
        by_contra hno
        have hr : r = (-EINVARG, m) := processMapPhdr_refused hno m
        rw [hr] at hneg
        exact hneg (show -EINVARG < 0 by decide)
      obtain ⟨m₁, hmap, hrep₁, hframe₁⟩ := processMapPhdr_spec hdir hrep horder
      have hr : r = (0, m₁) := hmap
      rw [hr] at ih hres
      obtain ⟨hrep', hframe'⟩ := ih hrep₁ hres
      rw [processMapElfHeaders, dif_pos hi, hr]
      dsimp only
      rw [hmap, if_neg (lt_irrefl 0), List.flatMap_cons, replay_append]
      exact ⟨hrep', fun x hx => (hframe' x hx).trans (hframe₁ x hx)⟩
  | case3 i res m hi =>
      intro f hrep _
      rw [processMapElfHeaders, dif_neg hi]
      exact ⟨hrep, fun _ _ => rfl⟩

/-! ### The whole space -/

/-- The writes for the stack, which `process_map_memory` maps last. -/
def stackHistory (process : Process) : List (UInt32 × UInt32) :=
  mapHistory peachosProgramVirtualStackAddressEnd process.stack
    (pagingAlignAddress (process.stack + peachosUserProgramStackSize)) pageFlagsWrite

/-- The entry of a page after the headers and the stack were mapped. -/
def elfSpace (process : Process) (headers : List Elf32Phdr) : UInt32 → UInt32 :=
  replay (fun w => w ||| pageFlagsRead)
    (headers.flatMap (phdrHistory process.elfFile) ++ stackHistory process)

/-- Where a virtual address lies in memory. -/
def placeOf (space : UInt32 → UInt32) (v : UInt32) : UInt32 :=
  off (frameOf (space (pagingAlignToLowerPage v))) (v.toNat % 4096)

/-- The stack is mapped on the four pages from `0x3FB000` on. -/
theorem ElfBuild.stackPages (b : ElfBuild) :
    ((pagingAlignAddress (b.process.stack + peachosUserProgramStackSize) - b.process.stack) /
      pagingPageSize).toNat = 4 ∧ peachosProgramVirtualStackAddressEnd = 0x3FB000 := by
  obtain ⟨-, -, hpages, -, -⟩ := allocation_range b.heap b.stack
  exact ⟨hpages.trans (by decide), by decide⟩

theorem ElfBuild.lastWrite_stack (b : ElfBuild) {j : ℕ} (hj : j < 4) :
    lastWrite (stackHistory b.process) (off 0x3FB000 (4096 * j)) =
      some (off b.process.stack (4096 * j) ||| pageFlagsWrite) := by
  obtain ⟨hpages, hvirt⟩ := b.stackPages
  unfold stackHistory
  rw [hvirt]
  exact lastWrite_mapHistory _ _ _ _ (by omega)

theorem ElfBuild.lastWrite_stack_eq_none_iff (b : ElfBuild) {w : UInt32} :
    lastWrite (stackHistory b.process) w = none ↔ ∀ j < 4, off 0x3FB000 (4096 * j) ≠ w := by
  obtain ⟨hpages, hvirt⟩ := b.stackPages
  unfold stackHistory
  rw [lastWrite_mapHistory_eq_none_iff, hpages, hvirt]

/-- The pages of the stack end before the page of the program. -/
theorem stackPage_ne {w : UInt32} (hw : 0x400000 ≤ w) : ∀ j < 4, off 0x3FB000 (4096 * j) ≠ w := by
  rintro j hj rfl
  rw [UInt32.le_iff_toNat_le, toNat_off, show (0x400000 : UInt32).toNat = 4194304 from rfl,
    show (0x3FB000 : UInt32).toNat = 4173824 from rfl] at hw
  omega

/-- `process_map_memory` on a new directory. -/
theorem ElfBuild.mapMemory {res : ℤ}
    (hmap : processMapMemory b.process b.task b.kernel'.mem = some (res, m')) (hres : 0 ≤ res) :
    ∃ s, MappedSpace b.kernel b.live b.task b.kernel'.mem s ∧
      Represents m' s (elfSpace b.process b.mapped) ∧
      (∀ x, ¬ s.InTables x → m' x = b.kernel'.mem x) ∧
      ∀ v, translate (paging4gbChunkGetDirectory b.task.pageDirectory m') v m' =
        placeOf (elfSpace b.process b.mapped) v := by
  obtain ⟨-, s, hspace⟩ := taskInit_spec b.heap b.init b.ok
  unfold processMapMemory at hmap
  rw [if_pos b.filetype] at hmap
  have hstack := Option.some.inj hmap
  obtain ⟨r, hr⟩ : ∃ r, processMapElf b.process b.task b.kernel'.mem = r := ⟨_, rfl⟩
  rw [hr] at hstack
  have hres' : 0 ≤ r.1 := by
    unfold processMapStack at hstack
    split_ifs at hstack with hneg
    · rw [hstack] at hneg
      exact absurd hneg (not_lt.mpr hres)
    · exact not_lt.mp hneg
  have hheaders := processMapElfLoop_headers (s := s) hspace.directory hspace.identity
    (hr ▸ hres' : 0 ≤ (processMapElf b.process b.task b.kernel'.mem).1)
  change Represents (processMapElf b.process b.task b.kernel'.mem).2 s _ ∧
    ∀ x, _ → (processMapElf b.process b.task b.kernel'.mem).2 x = _ at hheaders
  rw [hr] at hheaders
  obtain ⟨hrep₁, hframe₁⟩ := hheaders
  obtain ⟨hstk, hstkEnd, -, -, -⟩ := allocation_range b.heap b.stack
  obtain ⟨m₂, hmap₂, hrep₂, hframe₂⟩ := pagingMapTo_spec hrep₁
    (show PageAligned peachosProgramVirtualStackAddressEnd by decide) hstk
    (pageAligned_pagingAlignAddress _) hstkEnd pageFlagsWrite
  unfold processMapStack at hstack
  rw [if_neg (not_lt.mpr hres'), hspace.directory, hmap₂] at hstack
  obtain rfl : m₂ = m' := congrArg Prod.snd hstack
  rw [← replay_append] at hrep₂
  refine ⟨s, hspace, hrep₂, fun x hx => (hframe₂ x hx).trans (hframe₁ x hx), fun v => ?_⟩
  have hdir : paging4gbChunkGetDirectory b.task.pageDirectory m₂ = blockAddr s.directory := by
    unfold paging4gbChunkGetDirectory
    rw [hspace.directory, hrep₂.tables.chunk]
  unfold translate placeOf
  rw [hdir, pagingGet_spec hrep₂ (pageAligned_pagingAlignToLowerPage v)]
  rfl

/-! ### A table inside the file -/

/-- The headers that are read from a table inside the file are those that were loaded. -/
theorem processMapElfHeaders_eq (hspace : MappedSpace b.kernel b.live b.task b.kernel'.mem s)
    (htable : b.TableInside) : ∀ (left i : ℕ) {m : Mem} {f : UInt32 → UInt32},
      i + left = b.phnum → Represents m s f → b.FileKept b.kernel'.mem m →
      (∀ j, i ≤ j → j < b.phnum → PhdrInOrder b.process.elfFile (b.phdr j)) →
      processMapElfHeaders b.process.elfFile b.task b.buffer
        (elfPheader b.kernel'.mem b.buffer) i m = (List.range' i left).map b.phdr
  | 0, i, m, f, hi, hrep, hkept, horder => by
      have hend : ¬ i < (readElfHeader m b.buffer).phnum.toNat := by
        rw [hkept.header]
        unfold ElfBuild.phnum at hi
        omega
      rw [processMapElfHeaders, dif_neg hend]
      rfl
  | left + 1, i, m, f, hi, hrep, hkept, horder => by
      have hin : i < b.phnum := by omega
      have hround : i < (readElfHeader m b.buffer).phnum.toNat := by
        rw [hkept.header]
        exact hin
      have hphdr : readElf32Phdr m (off (elfPheader b.kernel'.mem b.buffer) (32 * i)) = b.phdr i :=
        hkept.phdr htable hin
      obtain ⟨m₁, hmap, hrep₁, hframe₁⟩ :=
        processMapPhdr_spec hspace.directory hrep (horder i le_rfl hin)
      have hkept₁ : b.FileKept b.kernel'.mem m₁ := fun x hx =>
        (b.fileKept hspace hframe₁ x hx).trans (hkept x hx)
      rw [processMapElfHeaders, dif_pos hround, hphdr]
      dsimp only
      rw [hmap, if_neg (lt_irrefl 0), List.range'_succ, List.map_cons,
        processMapElfHeaders_eq hspace htable left (i + 1) (by omega) hrep₁ hkept₁
          fun j hj hjn => horder j (by omega) hjn]

/-- If no header is refused, the process is mapped with the headers of its file. -/
theorem ElfBuild.mapMemory_headers (htable : b.TableInside)
    (horder : ∀ phdr ∈ b.headers, PhdrInOrder b.process.elfFile phdr) :
    b.mapped = b.headers ∧
      ∃ m', processMapMemory b.process b.task b.kernel'.mem = some (0, m') := by
  obtain ⟨-, s, hspace⟩ := taskInit_spec b.heap b.init b.ok
  refine ⟨processMapElfHeaders_eq hspace htable b.phnum 0 (Nat.zero_add _) hspace.identity
    (fun _ _ => rfl) fun j _ hj => horder _ (ElfBuild.mem_headers.mpr ⟨j, hj, rfl⟩), ?_⟩
  have hzero := (b.map_headers htable).1.mpr horder
  unfold processMapMemory processMapStack
  rw [if_pos b.filetype, hzero, if_neg (lt_irrefl 0)]
  exact ⟨_, rfl⟩

/-- A process is mapped if and only if no header of its file is refused. -/
theorem ElfBuild.mapMemory_iff (htable : b.TableInside) :
    (∃ res m', processMapMemory b.process b.task b.kernel'.mem = some (res, m') ∧ 0 ≤ res) ↔
      ∀ phdr ∈ b.headers, PhdrInOrder b.process.elfFile phdr := by
  constructor
  · rintro ⟨res, m', hmap, hres⟩
    have hcases := processMapElf_res b.process b.task b.kernel'.mem
    rw [← (b.map_headers htable).1]
    refine hcases.resolve_right fun hneg => ?_
    unfold processMapMemory processMapStack at hmap
    rw [if_pos b.filetype, hneg, if_pos (by decide)] at hmap
    have hres' := congrArg Prod.fst (Option.some.inj hmap)
    dsimp only at hres'
    rw [hneg] at hres'
    rw [← hres'] at hres
    exact absurd hres (by decide)
  · intro horder
    obtain ⟨-, m', hmap⟩ := ElfBuild.mapMemory_headers htable horder
    exact ⟨0, m', hmap, le_rfl⟩

/-- The place of a byte of a segment, if no later header and not the stack maps its page. -/
theorem placeOf_segment {process : Process} {size : ℕ} {phdr : Elf32Phdr}
    {pre post : List Elf32Phdr} (hseg : ElfSegment process.elfFile.elfMemory size phdr)
    (hbuffer : process.elfFile.OnPage) (horder : PhdrInOrder process.elfFile phdr) {k : ℕ}
    (hk : k < phdr.memsz.toNat)
    (hpost : ∀ later ∈ post,
      phdrEntry process.elfFile later (pagingAlignToLowerPage (off phdr.vaddr k)) = none)
    (hstack : lastWrite (stackHistory process) (pagingAlignToLowerPage (off phdr.vaddr k)) =
      none) :
    placeOf (elfSpace process (pre ++ phdr :: post)) (off phdr.vaddr k) =
      off process.elfFile.elfMemory (phdr.offset.toNat + k) := by
  obtain ⟨-, frame, hframe, hlast, hplace⟩ := hseg.lastWrite_page hbuffer horder hk
  have hentry : elfSpace process (pre ++ phdr :: post) (pagingAlignToLowerPage (off phdr.vaddr k)) =
      frame ||| phdrFlags phdr := by
    unfold elfSpace
    rw [replay_apply, lastWrite_append, hstack, List.flatMap_append, List.flatMap_cons,
      lastWrite_append, lastWrite_append, lastWrite_flatMap_eq_none hpost, hlast]
    rfl
  unfold placeOf frameOf
  rw [hentry, or_and_frame hframe (phdrFlags_lt _)]
  exact hplace

/-! ### Files with one header -/

/-- A file that passes the checks and has one program header, right behind the ELF header. -/
structure OneHeader (data : ℕ → UInt8) (phdr : Elf32Phdr) : Prop where
  checks : ElfChecks (dataImage data) 0
  phnum : (readElfHeader (dataImage data) 0).phnum.toNat = 1
  phoff : (readElfHeader (dataImage data) 0).phoff = 52
  phdr_eq : readElf32Phdr (dataImage data) 52 = phdr

/-- A process of such a file. -/
theorem exists_oneHeader {data : ℕ → UInt8} {phdr : Elf32Phdr} (h : OneHeader data phdr)
    {size : UInt32} (h84 : 84 ≤ size.toNat) (h4096 : size.toNat ≤ 4096) :
    ∃ b : ElfBuild, b.size = size ∧ ElfChecks b.kernel'.mem b.buffer ∧ b.TableInside ∧
      b.headers = [phdr] ∧ ∀ i < size.toNat, b.kernel'.mem (off b.buffer i) = data i := by
  obtain ⟨b, hsize, -, hnum, htable, hphdr, hdata⟩ :=
    exists_headersBuild h.phnum h.phoff h84 h4096
  have hzero : b.phdr 0 = phdr := (hphdr 0 (by decide)).trans h.phdr_eq
  refine ⟨b, hsize, (ElfBuild.checks_of_data (by omega) (by omega) hdata).mpr h.checks, htable, ?_,
    hdata⟩
  unfold ElfBuild.headers
  rw [hnum]
  simp [List.range', hzero]

end PeachOS
