import PeachOS.ProgramSpace

/-! # Loading a program

What `process_load_data` delivers for a flat binary and for an ELF file, in a kernel that has room
for it: the process can be mapped into a `TaskSpace`, whatever is allocated after it
(`LoadsProgram`).

A file is `FlatProgram` or `ElfProgram` by its bytes alone. -/

namespace PeachOS

open ByteMemory Extents X86

/-! ### Kernels with more allocations -/

/-- The kernel `k'` has more allocations than `k`, all below block `n`; those of `k` are there with
their contents. -/
structure Grown (k : Kernel) (live : Layout UInt32) (k' : Kernel) (live' : Layout UInt32) (n : ℕ) :
    Prop where
  top : TopFree k' live' n
  keep : ∀ a e, live a = some e → live' a = some e
  same : ∀ a e, live a = some e → ∀ x, InExtent e x → k'.mem x = k.mem x
  null : k'.mem 0x6e00 = k.mem 0x6e00

section Growth

variable {k k' k'' : Kernel} {live live' live'' : Layout UInt32} {n n' : ℕ}

theorem Grown.trans (h : Grown k live k' live' n) (h' : Grown k' live' k'' live'' n') :
    Grown k live k'' live'' n' where
  top := h'.top
  keep a e he := h'.keep a e (h.keep a e he)
  same a e he x hx := (h'.same a e (h.keep a e he) x hx).trans (h.same a e he x hx)
  null := h'.null.trans h.null

theorem Allocated.exists_extent {size a : UInt32} (h : Allocated live size a) :
    ∃ e, live a = some e := by
  obtain ⟨e, he, -⟩ := h
  exact ⟨e, he⟩

/-- What is not allocated later was not allocated before. -/
theorem Grown.not_live (h : Grown k live k' live' n) {a : UInt32} (ha : live' a = none) :
    live a = none := by
  cases hlive : live a with
  | none => rfl
  | some e =>
      rw [h.keep _ _ hlive] at ha
      cases ha

/-- The bytes of a live allocation are outside the table. -/
theorem HeapInv.extent_not_inTable {m : Mem} {a : UInt32} {e : Extent} {x : UInt32}
    (h : HeapInv kernelHeap m live) (he : live a = some e) (hx : InExtent e x) : ¬ InTable x := by
  obtain ⟨b, hb, hxb⟩ := hx
  have hin := h.encodes.packed.inside a e he
  rw [kernelHeap_total] at hin
  exact hxb.not_inTable (by have := hb.2; omega)

/-- Two live allocations have no byte in common. -/
theorem HeapInv.extent_apart {m : Mem} {a a' : UInt32} {e e' : Extent} {x : UInt32}
    (h : HeapInv kernelHeap m live) (he : live a = some e) (he' : live a' = some e') (hne : a ≠ a')
    (hx : InExtent e x) : ¬ InExtent e' x := by
  rintro ⟨b', hb', hxb'⟩
  obtain ⟨b, hb, hxb⟩ := hx
  have hin := h.encodes.packed.inside a e he
  have hin' := h.encodes.packed.inside a' e' he'
  rw [kernelHeap_total] at hin hin'
  have hlt := hb.2
  have hlt' := hb'.2
  obtain rfl : b' = b := InBlock.unique (by omega) (by omega) hxb' hxb
  exact h.encodes.packed.apart a a' e e' hne he he' b' hb hb'

/-- A request that fits into the room. -/
theorem TopFree.kzalloc_grown (h : TopFree k live n) {size : UInt32} (h1 : 1 ≤ size.toNat)
    (hn : n + blocksFor size ≤ 25600) :
    ∃ a k' live', PeachOS.kzalloc size k = (a, k') ∧ Grown k live k' live' (n + blocksFor size) ∧
      Allocated live' size a ∧ live a = none := by
  have h2 : size.toNat ≤ 0xFFFFF000 := by unfold blocksFor at hn; omega
  have hrun : Run (EntryFree kernelHeap k.mem) n (blocksFor size) :=
    fun j hj => h.free (n + j) (by omega) (by omega)
  obtain ⟨a, k', live', hk, htop, halloc, hnone, hkeep⟩ := h.kzalloc size h1 hn
  obtain ⟨e, k₁, hk₁, -, -, hin, -, hnew, hinv, -, hframe⟩ :=
    kzalloc_spec h.heap h1 h2 ⟨n, hn, hrun⟩
  obtain ⟨rfl, rfl⟩ := Prod.mk.inj (hk.symm.trans hk₁)
  refine ⟨_, k', live', hk, ⟨htop, hkeep, fun a f hf x hx => ?_, ?_⟩, halloc, hnone⟩
  · have hne : a ≠ blockAddr e.start := by
      rintro rfl
      rw [hnew] at hf
      cases hf
    refine hframe x (h.heap.extent_not_inTable hf hx) ?_
    exact hinv.extent_apart (by rwa [assign_of_ne _ _ hne]) (assign_self _ _ _) hne hx
  · have hnull := h.kzalloc_null size h1 hn
    rwa [hk₁] at hnull

/-- Stores to an allocation that is not one of `k`. -/
theorem Grown.write {m : Mem} {size a : UInt32} (h : Grown k live k' live' n)
    (ha : Allocated live' size a) (hnone : live a = none)
    (hm : ∀ x, ¬ InRange a size.toNat x → m x = k'.mem x) :
    Grown k live ⟨m, k'.oom⟩ live' n := by
  obtain ⟨e, he, hlen⟩ := ha
  have haddr : a = blockAddr e.start := h.top.heap.address _ e he
  have hin := h.top.heap.encodes.packed.inside a e he
  have hsize : size.toNat ≤ 4096 * e.len := by rw [hlen]; unfold blocksFor; omega
  rw [kernelHeap_total] at hin
  have hout : ∀ x, ¬ InExtent e x → m x = k'.mem x := by
    refine fun x hx => hm x fun hr => hx ?_
    rw [haddr] at hr
    exact inExtent_of_inRange hin hsize hr
  refine ⟨h.top.write h.top.ok fun x hx => hout x fun hxe =>
    h.top.heap.extent_not_inTable he hxe hx, h.keep, fun c f hf x hx => ?_, ?_⟩
  · have hne : c ≠ a := by
      rintro rfl
      rw [hnone] at hf
      cases hf
    exact (hout x (h.top.heap.extent_apart (h.keep c f hf) he hne hx)).trans (h.same c f hf x hx)
  · refine (hout _ ?_).trans h.null
    rintro ⟨b, ⟨-, hb⟩, hx⟩
    exact hx.ne_null (by omega) rfl

/-- A new directory. -/
theorem TopFree.pagingNew4gb_grown (h : TopFree k live n) (hn : n + 1026 ≤ 25600) {flags : UInt8}
    (hflags : flags.toUInt32 ||| pagingIsWritable = 7) :
    ∃ (s : SpaceBlocks) (k' : Kernel) (live' : Layout UInt32),
      PeachOS.pagingNew4gb flags k = (blockAddr s.chunk, k') ∧ Grown k live k' live' (n + 1026) ∧
      Takes k k' s.blocks ∧ Represents k'.mem s (fun w => w ||| flags.toUInt32) ∧
      OpenTables k'.mem s := by
  obtain ⟨chunk, k', live', hnew, -, htop, hkeep⟩ := h.pagingNew4gb flags hn
  have hok : (PeachOS.pagingNew4gb flags k).2.oom = false := by
    rw [hnew]
    exact htop.ok
  obtain ⟨s, hchunk, htakes, hrep, hopen⟩ := pagingNew4gb_open hflags hok
  rw [hnew] at hchunk htakes hrep hopen
  obtain rfl : chunk = blockAddr s.chunk := hchunk
  refine ⟨s, k', live', hnew, ⟨htop, hkeep, fun a e he x hx => ?_, ?_⟩, htakes, hrep, hopen⟩
  · obtain ⟨b, hb, hxb⟩ := hx
    have hin := h.heap.encodes.packed.inside a e he
    rw [kernelHeap_total] at hin
    exact htakes.same (by have := hb.2; omega) (h.heap.taken he hb) hxb
  · exact htakes.frame _ not_inTable_null fun b hb hx => hx.ne_null (htakes.lt b hb) rfl

end Growth

/-! ### Files -/

/-- The file can be opened and read, and it is not empty. -/
structure FileAccess.Delivered (file : FileAccess) : Prop where
  fopen : 0 < file.fopen
  fstat : file.fstat = 0
  fread : file.fread = 1
  size : 1 ≤ file.filesize.toNat

/-- A flat binary: it does not start as an ELF file does, and it ends below `0x5F0000`. -/
structure FlatProgram (file : FileAccess) : Prop where
  delivered : file.Delivered
  first : file.data 0 ≠ 0x7f
  fits : blocksFor file.filesize ≤ 496

/-- A program header for pages between `0x400000` and `0x5F0000`; the pages that the program may
write are pages of the file. -/
structure SafeHeader (size : UInt32) (phdr : Elf32Phdr) : Prop where
  start : 0x400000 ≤ phdr.vaddr.toNat
  -- the pages may cover two more than the bytes fill
  fits : phdr.vaddr.toNat + phdr.memsz.toNat + 8192 ≤ 0x5F0000
  offset : phdr.offset.toNat ≤ size.toNat
  writable : phdr.flags &&& pfW ≠ 0 →
    phdr.offset.toNat + phdr.memsz.toNat ≤ 4096 * blocksFor size

/-- An ELF file that passes the checks of the loader, with safe headers in the file. -/
structure ElfProgram (file : FileAccess) : Prop where
  delivered : file.Delivered
  header : 46 ≤ file.filesize.toNat
  checks : ElfChecks (dataImage file.data) 0
  table : (readElfHeader (dataImage file.data) 0).phoff.toNat +
    32 * (readElfHeader (dataImage file.data) 0).phnum.toNat ≤ file.filesize.toNat
  safe : ∀ i < (readElfHeader (dataImage file.data) 0).phnum.toNat,
    SafeHeader file.filesize
      (readElf32Phdr (dataImage file.data) (elfProgramHeader (dataImage file.data) 0 i))

section Files

variable {k : Kernel} {live : Layout UInt32} {n : ℕ} {file : FileAccess}

/-- The checks depend on the bytes of the file only. -/
theorem elfChecks_congr {m m' : Mem} {a : UInt32} {n : ℕ} (hn : 46 ≤ n)
    (h : ∀ x, InRange a n x → m' x = m x) : ElfChecks m' a ↔ ElfChecks m a := by
  have hsig : elfValidSignature m' a = elfValidSignature m a := by
    unfold elfValidSignature
    rw [memcmp_congr elfSignature.length 0 fun j hj => ?_]
    have hj' : j < 4 := hj
    rw [zero_add, h _ (inRange_off (by omega))]
  unfold ElfChecks
  rw [hsig, readElfHeader_congr hn h]

/-- A file in a buffer. -/
def FileAt (file : FileAccess) (m : Mem) (a : UInt32) : Prop :=
  ∀ i < file.filesize.toNat, m (off a i) = file.data i

theorem FileAt.checks {m : Mem} {a : UInt32} (h : FileAt file m a)
    (hsize : 46 ≤ file.filesize.toNat) : ElfChecks m a ↔ ElfChecks (dataImage file.data) 0 := by
  have hshift : Shifted (fun x => m (a + x)) m a := fun _ => rfl
  rw [hshift.checks]
  refine elfChecks_congr hsize fun x hx => ?_
  have hlt : x.toNat < file.filesize.toNat := by
    unfold InRange at hx
    rwa [sub_zero] at hx
  have hoff : a + x = off a x.toNat := by
    apply UInt32.toNat.inj
    rw [UInt32.toNat_add, toNat_off]
  exact (congrArg m hoff).trans (h _ hlt)

/-- The first part of `elf_load`: the file is read into a new buffer. -/
theorem elfLoad_delivered (hfile : file.Delivered) (h : TopFree k live n)
    (hn : n + (1 + blocksFor file.filesize) ≤ 25600) :
    ∃ buffer k' live', Grown k live k' live' (n + (1 + blocksFor file.filesize)) ∧
      Allocated live' file.filesize buffer ∧ live buffer = none ∧ FileAt file k'.mem buffer ∧
      elfLoad file k = ((elfProcessLoaded k'.mem { elfFileZero with elfMemory := buffer }).1,
        (elfProcessLoaded k'.mem { elfFileZero with elfMemory := buffer }).2, k') := by
  have hone : blocksFor 132 = 1 := by decide
  obtain ⟨c, k₁, live₁, hk₁, h₁, -, -⟩ := h.kzalloc_grown (show 1 ≤ (132 : UInt32).toNat by decide)
    (by omega)
  rw [hone] at h₁
  obtain ⟨buffer, k₂, live₂, hk₂, h₂, hbuffer, hnew⟩ := h₁.top.kzalloc_grown hfile.size (by omega)
  have hnone := h₁.not_live hnew
  have hlt := toNat_lt file.filesize
  obtain ⟨k₃, hk₃⟩ : ∃ k₃ : Kernel,
      k₃ = ⟨writeBytes k₂.mem buffer file.data file.filesize.toNat, k₂.oom⟩ := ⟨_, rfl⟩
  have hmem : ∀ x, k₃.mem x = if InRange buffer file.filesize.toNat x then
      file.data (x - buffer).toNat else k₂.mem x := by
    intro x
    rw [hk₃]
    exact writeBytes_apply _ _ _ _ _ (by omega)
  have hgrown : Grown k live k₃ live₂ (n + (1 + blocksFor file.filesize)) := by
    rw [hk₃, show n + (1 + blocksFor file.filesize) = n + 1 + blocksFor file.filesize by omega]
    refine (h₁.trans h₂).write hbuffer hnone fun x hx => ?_
    have := hmem x
    rw [hk₃, if_neg hx] at this
    exact this
  refine ⟨buffer, k₃, live₂, hgrown, hbuffer, hnone, fun i hi => ?_, ?_⟩
  · rw [hmem, if_pos (inRange_off hi)]
    congr 1
    have := toNat_lt buffer
    rw [toNat_sub', toNat_off]
    omega
  · have hread : file.Readable := by
      obtain ⟨hopen, hstat, hfread, -⟩ := hfile
      exact ⟨by omega, by omega, by omega⟩
    have hbuf : elfBuffer file k = (buffer, k₂) := by
      unfold elfBuffer
      rw [hk₁]
      exact hk₂
    rw [elfLoad_readable hread hbuf, hk₃]

/-- `process_load_elf` for an ELF file. -/
theorem ElfProgram.load (hfile : ElfProgram file) (h : TopFree k live n)
    (hn : n + (1 + blocksFor file.filesize) ≤ 25600) :
    ∃ elfFile k' live', processLoadElf file k = (.elf elfFile, k') ∧
      Grown k live k' live' (n + (1 + blocksFor file.filesize)) ∧
      Allocated live' file.filesize elfFile.elfMemory ∧ live elfFile.elfMemory = none ∧
      FileAt file k'.mem elfFile.elfMemory := by
  obtain ⟨buffer, k', live', hgrown, hbuffer, hnone, hat, hload⟩ :=
    elfLoad_delivered hfile.delivered h hn
  have haccept := (elfProcessLoaded_accepts_iff k'.mem { elfFileZero with elfMemory := buffer }).mpr
    ((hat.checks hfile.header).mpr hfile.checks)
  have hmemory := elfProcessLoaded_elfMemory k'.mem { elfFileZero with elfMemory := buffer }
  generalize elfProcessLoaded k'.mem { elfFileZero with elfMemory := buffer } = r
    at hload haccept hmemory
  dsimp only at hmemory
  refine ⟨r.2, k', live', ?_, hgrown, hmemory ▸ hbuffer, hmemory ▸ hnone, hmemory ▸ hat⟩
  unfold processLoadElf
  dsimp only
  rw [hload, if_neg (not_lt.mpr haccept)]

/-- A flat binary is no ELF file. -/
theorem FlatProgram.refused (hfile : FlatProgram file) (h : TopFree k live n)
    (hn : n + (1 + blocksFor file.filesize) ≤ 25600) :
    ∃ k' live', processLoadElf file k = (.unchanged (-EINFORMAT), k') ∧
      Grown k live k' live' (n + (1 + blocksFor file.filesize)) := by
  obtain ⟨buffer, k', live', hgrown, -, -, hat, hload⟩ := elfLoad_delivered hfile.delivered h hn
  have hfirst : k'.mem buffer ≠ 0x7f := by
    have hzero := hat 0 hfile.delivered.size
    rw [off_zero] at hzero
    rw [hzero]
    exact hfile.first
  refine ⟨k', live', ?_, hgrown⟩
  unfold processLoadElf
  dsimp only
  rw [hload, elfProcessLoaded_of_ne hfirst]
  exact congrArg (·, k') (if_pos (show -EINFORMAT < 0 by decide))

/-- `process_load_binary`. -/
theorem FileAccess.Delivered.load (hfile : file.Delivered) (h : TopFree k live n)
    (hn : n + blocksFor file.filesize ≤ 25600) :
    ∃ a k' live', processLoadBinary file k = (.binary a file.filesize, k') ∧
      Grown k live k' live' (n + blocksFor file.filesize) ∧ Allocated live' file.filesize a ∧
      live a = none := by
  obtain ⟨a, k₁, live₁, hk₁, h₁, ha, hnone⟩ := h.kzalloc_grown hfile.size hn
  have hne : a ≠ 0 := h₁.top.heap.allocated_ne_zero ha
  have hlt := toNat_lt file.filesize
  refine ⟨a, _, live₁, ?_, h₁.write (m := writeBytes k₁.mem a file.data file.filesize.toNat) ha
    hnone fun x hx => ?_, ha, hnone⟩
  · unfold processLoadBinary
    dsimp only
    rw [if_neg hfile.fopen.ne', if_neg (not_not.mpr hfile.fstat), hk₁]
    dsimp only
    rw [if_neg hne, if_neg (not_not.mpr hfile.fread)]
  · rw [writeBytes_apply _ _ _ _ _ (by omega), if_neg hx]

end Files

/-! ### Mapping what was loaded -/

/-- The fields of the process are those that `process_load_data` stores. -/
def LoadedData.In (process : Process) : LoadedData → Prop
  | .unchanged _ => False
  | .elf elfFile => process.filetype = processFiletypeElf ∧ process.elfFile = elfFile
  | .binary ptr size =>
      process.filetype = processFiletypeBinary ∧ process.ptr = ptr ∧ process.size = size

/-- What was stored in a new process is a success, and it is in the process with its stack. -/
theorem LoadedData.in_withStack {data : LoadedData}
    (h : data.In (data.store processFullZero).toProcess) (filename : List UInt8) (slot : ℤ)
    (stack : UInt32) : data.res = 0 ∧
      data.In (withStack filename slot stack (data.store processFullZero)).toProcess := by
  cases data with
  | unchanged res => exact h.elim
  | elf elfFile => exact ⟨rfl, h⟩
  | binary ptr size => exact ⟨rfl, h⟩

/-- Whatever the kernel allocates afterwards, a process with the data gets a space in which it may
write `own` and its stack. -/
def Mappable (data : LoadedData) (own : UInt32) (k : Kernel) (live : Layout UInt32) : Prop :=
  ∀ {k₁ k₂ : Kernel} {live₁ : Layout UInt32} {n : ℕ} {process : Process} {p : UInt32} {task : Task}
    {res : ℤ}, Grown k live k₁ live₁ n → data.In process →
    Allocated live₁ peachosUserProgramStackSize process.stack →
    taskInit p process k₁ = ((res, task), k₂) → k₂.oom = false →
    ∃ t : TaskSpace, t.kernel = k₁ ∧ t.live = live₁ ∧ t.own = {own, process.stack} ∧ t.built = k₂ ∧
      task.pageDirectory = blockAddr t.space.chunk ∧
      processMapMemory process task k₂.mem = some (0, t.mem)

section Mapping

variable {k : Kernel} {live : Layout UInt32} {file : FileAccess}

/-- A flat binary is mapped. -/
theorem FlatProgram.mappable (hfile : FlatProgram file) {a : UInt32}
    (ha : Allocated live file.filesize a) : Mappable (.binary a file.filesize) a k live := by
  rintro k₁ k₂ live₁ n process p task res hgrown ⟨htype, rfl, hsize⟩ hstack hinit hok
  let b : BinaryBuild := ⟨k₁, live₁, process, p, task, res, k₂, hgrown.top.heap, htype,
    hsize ▸ ha.mono hgrown.keep, hstack, hinit, hok⟩
  obtain ⟨m, hmap, -⟩ := b.space
  have hfits : blocksFor b.process.size ≤ 496 := by
    change blocksFor process.size ≤ 496
    rw [hsize]
    exact hfile.fits
  obtain ⟨t, hk, hlive, hown, -, hbuilt, hm, hdir⟩ := b.exists_taskSpace hfits hmap
  exact ⟨t, hk, hlive, hown, hbuilt, hdir, hm ▸ hmap⟩

/-- The pages of a safe header. -/
theorem SafeHeader.pages {size : UInt32} {phdr : Elf32Phdr} (h : SafeHeader size phdr)
    {elfFile : ElfFile} {c : ℕ} (hc : c < 25600) (hmemory : elfFile.elfMemory = blockAddr c)
    (hsize : size.toNat ≤ 4096 * 25600) :
    PhdrInOrder elfFile phdr ∧ phdrPages elfFile phdr * 4096 + phdr.offset.toNat / 4096 * 4096 ≤
      (phdr.offset.toNat + phdr.memsz.toNat + 4095) / 4096 * 4096 := by
  obtain ⟨hstart, hfits, hoffset, -⟩ := h
  have haddr := toNat_blockAddr hc
  have hphys : (elfPhdrPhysAddress elfFile phdr).toNat =
      16777216 + 4096 * c + phdr.offset.toNat := by
    unfold elfPhdrPhysAddress elfMemory
    rw [hmemory, UInt32.toNat_add, haddr]
    omega
  have hend : (elfPhdrPhysAddress elfFile phdr + phdr.memsz).toNat =
      16777216 + 4096 * c + phdr.offset.toNat + phdr.memsz.toNat := by
    rw [UInt32.toNat_add, hphys]
    omega
  have hle : PhdrInOrder elfFile phdr := by
    unfold PhdrInOrder
    rw [UInt32.lt_iff_toNat_lt, toNat_pagingAlignAddress, toNat_pagingAlignToLowerPage, hphys, hend]
    omega
  refine ⟨hle, ?_⟩
  unfold PhdrInOrder at hle
  unfold phdrPages
  rw [UInt32.toNat_div, UInt32.toNat_sub_of_le _ _ (UInt32.not_lt.mp hle),
    toNat_pagingAlignAddress, toNat_pagingAlignToLowerPage, hphys, hend,
    show pagingPageSize.toNat = 4096 from rfl]
  omega

/-- The file of an ELF process, in the kernel with the directory. -/
structure ElfBuild.Holds (b : ElfBuild) (file : FileAccess) : Prop where
  size : b.size = file.filesize
  data : FileAt file b.kernel'.mem b.buffer

/-- The table of the headers, and each header, are those of the file. -/
theorem ElfBuild.Holds.headers {b : ElfBuild} (h : b.Holds file) (hfile : ElfProgram file) :
    b.TableInside ∧ ∀ phdr ∈ b.headers, SafeHeader file.filesize phdr := by
  have hlt := toNat_lt file.filesize
  obtain ⟨hheader, hphdr⟩ := ElfBuild.headers_of_data hfile.header (by omega) h.data
  have htable := hfile.table
  have hphnum : b.phnum = (readElfHeader (dataImage file.data) 0).phnum.toNat := by
    unfold ElfBuild.phnum
    rw [hheader]
  have hphoff : (readElfHeader (dataImage file.data) 0).phoff ≠ 0 := by
    simpa [elfHasProgramHeader] using hfile.checks.2.2.2
  have hinside : b.TableInside := by
    unfold ElfBuild.TableInside
    rw [hheader, hphnum, h.size]
    exact ⟨hphoff, htable⟩
  refine ⟨hinside, fun phdr hmem => ?_⟩
  obtain ⟨i, hi, rfl⟩ := ElfBuild.mem_headers.mp hmem
  rw [hphnum] at hi
  have haddr : elfProgramHeader (dataImage file.data) 0 i =
      off 0 ((readElfHeader (dataImage file.data) 0).phoff.toNat + 32 * i) := by
    unfold elfProgramHeader elfPheader
    dsimp only
    rw [if_neg hphoff, zero_add, ← off_off]
    congr 1
    unfold off
    rw [UInt32.ofNat_toNat, zero_add]
  have hread : b.phdr i =
      readElf32Phdr (dataImage file.data) (elfProgramHeader (dataImage file.data) 0 i) := by
    unfold ElfBuild.phdr
    rw [b.programHeader_eq hinside, hheader, off_eq_add, haddr]
    refine hphdr _ ?_
    rw [toNat_off_of_lt (by rw [UInt32.toNat_zero]; omega), UInt32.toNat_zero]
    omega
  rw [hread]
  exact hfile.safe i hi

/-- The program is mapped, confined, and inside its part of the address space. -/
theorem ElfBuild.Holds.map {b : ElfBuild} (h : b.Holds file) (hfile : ElfProgram file) :
    ∃ m, processMapMemory b.process b.task b.kernel'.mem = some (0, m) ∧ b.Confined m ∧
      b.InProgram := by
  obtain ⟨htable, hsafe⟩ := h.headers hfile
  obtain ⟨c, hc, haddr⟩ := b.heap.allocated_block b.file
  obtain ⟨-, -, -, hblocks, -⟩ := allocation_range b.heap b.file
  have hsize : file.filesize.toNat ≤ 4096 * 25600 := by
    rw [← h.size]
    exact b.size_le.2.trans (by omega)
  have hpages := fun phdr hmem => (hsafe phdr hmem).pages hc haddr hsize
  obtain ⟨hmapped, m, hmap⟩ := ElfBuild.mapMemory_headers htable fun phdr hmem =>
    (hpages phdr hmem).1
  refine ⟨m, hmap, (b.confined_iff m).mpr fun a ha => ?_, fun phdr hmem i hi hout => ?_⟩
  · rcases (b.writableFrame_iff hmap le_rfl a).mp ha with ⟨j, hj, rfl⟩ |
      ⟨pre, phdr, post, hsplit, hflag, i, hi, -, -, rfl⟩
    · obtain ⟨hpage, -, -, -, -⟩ := allocation_range b.heap b.stack
      exact Or.inr ((inAllocation_page_iff b.heap b.stack (pageAligned_off hpage j)).mpr
        ⟨j, hj, rfl⟩)
    · have hmem : phdr ∈ b.headers := hmapped ▸ hsplit ▸ List.mem_append_cons_self
      obtain ⟨horder, hcount⟩ := hpages phdr hmem
      have hwritable := (hsafe phdr hmem).writable hflag
      have hoffset := (hsafe phdr hmem).offset
      refine Or.inl ((b.inBuffer_iff horder (by rw [h.size]; exact hoffset) hi).mpr ?_)
      rw [h.size]
      omega
  · rw [hmapped] at hmem
    obtain ⟨-, hcount⟩ := hpages phdr hmem
    obtain ⟨hstart, hfits, -, -⟩ := hsafe phdr hmem
    have hpage : (phdrPage phdr i).toNat = phdr.vaddr.toNat / 4096 * 4096 + 4096 * i := by
      unfold phdrPage
      rw [toNat_off_of_lt (by rw [toNat_pagingAlignToLowerPage]; omega),
        toNat_pagingAlignToLowerPage]
    unfold OutsideProgram at hout
    omega

/-- An ELF file is mapped. -/
theorem ElfProgram.mappable (hfile : ElfProgram file) {elfFile : ElfFile}
    (ha : Allocated live file.filesize elfFile.elfMemory)
    (hat : FileAt file k.mem elfFile.elfMemory) :
    Mappable (.elf elfFile) elfFile.elfMemory k live := by
  rintro k₁ k₂ live₁ n process p task res hgrown ⟨htype, rfl⟩ hstack hinit hok
  let b : ElfBuild := ⟨k₁, live₁, process, file.filesize, p, task, res, k₂, hgrown.top.heap, htype,
    ha.mono hgrown.keep, hstack, hinit, hok⟩
  have hholds : b.Holds file := by
    refine ⟨rfl, fun i hi => ?_⟩
    obtain ⟨s, -, htakes, -, -⟩ := taskInit_open hinit hok
    obtain ⟨e, he, hlen⟩ := ha
    have haddr : process.elfFile.elfMemory = blockAddr e.start :=
      hgrown.top.heap.address _ e (hgrown.keep _ e he)
    have hin := hgrown.top.heap.encodes.packed.inside _ e (hgrown.keep _ e he)
    have hsize : file.filesize.toNat ≤ 4096 * e.len := by rw [hlen]; unfold blocksFor; omega
    rw [kernelHeap_total] at hin
    have hbyte : InExtent e (off process.elfFile.elfMemory i) := by
      rw [haddr]
      exact inExtent_of_inRange hin hsize (inRange_off hi)
    have hkept : k₂.mem (off process.elfFile.elfMemory i) =
        k₁.mem (off process.elfFile.elfMemory i) := by
      obtain ⟨c, hc, hxc⟩ := hbyte
      exact htakes.same (by have := hc.2; omega)
        (hgrown.top.heap.taken (hgrown.keep _ e he) hc) hxc
    exact hkept.trans ((hgrown.same _ e he _ hbyte).trans (hat i hi))
  obtain ⟨m, hmap, hconfined, hprogram⟩ := hholds.map hfile
  obtain ⟨t, hk, hlive, hown, -, hbuilt, hm, hdir⟩ :=
    b.exists_taskSpace hprogram hconfined hmap le_rfl
  exact ⟨t, hk, hlive, hown, hbuilt, hdir, hm ▸ hmap⟩

end Mapping

/-! ### Loaders -/

/-- In every kernel with room for `c` blocks, the loader serves a program that can be mapped. -/
def LoadsProgram (load : Loader) (filename : List UInt8) (c : ℕ) : Prop :=
  ∀ {k : Kernel} {live : Layout UInt32} {n : ℕ}, TopFree k live n → n + c ≤ 25600 →
    ∃ data own k' live', load filename k = (data, k') ∧
      data.In (data.store processFullZero).toProcess ∧ Grown k live k' live' (n + c) ∧
      live own = none ∧ (∃ e, live' own = some e) ∧ Mappable data own k' live'

section Loaders

variable {files : List UInt8 → FileAccess} {filename : List UInt8}

/-- An ELF file takes its structure and its buffer. -/
theorem ElfProgram.loads (hfile : ElfProgram (files filename)) :
    LoadsProgram (processLoadData files) filename (1 + blocksFor (files filename).filesize) := by
  intro k live n h hn
  obtain ⟨elfFile, k', live', hload, hgrown, ha, hnone, hat⟩ := hfile.load h hn
  refine ⟨.elf elfFile, elfFile.elfMemory, k', live', ?_, ⟨rfl, rfl⟩, hgrown, hnone,
    ha.exists_extent, hfile.mappable ha hat⟩
  unfold processLoadData
  dsimp only
  rw [hload]
  exact if_neg (show ¬ (0 : ℤ) = -EINFORMAT by decide)

/-- A flat binary leaves behind what `elf_load` took for it. -/
theorem FlatProgram.loads (hfile : FlatProgram (files filename)) :
    LoadsProgram (processLoadData files) filename
      (1 + 2 * blocksFor (files filename).filesize) := by
  intro k live n h hn
  obtain ⟨k₁, live₁, hload₁, h₁⟩ := hfile.refused h (by omega)
  obtain ⟨a, k', live', hload, hgrown, ha, hnew⟩ := hfile.delivered.load h₁.top (by omega)
  refine ⟨.binary a (files filename).filesize, a, k', live', ?_, ⟨rfl, rfl, rfl⟩, ?_,
    h₁.not_live hnew, ha.exists_extent, hfile.mappable ha⟩
  · unfold processLoadData
    dsimp only
    rw [hload₁]
    dsimp only
    rw [if_pos (show (LoadedData.unchanged (-EINFORMAT)).res = -EINFORMAT from rfl), hload]
  · have hgrown' := h₁.trans hgrown
    rwa [show n + (1 + blocksFor (files filename).filesize) + blocksFor (files filename).filesize =
      n + (1 + 2 * blocksFor (files filename).filesize) by omega] at hgrown'

end Loaders

end PeachOS
