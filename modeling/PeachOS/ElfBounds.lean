import PeachOS.ElfHeaders

/-! # The bounds of the loaded segments

`elf_process_pheaders` passes once over the program headers and notes the least and the
greatest virtual address of the `PT_LOAD` ones, with the physical addresses of the headers where
they are found.

* `elfProcessPheaders_bounds`: what is noted, whatever the number, the order and the types of
  the headers. -/

namespace PeachOS

open ByteMemory Extents

/-! ### The last least element of a list -/

section LastLeast

variable {α β : Type*} [LinearOrder β] {f : α → β} {l : List α} {x y : α}

/-- `x` is the last element of `l` where `f` takes its least value. -/
def IsLastLeast (f : α → β) (l : List α) (x : α) : Prop :=
  ∃ l₁ l₂, l = l₁ ++ x :: l₂ ∧ (∀ y ∈ l, f x ≤ f y) ∧ ∀ y ∈ l₂, f x < f y

/-- `x` is the last element of `l` where `f` takes its greatest value. -/
def IsLastGreatest (f : α → β) (l : List α) (x : α) : Prop :=
  IsLastLeast (fun y => OrderDual.toDual (f y)) l x

theorem IsLastLeast.mem (h : IsLastLeast f l x) : x ∈ l := by
  obtain ⟨l₁, l₂, rfl, -⟩ := h
  exact List.mem_append_right l₁ List.mem_cons_self

theorem IsLastLeast.le (h : IsLastLeast f l x) : ∀ y ∈ l, f x ≤ f y := by
  obtain ⟨-, -, -, hle, -⟩ := h
  exact hle

theorem isLastLeast_singleton (f : α → β) (x : α) : IsLastLeast f [x] x :=
  ⟨[], [], rfl, by simp, by simp⟩

/-- An element that is at most the least one takes its place. -/
theorem IsLastLeast.concat_of_le (h : IsLastLeast f l x) (hy : f y ≤ f x) :
    IsLastLeast f (l ++ [y]) y := by
  refine ⟨l, [], rfl, fun z hz => ?_, by simp⟩
  rcases List.mem_append.mp hz with hz | hz
  · exact hy.trans (h.le z hz)
  · rw [List.mem_singleton.mp hz]

/-- A greater element leaves it in place. -/
theorem IsLastLeast.concat_of_lt (h : IsLastLeast f l x) (hy : f x < f y) :
    IsLastLeast f (l ++ [y]) x := by
  obtain ⟨l₁, l₂, rfl, hle, hlt⟩ := h
  refine ⟨l₁, l₂ ++ [y], by simp, fun z hz => ?_, fun z hz => ?_⟩
  · rcases List.mem_append.mp hz with hz | hz
    · exact hle z hz
    · rw [List.mem_singleton.mp hz]
      exact hy.le
  · rcases List.mem_append.mp hz with hz | hz
    · exact hlt z hz
    · rw [List.mem_singleton.mp hz]
      exact hy

/-- The least value does not depend on the order of the list. -/
theorem IsLastLeast.eq_of_perm {l' : List α} (h : IsLastLeast f l x) (h' : IsLastLeast f l' y)
    (hperm : l.Perm l') : f x = f y :=
  le_antisymm (h.le y (hperm.mem_iff.mpr h'.mem)) (h'.le x (hperm.mem_iff.mp h.mem))

end LastLeast

/-! ### What the headers say -/

/-- A zeroed `struct elf_file` but for the address of the file. -/
def elfFileAt (memory : UInt32) : ElfFile := { elfFileZero with elfMemory := memory }

/-- The program headers of the file at an address, in order. -/
def programHeaders (m : Mem) (memory : UInt32) : List Elf32Phdr :=
  (List.range (readElfHeader m memory).phnum.toNat).map fun i =>
    readElf32Phdr m (elfProgramHeader m memory i)

/-- The `PT_LOAD` headers among them. -/
def loadHeaders (m : Mem) (memory : UInt32) : List Elf32Phdr :=
  (programHeaders m memory).filter Elf32Phdr.isLoad

/-- Where a segment begins, and where the bytes that it has in the file end. -/
def Elf32Phdr.start (phdr : Elf32Phdr) : ℕ := phdr.vaddr.toNat
def Elf32Phdr.fileEnd (phdr : Elf32Phdr) : ℕ := phdr.vaddr.toNat + phdr.filesz.toNat

/-- A header whose addresses are not 0 and do not wrap. -/
def Elf32Phdr.Proper (phdr : Elf32Phdr) : Prop := 0 < phdr.start ∧ phdr.fileEnd < 2 ^ 32

/-- The bounds of a list of segments, of a file at the address `memory`. -/
structure SegmentBounds (memory : UInt32) (loads : List Elf32Phdr) (elfFile : ElfFile) :
    Prop where
  base : ∃ phdr, IsLastLeast Elf32Phdr.start loads phdr ∧
    elfFile.virtualBaseAddress.toNat = phdr.start ∧
    elfFile.physicalBaseAddress = memory + phdr.offset
  fileEnd : ∃ phdr, IsLastGreatest Elf32Phdr.fileEnd loads phdr ∧
    elfFile.virtualEndAddress.toNat = phdr.fileEnd ∧
    elfFile.physicalEndAddress = memory + phdr.offset + phdr.filesz

/-! ### The loop -/

/-- The loop folds the headers, which it reads where the file is kept; by induction on the
rounds. -/
theorem elfProcessPheadersLoop_eq (m : Mem) (elfFile : ElfFile) (n : ℕ) :
    elfProcessPheadersLoop m elfFile n =
      ((List.range n).map fun i =>
        readElf32Phdr m (elfProgramHeader m elfFile.elfMemory i)).foldl
          elfProcessPheader elfFile := by
  induction n with
  | zero => rfl
  | succ n ih =>
      rw [List.range_succ, List.map_append, List.foldl_append, ← ih, elfProcessPheadersLoop]
      unfold elfHeader
      rw [elfProcessPheadersLoop_elfMemory]
      rfl

/-- Headers of other types are passed over. -/
theorem foldl_elfProcessPheader (headers : List Elf32Phdr) (elfFile : ElfFile) :
    headers.foldl elfProcessPheader elfFile =
      (headers.filter Elf32Phdr.isLoad).foldl elfProcessPhdrPtLoad elfFile := by
  rw [List.foldl_filter]
  refine congrArg (fun f => headers.foldl f elfFile) ?_
  funext elfFile phdr
  unfold elfProcessPheader Elf32Phdr.isLoad
  simp only [decide_eq_true_eq]

theorem elfProcessPheaders_eq (m : Mem) (elfFile : ElfFile) :
    elfProcessPheaders m elfFile =
      (loadHeaders m elfFile.elfMemory).foldl elfProcessPhdrPtLoad elfFile :=
  (elfProcessPheadersLoop_eq m elfFile _).trans (foldl_elfProcessPheader _ _)

theorem elfProcessPhdrPtLoad_elfMemory (elfFile : ElfFile) (phdr : Elf32Phdr) :
    (elfProcessPhdrPtLoad elfFile phdr).elfMemory = elfFile.elfMemory := by
  unfold elfProcessPhdrPtLoad
  dsimp only
  split_ifs <;> rfl

/-- What a segment does to the lower bounds. -/
theorem elfProcessPhdrPtLoad_base (elfFile : ElfFile) (phdr : Elf32Phdr) :
    let file := elfProcessPhdrPtLoad elfFile phdr
    (file.virtualBaseAddress, file.physicalBaseAddress) =
      if elfFile.virtualBaseAddress ≥ phdr.vaddr ∨ elfFile.virtualBaseAddress = 0 then
        (phdr.vaddr, elfFile.elfMemory + phdr.offset)
      else (elfFile.virtualBaseAddress, elfFile.physicalBaseAddress) := by
  unfold elfProcessPhdrPtLoad
  dsimp only
  split_ifs <;> rfl

/-- What it does to the upper bounds. -/
theorem elfProcessPhdrPtLoad_end (elfFile : ElfFile) (phdr : Elf32Phdr) :
    let file := elfProcessPhdrPtLoad elfFile phdr
    (file.virtualEndAddress, file.physicalEndAddress) =
      if elfFile.virtualEndAddress ≤ phdr.vaddr + phdr.filesz ∨ elfFile.virtualEndAddress = 0 then
        (phdr.vaddr + phdr.filesz, elfFile.elfMemory + phdr.offset + phdr.filesz)
      else (elfFile.virtualEndAddress, elfFile.physicalEndAddress) := by
  unfold elfProcessPhdrPtLoad
  dsimp only
  split_ifs <;> rfl

/-! ### The bounds -/

variable {memory : UInt32} {elfFile : ElfFile} {loads : List Elf32Phdr} {phdr : Elf32Phdr}

theorem Elf32Phdr.Proper.toNat_end (h : phdr.Proper) :
    (phdr.vaddr + phdr.filesz).toNat = phdr.fileEnd := by
  rw [UInt32.toNat_add]
  exact Nat.mod_eq_of_lt h.2

theorem Elf32Phdr.Proper.fileEnd_pos (h : phdr.Proper) : 0 < phdr.fileEnd :=
  Nat.add_pos_left h.1 _

/-- The first segment sets all bounds. -/
theorem segmentBounds_first (memory : UInt32) (hproper : phdr.Proper) :
    SegmentBounds memory [phdr]
      (elfProcessPhdrPtLoad (elfFileAt memory) phdr) := by
  have hbase := elfProcessPhdrPtLoad_base (elfFileAt memory) phdr
  have hend := elfProcessPhdrPtLoad_end (elfFileAt memory) phdr
  dsimp only at hbase hend
  rw [if_pos (Or.inr (by rfl)), Prod.mk.injEq] at hbase hend
  refine ⟨⟨phdr, isLastLeast_singleton _ phdr, ?_, hbase.2⟩,
    ⟨phdr, isLastLeast_singleton _ phdr, ?_, hend.2⟩⟩
  · rw [hbase.1]
    rfl
  · rw [hend.1, hproper.toNat_end]

/-- One more segment: a bound moves to it when the segment reaches it.  No bound found so far is
0. -/
theorem SegmentBounds.step (h : SegmentBounds memory loads elfFile)
    (hmemory : elfFile.elfMemory = memory) (hloads : ∀ phdr ∈ loads, phdr.Proper)
    (hproper : phdr.Proper) :
    SegmentBounds memory (loads ++ [phdr]) (elfProcessPhdrPtLoad elfFile phdr) := by
  have hbase := elfProcessPhdrPtLoad_base elfFile phdr
  have hend := elfProcessPhdrPtLoad_end elfFile phdr
  dsimp only at hbase hend
  rw [hmemory] at hbase hend
  constructor
  · obtain ⟨b, hb, hvirt, hphys⟩ := h.base
    have hpos := (hloads b hb.mem).1
    by_cases hle : phdr.start ≤ b.start
    · rw [if_pos (Or.inl (by rw [ge_iff_le, UInt32.le_iff_toNat_le, hvirt]; exact hle)),
        Prod.mk.injEq] at hbase
      exact ⟨phdr, hb.concat_of_le hle, by rw [hbase.1]; rfl, hbase.2⟩
    · rw [if_neg, Prod.mk.injEq, hphys] at hbase
      · exact ⟨b, hb.concat_of_lt (not_le.mp hle), by rw [hbase.1, hvirt], hbase.2⟩
      · rintro (hge | hzero)
        · rw [ge_iff_le, UInt32.le_iff_toNat_le, hvirt] at hge
          exact hle hge
        · rw [hzero] at hvirt
          exact hpos.ne hvirt
  · obtain ⟨e, he, hvirt, hphys⟩ := h.fileEnd
    have hpos := (hloads e he.mem).fileEnd_pos
    by_cases hle : e.fileEnd ≤ phdr.fileEnd
    · rw [if_pos (Or.inl (by rw [UInt32.le_iff_toNat_le, hvirt, hproper.toNat_end]; exact hle)),
        Prod.mk.injEq] at hend
      exact ⟨phdr, he.concat_of_le hle, by rw [hend.1, hproper.toNat_end], hend.2⟩
    · rw [if_neg, Prod.mk.injEq, hphys] at hend
      · exact ⟨e, he.concat_of_lt (not_le.mp hle), by rw [hend.1, hvirt], hend.2⟩
      · rintro (hge | hzero)
        · rw [UInt32.le_iff_toNat_le, hvirt, hproper.toNat_end] at hge
          exact hle hge
        · rw [hzero] at hvirt
          exact hpos.ne hvirt

/-- By induction on the segments that follow. -/
theorem SegmentBounds.foldl (h : SegmentBounds memory loads elfFile)
    (hmemory : elfFile.elfMemory = memory) (hloads : ∀ phdr ∈ loads, phdr.Proper)
    {rest : List Elf32Phdr} (hrest : ∀ phdr ∈ rest, phdr.Proper) :
    SegmentBounds memory (loads ++ rest) (rest.foldl elfProcessPhdrPtLoad elfFile) := by
  induction rest generalizing loads elfFile with
  | nil => rwa [List.append_nil]
  | cons phdr rest ih =>
      have hproper := hrest phdr List.mem_cons_self
      rw [List.append_cons, List.foldl_cons]
      refine ih (h.step hmemory hloads hproper) ?_ ?_
        fun p hp => hrest p (List.mem_cons_of_mem _ hp)
      · rw [elfProcessPhdrPtLoad_elfMemory, hmemory]
      · intro p hp
        rcases List.mem_append.mp hp with hp | hp
        · exact hloads p hp
        · rwa [List.mem_singleton.mp hp]

theorem elfProcessPheaders_segmentBounds {m : Mem} (hne : loadHeaders m memory ≠ [])
    (hproper : ∀ phdr ∈ loadHeaders m memory, phdr.Proper) :
    SegmentBounds memory (loadHeaders m memory)
      (elfProcessPheaders m (elfFileAt memory)) := by
  rw [elfProcessPheaders_eq]
  change SegmentBounds memory _ ((loadHeaders m memory).foldl _ _)
  obtain ⟨phdr, rest, hloads⟩ := List.exists_cons_of_ne_nil hne
  rw [hloads] at hproper ⊢
  have hfirst := hproper phdr List.mem_cons_self
  refine (segmentBounds_first memory hfirst).foldl (elfProcessPhdrPtLoad_elfMemory _ _) ?_
    fun p hp => hproper p (List.mem_cons_of_mem _ hp)
  intro p hp
  rwa [List.mem_singleton.mp hp]

/-- The virtual bounds do not depend on the order of the segments. -/
theorem SegmentBounds.eq_of_perm {loads' : List Elf32Phdr} {elfFile' : ElfFile}
    (h : SegmentBounds memory loads elfFile) (h' : SegmentBounds memory loads' elfFile')
    (hperm : loads.Perm loads') :
    elfFile.virtualBaseAddress = elfFile'.virtualBaseAddress ∧
      elfFile.virtualEndAddress = elfFile'.virtualEndAddress := by
  obtain ⟨b, hb, hbase, -⟩ := h.base
  obtain ⟨b', hb', hbase', -⟩ := h'.base
  obtain ⟨e, he, hend, -⟩ := h.fileEnd
  obtain ⟨e', he', hend', -⟩ := h'.fileEnd
  constructor
  · rw [← UInt32.toNat_inj, hbase, hbase']
    exact hb.eq_of_perm hb' hperm
  · rw [← UInt32.toNat_inj, hend, hend']
    exact he.eq_of_perm he' hperm

/-- **The bounds that the loader notes.**  For every table with a `PT_LOAD` header, all of whose
`PT_LOAD` headers have proper addresses: the least and the greatest virtual address, and the
physical addresses of the last headers where they are reached.  Headers of other types make no
difference, nor does the order to the virtual bounds. -/
theorem elfProcessPheaders_bounds {m : Mem} {memory : UInt32} (hne : loadHeaders m memory ≠ [])
    (hproper : ∀ phdr ∈ loadHeaders m memory, phdr.Proper) :
    SegmentBounds memory (loadHeaders m memory)
      (elfProcessPheaders m (elfFileAt memory)) ∧
    (∀ m', loadHeaders m' memory = loadHeaders m memory →
      elfProcessPheaders m' (elfFileAt memory) =
        elfProcessPheaders m (elfFileAt memory)) ∧
    ∀ m', (programHeaders m' memory).Perm (programHeaders m memory) →
      (elfProcessPheaders m' (elfFileAt memory)).virtualBaseAddress =
        (elfProcessPheaders m (elfFileAt memory)).virtualBaseAddress ∧
      (elfProcessPheaders m' (elfFileAt memory)).virtualEndAddress =
        (elfProcessPheaders m (elfFileAt memory)).virtualEndAddress := by
  have hbounds := elfProcessPheaders_segmentBounds hne hproper
  refine ⟨hbounds, fun m' hsame => ?_, fun m' hperm => ?_⟩
  · rw [elfProcessPheaders_eq, elfProcessPheaders_eq]
    exact congrArg (List.foldl elfProcessPhdrPtLoad (elfFileAt memory)) hsame
  · have hloads : (loadHeaders m' memory).Perm (loadHeaders m memory) := hperm.filter _
    refine SegmentBounds.eq_of_perm (elfProcessPheaders_segmentBounds ?_ ?_) hbounds hloads
    · exact fun h => hne (List.perm_nil.mp (h ▸ hloads.symm))
    · exact fun p hp => hproper p (hloads.mem_iff.mp hp)

/-- A file with three program headers: two segments of 16 bytes, from byte 0 and from byte 64 of
the file, are both to lie at `0x400000`, and a note between them at `0x1000`. -/
def tiedElf (i : ℕ) : UInt8 :=
  ([(0, 0x7f), (1, 0x45), (2, 0x4c), (3, 0x46), (28, 52), (44, 3),
    (52, 1), (62, 0x40), (68, 16), (72, 16), (84, 4), (93, 0x10), (100, 16),
    (116, 1), (120, 64), (126, 0x40), (132, 16), (136, 16)].lookup i).getD 0

/-- Its segments. -/
def tiedFirst : Elf32Phdr := ⟨1, 0, 0x400000, 16, 16, 0⟩
def tiedSecond : Elf32Phdr := ⟨1, 64, 0x400000, 16, 16, 0⟩

theorem loadHeaders_tied : loadHeaders (dataImage tiedElf) 0 = [tiedFirst, tiedSecond] := by
  decide

/-- Of two values that are equal the last one counts. -/
theorem IsLastLeast.eq_of_tied {α β : Type*} [LinearOrder β] {f : α → β} {x y z : α}
    (h : IsLastLeast f [x, y] z) (htied : f x = f y) : z = y := by
  obtain ⟨l₁, l₂, hsplit, -, hlt⟩ := h
  rcases l₁ with - | ⟨first, l₁⟩
  · obtain ⟨rfl, rfl⟩ := List.cons.inj hsplit
    exact absurd (hlt y List.mem_cons_self) (not_lt.mpr htied.ge)
  · have hmem : z ∈ [y] := by
      rw [(List.cons.inj hsplit).2]
      exact List.mem_append_right l₁ List.mem_cons_self
    exact List.mem_singleton.mp hmem

/-- The physical addresses are those of the second segment. -/
theorem elfProcessPheaders_bounds_tied :
    (elfProcessPheaders (dataImage tiedElf) (elfFileAt 0)).virtualBaseAddress.toNat = 0x400000 ∧
      (elfProcessPheaders (dataImage tiedElf) (elfFileAt 0)).physicalBaseAddress = 0 + 64 ∧
      (elfProcessPheaders (dataImage tiedElf) (elfFileAt 0)).physicalEndAddress = 0 + 64 + 16 := by
  have hbounds := (@elfProcessPheaders_bounds (dataImage tiedElf) 0
    (by rw [loadHeaders_tied]; decide)
    (by rw [loadHeaders_tied]; unfold Elf32Phdr.Proper; decide)).1
  rw [loadHeaders_tied] at hbounds
  obtain ⟨b, hb, hvirt, hphys⟩ := hbounds.base
  obtain ⟨e, he, -, hend⟩ := hbounds.fileEnd
  obtain rfl := hb.eq_of_tied rfl
  obtain rfl := he.eq_of_tied rfl
  exact ⟨hvirt, hphys, hend⟩

end PeachOS
