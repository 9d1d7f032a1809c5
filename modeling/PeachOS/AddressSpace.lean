import PeachOS.AddressTranslation
import PeachOS.PagingMap
import PeachOS.PagingNew

/-! # Page directories as the processor walks them

A directory that represents a map is walked by applying the map: `Represents.shows`.  What the
walk needs beyond the map is that the entries of the directory itself let everything pass
(`OpenTables`), which `paging_new_4gb` provides and `paging_set` keeps.

The directory of the kernel is the identity, so that kernel code under it works on memory as it
is (`viewOf_identity`). -/

namespace PeachOS

open ByteMemory X86

/-- The directory entries point to the tables and have the flags present, writable and user. -/
def OpenTables (m : Mem) (s : SpaceBlocks) : Prop :=
  ∀ i < 1024, m.read32 (wordAddr s.directory i) = blockAddr (s.table i) ||| 7

/-- `x` is a byte of the address space. -/
def SpaceBlocks.InSpace (s : SpaceBlocks) (x : UInt32) : Prop := ∃ b ∈ s.blocks, InBlock b x

/-- The physical address that the map `f` gives for `v`. -/
def viewOf (a : Access) (f : UInt32 → UInt32) (v : UInt32) : Option UInt32 :=
  let entry := f (pagingAlignToLowerPage v)
  if a.Passes entry then some (frameAddress entry v) else none

variable {m m' : Mem} {s : SpaceBlocks} {f : UInt32 → UInt32} {k : Kernel} {flags : UInt8}

theorem SpaceBlocks.InTables.inSpace {x : UInt32} (h : s.InTables x) : s.InSpace x := by
  obtain ⟨i, hi, hx⟩ := h
  exact ⟨s.table i, Or.inr (Or.inr ⟨i, hi, rfl⟩), hx⟩

/-! ### Walks -/

theorem and_frame_of_aligned {w : UInt32} (hw : PageAligned w) : w &&& 0xfffff000 = w := by
  apply UInt32.toNat.inj
  unfold PageAligned at hw
  rw [toNat_and_frame]
  omega

/-- The walk reads the entry of the page of `v`. -/
theorem walk_eq (hrep : Represents m s f) (hopen : OpenTables m s) (a : Access) (v : UInt32) :
    X86.walk a (blockAddr s.directory) v m = viewOf a f v := by
  obtain ⟨hi, -⟩ := slot_lt v
  have hdir : directorySlot (blockAddr s.directory) v =
      wordAddr s.directory (v.toNat / 4194304) := by
    unfold directorySlot wordAddr
    rw [and_frame_of_aligned (pageAligned_blockAddr s.directory_lt)]
  have htable : tableSlot (blockAddr (s.table (v.toNat / 4194304)) ||| 7) v =
      s.slot (pagingAlignToLowerPage v) := by
    unfold tableSlot SpaceBlocks.slot wordAddr
    rw [or_and_frame (pageAligned_blockAddr (s.table_lt _ hi)) (by decide),
      toNat_pagingAlignToLowerPage, show v.toNat / 4096 * 4096 / 4194304 = v.toNat / 4194304 by
        omega, show v.toNat / 4096 * 4096 % 4194304 / 4096 = v.toNat % 4194304 / 4096 by omega]
  unfold X86.walk viewOf
  dsimp only
  rw [hdir, hopen _ hi, if_pos ((passes_seven a).or _), htable,
    hrep.page _ (pageAligned_pagingAlignToLowerPage v)]

theorem OpenTables.congr (h : OpenTables m s) (hsame : ∀ x, InBlock s.directory x → m' x = m x) :
    OpenTables m' s := by
  intro i hi
  rw [read32_wordAddr_congr s.directory_lt hi hsame, h i hi]

/-- The processor applies the map, in every memory that agrees on the blocks of the space. -/
theorem Represents.shows (hrep : Represents m s f) (hopen : OpenTables m s) (a : Access) :
    Shows a (blockAddr s.directory) s.InSpace m (viewOf a f) := by
  intro m' hsame v
  have hblock : ∀ b ∈ s.blocks, ∀ x, InBlock b x → m' x = m x :=
    fun b hb x hx => hsame x ⟨b, hb, hx⟩
  exact walk_eq (hrep.congr hblock) (hopen.congr (hblock _ (Or.inr (Or.inl rfl)))) a v

/-- Writing an entry leaves the directory open. -/
theorem OpenTables.set (h : OpenTables m s) (htables : PageTables m s) (v x : UInt32) :
    OpenTables (pagingSet (blockAddr s.directory) v x m).2 s := by
  by_cases hv : PageAligned v
  · rw [pagingSet_eq htables hv]
    refine h.congr fun y hy => Mem.write32_apply_of_not_inRange m x fun hr => ?_
    obtain ⟨i, hi, hyi⟩ := inTables_of_slot hr
    exact s.table_ne_directory i hi (InBlock.unique (s.table_lt i hi) s.directory_lt hyi hy)
  · rw [pagingSet_of_not_aligned hv]
    exact h

/-- A new chunk, for pages that are present and accessible to all. -/
theorem pagingNew4gb_open (hflags : flags.toUInt32 ||| pagingIsWritable = 7)
    (hok : (pagingNew4gb flags k).2.oom = false) :
    ∃ s : SpaceBlocks, (pagingNew4gb flags k).1 = blockAddr s.chunk ∧
      Takes k (pagingNew4gb flags k).2 s.blocks ∧
      Represents (pagingNew4gb flags k).2.mem s (fun w => w ||| flags.toUInt32) ∧
      OpenTables (pagingNew4gb flags k).2.mem s := by
  obtain ⟨s, hchunk, htakes, hrep, hentries⟩ := pagingNew4gb_entries hok
  refine ⟨s, hchunk, htakes, hrep, fun i hi => ?_⟩
  rw [hentries i hi, UInt32.or_assoc, hflags]

/-! ### Pages that are mapped to themselves -/

/-- The frame of a page with flags, and the offset. -/
theorem frameAddress_or {w g v : UInt32} (hw : PageAligned w) (hg : g.toNat < 4096) :
    frameAddress (w ||| g) v = off w (v.toNat % 4096) := by
  unfold frameAddress
  rw [or_and_frame hw hg]

theorem off_lowerPage (v : UInt32) : off (pagingAlignToLowerPage v) (v.toNat % 4096) = v := by
  apply UInt32.toNat.inj
  have := toNat_lt v
  rw [toNat_off, toNat_pagingAlignToLowerPage]
  omega

/-- Where the map is the identity, so is the view. -/
theorem viewOf_self {a : Access} {v g : UInt32} (hg : g.toNat < 4096) (hpass : a.Passes g)
    (hv : f (pagingAlignToLowerPage v) = pagingAlignToLowerPage v ||| g) :
    viewOf a f v = some v := by
  unfold viewOf
  dsimp only
  rw [hv, if_pos (hpass.or _), frameAddress_or (pageAligned_pagingAlignToLowerPage v) hg,
    off_lowerPage]

/-- The directory of the kernel maps every address to itself. -/
theorem viewOf_identity (a : Access) (v : UInt32) : viewOf a (fun w => w ||| 7) v = some v :=
  viewOf_self (g := 7) (by decide) (passes_seven a) rfl

end PeachOS
