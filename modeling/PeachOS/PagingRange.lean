import PeachOS.PagingMap
import PeachOS.PagingNew

/-! # Mapping a range of pages

What `paging_map_to` does to every page of a directory, and the calls that change a
directory after it was built.

* `PagingCall` is a call of `paging_set` or `paging_map` on a chunk; a sequence of them changes
  bytes of the tables only (`pagingCalls_apply`).
* `pagingMapTo_range`: a range in order is mapped page by page, everything else is refused
  and changes no page. -/

namespace PeachOS

open ByteMemory WriteHistory

/-! ### Changes of a directory -/

/-- A call of `paging_set` on the directory of a chunk, or of `paging_map` on the chunk. -/
inductive PagingCall where
  | set (virt val : UInt32)
  | map (virt phys flags : UInt32)

/-- The memory after the call, whatever it returns. -/
def PagingCall.run (chunk : UInt32) : PagingCall → Mem → Mem
  | .set virt val, m => (pagingSet (paging4gbChunkGetDirectory chunk m) virt val m).2
  | .map virt phys flags, m => (pagingMap chunk virt phys flags m).2

/-- A sequence of calls. -/
def pagingCalls (chunk : UInt32) (calls : List PagingCall) (m : Mem) : Mem :=
  calls.foldl (fun m c => c.run chunk m) m

variable {m m' : Mem} {s : SpaceBlocks}

theorem PageTables.represents (h : PageTables m s) :
    Represents m s fun w => m.read32 (s.slot w) := ⟨h, fun _ _ => rfl⟩

theorem pagingSet_apply (h : PageTables m s) (virt val : UInt32) {x : UInt32}
    (hx : ¬ s.InTables x) : (pagingSet (blockAddr s.directory) virt val m).2 x = m x := by
  by_cases hvirt : PageAligned virt
  · obtain ⟨m', hset, -, hframe⟩ := pagingSet_spec h.represents hvirt val
    rw [hset]
    exact hframe x hx
  · rw [pagingSet_of_not_aligned hvirt]

theorem PagingCall.run_apply (h : PageTables m s) (c : PagingCall) {x : UInt32}
    (hx : ¬ s.InTables x) : c.run (blockAddr s.chunk) m x = m x := by
  cases c with
  | set virt val =>
      change (pagingSet (m.read32 (blockAddr s.chunk)) virt val m).2 x = m x
      rw [h.chunk]
      exact pagingSet_apply h virt val hx
  | map virt phys flags =>
      change (pagingMap (blockAddr s.chunk) virt phys flags m).2 x = m x
      unfold pagingMap
      split_ifs
      · rfl
      · rw [h.chunk]
        exact pagingSet_apply h virt _ hx

/-- A sequence of calls changes bytes of the tables only. -/
theorem pagingCalls_apply : ∀ (calls : List PagingCall) {m : Mem}, PageTables m s →
    ∀ x, ¬ s.InTables x → pagingCalls (blockAddr s.chunk) calls m x = m x
  | [], _, _, _, _ => rfl
  | c :: calls, _, h, x, hx => by
      have h₁ := h.congr_of_tables fun y hy => PagingCall.run_apply h c hy
      exact (pagingCalls_apply calls h₁ x hx).trans (PagingCall.run_apply h c hx)

/-- The chunk and the directory of `s` hold in `m'` what they hold in `m`; the tables may have
changed. -/
def SameDirectory (s : SpaceBlocks) (m m' : Mem) : Prop :=
  ∀ x, InBlock s.chunk x ∨ InBlock s.directory x → m' x = m x

theorem PageTables.of_sameDirectory (h : PageTables m s) (hsame : SameDirectory s m m') :
    PageTables m' s :=
  h.congr (fun x hx => hsame x (Or.inl hx)) fun x hx => hsame x (Or.inr hx)

/-! ### Ranges -/

/-- The arguments of a range that can be mapped. -/
def RangeInOrder (virt phys physEnd : UInt32) : Prop :=
  PageAligned virt ∧ PageAligned phys ∧ PageAligned physEnd ∧ phys ≤ physEnd

variable {virt phys physEnd : UInt32}

/-- Any other range is refused. -/
theorem pagingMapTo_of_not_inOrder (h : ¬ RangeInOrder virt phys physEnd)
    (chunk flags : UInt32) (m : Mem) :
    pagingMapTo chunk virt phys physEnd flags m = (-EINVARG, m) := by
  unfold pagingMapTo
  simp only [mod_pageSize_ne_zero_iff]
  by_cases hvirt : PageAligned virt
  · by_cases hphys : PageAligned phys
    · by_cases hle : physEnd < phys
      · rw [if_neg (not_not.mpr hvirt), if_neg (not_not.mpr hphys), if_pos hle]
      · have hend : ¬ PageAligned physEnd := fun hend =>
          h ⟨hvirt, hphys, hend, UInt32.not_lt.mp hle⟩
        rw [if_neg (not_not.mpr hvirt), if_neg (not_not.mpr hphys), if_neg hle, if_pos hend]
    · rw [if_neg (not_not.mpr hvirt), if_pos hphys]
  · rw [if_pos hvirt]

/-- The number of pages of a range in order. -/
theorem toNat_pages (hle : phys ≤ physEnd) :
    ((physEnd - phys) / pagingPageSize).toNat = (physEnd.toNat - phys.toNat) / 4096 := by
  have h := UInt32.le_iff_toNat_le.mp hle
  rw [UInt32.toNat_div, UInt32.toNat_sub_of_le _ _ hle]
  rfl

/-- `paging_map_to` on a directory: the result, the pages of the range and all others. -/
theorem pagingMapTo_inOrder (h : PageTables m s) (hrange : RangeInOrder virt phys physEnd)
    (flags : UInt32) :
    ∃ m', pagingMapTo (blockAddr s.chunk) virt phys physEnd flags m = (0, m') ∧
      PageTables m' s ∧
      (∀ i < (physEnd.toNat - phys.toNat) / 4096,
        pagingGet (blockAddr s.directory) (off virt (4096 * i)) m' =
          off phys (4096 * i) ||| flags) ∧
      ∀ w, PageAligned w → (∀ i < (physEnd.toNat - phys.toNat) / 4096, off virt (4096 * i) ≠ w) →
        pagingGet (blockAddr s.directory) w m' = pagingGet (blockAddr s.directory) w m := by
  obtain ⟨hvirt, hphys, hend, hle⟩ := hrange
  obtain ⟨m', hmap, hrep, -⟩ :=
    pagingMapTo_spec h.represents hvirt hphys hend (UInt32.not_lt.mpr hle) flags
  rw [← toNat_pages hle]
  refine ⟨m', hmap, hrep.tables, fun i hi => ?_, fun w hw hout => ?_⟩
  · rw [pagingGet_spec hrep (pageAligned_off hvirt i), replay_apply,
      lastWrite_mapHistory virt phys physEnd flags hi, Option.getD_some]
  · rw [pagingGet_spec hrep hw, replay_apply, lastWrite_mapHistory_eq_none_iff.mpr hout,
      Option.getD_none, pagingGet_eq h hw]

/-- **Mapping a range.**  On a directory that `paging_new_4gb` built, whatever its tables hold
by now, `paging_map_to` of a range in order maps page `i` of the range to frame `i` and keeps
every other page; any other range is refused, and no page changes. -/
theorem pagingMapTo_range {flags₀ : UInt8} {k k' : Kernel} {chunk : UInt32}
    (hnew : pagingNew4gb flags₀ k = (chunk, k')) (hok : k'.oom = false) :
    ∃ s : SpaceBlocks, chunk = blockAddr s.chunk ∧ Takes k k' s.blocks ∧
      ∀ m, SameDirectory s k'.mem m → ∀ virt phys physEnd flags : UInt32,
        let (res, m') := pagingMapTo chunk virt phys physEnd flags m
        let directory := paging4gbChunkGetDirectory chunk m
        let pages := (physEnd.toNat - phys.toNat) / 4096
        paging4gbChunkGetDirectory chunk m' = directory ∧
        (RangeInOrder virt phys physEnd → res = 0 ∧
          (∀ i < pages,
            pagingGet directory (off virt (4096 * i)) m' = off phys (4096 * i) ||| flags) ∧
          ∀ w, PageAligned w → (∀ i < pages, off virt (4096 * i) ≠ w) →
            pagingGet directory w m' = pagingGet directory w m) ∧
        (¬ RangeInOrder virt phys physEnd → res = -EINVARG ∧
          ∀ w, PageAligned w → pagingGet directory w m' = pagingGet directory w m) := by
  have hok' : (pagingNew4gb flags₀ k).2.oom = false := by rw [hnew]; exact hok
  obtain ⟨s, hchunk, htakes, hrep⟩ := pagingNew4gb_spec hok'
  rw [hnew] at hchunk htakes hrep
  dsimp only at hchunk htakes hrep
  refine ⟨s, hchunk, htakes, fun m hsame virt phys physEnd flags => ?_⟩
  have htables := hrep.tables.of_sameDirectory hsame
  have hdir : paging4gbChunkGetDirectory chunk m = blockAddr s.directory := by
    rw [hchunk]
    exact htables.chunk
  rw [hdir, hchunk]
  by_cases hrange : RangeInOrder virt phys physEnd
  · obtain ⟨m', hmap, htables', hpages, hrest⟩ := pagingMapTo_inOrder htables hrange flags
    rw [hmap]
    exact ⟨htables'.chunk, fun _ => ⟨rfl, hpages, hrest⟩, fun hno => absurd hrange hno⟩
  · rw [pagingMapTo_of_not_inOrder hrange]
    exact ⟨htables.chunk, fun h => absurd h hrange, fun _ => ⟨rfl, fun _ _ => rfl⟩⟩

/-- Two frames are mapped to the last page and to the first. -/
theorem pagingMapTo_range_wraps :
    ∃ chunk k' m', pagingNew4gb 5 freshKernel = (chunk, k') ∧
      pagingMapTo chunk 0xfffff000 0x1000 0x3000 7 k'.mem = (0, m') ∧
      pagingGet (paging4gbChunkGetDirectory chunk k'.mem) 0xfffff000 m' = 0x1007 ∧
      pagingGet (paging4gbChunkGetDirectory chunk k'.mem) 0 m' = 0x2007 := by
  have hok : (pagingNew4gb 5 freshKernel).2.oom = false :=
    pagingNew4gb_ok rfl (le_trans (by decide) freshKernel_topFree.card_le)
  rcases hnew : pagingNew4gb 5 freshKernel with ⟨chunk, k'⟩
  rw [hnew] at hok
  obtain ⟨s, -, -, hmap⟩ := pagingMapTo_range hnew hok
  have h := hmap k'.mem (fun _ _ => rfl) 0xfffff000 0x1000 0x3000 7
  rcases hm : pagingMapTo chunk 0xfffff000 0x1000 0x3000 7 k'.mem with ⟨res, m'⟩
  rw [hm] at h
  obtain ⟨-, horder, -⟩ := h
  obtain ⟨rfl, hpages, -⟩ := horder ⟨by decide, by decide, by decide, by decide⟩
  exact ⟨chunk, k', m', rfl, hm, (hpages 0 (by decide)).trans (by decide),
    (hpages 1 (by decide)).trans (by decide)⟩

end PeachOS
