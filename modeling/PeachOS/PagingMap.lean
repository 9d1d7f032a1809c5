import PeachOS.PageMap
import PeachOS.WriteHistory

/-! # Mapping ranges of pages

`paging_map`, `paging_map_range` and `paging_map_to` of `paging.c`.  On a directory that
represents a map, each of them performs a list of point updates; `mapHistory` is the list of
a whole `paging_map_to`, so that what a sequence of them leaves behind is the last write to
each page. -/

namespace PeachOS

open ByteMemory WriteHistory

/-! ### The code -/

/-- `paging_align_address`. -/
def pagingAlignAddress (ptr : UInt32) : UInt32 :=
  if ptr % pagingPageSize ≠ 0 then ptr + pagingPageSize - ptr % pagingPageSize else ptr

/-- `paging_align_to_lower_page`. -/
def pagingAlignToLowerPage (addr : UInt32) : UInt32 := addr - addr % pagingPageSize

/-- `paging_map`. -/
def pagingMap (directory virt phys flags : UInt32) (m : Mem) : ℤ × Mem :=
  if virt % pagingPageSize ≠ 0 ∨ phys % pagingPageSize ≠ 0 then (-EINVARG, m)
  else pagingSet (m.read32 directory) virt (phys ||| flags) m

/-- The loop of `paging_map_range`, with the result so far and the rounds left. -/
def pagingMapLoop (directory flags : UInt32) : ℕ → UInt32 → UInt32 → ℤ → Mem → ℤ × Mem
  | 0, _, _, res, m => (res, m)
  | left + 1, virt, phys, _, m =>
      let r := pagingMap directory virt phys flags m
      if r.1 < 0 then r
      else
        pagingMapLoop directory flags left (virt + pagingPageSize) (phys + pagingPageSize) r.1 r.2

/-- `paging_map_range`. -/
def pagingMapRange (directory virt phys : UInt32) (count : ℤ) (flags : UInt32) (m : Mem) :
    ℤ × Mem :=
  pagingMapLoop directory flags count.toNat virt phys 0 m

/-- `paging_map_to`. -/
def pagingMapTo (directory virt phys physEnd flags : UInt32) (m : Mem) : ℤ × Mem :=
  if virt % pagingPageSize ≠ 0 then (-EINVARG, m)
  else if phys % pagingPageSize ≠ 0 then (-EINVARG, m)
  else if physEnd < phys then (-EINVARG, m)
  else if physEnd % pagingPageSize ≠ 0 then (-EINVARG, m)
  else
    let totalBytes := physEnd - phys
    let totalPages : ℤ := (totalBytes / pagingPageSize).toNat
    pagingMapRange directory virt phys totalPages flags m

/-! ### Alignment -/

theorem mod_pageSize_ne_zero_iff (a : UInt32) : a % pagingPageSize ≠ 0 ↔ ¬ PageAligned a := by
  unfold PageAligned
  rw [ne_eq, ← UInt32.toNat_inj, UInt32.toNat_mod]
  rfl

theorem toNat_mod_pageSize (a : UInt32) : (a % pagingPageSize).toNat = a.toNat % 4096 := by
  rw [UInt32.toNat_mod]
  rfl

theorem pageAligned_pagingAlignToLowerPage (a : UInt32) :
    PageAligned (pagingAlignToLowerPage a) := by
  have := toNat_lt a
  unfold PageAligned pagingAlignToLowerPage
  rw [toNat_sub', toNat_mod_pageSize]
  omega

theorem toNat_pagingAlignToLowerPage (a : UInt32) :
    (pagingAlignToLowerPage a).toNat = a.toNat / 4096 * 4096 := by
  have := toNat_lt a
  unfold pagingAlignToLowerPage
  rw [toNat_sub', toNat_mod_pageSize]
  omega

theorem toNat_pagingAlignAddress (a : UInt32) :
    (pagingAlignAddress a).toNat = (a.toNat + 4095) / 4096 * 4096 % 4294967296 := by
  have := toNat_lt a
  have hmod := toNat_mod_pageSize a
  have hsize : pagingPageSize.toNat = 4096 := rfl
  unfold pagingAlignAddress
  by_cases h : a % pagingPageSize ≠ 0
  · rw [if_pos h]
    rw [mod_pageSize_ne_zero_iff] at h
    unfold PageAligned at h
    rw [toNat_sub', UInt32.toNat_add, hmod, hsize]
    omega
  · rw [if_neg h]
    rw [mod_pageSize_ne_zero_iff] at h
    unfold PageAligned at h
    omega

theorem pageAligned_pagingAlignAddress (a : UInt32) : PageAligned (pagingAlignAddress a) := by
  unfold PageAligned
  rw [toNat_pagingAlignAddress]
  omega

theorem pageAligned_off {a : UInt32} (h : PageAligned a) (i : ℕ) :
    PageAligned (off a (4096 * i)) := by
  unfold PageAligned at *
  rw [toNat_off]
  omega

/-! ### Specifications -/

/-- The writes of a `paging_map_to` that succeeds, oldest first. -/
def mapHistory (virt phys physEnd flags : UInt32) : List (UInt32 × UInt32) :=
  sweep (fun i => off virt (4096 * i)) (fun i => off phys (4096 * i) ||| flags)
    ((physEnd - phys) / pagingPageSize).toNat

variable {m : Mem} {s : SpaceBlocks} {f : UInt32 → UInt32} {virt phys : UInt32}

theorem pagingMap_spec (h : Represents m s f) (hvirt : PageAligned virt) (hphys : PageAligned phys)
    (flags : UInt32) :
    ∃ m', pagingMap (blockAddr s.chunk) virt phys flags m = (0, m') ∧
      Represents m' s (Function.update f virt (phys ||| flags)) ∧
      ∀ x, ¬ s.InTables x → m' x = m x := by
  obtain ⟨m', hset, hspec⟩ := pagingSet_spec h hvirt (phys ||| flags)
  refine ⟨m', ?_, hspec⟩
  unfold pagingMap
  simp only [mod_pageSize_ne_zero_iff]
  rw [if_neg (not_or.mpr ⟨not_not.mpr hvirt, not_not.mpr hphys⟩), h.tables.chunk, hset]

theorem pagingMapLoop_spec (flags : UInt32) : ∀ (n : ℕ) {m : Mem} {f : UInt32 → UInt32}
    {virt phys : UInt32}, Represents m s f → PageAligned virt → PageAligned phys →
      ∃ m', pagingMapLoop (blockAddr s.chunk) flags n virt phys 0 m = (0, m') ∧
        Represents m' s (replay f (sweep (fun i => off virt (4096 * i))
          (fun i => off phys (4096 * i) ||| flags) n)) ∧
        ∀ x, ¬ s.InTables x → m' x = m x
  | 0, m, _, _, _, h, _, _ => ⟨m, rfl, h, fun _ _ => rfl⟩
  | n + 1, m, f, virt, phys, h, hvirt, hphys => by
      have hstep : ∀ a : UInt32, a + pagingPageSize = off a (4096 * 1) := fun a => rfl
      obtain ⟨m₁, hmap, hrep, hframe⟩ := pagingMap_spec h hvirt hphys flags
      obtain ⟨m₂, hloop, hrep', hframe'⟩ := pagingMapLoop_spec flags n hrep
        (pageAligned_off hvirt 1) (pageAligned_off hphys 1)
      refine ⟨m₂, ?_, ?_, fun x hx => (hframe' x hx).trans (hframe x hx)⟩
      · unfold pagingMapLoop
        rw [hmap]
        dsimp only
        rw [if_neg (by decide), hstep, hstep]
        exact hloop
      · rw [sweep_succ]
        simp only [off_off, mul_zero, off_zero] at hrep' ⊢
        have hshift : ∀ i : ℕ, 4096 * 1 + 4096 * i = 4096 * (i + 1) := fun i => by ring
        simp only [hshift] at hrep'
        exact hrep'

/-- `paging_map_to` on aligned arguments in order performs its history. -/
theorem pagingMapTo_spec (h : Represents m s f) (hvirt : PageAligned virt)
    (hphys : PageAligned phys) {physEnd : UInt32} (hend : PageAligned physEnd)
    (hle : ¬ physEnd < phys) (flags : UInt32) :
    ∃ m', pagingMapTo (blockAddr s.chunk) virt phys physEnd flags m = (0, m') ∧
      Represents m' s (replay f (mapHistory virt phys physEnd flags)) ∧
      ∀ x, ¬ s.InTables x → m' x = m x := by
  obtain ⟨m', hloop, hspec⟩ := pagingMapLoop_spec flags
    ((physEnd - phys) / pagingPageSize).toNat h hvirt hphys
  refine ⟨m', ?_, hspec⟩
  unfold pagingMapTo pagingMapRange
  simp only [mod_pageSize_ne_zero_iff]
  rw [if_neg (not_not.mpr hvirt), if_neg (not_not.mpr hphys), if_neg hle,
    if_neg (not_not.mpr hend), Int.toNat_natCast]
  exact hloop

/-- A range that ends before it starts is refused. -/
theorem pagingMapTo_of_lt (hvirt : PageAligned virt) (hphys : PageAligned phys) {physEnd : UInt32}
    (hlt : physEnd < phys) (directory flags : UInt32) (m : Mem) :
    pagingMapTo directory virt phys physEnd flags m = (-EINVARG, m) := by
  unfold pagingMapTo
  simp only [mod_pageSize_ne_zero_iff]
  rw [if_neg (not_not.mpr hvirt), if_neg (not_not.mpr hphys), if_pos hlt]

/-- The pages of one range are different. -/
theorem off_page_inj {n : ℕ} (hn : n ≤ 1048576) (virt : UInt32) :
    ∀ i < n, ∀ j < n, off virt (4096 * i) = off virt (4096 * j) → i = j := by
  intro i hi j hj h
  have := off_inj (by omega) (by omega) h
  omega

theorem pages_le (a b : UInt32) : ((a - b) / pagingPageSize).toNat ≤ 1048576 := by
  have := toNat_lt (a - b)
  rw [UInt32.toNat_div, show pagingPageSize.toNat = 4096 from rfl]
  omega

/-- Page `i` of a range is mapped to frame `i`. -/
theorem lastWrite_mapHistory (virt phys physEnd flags : UInt32) {i : ℕ}
    (hi : i < ((physEnd - phys) / pagingPageSize).toNat) :
    lastWrite (mapHistory virt phys physEnd flags) (off virt (4096 * i)) =
      some (off phys (4096 * i) ||| flags) :=
  lastWrite_sweep (off_page_inj (pages_le _ _) virt) hi

theorem lastWrite_mapHistory_eq_none_iff {virt phys physEnd flags w : UInt32} :
    lastWrite (mapHistory virt phys physEnd flags) w = none ↔
      ∀ i < ((physEnd - phys) / pagingPageSize).toNat, off virt (4096 * i) ≠ w :=
  lastWrite_sweep_eq_none_iff

/-- Every write of a range is page `i` mapped to frame `i`, for some `i`. -/
theorem exists_of_lastWrite_mapHistory {virt phys physEnd flags w e : UInt32}
    (h : lastWrite (mapHistory virt phys physEnd flags) w = some e) :
    ∃ i < ((physEnd - phys) / pagingPageSize).toNat,
      w = off virt (4096 * i) ∧ e = off phys (4096 * i) ||| flags := by
  have hmem := mem_of_lastWrite_eq_some h
  unfold mapHistory sweep at hmem
  obtain ⟨i, hi, he⟩ := List.mem_map.mp hmem
  obtain ⟨hw, hval⟩ := Prod.mk.inj he
  exact ⟨i, List.mem_range.mp hi, hw.symm, hval.symm⟩

end PeachOS
