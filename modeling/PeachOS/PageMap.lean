import PeachOS.Paging

/-! # A page directory is a total map

The purpose of a 4 GiB chunk is a total map from pages to entries.  `Represents m s f` says
that the blocks `s` of the memory `m` are a concrete form of the map `f`.

* `pagingGet_spec`: reading an entry applies the map.
* `pagingSet_spec`: writing an entry is a point update, and no byte outside the tables
  changes. -/

namespace PeachOS

open ByteMemory Extents

/-! ### Pages and address spaces -/

/-- `w` is the address of a page. -/
def PageAligned (w : UInt32) : Prop := w.toNat % 4096 = 0

instance (w : UInt32) : Decidable (PageAligned w) := by unfold PageAligned; infer_instance

/-- The blocks of one chunk: the chunk itself, its directory and its 1024 tables. -/
structure SpaceBlocks where
  chunk : ℕ
  directory : ℕ
  table : ℕ → ℕ
  chunk_lt : chunk < 25600
  directory_lt : directory < 25600
  table_lt : ∀ i < 1024, table i < 25600
  chunk_ne_directory : chunk ≠ directory
  table_ne_chunk : ∀ i < 1024, table i ≠ chunk
  table_ne_directory : ∀ i < 1024, table i ≠ directory
  table_inj : ∀ i < 1024, ∀ j < 1024, table i = table j → i = j

/-- The set of these blocks. -/
def SpaceBlocks.blocks (s : SpaceBlocks) : Set ℕ :=
  {b | b = s.chunk ∨ b = s.directory ∨ ∃ i < 1024, b = s.table i}

/-- `x` is a byte of one of the tables. -/
def SpaceBlocks.InTables (s : SpaceBlocks) (x : UInt32) : Prop :=
  ∃ i < 1024, InBlock (s.table i) x

/-- The two words of `m` that lead to a table: the chunk and the directory entry. -/
structure PageTables (m : Mem) (s : SpaceBlocks) : Prop where
  chunk : m.read32 (blockAddr s.chunk) = blockAddr s.directory
  entry : ∀ i < 1024, m.read32 (wordAddr s.directory i) &&& 0xfffff000 = blockAddr (s.table i)

/-- The address of the entry of page `w`. -/
def SpaceBlocks.slot (s : SpaceBlocks) (w : UInt32) : UInt32 :=
  wordAddr (s.table (w.toNat / 4194304)) (w.toNat % 4194304 / 4096)

/-- The blocks `s` of `m` hold the map `f` from pages to entries. -/
structure Represents (m : Mem) (s : SpaceBlocks) (f : UInt32 → UInt32) : Prop where
  tables : PageTables m s
  page : ∀ w, PageAligned w → m.read32 (s.slot w) = f w

variable {m m' : Mem} {s : SpaceBlocks} {f : UInt32 → UInt32}

theorem SpaceBlocks.lt {b : ℕ} (hb : b ∈ s.blocks) : b < 25600 := by
  rcases hb with rfl | rfl | ⟨i, hi, rfl⟩
  · exact s.chunk_lt
  · exact s.directory_lt
  · exact s.table_lt i hi

theorem slot_lt (w : UInt32) : w.toNat / 4194304 < 1024 ∧ w.toNat % 4194304 / 4096 < 1024 := by
  have := toNat_lt w
  omega

theorem inTables_of_slot {w x : UInt32} (hx : InRange (s.slot w) 4 x) : s.InTables x := by
  obtain ⟨hi, hj⟩ := slot_lt w
  exact ⟨_, hi, inBlock_of_inRange_wordAddr (s.table_lt _ hi) hj hx⟩

/-- The slots of two pages are apart. -/
theorem read32_write32_slot {v w : UInt32} (hv : PageAligned v) (hw : PageAligned w) (h : w ≠ v)
    (m : Mem) (x : UInt32) : (m.write32 (s.slot v) x).read32 (s.slot w) = m.read32 (s.slot w) := by
  obtain ⟨hi, hj⟩ := slot_lt w
  obtain ⟨hk, hl⟩ := slot_lt v
  refine read32_write32_wordAddr (s.table_lt _ hi) hj (s.table_lt _ hk) hl ?_ m x
  rintro ⟨htable, hword⟩
  have hdir := s.table_inj _ hi _ hk htable
  unfold PageAligned at hv hw
  exact h (UInt32.toNat.inj (by omega))

theorem PageTables.congr (h : PageTables m s) (hc : ∀ x, InBlock s.chunk x → m' x = m x)
    (hd : ∀ x, InBlock s.directory x → m' x = m x) : PageTables m' s := by
  refine ⟨?_, fun i hi => ?_⟩
  · have hword := read32_wordAddr_congr (j := 0) s.chunk_lt (by omega) hc
    rw [wordAddr_zero] at hword
    rw [hword, h.chunk]
  · rw [read32_wordAddr_congr s.directory_lt hi hd, h.entry i hi]

/-- The chunk and the directory are outside the tables. -/
theorem PageTables.congr_of_tables (h : PageTables m s)
    (hsame : ∀ x, ¬ s.InTables x → m' x = m x) : PageTables m' s := by
  have hout : ∀ b < 25600, (∀ i < 1024, s.table i ≠ b) → ∀ x, InBlock b x → m' x = m x := by
    intro b hb hne x hx
    refine hsame x fun hin => ?_
    obtain ⟨i, hi, hxi⟩ := hin
    exact hne i hi (InBlock.unique (s.table_lt i hi) hb hxi hx)
  exact h.congr (hout _ s.chunk_lt s.table_ne_chunk) (hout _ s.directory_lt s.table_ne_directory)

/-- A map is kept by whatever leaves the blocks of the address space alone. -/
theorem Represents.congr (h : Represents m s f)
    (hsame : ∀ b ∈ s.blocks, ∀ x, InBlock b x → m' x = m x) : Represents m' s f := by
  refine ⟨h.tables.congr (hsame _ (Or.inl rfl)) (hsame _ (Or.inr (Or.inl rfl))), fun w hw => ?_⟩
  obtain ⟨hi, hj⟩ := slot_lt w
  unfold SpaceBlocks.slot
  rw [read32_wordAddr_congr (s.table_lt _ hi) hj (hsame _ (Or.inr (Or.inr ⟨_, hi, rfl⟩)))]
  exact h.page w hw

/-! ### Reading and writing an entry -/

theorem pagingIsAligned_iff (w : UInt32) : pagingIsAligned w = true ↔ PageAligned w := by
  unfold pagingIsAligned PageAligned
  rw [decide_eq_true_iff, ← UInt32.toNat_inj, UInt32.toNat_mod]
  rfl

theorem pagingGetIndexes_of_aligned {w : UInt32} (hw : PageAligned w) (i j : UInt32) :
    (pagingGetIndexes w i j).1 = 0 ∧
      (pagingGetIndexes w i j).2.1.toNat = w.toNat / 4194304 ∧
      (pagingGetIndexes w i j).2.2.toNat = w.toNat % 4194304 / 4096 := by
  unfold pagingGetIndexes
  rw [if_pos ((pagingIsAligned_iff w).mpr hw)]
  refine ⟨rfl, ?_, ?_⟩
  · rw [UInt32.toNat_div]
    rfl
  · rw [UInt32.toNat_div, UInt32.toNat_mod]
    rfl

theorem pagingGet_eq (h : PageTables m s) {w : UInt32} (hw : PageAligned w) :
    pagingGet (blockAddr s.directory) w m = m.read32 (s.slot w) := by
  obtain ⟨-, hi, hj⟩ := pagingGetIndexes_of_aligned hw 0 0
  unfold pagingGet
  dsimp only
  rw [hi, hj]
  have hentry := h.entry _ (slot_lt w).1
  unfold wordAddr at hentry
  rw [hentry]
  rfl

theorem pagingSet_eq (h : PageTables m s) {v : UInt32} (hv : PageAligned v) (x : UInt32) :
    pagingSet (blockAddr s.directory) v x m = (0, m.write32 (s.slot v) x) := by
  obtain ⟨hres, hi, hj⟩ := pagingGetIndexes_of_aligned hv 0 0
  unfold pagingSet
  rw [if_pos ((pagingIsAligned_iff v).mpr hv)]
  dsimp only
  rw [hres, if_neg (by decide), hi, hj]
  have hentry := h.entry _ (slot_lt v).1
  unfold wordAddr at hentry
  rw [hentry]
  rfl

theorem pagingSet_of_not_aligned {v : UInt32} (hv : ¬ PageAligned v) (directory x : UInt32)
    (m : Mem) : pagingSet directory v x m = (-EINVARG, m) := by
  unfold pagingSet
  rw [if_neg (mt (pagingIsAligned_iff v).mp hv)]

/-- Reading an entry applies the map. -/
theorem pagingGet_spec (h : Represents m s f) {w : UInt32} (hw : PageAligned w) :
    pagingGet (blockAddr s.directory) w m = f w := by
  rw [pagingGet_eq h.tables hw, h.page w hw]

/-- Writing an entry updates the map at one page and changes no byte outside the tables. -/
theorem pagingSet_spec (h : Represents m s f) {v : UInt32} (hv : PageAligned v) (x : UInt32) :
    ∃ m', pagingSet (blockAddr s.directory) v x m = (0, m') ∧
      Represents m' s (Function.update f v x) ∧ ∀ y, ¬ s.InTables y → m' y = m y := by
  have hout : ∀ y, ¬ s.InTables y → m.write32 (s.slot v) x y = m y :=
    fun y hy => Mem.write32_apply_of_not_inRange m x fun hr => hy (inTables_of_slot hr)
  refine ⟨_, pagingSet_eq h.tables hv x, ⟨h.tables.congr_of_tables hout, fun w hw => ?_⟩, hout⟩
  by_cases hwv : w = v
  · subst hwv
    rw [Mem.read32_write32, Function.update_self]
  · rw [read32_write32_slot hv hw hwv, Function.update_of_ne hwv, h.page w hw]

end PeachOS
