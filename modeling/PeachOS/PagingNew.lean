import PeachOS.PageMap
import PeachOS.WriteHistory

/-! # A new page directory

`paging_new_4gb` builds the identity map.  `Built` is the invariant of its outer loop: the
tables made so far are distinct blocks that were free at the start, their directory entries
point to them, and their pages are mapped to themselves.  The running offset passes `2 ^ 31`
on the way, so it is only known up to the two's complement reading.

`pagingNew4gb_spec` is the outcome; `paging_refines` joins it with the refinement of
`paging_set` over arbitrary histories of writes. -/

namespace PeachOS

open ByteMemory Extents WriteHistory

/-! ### One table -/

/-- The entry that maps page `n` of table `j` to itself. -/
def identityEntry (flags : UInt8) (j n : ℕ) : UInt32 :=
  UInt32.ofNat (4194304 * j + 4096 * n) ||| flags.toUInt32

/-- The value the inner loop computes, whatever the running offset has wrapped to. -/
theorem fillValue_eq (flags : UInt8) (j n : ℕ) :
    UInt32.ofInt (i32 (i32 (4194304 * j : ℕ) + n * 4096)) ||| flags.toUInt32 =
      identityEntry flags j n := by
  unfold identityEntry
  rw [i32_add_i32, ofInt_i32, ← ofInt_natCast]
  congr 2
  push_cast
  ring

/-- The inner loop changes no byte outside its block. -/
theorem pagingFillTable_frame {b : ℕ} (hb : b < 25600) (offset : ℤ) (flags : UInt8) (m : Mem)
    {x : UInt32} (hx : ¬ InBlock b x) :
    ∀ n ≤ 1024, pagingFillTable (blockAddr b) offset flags n m x = m x
  | 0, _ => rfl
  | n + 1, hn => by
      have ih := pagingFillTable_frame hb offset flags m hx n (by omega)
      exact (write32_wordAddr_apply hb (by omega) _ _ hx).trans ih

/-- The inner loop fills the words of its block. -/
theorem pagingFillTable_read {b : ℕ} (hb : b < 25600) (flags : UInt8) (j : ℕ) (m : Mem) :
    ∀ n ≤ 1024, ∀ l < n,
      (pagingFillTable (blockAddr b) (i32 (4194304 * j : ℕ)) flags n m).read32 (wordAddr b l) =
        identityEntry flags j l
  | 0, _, l, hl => absurd hl (by omega)
  | n + 1, hn, l, hl => by
      have hstep : pagingFillTable (blockAddr b) (i32 (4194304 * j : ℕ)) flags (n + 1) m =
          (pagingFillTable (blockAddr b) (i32 (4194304 * j : ℕ)) flags n m).write32
            (wordAddr b n) (identityEntry flags j n) := by
        rw [← fillValue_eq]
        rfl
      rw [hstep]
      rcases Nat.lt_succ_iff_lt_or_eq.mp hl with hlt | rfl
      · rw [read32_write32_wordAddr hb (by omega) hb (by omega) (by omega)]
        exact pagingFillTable_read hb flags j m n (by omega) l hlt
      · exact Mem.read32_write32 _ _ _

/-! ### All tables -/

/-- What the outer loop has built in `k` after `i` rounds, in blocks taken since `k₀`: the
directory block `d` and the tables `t 0`, …, `t (i - 1)`. -/
structure Built (k₀ : Kernel) (d : ℕ) (flags : UInt8) (i : ℕ) (t : ℕ → ℕ) (k : Kernel) :
    Prop where
  takes : Takes k₀ k {b | b = d ∨ ∃ j < i, b = t j}
  ne : ∀ j < i, t j ≠ d
  inj : ∀ j < i, ∀ l < i, t j = t l → j = l
  entry : ∀ j < i, k.mem.read32 (wordAddr d j) =
    blockAddr (t j) ||| flags.toUInt32 ||| pagingIsWritable
  page : ∀ j < i, ∀ l < 1024, k.mem.read32 (wordAddr (t j) l) = identityEntry flags j l

variable {k₀ k : Kernel} {d i : ℕ} {flags : UInt8} {t : ℕ → ℕ}

/-- One more table joins the blocks in use. -/
theorem blocks_update (d i b : ℕ) (t : ℕ → ℕ) :
    {c | c = d ∨ ∃ j < i + 1, c = Function.update t i b j} =
      {c | c = d ∨ ∃ j < i, c = t j} ∪ {b} := by
  have ht : ∀ j < i, Function.update t i b j = t j := fun j hj =>
    Function.update_of_ne (by omega) _ _
  ext c
  simp only [Set.mem_ofPred_eq, Set.mem_union, Set.mem_singleton_iff]
  constructor
  · rintro (hc | ⟨j, hj, hc⟩)
    · exact Or.inl (Or.inl hc)
    · rcases Nat.lt_succ_iff_lt_or_eq.mp hj with hlt | rfl
      · exact Or.inl (Or.inr ⟨j, hlt, hc.trans (ht j hlt)⟩)
      · exact Or.inr (hc.trans (Function.update_self ..))
  · rintro ((hc | ⟨j, hj, hc⟩) | hc)
    · exact Or.inl hc
    · exact Or.inr ⟨j, by omega, hc.trans (ht j hj).symm⟩
    · exact Or.inr ⟨i, by omega, hc.trans (Function.update_self i b t).symm⟩

/-- A new table keeps the tables distinct. -/
theorem inj_update {b : ℕ} (hinj : ∀ j < i, ∀ l < i, t j = t l → j = l) (hb : ∀ j < i, t j ≠ b) :
    ∀ j < i + 1, ∀ l < i + 1, Function.update t i b j = Function.update t i b l → j = l := by
  intro j hj l hl h
  rcases Nat.lt_succ_iff_lt_or_eq.mp hj with hj' | rfl <;>
    rcases Nat.lt_succ_iff_lt_or_eq.mp hl with hl' | rfl
  · rw [Function.update_of_ne (by omega), Function.update_of_ne (by omega)] at h
    exact hinj j hj' l hl' h
  · rw [Function.update_of_ne (by omega), Function.update_self] at h
    exact absurd h (hb j hj')
  · rw [Function.update_self, Function.update_of_ne (by omega)] at h
    exact absurd h.symm (hb l hl')
  · rfl

/-- One round: a new block is taken, filled, and entered in the directory. -/
theorem Built.step (h : Built k₀ d flags i t k) (hi : i < 1024)
    (hok : (kzalloc 4096 k).2.oom = false) :
    ∃ b, (kzalloc 4096 k).1 = blockAddr b ∧
      Built k₀ d flags (i + 1) (Function.update t i b)
        ⟨(pagingFillTable (blockAddr b) (i32 (4194304 * i : ℕ)) flags 1024
          (kzalloc 4096 k).2.mem).write32 (wordAddr d i)
            (blockAddr b ||| flags.toUInt32 ||| pagingIsWritable), (kzalloc 4096 k).2.oom⟩ := by
  obtain ⟨b, hb, htake, -⟩ := kzalloc_block_of_ok (by decide) (by decide) hok
  refine ⟨b, hb, ?_⟩
  have hlt : b < 25600 := htake.lt b rfl
  have hd : d < 25600 := h.takes.lt d (Or.inl rfl)
  -- the new block is none of the earlier ones
  have hnew : ∀ c, (c = d ∨ ∃ j < i, c = t j) → c ≠ b := by
    rintro c hc rfl
    exact h.takes.taken hc (htake.free c rfl)
  have hbd : d ≠ b := hnew d (Or.inl rfl)
  have hbt : ∀ j < i, t j ≠ b := fun j hj => hnew _ (Or.inr ⟨j, hj, rfl⟩)
  have ht : ∀ j < i, Function.update t i b j = t j := fun j hj =>
    Function.update_of_ne (by omega) _ _
  have hti : Function.update t i b i = b := Function.update_self ..
  have hfill := pagingFillTable_read hlt flags i (kzalloc 4096 k).2.mem 1024 le_rfl
  have hframe : ∀ x, ¬ InBlock b x → _ := fun x hx => pagingFillTable_frame hlt
    (i32 (4194304 * i : ℕ)) flags (kzalloc 4096 k).2.mem hx 1024 le_rfl
  generalize hm : pagingFillTable (blockAddr b) (i32 (4194304 * i : ℕ)) flags 1024
    (kzalloc 4096 k).2.mem = m at hfill hframe ⊢
  -- words of the earlier blocks other than the new directory entry are as before
  have hold : ∀ c < 25600, c ≠ b → ¬ EntryFree kernelHeap k.mem c → ∀ l < 1024,
      ¬ (c = d ∧ l = i) → (m.write32 (wordAddr d i)
        (blockAddr b ||| flags.toUInt32 ||| pagingIsWritable)).read32 (wordAddr c l) =
          k.mem.read32 (wordAddr c l) := by
    intro c hc hcb htaken l hl hcl
    rw [read32_write32_wordAddr hc hl hd hi hcl]
    refine read32_wordAddr_congr hc hl fun x hx => ?_
    rw [hframe x fun hxb => hcb (InBlock.unique hc hlt hx hxb), htake.same hc htaken hx]
  refine ⟨?_, fun j hj => ?_, inj_update h.inj hbt, fun j hj => ?_, fun j hj l hl => ?_⟩
  · rw [blocks_update]
    refine (h.takes.trans htake).write fun x hx => ?_
    dsimp only
    rw [write32_wordAddr_apply hd hi _ _ (hx d (Or.inl (Or.inl rfl))),
      hframe x (hx b (Or.inr rfl))]
  · rcases Nat.lt_succ_iff_lt_or_eq.mp hj with hlt' | rfl
    · rw [ht j hlt']
      exact h.ne j hlt'
    · rw [hti]
      exact hbd.symm
  · rcases Nat.lt_succ_iff_lt_or_eq.mp hj with hj' | rfl
    · rw [ht j hj']
      have htaken := h.takes.taken (b := d) (Or.inl rfl)
      dsimp only
      rw [hold d hd hbd htaken j (by omega) (by omega), h.entry j hj']
    · rw [hti]
      exact Mem.read32_write32 _ _ _
  · rcases Nat.lt_succ_iff_lt_or_eq.mp hj with hj' | rfl
    · rw [ht j hj']
      have htaken := h.takes.taken (b := t j) (Or.inr ⟨j, hj', rfl⟩)
      have htlt := h.takes.lt (t j) (Or.inr ⟨j, hj', rfl⟩)
      have hne := h.ne j hj'
      dsimp only
      rw [hold (t j) htlt (hbt j hj') htaken l hl (fun e => hne e.1), h.page j hj' l hl]
    · rw [hti]
      dsimp only
      rw [read32_write32_wordAddr hlt hl hd hi (fun e => hbd e.1.symm), hfill l hl]

theorem pagingNewTables_oom_false {directory : UInt32} : ∀ {i : ℕ} {k : Kernel},
    (pagingNewTables directory flags i k).2.oom = false → k.oom = false
  | 0, _, h => h
  | i + 1, k, h => by
      have h' : (kzalloc 4096 (pagingNewTables directory flags i k).2).2.oom = false := h
      exact pagingNewTables_oom_false (kzalloc_oom_false h')

/-- The outer loop, when every `kzalloc` succeeds. -/
theorem pagingNewTables_built {k₁ : Kernel} (hd : Takes k₀ k₁ {d}) : ∀ i ≤ 1024,
    (pagingNewTables (blockAddr d) flags i k₁).2.oom = false →
      (pagingNewTables (blockAddr d) flags i k₁).1 = i32 (4194304 * i : ℕ) ∧
        ∃ t, Built k₀ d flags i t (pagingNewTables (blockAddr d) flags i k₁).2
  | 0, _, _ => by
      refine ⟨rfl, fun _ => 0, ?_, ?_, ?_, ?_, ?_⟩
      · have hset : {b | b = d ∨ ∃ j < 0, b = (0 : ℕ)} = {d} := by
          ext b
          simp
        rw [hset]
        exact hd
      all_goals intro j hj; omega
  | i + 1, hi, hok => by
      have hok' : (kzalloc 4096 (pagingNewTables (blockAddr d) flags i k₁).2).2.oom = false := hok
      obtain ⟨hoff, t, hbuilt⟩ :=
        pagingNewTables_built hd i (by omega) (kzalloc_oom_false hok')
      obtain ⟨b, hb, hstep⟩ := hbuilt.step (by omega) hok'
      refine ⟨?_, Function.update t i b, ?_⟩
      · simp only [pagingNewTables]
        rw [hoff, show (4194304 : ℤ) = ((4194304 : ℕ) : ℤ) from rfl, i32_add_i32]
        push_cast
        congr 1
      · simp only [pagingNewTables]
        rw [hoff, hb]
        exact hstep

/-! ### The chunk -/

theorem pageAligned_blockAddr {b : ℕ} (hb : b < 25600) : PageAligned (blockAddr b) := by
  unfold PageAligned
  rw [toNat_blockAddr hb]
  omega

/-- The directory and table indexes of a page recover its address. -/
theorem identityEntry_of_page (flags : UInt8) {w : UInt32} (hw : PageAligned w) :
    identityEntry flags (w.toNat / 4194304) (w.toNat % 4194304 / 4096) = w ||| flags.toUInt32 := by
  unfold identityEntry
  congr 1
  apply UInt32.toNat.inj
  have := toNat_lt w
  unfold PageAligned at hw
  rw [UInt32.toNat_ofNat']
  omega

theorem pagingNew4gb_eq {directory chunk : UInt32} {offset : ℤ} {k₁ k₂ k₃ : Kernel}
    (h₁ : kzalloc 4096 k = (directory, k₁))
    (h₂ : pagingNewTables directory flags 1024 k₁ = (offset, k₂))
    (h₃ : kzalloc 4 k₂ = (chunk, k₃)) :
    pagingNew4gb flags k = (chunk, ⟨k₃.mem.write32 chunk directory, k₃.oom⟩) := by
  unfold pagingNew4gb
  simp only [h₁, h₂, h₃]

/-- A chunk built without a failure was built after none. -/
theorem pagingNew4gb_oom_false (hok : (pagingNew4gb flags k).2.oom = false) : k.oom = false := by
  rcases h₁ : kzalloc 4096 k with ⟨directory, k₁⟩
  rcases h₂ : pagingNewTables directory flags 1024 k₁ with ⟨offset, k₂⟩
  rcases h₃ : kzalloc 4 k₂ with ⟨chunk, k₃⟩
  rw [pagingNew4gb_eq h₁ h₂ h₃] at hok
  have hok₃ : (kzalloc 4 k₂).2.oom = false := by rw [h₃]; exact hok
  have hok₂ : (pagingNewTables directory flags 1024 k₁).2.oom = false := by
    rw [h₂]; exact kzalloc_oom_false hok₃
  have hoom : k₁.oom = false := pagingNewTables_oom_false hok₂
  have hok₁ : (kzalloc 4096 k).2.oom = false := by rw [h₁]; exact hoom
  exact kzalloc_oom_false hok₁

/-- **A new chunk is the identity map.**  When every allocation succeeds, `paging_new_4gb`
takes 1026 free blocks, writes to nothing else, and leaves in them the map that sends each
page to itself with the given flags; the entries of the directory have these flags too, and
are writable. -/
theorem pagingNew4gb_entries (hok : (pagingNew4gb flags k).2.oom = false) :
    ∃ s : SpaceBlocks, (pagingNew4gb flags k).1 = blockAddr s.chunk ∧
      Takes k (pagingNew4gb flags k).2 s.blocks ∧
      Represents (pagingNew4gb flags k).2.mem s (fun w => w ||| flags.toUInt32) ∧
      ∀ j < 1024, (pagingNew4gb flags k).2.mem.read32 (wordAddr s.directory j) =
        blockAddr (s.table j) ||| flags.toUInt32 ||| pagingIsWritable := by
  rcases h₁ : kzalloc 4096 k with ⟨directory, k₁⟩
  rcases h₂ : pagingNewTables directory flags 1024 k₁ with ⟨offset, k₂⟩
  rcases h₃ : kzalloc 4 k₂ with ⟨chunk, k₃⟩
  rw [pagingNew4gb_eq h₁ h₂ h₃] at hok ⊢
  have hok₃ : (kzalloc 4 k₂).2.oom = false := by rw [h₃]; exact hok
  have hok₂ : (pagingNewTables directory flags 1024 k₁).2.oom = false := by
    rw [h₂]; exact kzalloc_oom_false hok₃
  have hoom : k₁.oom = false := pagingNewTables_oom_false hok₂
  have hok₁ : (kzalloc 4096 k).2.oom = false := by rw [h₁]; exact hoom
  obtain ⟨d, hd, hdtake, -⟩ := kzalloc_block_of_ok (by decide) (by decide) hok₁
  obtain ⟨c, hc, hctake, -⟩ := kzalloc_block_of_ok (by decide) (by decide) hok₃
  rw [h₁] at hd hdtake
  rw [h₃] at hc hctake
  simp only at hd hc hdtake hctake
  subst hd hc
  obtain ⟨-, t, hbuilt⟩ := pagingNewTables_built hdtake 1024 le_rfl hok₂
  rw [h₂] at hbuilt
  have hclt := hctake.lt c rfl
  have hnew : ∀ b, (b = d ∨ ∃ j < 1024, b = t j) → b ≠ c := by
    rintro b hb rfl
    exact hbuilt.takes.taken hb (hctake.free b rfl)
  let s : SpaceBlocks :=
    { chunk := c, directory := d, table := t
      chunk_lt := hclt
      directory_lt := hbuilt.takes.lt d (Or.inl rfl)
      table_lt := fun j hj => hbuilt.takes.lt (t j) (Or.inr ⟨j, hj, rfl⟩)
      chunk_ne_directory := (hnew d (Or.inl rfl)).symm
      table_ne_chunk := fun j hj => hnew (t j) (Or.inr ⟨j, hj, rfl⟩)
      table_ne_directory := hbuilt.ne
      table_inj := hbuilt.inj }
  have hblocks : s.blocks = {b | b = d ∨ ∃ j < 1024, b = t j} ∪ {c} := by
    ext b
    constructor
    · rintro (hb | hb | hb)
      exacts [Or.inr hb, Or.inl (Or.inl hb), Or.inl (Or.inr hb)]
    · rintro ((hb | hb) | hb)
      exacts [Or.inr (Or.inl hb), Or.inr (Or.inr hb), Or.inl hb]
  have hword : ∀ b < 25600, (b = d ∨ ∃ j < 1024, b = t j) → ∀ l < 1024,
      (k₃.mem.write32 (blockAddr c) (blockAddr d)).read32 (wordAddr b l) =
        k₂.mem.read32 (wordAddr b l) := by
    intro b hb hin l hl
    rw [← wordAddr_zero c, read32_write32_wordAddr hb hl hclt (by omega) fun e => hnew b hin e.1]
    exact read32_wordAddr_congr hb hl fun x hx => hctake.same hb (hbuilt.takes.taken hin) hx
  have hentry : ∀ j < 1024, (k₃.mem.write32 (blockAddr c) (blockAddr d)).read32
      (wordAddr s.directory j) = blockAddr (s.table j) ||| flags.toUInt32 ||| pagingIsWritable :=
    fun j hj => (hword _ s.directory_lt (Or.inl rfl) j hj).trans (hbuilt.entry j hj)
  refine ⟨s, rfl, ?_, ⟨⟨Mem.read32_write32 _ _ _, fun j hj => ?_⟩, fun w hw => ?_⟩, hentry⟩
  · rw [hblocks]
    refine (hbuilt.takes.trans hctake).write fun x hx => ?_
    dsimp only
    rw [← wordAddr_zero c, write32_wordAddr_apply hclt (by omega) _ _ (hx c (Or.inr rfl))]
  · dsimp only
    rw [hentry j hj, UInt32.or_assoc]
    exact or_and_frame (pageAligned_blockAddr (s.table_lt j hj)) (toNat_pageFlags flags)
  · obtain ⟨hj, hl⟩ := slot_lt w
    unfold SpaceBlocks.slot
    dsimp only
    rw [hword _ (s.table_lt _ hj) (Or.inr ⟨_, hj, rfl⟩) _ hl, hbuilt.page _ hj _ hl,
      identityEntry_of_page flags hw]

theorem pagingNew4gb_spec (hok : (pagingNew4gb flags k).2.oom = false) :
    ∃ s : SpaceBlocks, (pagingNew4gb flags k).1 = blockAddr s.chunk ∧
      Takes k (pagingNew4gb flags k).2 s.blocks ∧
      Represents (pagingNew4gb flags k).2.mem s fun w => w ||| flags.toUInt32 := by
  obtain ⟨s, hchunk, htakes, hrep, -⟩ := pagingNew4gb_entries hok
  exact ⟨s, hchunk, htakes, hrep⟩

/-! ### Enough memory -/

theorem pagingNewTables_ok (flags : UInt8) {d : ℕ} (hd : d < 25600) (hk : k.oom = false) :
    ∀ i ≤ 1024, ∀ c,
    i + c ≤ (freeBlocks k).card →
      (pagingNewTables (blockAddr d) flags i k).2.oom = false ∧
        c ≤ (freeBlocks (pagingNewTables (blockAddr d) flags i k).2).card
  | 0, _, c, hc => ⟨hk, by rw [Nat.zero_add] at hc; exact hc⟩
  | i + 1, hi, c, hc => by
      obtain ⟨hok, hcard⟩ := pagingNewTables_ok flags hd hk i (by omega) (c + 1) (by omega)
      obtain ⟨hok', hcard'⟩ := kzalloc_block_ok 4096 (by decide) (by decide) hok hcard
      obtain ⟨b, hb, htake, -⟩ := kzalloc_block_of_ok (by decide) (by decide) hok'
      have hlt := htake.lt b rfl
      simp only [pagingNewTables]
      refine ⟨hok', hcard'.trans_eq (congrArg Finset.card (freeBlocks_congr fun x hx => ?_)).symm⟩
      dsimp only
      rw [hb, show off (blockAddr d) (4 * i) = wordAddr d i from rfl,
        write32_wordAddr_apply hd (by omega) _ _ fun h => h.not_inTable hd hx,
        pagingFillTable_frame hlt _ _ _ (fun h => h.not_inTable hlt hx) 1024 le_rfl]

/-- With 1026 free blocks `paging_new_4gb` meets no failing allocation. -/
theorem pagingNew4gb_ok (hk : k.oom = false) (hfree : 1026 ≤ (freeBlocks k).card) :
    (pagingNew4gb flags k).2.oom = false := by
  rcases h₁ : kzalloc 4096 k with ⟨directory, k₁⟩
  rcases h₂ : pagingNewTables directory flags 1024 k₁ with ⟨offset, k₂⟩
  rcases h₃ : kzalloc 4 k₂ with ⟨chunk, k₃⟩
  obtain ⟨hok₁, hcard₁⟩ := kzalloc_block_ok 4096 (by decide) (by decide) hk hfree
  obtain ⟨d, hd, hdtake, -⟩ := kzalloc_block_of_ok (by decide) (by decide) hok₁
  rw [h₁] at hok₁ hcard₁ hd
  simp only at hok₁ hcard₁ hd
  subst hd
  obtain ⟨hok₂, hcard₂⟩ := pagingNewTables_ok flags (hdtake.lt d rfl) hok₁ 1024 le_rfl 1 hcard₁
  rw [h₂] at hok₂ hcard₂
  simp only at hok₂ hcard₂
  have hok₃ := (kzalloc_block_ok 4 (by decide) (by decide) hok₂ hcard₂).1
  rw [h₃] at hok₃
  rw [pagingNew4gb_eq h₁ h₂ h₃]
  exact hok₃

theorem TopFree.pagingNewTables (flags : UInt8) {d : ℕ} (hd : d < 25600) {live : Layout UInt32}
    {p : ℕ} (h : TopFree k live p) : ∀ i ≤ 1024, p + i ≤ 25600 →
      ∃ live', TopFree (PeachOS.pagingNewTables (blockAddr d) flags i k).2 live' (p + i) ∧
        ∀ a e, live a = some e → live' a = some e
  | 0, _, _ => ⟨live, h, fun _ _ ha => ha⟩
  | i + 1, hi, hp => by
      obtain ⟨live₁, h₁, hkeep₁⟩ := TopFree.pagingNewTables flags hd h i (by omega) (by omega)
      obtain ⟨a, k', live₂, hk, h₂, halloc, -, hkeep₂⟩ := h₁.kzalloc 4096 (by decide) hp
      obtain ⟨b, hb, rfl⟩ := h₂.heap.allocated_block halloc
      refine ⟨live₂, h₂.write ?_ fun x hx => ?_, fun a e ha => hkeep₂ a e (hkeep₁ a e ha)⟩
      · simp only [PeachOS.pagingNewTables, hk]
        exact h₂.ok
      · simp only [PeachOS.pagingNewTables, hk]
        rw [show off (blockAddr d) (4 * i) = wordAddr d i from rfl,
          write32_wordAddr_apply hd (by omega) _ _ fun hxd => hxd.not_inTable hd hx,
          pagingFillTable_frame hb _ _ _ (fun hxb => hxb.not_inTable hb hx) 1024 le_rfl]

/-- `paging_new_4gb` takes 1026 blocks from the room at the top. -/
theorem TopFree.pagingNew4gb (flags : UInt8) {live : Layout UInt32} {p : ℕ} (h : TopFree k live p)
    (hp : p + 1026 ≤ 25600) :
    ∃ chunk k' live', PeachOS.pagingNew4gb flags k = (chunk, k') ∧ chunk ≠ 0 ∧
      TopFree k' live' (p + 1026) ∧ ∀ a e, live a = some e → live' a = some e := by
  have hone : blocksFor 4096 = 1 ∧ blocksFor 4 = 1 := by decide
  obtain ⟨a, k₁, live₁, hk₁, h₁, halloc₁, -, hkeep₁⟩ := h.kzalloc 4096 (by decide) (by omega)
  obtain ⟨d, hd, rfl⟩ := h₁.heap.allocated_block halloc₁
  rw [hone.1] at h₁
  obtain ⟨live₂, h₂, hkeep₂⟩ := h₁.pagingNewTables flags hd 1024 le_rfl (by omega)
  rcases hk₂ : PeachOS.pagingNewTables (blockAddr d) flags 1024 k₁ with ⟨offset, k₂⟩
  rw [hk₂] at h₂
  obtain ⟨c, k₃, live₃, hk₃, h₃, halloc₃, -, hkeep₃⟩ := h₂.kzalloc 4 (by decide) (by omega)
  obtain ⟨b, hb, rfl⟩ := h₃.heap.allocated_block halloc₃
  rw [hone.2, show p + 1 + 1024 + 1 = p + 1026 by ring] at h₃
  refine ⟨_, _, live₃, pagingNew4gb_eq hk₁ hk₂ hk₃, blockAddr_ne_zero hb,
    h₃.write h₃.ok fun x hx => ?_, fun a e ha => hkeep₃ a e (hkeep₂ a e (hkeep₁ a e ha))⟩
  dsimp only
  rw [← wordAddr_zero b, write32_wordAddr_apply hb (by omega) _ _ fun hxb => hxb.not_inTable hb hx]

/-! ### Histories of writes -/

/-- A sequence of `paging_set` calls, whatever they return. -/
def pagingSets (directory : UInt32) (sets : List (UInt32 × UInt32)) (m : Mem) : Mem :=
  sets.foldl (fun m p => (pagingSet directory p.1 p.2 m).2) m

/-- Any `paging_set`, aligned or not, is a point update of the map. -/
theorem Represents.set {m : Mem} {s : SpaceBlocks} {f : UInt32 → UInt32} (h : Represents m s f)
    (v x : UInt32) :
    Represents (pagingSet (blockAddr s.directory) v x m).2 s (Function.update f v x) := by
  by_cases hv : PageAligned v
  · obtain ⟨m', hset, hrep, -⟩ := pagingSet_spec h hv x
    rw [hset]
    exact hrep
  · rw [pagingSet_of_not_aligned hv]
    refine ⟨h.tables, fun w hw => ?_⟩
    rw [h.page w hw, Function.update_of_ne]
    rintro rfl
    exact hv hw

theorem Represents.sets {s : SpaceBlocks} : ∀ (sets : List (UInt32 × UInt32)) {m : Mem}
    {f : UInt32 → UInt32}, Represents m s f →
      Represents (pagingSets (blockAddr s.directory) sets m) s (replay f sets)
  | [], _, _, h => h
  | (v, x) :: sets, _, _, h => Represents.sets sets (h.set v x)

/-- **A page directory is a total map.**  After `paging_new_4gb(flags)` and any sequence of
`paging_set` calls, `paging_get` of a page returns the last value written for it, or the
page itself with the flags; a call with an unaligned address fails and changes nothing. -/
theorem paging_refines {chunk : UInt32} {k' : Kernel} (hnew : pagingNew4gb flags k = (chunk, k'))
    (hok : k'.oom = false) (sets : List (UInt32 × UInt32)) :
    (∀ w, PageAligned w →
      pagingGet (paging4gbChunkGetDirectory chunk k'.mem) w
          (pagingSets (paging4gbChunkGetDirectory chunk k'.mem) sets k'.mem) =
        (lastWrite sets w).getD (w ||| flags.toUInt32)) ∧
      ∀ v x, ¬ PageAligned v →
        pagingSet (paging4gbChunkGetDirectory chunk k'.mem) v x
            (pagingSets (paging4gbChunkGetDirectory chunk k'.mem) sets k'.mem) =
          (-EINVARG, pagingSets (paging4gbChunkGetDirectory chunk k'.mem) sets k'.mem) := by
  have hok' : (pagingNew4gb flags k).2.oom = false := by rw [hnew]; exact hok
  obtain ⟨s, hchunk, -, hrep⟩ := pagingNew4gb_spec hok'
  rw [hnew] at hchunk hrep
  simp only at hchunk hrep
  have hdir : paging4gbChunkGetDirectory chunk k'.mem = blockAddr s.directory := by
    rw [hchunk]
    exact hrep.tables.chunk
  rw [hdir]
  refine ⟨fun w hw => ?_, fun v x hv => pagingSet_of_not_aligned hv _ _ _⟩
  rw [pagingGet_spec (hrep.sets sets) hw, replay_apply]

/-- A page is mapped in a fresh kernel, then an unaligned address is tried. -/
theorem paging_refines_two_sets :
    ∃ chunk k', pagingNew4gb 5 freshKernel = (chunk, k') ∧
      pagingGet (paging4gbChunkGetDirectory chunk k'.mem) 0x400000
        (pagingSets (paging4gbChunkGetDirectory chunk k'.mem) [(0x400000, 7), (0x400001, 9)]
          k'.mem) = 7 := by
  have hok : (pagingNew4gb 5 freshKernel).2.oom = false :=
    pagingNew4gb_ok rfl (le_trans (by decide) freshKernel_topFree.card_le)
  rcases hnew : pagingNew4gb 5 freshKernel with ⟨chunk, k'⟩
  rw [hnew] at hok
  refine ⟨chunk, k', rfl, ?_⟩
  exact ((paging_refines hnew hok [(0x400000, 7), (0x400001, 9)]).1 0x400000 (by decide)).trans
    (by decide)

end PeachOS
