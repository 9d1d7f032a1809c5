import PeachOS.FileTable
import PeachOS.Fat16Division
import PeachOS.PathRelease

/-! # What opening a file leaves on the heap

`fopen` parses its path with `pathparser_parse` and never frees the parsed root.  `Owns` follows
the allocations that a call still has, through all that is allocated and freed on the way; the
block of the root is one of them to the end, so the block table is what it was before if and only
if the path was refused: `fopen_heapNeutral_iff`. -/

namespace PeachOS

open ByteMemory Extents

variable {k k' : Kernel} {B C : List ℕ} {b : ℕ} {size : UInt32}

/-! ### Allocations that are owned -/

/-- The blocks of `B` are the first blocks of different live allocations. -/
def Owns (k : Kernel) (B : List ℕ) : Prop :=
  B.Nodup ∧ ∃ live, HeapInv kernelHeap k.mem live ∧
    ∀ b ∈ B, ∃ e : Extent, live (blockAddr b) = some e ∧ e.start = b

theorem Owns.nil {live : Layout UInt32} (hinv : HeapInv kernelHeap k.mem live) : Owns k [] :=
  ⟨List.nodup_nil, live, hinv, fun _ hb => nomatch hb⟩

theorem Owns.subperm (h : Owns k B) (hsub : C.Subperm B) : Owns k C := by
  obtain ⟨hnodup, live, hinv, hlive⟩ := h
  obtain ⟨D, hperm, hD⟩ := hsub
  exact ⟨hperm.nodup_iff.mp (hnodup.sublist hD), live, hinv,
    fun b hb => hlive b (hD.subset (hperm.mem_iff.mpr hb))⟩

theorem Owns.perm (h : Owns k B) (hperm : B.Perm C) : Owns k C := h.subperm hperm.symm.subperm

theorem Owns.tail (h : Owns k (b :: B)) : Owns k B := h.subperm (List.sublist_cons_self b B).subperm

/-- An owned block is taken. -/
theorem Owns.taken (h : Owns k B) (hb : b ∈ B) : b < 25600 ∧ ¬ EntryFree kernelHeap k.mem b := by
  obtain ⟨-, live, hinv, hlive⟩ := h
  obtain ⟨e, he, rfl⟩ := hlive b hb
  have hin := hinv.encodes.packed.inside _ e he
  have hpos := e.len_pos
  rw [kernelHeap_total] at hin
  exact ⟨by omega, hinv.taken he e.has_start⟩

/-- Stores outside the table. -/
theorem Owns.write (h : Owns k B) (hmem : ∀ x, InTable x → k'.mem x = k.mem x) : Owns k' B := by
  obtain ⟨hnodup, live, hinv, hlive⟩ := h
  refine ⟨hnodup, live, hinv.congr fun i hi => hmem _ (inRange_off ?_), hlive⟩
  rwa [kernelHeap_total] at hi

/-- A request that fits gives a new allocation. -/
theorem Owns.alloc (h : Owns k B) (h1 : 1 ≤ size.toNat)
    (hfit : FreeRun kernelHeap k.mem (blocksFor size)) :
    ∃ b, b + blocksFor size ≤ 25600 ∧ EntryFree kernelHeap k.mem b ∧
      (kzalloc size k).1 = blockAddr b ∧ Owns (kzalloc size k).2 (b :: B) := by
  have h2 : size.toNat ≤ 0xFFFFF000 := by
    obtain ⟨s, hs, -⟩ := hfit
    rw [kernelHeap_total] at hs
    unfold blocksFor at hs
    omega
  have hnot : ∀ c, EntryFree kernelHeap k.mem c → c ∉ B := fun c hc hmem => (h.taken hmem).2 hc
  obtain ⟨hnodup, live, hinv, hlive⟩ := h
  obtain ⟨e, k', hk, -, hlen, hin, hfirst, hnone, hinv', -⟩ := kzalloc_spec hinv h1 h2 hfit
  have hfree : EntryFree kernelHeap k.mem e.start := hfirst.run 0 (blocksFor_pos h1)
  rw [hk]
  refine ⟨e.start, by omega, hfree, rfl, List.nodup_cons.mpr ⟨hnot _ hfree, hnodup⟩, _, hinv',
    fun c hc => ?_⟩
  rcases List.mem_cons.mp hc with rfl | hc
  · exact ⟨e, assign_self _ _ _, rfl⟩
  · obtain ⟨f, hf, hstart⟩ := hlive c hc
    refine ⟨f, ?_, hstart⟩
    rw [assign_of_ne _ _ fun heq => ?_]
    · exact hf
    · rw [heq, hnone] at hf
      cases hf

/-- A request of at most one block that was served. -/
theorem Owns.alloc_block (h : Owns k B) (h1 : 1 ≤ size.toNat) (h2 : size.toNat ≤ 4096)
    (hne : (kzalloc size k).1 ≠ 0) :
    ∃ b < 25600, EntryFree kernelHeap k.mem b ∧ (kzalloc size k).1 = blockAddr b ∧
      Owns (kzalloc size k).2 (b :: B) := by
  rcases kzalloc_block h1 h2 k with ⟨c, -, htake, -, -⟩ | ⟨hnull, -⟩
  · have hone : blocksFor size = 1 := by unfold blocksFor; omega
    have hc := htake.lt c rfl
    have hfit : FreeRun kernelHeap k.mem (blocksFor size) := by
      refine ⟨c, by rw [hone, kernelHeap_total]; omega, fun j hj => ?_⟩
      obtain rfl : j = 0 := by omega
      exact htake.free c rfl
    obtain ⟨b, hin, hrest⟩ := h.alloc h1 hfit
    exact ⟨b, by omega, hrest⟩
  · exact absurd (by rw [hnull]) hne

/-- An owned allocation is freed. -/
theorem Owns.free (h : Owns k (b :: B)) : Owns (kfree (blockAddr b) k) B := by
  have hlt : ∀ c ∈ b :: B, c < 25600 := fun c hc => (h.taken hc).1
  obtain ⟨hnodup, live, hinv, hlive⟩ := h
  obtain ⟨hnot, hnodup⟩ := List.nodup_cons.mp hnodup
  obtain ⟨e, he, -⟩ := hlive b List.mem_cons_self
  refine ⟨hnodup, _, (kfree_spec hinv he).1, fun c hc => ?_⟩
  obtain ⟨f, hf, hstart⟩ := hlive c (List.mem_cons_of_mem b hc)
  refine ⟨f, ?_, hstart⟩
  rwa [release_of_ne _ fun heq => hnot ?_]
  rwa [← blockAddr_inj (hlt c (List.mem_cons_of_mem b hc)) (hlt b List.mem_cons_self) heq]

/-! ### Requests of no bytes -/

/-- A request of no bytes marks nothing, and returns the address of a free block. -/
theorem kzalloc_zero (k : Kernel) : (kzalloc 0 k).2.mem = k.mem ∧
    ((kzalloc 0 k).1 = 0 ∨ ∃ b < 25600, (kzalloc 0 k).1 = blockAddr b ∧
      EntryFree kernelHeap k.mem b) := by
  rcases foundBlock_cases 0 k.mem with hneg | ⟨b, hfound⟩
  · obtain ⟨hnull, hmem⟩ := kzalloc_unfound hneg
    exact ⟨hmem, Or.inl hnull⟩
  · obtain ⟨haddr, hmem⟩ := kzalloc_found hfound
    have hlt := hfound.lt
    rw [requestedBlocks_of_not_roundable (by unfold Roundable; decide)] at hmem
    have hnone := @heapMarkBlocksTaken_zero kernelHeap k.mem b (by omega)
    exact ⟨hmem.trans hnone, Or.inr ⟨b, hlt, haddr, hfound.free⟩⟩

/-- Freeing a free block changes nothing. -/
theorem Owns.free_of_entryFree (h : Owns k B) (hb : b < 25600)
    (hfree : EntryFree kernelHeap k.mem b) (x : UInt32) :
    (kfree (blockAddr b) k).mem x = k.mem x := by
  obtain ⟨-, live, hinv, -⟩ := h
  have hentry : k.mem (off kernelHeap.table.entries b) = heapBlockTableEntryFree :=
    hinv.encodes.free b (by rwa [kernelHeap_total]) (hinv.uncovered hfree)
  have hblock : heapAddressToBlock kernelHeap (blockAddr b) = b :=
    heapAddressToBlock_off kernelHeap (by omega)
  obtain ⟨n, hn⟩ : ∃ n, (i32 (kernelHeap.table.total.toNat : ℤ) - b).toNat = n + 1 := by
    rw [kernelHeap_total, i32_of_range (by omega) (by omega)]
    exact ⟨25600 - b - 1, by omega⟩
  rw [kfree_mem, heapFree, hblock, heapMarkBlocksFree, hn, heapMarkFreeLoop_succ]
  dsimp only
  rw [HeapTable.entryAddr_natCast, hentry, if_pos (by decide)]
  by_cases hx : x = off kernelHeap.table.entries b
  · rw [hx, Mem.write_same, hentry]
  · exact Mem.write_ne _ _ hx

/-! ### Parsing a path -/

/-- The loop over a part stores in the first bytes of its buffer. -/
theorem pathPartLoop_apply (buf : UInt32) {x : UInt32} : ∀ (i : ℕ) (path : List UInt8) (m : Mem),
    (∀ j < i + path.length, x ≠ off buf j) → (pathPartLoop buf i path m).2.2 x = m x
  | _, [], _, _ => rfl
  | i, c :: path, m, hx => by
      rw [List.length_cons] at hx
      unfold pathPartLoop
      split_ifs
      · rw [pathPartLoop_apply buf (i + 1) path _ fun j hj => hx j (by omega)]
        exact Mem.write_ne _ _ (hx i (by omega))
      · rfl

/-- The buffer of a part is freed again, or it is owned. -/
theorem Owns.getPathPart (h : Owns k B) {path : List UInt8} (hlen : path.length ≤ 108)
    (hok : (pathparserGetPathPart path k).2.2.oom = false) :
    ((pathparserGetPathPart path k).1 = 0 ∧ Owns (pathparserGetPathPart path k).2.2 B) ∨
      ∃ b < 25600, (pathparserGetPathPart path k).1 = blockAddr b ∧
        Owns (pathparserGetPathPart path k).2.2 (b :: B) := by
  rw [pathparserGetPathPart_oom] at hok
  obtain ⟨b, hb, -, haddr, hown⟩ := h.alloc_block (by decide) (by decide)
    (kzalloc_ne_zero_of_ok hok)
  have hstored : Owns { (kzalloc 108 k).2 with
      mem := (pathPartLoop (blockAddr b) 0 path (kzalloc 108 k).2.mem).2.2 } (b :: B) := by
    refine hown.write fun x hx => pathPartLoop_apply _ 0 path _ fun j hj e => ?_
    exact InBlock.not_inTable hb (e ▸ inRange_off (by omega)) hx
  unfold pathparserGetPathPart
  dsimp only
  rw [haddr]
  rcases eq_or_ne (pathPartLoop (blockAddr b) 0 path (kzalloc 108 k).2.mem).1 0 with hnone | hsome
  · rw [if_pos hnone]
    exact Or.inl ⟨rfl, hstored.free⟩
  · rw [if_neg hsome]
    exact Or.inr ⟨b, hb, rfl, hstored⟩

/-- The words of a structure in a block are no bytes of the table. -/
theorem Owns.write32 (h : Owns k B) (hb : b < 25600) {j : ℕ} (hj : j < 1024) (v : UInt32) :
    Owns { k with mem := k.mem.write32 (wordAddr b j) v } B :=
  h.write fun _ hx => write32_wordAddr_apply hb hj _ _ fun hin => hin.not_inTable hb hx

/-- Parsing a part keeps what is owned; what is new is forgotten. -/
theorem Owns.parsePathPart (h : Owns k B) {lastPart : UInt32}
    (hlast : lastPart = 0 ∨ ∃ p < 25600, lastPart = blockAddr p) {path : List UInt8}
    (hlen : path.length ≤ 108) (hok : (pathparserParsePathPart lastPart path k).2.2.oom = false) :
    Owns (pathparserParsePathPart lastPart path k).2.2 B ∧
      ((pathparserParsePathPart lastPart path k).1 = 0 ∨
        ∃ p < 25600, (pathparserParsePathPart lastPart path k).1 = blockAddr p) := by
  have hpart := h.getPathPart hlen (pathparserParsePathPart_oom_false hok)
  unfold pathparserParsePathPart at hok ⊢
  dsimp only at hok ⊢
  generalize pathparserGetPathPart path k = s at hok hpart ⊢
  rcases hpart with ⟨hnull, hown⟩ | ⟨b, hb, haddr, hown⟩
  · rw [if_pos hnull]
    exact ⟨hown, Or.inl rfl⟩
  · have hne : s.1 ≠ 0 := haddr ▸ blockAddr_ne_zero hb
    rw [if_neg hne] at hok ⊢
    dsimp only at hok ⊢
    obtain ⟨p, hp, -, hpaddr, hown'⟩ := hown.alloc_block (by decide) (by decide)
      (kzalloc_ne_zero_of_ok hok)
    rw [hpaddr]
    have hfields := ((hown'.tail.tail.write32 hp (by omega : 0 < 1024) s.1).write32 hp
      (by omega : 1 < 1024) 0)
    refine ⟨?_, Or.inr ⟨p, hp, rfl⟩⟩
    rcases hlast with rfl | ⟨q, hq, rfl⟩
    · rw [if_neg (not_not.mpr rfl)]
      exact hfields
    · rw [if_pos (blockAddr_ne_zero hq)]
      exact hfields.write32 hq (by omega : 1 < 1024) (blockAddr p)

/-- By induction on what is left of the path. -/
theorem Owns.parsePartsLoop (part : UInt32) (path : List UInt8) (k : Kernel) (h : Owns k B)
    (hpart : part = 0 ∨ ∃ p < 25600, part = blockAddr p) (hlen : path.length ≤ 108)
    (hok : (PeachOS.parsePartsLoop part path k).oom = false) :
    Owns (PeachOS.parsePartsLoop part path k) B := by
  have hstep := h.parsePathPart hpart hlen (parsePartsLoop_oom_false hok)
  induction part, path, k using parsePartsLoop.induct with
  | case1 part path k s hnone =>
      rw [PeachOS.parsePartsLoop, if_pos hnone]
      exact hstep.1
  | case2 part path k s hsome ih =>
      have hshort : s.2.1.length < path.length := pathparserParsePathPart_length hsome
      rw [PeachOS.parsePartsLoop, if_neg hsome] at hok ⊢
      exact ih hstep.1 hstep.2 (by omega) hok
        (hstep.1.parsePathPart hstep.2 (by omega) (parsePartsLoop_oom_false hok))

/-- The path is too long, or it has another format than `d:/…`. -/
def PathRefused (path : List UInt8) : Prop :=
  peachosMaxPath < path.length ∨ pathparserPathValidFormat path = false

instance (path : List UInt8) : Decidable (PathRefused path) := by
  unfold PathRefused; infer_instance

theorem Owns.createRoot (h : Owns k B) (driveNumber : ℤ)
    (hok : (pathparserCreateRoot driveNumber k).2.oom = false) :
    ∃ r < 25600, EntryFree kernelHeap k.mem r ∧
      (pathparserCreateRoot driveNumber k).1 = blockAddr r ∧
      Owns (pathparserCreateRoot driveNumber k).2 (r :: B) := by
  unfold pathparserCreateRoot at hok ⊢
  dsimp only at hok ⊢
  obtain ⟨r, hr, hfree, haddr, hown⟩ := h.alloc_block (by decide) (by decide)
    (kzalloc_ne_zero_of_ok hok)
  rw [haddr]
  have hdrive := hown.write32 hr (by omega : 0 < 1024) (UInt32.ofInt driveNumber)
  exact ⟨r, hr, hfree, rfl, hdrive.write32 hr (by omega : 1 < 1024) 0⟩

/-- The root of a path that is not refused is owned. -/
theorem Owns.parse (h : Owns k B) {path : List UInt8} (h0 : 0 ∉ path) (hpath : ¬ PathRefused path)
    (hok : (pathparserParse path k).2.oom = false) :
    ∃ r < 25600, EntryFree kernelHeap k.mem r ∧ (pathparserParse path k).1 = blockAddr r ∧
      Owns (pathparserParse path k).2 (r :: B) := by
  obtain ⟨hlong, hformat⟩ := not_or.mp hpath
  have hformat := Bool.eq_true_of_not_eq_false hformat
  obtain ⟨d, t, rfl⟩ := (pathparserPathValidFormat_iff h0).mp hformat
  have hlen : (digitChar d :: 58 :: 47 :: t).length ≤ peachosMaxPath := Nat.not_lt.mp hlong
  have hdrive : pathparserGetDriveByPath (digitChar d :: 58 :: 47 :: t) = (((d : ℕ) : ℤ), t) := by
    unfold pathparserGetDriveByPath
    rw [if_pos hformat]
    exact Prod.ext (tonumericdigit_digitChar d) rfl
  rw [pathparserParse_of_drive (by rwa [strlen_eq_length h0]) hdrive] at hok ⊢
  have hshort : t.length ≤ 108 := by
    simp only [List.length_cons] at hlen
    have hmax : peachosMaxPath = 108 := rfl
    omega
  obtain ⟨root, hroot⟩ : ∃ root, root = pathparserCreateRoot d k := ⟨_, rfl⟩
  rw [← hroot] at hok ⊢
  dsimp only at hok ⊢
  obtain ⟨first, hfirst⟩ : ∃ first, first = pathparserParsePathPart 0 t root.2 := ⟨_, rfl⟩
  rw [← hfirst] at hok ⊢
  have hrootOk : root.2.oom = false := by
    split_ifs at hok with hnull hnone
    · exact hok
    · exact pathparserParsePathPart_oom_start (hfirst ▸ hok)
    · have hlinked := parsePartsLoop_oom_start hok
      have hfirstOk : first.2.2.oom = false := hlinked
      exact pathparserParsePathPart_oom_start (hfirst ▸ hfirstOk)
  obtain ⟨r, hr, hfree, haddr, hown⟩ := h.createRoot d (hroot ▸ hrootOk)
  rw [← hroot] at haddr hown
  refine ⟨r, hr, hfree, ?_⟩
  rw [if_neg (haddr ▸ blockAddr_ne_zero hr)] at hok ⊢
  rcases eq_or_ne first.1 0 with hnone | hsome
  · rw [if_pos hnone] at hok ⊢
    have hstep := hown.parsePathPart (Or.inl rfl) hshort (hfirst ▸ hok)
    rw [← hfirst] at hstep
    exact ⟨haddr, hstep.1⟩
  · rw [if_neg hsome] at hok ⊢
    have hlinked := parsePartsLoop_oom_start hok
    have hfirstOk : first.2.2.oom = false := hlinked
    have hstep := hown.parsePathPart (Or.inl rfl) hshort (hfirst ▸ hfirstOk)
    have hless := pathparserParsePathPart_length (hfirst ▸ hsome)
    rw [← hfirst] at hstep hless
    refine ⟨haddr, Owns.parsePartsLoop _ _ _ ?_ hstep.2 (by omega) hok⟩
    rw [haddr]
    exact hstep.1.write32 hr (by omega : 1 < 1024) first.1

/-! ### Reading a directory -/

/-- The bytes behind the first `j` ones of a range. -/
theorem inRange_of_inRange_off {p x : UInt32} {n j : ℕ} (hj : j ≤ n)
    (h : InRange (off p j) (n - j) x) : InRange p n x := by
  obtain ⟨i, hi, rfl⟩ := h.exists_off
  rw [off_off]
  exact inRange_off (by omega)

/-- A read stores in the bytes of `out` alone, whatever the disk answers. -/
theorem diskstreamerRead_apply (device : Device) (n : ℕ) : ∀ {stream stream' : DiskStream}
    {out : UInt32} {total res : ℤ} {m m' : Mem}, total.toNat = n → n ≤ 4294967296 →
      diskstreamerRead device stream out total m = some (res, stream', m') →
      ∀ x, ¬ InRange out n x → m' x = m x := by
  induction n using Nat.strong_induction_on with
  | _ n ih =>
      intro stream stream' out total res m m' htotal hn h x hx
      have hlt : stream.pos.tmod peachosSectorSize < 512 := Int.tmod_lt_of_pos _ (by decide)
      have hsize : peachosSectorSize = 512 := rfl
      rw [diskstreamerRead] at h
      dsimp only at h
      generalize stream.pos.tmod peachosSectorSize = offset at h hlt
      rw [hsize] at h
      split_ifs at h with herr hover hin
      · cases h
        rfl
      · have hread : total - (offset + total - 512) = 512 - offset := by ring
        rw [hread] at h hin
        rw [ih (total - (512 - offset)).toNat (by omega) rfl (by omega) h x fun hin' => hx ?_,
          writeBytes_apply _ _ _ _ _ (by omega), if_neg fun hin' => hx ?_]
        · exact Nat.lt_of_lt_of_le hin' (by omega)
        · rw [show (total - (512 - offset)).toNat = n - (512 - offset).toNat by omega] at hin'
          exact inRange_of_inRange_off (by omega) hin'
      · cases h
        rw [htotal, writeBytes_apply _ _ _ _ _ hn, if_neg hx]

/-- Reading clusters stores in the bytes of `out` alone. -/
theorem fat16ReadInternalFromStream_apply (volume : FatVolume) (cluster : ℤ) (n : ℕ) :
    ∀ {offset total res : ℤ} {out : UInt32} {m m' : Mem} {streams streams' : FatStreams},
      total.toNat = n → n ≤ 4294967296 →
      fat16ReadInternalFromStream volume cluster offset total out m streams =
        some ((res, m'), streams') →
      ∀ x, ¬ InRange out n x → m' x = m x := by
  induction n using Nat.strong_induction_on with
  | _ n ih =>
      intro offset total res out m m' streams streams' htotal hn h x hx
      rw [fat16ReadInternalFromStream] at h
      dsimp only at h
      generalize volume.sizeOfClusterBytes = size at h
      rcases Int.lt_or_le 0 size with hpos | hneg
      · rw [if_neg (by omega)] at h
        obtain ⟨found, -, h⟩ := Option.bind_eq_some_iff.mp h
        obtain ⟨r, hread⟩ : ∃ r, (if total > size then size else total) = r := ⟨_, rfl⟩
        have hle : r ≤ total ∧ (total - r > 0 → 0 < r) := by
          split_ifs at hread <;> omega
        rw [hread] at h
        by_cases hfound : found.1 < 0
        · rw [if_pos hfound] at h
          cases h
          rfl
        · have hseek : ∀ s p, ¬ (diskstreamerSeek s p).1 ≠ 0 := fun _ _ => not_not.mpr rfl
          rw [if_neg hfound, if_neg (hseek _ _)] at h
          obtain ⟨⟨res', stream, m₁⟩, hdisk, h⟩ := Option.bind_eq_some_iff.mp h
          have hcopy : m₁ x = m x := diskstreamerRead_apply _ _ rfl (by omega) hdisk x
            fun hin => hx (Nat.lt_of_lt_of_le hin (by omega))
          dsimp only at h
          split_ifs at h with herr hmore
          · cases h
            exact hcopy
          · rw [ih (total - r).toNat (by omega) rfl (by omega) h x fun hin => hx ?_, hcopy]
            rw [show (total - r).toNat = n - r.toNat by omega] at hin
            exact inRange_of_inRange_off (by omega) hin
          · cases h
            exact hcopy
      · rw [if_pos hneg] at h
        cases h

/-- The memory of a directory, whatever its size: stores there, and freeing it, keep what is
owned. -/
theorem Owns.directoryItems (h : Owns k B) (hfit : FreeRun kernelHeap k.mem (blocksFor size))
    (hne : (kzalloc size k).1 ≠ 0) :
    ∃ t < 25600, (kzalloc size k).1 = blockAddr t ∧
      (∀ x, InTable x → ¬ InRange (blockAddr t) size.toNat x) ∧
      ∀ k' : Kernel, (∀ x, InTable x → k'.mem x = (kzalloc size k).2.mem x) →
        Owns k' B ∧ Owns (kfree (blockAddr t) k') B := by
  rcases Nat.eq_zero_or_pos size.toNat with hzero | hpos
  · obtain rfl : size = 0 := UInt32.toNat.inj hzero
    obtain ⟨hmem, haddr⟩ := kzalloc_zero k
    obtain ⟨t, ht, haddr, hfree⟩ := haddr.resolve_left hne
    refine ⟨t, ht, haddr, fun x _ hin => Nat.not_lt_zero _ hin, fun k' hsame => ?_⟩
    have hown : Owns k' B := h.write fun x hx => by rw [hsame x hx, hmem]
    refine ⟨hown, hown.write fun x _ => hown.free_of_entryFree ht ?_ x⟩
    unfold EntryFree Heap.entry at hfree ⊢
    rwa [kernelHeap_entries, hsame _ (inRange_off ht), hmem]
  · obtain ⟨t, ht, hfree, haddr, hown⟩ := h.alloc hpos hfit
    have hblocks := blocksFor_pos hpos
    have hlt : t < 25600 := by omega
    refine ⟨t, hlt, haddr, fun x hx hin => ?_, fun k' hsame => ?_⟩
    · have hsize : size.toNat ≤ 4096 * blocksFor size := by unfold blocksFor; omega
      have hstart := toNat_blockAddr hlt
      rw [inTable_iff] at hx
      rw [inRange_iff (by omega)] at hin
      omega
    · have hown' := hown.write hsame
      exact ⟨hown'.tail, hown'.free⟩

/-! ### What a call asks for -/

/-- What `fat16_load_fat_directory` asks for the items of the directory: the size, and the memory
at that time. -/
def fat16LoadFatDirectoryRequests (volume : FatVolume) (item : FatDirectoryItem)
    (st : FatState) : List (UInt32 × Mem) :=
  if item.attributes &&& fatFileSubdirectory = 0 then []
  else
    let directory := kzalloc 16 st.kernel
    if directory.1 = 0 then []
    else
      let cluster := i32 (fat16GetFirstCluster item).toNat
      let clusterSector := fat16ClusterToSector volume cluster
      match fat16GetTotalItemsForDirectory volume.device (UInt32.ofInt clusterSector)
        st.streams with
      | none => []
      | some r => [(UInt32.ofInt (r.1 * 32), directory.2.mem)]

/-- The requests of `fat16_new_fat_item_for_directory_item`. -/
def fat16NewFatItemRequests (volume : FatVolume) (item : FatDirectoryItem) (st : FatState) :
    List (UInt32 × Mem) :=
  let fItem := kzalloc 8 st.kernel
  if fItem.1 = 0 then []
  else if item.attributes &&& fatFileSubdirectory ≠ 0 then
    fat16LoadFatDirectoryRequests volume item { st with kernel := fItem.2 }
  else []

/-- The requests of the loop of `fat16_find_item_in_directory`. -/
def fat16FindItemLoopRequests (volume : FatVolume) (directory : FatDirectory)
    (name : List UInt8) : ℕ → ℕ → FatState → List (UInt32 × Mem)
  | 0, _, _ => []
  | n + 1, i, st =>
      let item := itemOf (directory.itemBytes i)
      match fat16GetFullRelativeFilename (directory.itemBytes i) peachosMaxPath with
      | none => []
      | some tmpFilename =>
          if istrncmp tmpFilename name peachosMaxPath = 0 then
            fat16NewFatItemRequests volume item st ++
              match fat16NewFatItemForDirectoryItem volume item st with
              | none => []
              | some r => fat16FindItemLoopRequests volume directory name n (i + 1) r.2
          else fat16FindItemLoopRequests volume directory name n (i + 1) st

/-- The requests of `fat16_get_directory_entry`.  No item that is found is of the kind directory,
so the parts behind the first are looked up nowhere. -/
def fat16GetDirectoryEntryRequests (volume : FatVolume) (path : List (List UInt8))
    (st : FatState) : List (UInt32 × Mem) :=
  match path with
  | [] => []
  | part :: _ =>
      fat16FindItemLoopRequests volume volume.rootDirectory part
        volume.rootDirectory.total.toNat 0 st

/-- The requests of `fat16_open`. -/
def fat16OpenRequests (volume : FatVolume) (path : List (List UInt8)) (mode : FileMode)
    (streams : FatStreams) (k : Kernel) : List (UInt32 × Mem) :=
  if mode ≠ FileMode.read then []
  else
    let descriptor := kzalloc 8 k
    if descriptor.1 = 0 then []
    else fat16GetDirectoryEntryRequests volume path ⟨streams, descriptor.2⟩

/-- The requests of `fopen` for the items of directories. -/
def fopenRequests (disk : FatDisk) (filename modeStr : List UInt8) (f : FatFileState) :
    List (UInt32 × Mem) :=
  let rootPath := pathparserParse filename f.kernel
  let first := rootPath.2.mem.read32 (off rootPath.1 4)
  let driveNo := i32 (rootPath.2.mem.read32 (off rootPath.1 0)).toNat
  if rootPath.1 = 0 ∨ first = 0 ∨ driveNo ≠ 0 ∨ disk.filesystem.isNone then []
  else
    match readParts rootPath.2.mem peachosMaxPath first with
    | none => []
    | some path =>
        fat16OpenRequests disk.fsPrivate path (fileGetModeByString modeStr) f.streams rootPath.2

/-- Each request finds a run of free blocks. -/
def AllFit (requests : List (UInt32 × Mem)) : Prop :=
  ∀ r ∈ requests, FreeRun kernelHeap r.2 (blocksFor r.1)

variable {volume : FatVolume} {item : FatDirectoryItem} {st st' : FatState}

/-- A directory is loaded, or freed again. -/
theorem Owns.loadFatDirectory (h : Owns st.kernel B) {d : Option FatDirectory}
    (hload : fat16LoadFatDirectory volume item st = some (d, st'))
    (hfit : AllFit (fat16LoadFatDirectoryRequests volume item st))
    (hok : st'.kernel.oom = false) : Owns st'.kernel B := by
  unfold fat16LoadFatDirectoryRequests at hfit
  unfold fat16LoadFatDirectory at hload
  dsimp only at hload hfit
  split_ifs at hload hfit with hsub hnull
  · cases hload
    exact h
  · cases hload
    exact absurd hnull (kzalloc_ne_zero_of_ok hok)
  · obtain ⟨⟨total, streams⟩, htotal, hload⟩ := Option.bind_eq_some_iff.mp hload
    rw [htotal] at hfit
    have hfit := hfit _ List.mem_cons_self
    dsimp only at hfit hload
    generalize UInt32.ofInt (total * 32) = size at hfit hload
    split_ifs at hload with hitems
    · cases hload
      rw [fat16FreeDirectory_oom] at hok
      exact absurd hitems (kzalloc_ne_zero_of_ok hok)
    obtain ⟨⟨⟨res, m⟩, streams'⟩, hread, hload⟩ := Option.map_eq_some_iff.mp hload
    cases hload
    obtain ⟨c, -, -, hcaddr, hdir⟩ := h.alloc_block (by decide) (by decide) hnull
    obtain ⟨t, -, htaddr, hout, hkeep⟩ := hdir.directoryItems hfit hitems
    have htotal : (i32 (size.toNat : ℤ)).toNat ≤ size.toNat := by
      unfold i32
      dsimp only
      split_ifs <;> omega
    have hsize := toNat_lt size
    have hmem : ∀ x, InTable x → m x = (kzalloc size (kzalloc 16 st.kernel).2).2.mem x := by
      intro x hx
      refine fat16ReadInternalFromStream_apply _ _ _ rfl (by omega) hread x fun hin => hout x hx ?_
      rw [htaddr] at hin
      exact Nat.lt_of_lt_of_le hin htotal
    obtain ⟨hkept, hfreed⟩ := hkeep { (kzalloc size (kzalloc 16 st.kernel).2).2 with mem := m } hmem
    dsimp only
    split_ifs
    · unfold fat16FreeDirectory
      dsimp only
      rw [if_pos hitems, htaddr, hcaddr]
      exact hfreed.free
    · exact hkept.tail

/-- The copy of an item is owned. -/
theorem Owns.cloneDirectoryItem (h : Owns k B)
    (hok : (fat16CloneDirectoryItem item k).2.oom = false) :
    ∃ c, (fat16CloneDirectoryItem item k).1.1 = blockAddr c ∧
      Owns (fat16CloneDirectoryItem item k).2 (c :: B) := by
  unfold fat16CloneDirectoryItem at hok ⊢
  dsimp only at hok ⊢
  have halloc : (kzalloc 32 k).2.oom = false := by
    split_ifs at hok <;> exact hok
  have hne := kzalloc_ne_zero_of_ok halloc
  obtain ⟨c, hc, -, haddr, hown⟩ := h.alloc_block (by decide) (by decide) hne
  rw [if_neg hne, haddr]
  refine ⟨c, rfl, hown.write fun x hx => ?_⟩
  refine (writeBytes_apply _ _ _ _ 32 (by decide)).trans (if_neg fun hin => ?_)
  exact InBlock.not_inTable hc (Nat.lt_of_lt_of_le hin (by decide)) hx

/-- The item is one of the kind file, in the two blocks of `I`; no item has none. -/
def ItemIn : Option FatItem → List ℕ → Prop
  | none, I => I = []
  | some item, I => ∃ c d value, item = ⟨blockAddr d, FatItemUnion.item (blockAddr c) value,
      FatItemType.file⟩ ∧ I = [c, d]

theorem itemIn_some {ptr p : UInt32} {c d : ℕ} {value : FatDirectoryItem} (hptr : ptr = blockAddr d)
    (hp : p = blockAddr c) :
    ItemIn (some ⟨ptr, FatItemUnion.item p value, FatItemType.file⟩) [c, d] :=
  ⟨c, d, value, by rw [hptr, hp], rfl⟩

/-- A new item is owned. -/
theorem Owns.newFatItem (h : Owns st.kernel B) {res : Option FatItem}
    (hnew : fat16NewFatItemForDirectoryItem volume item st = some (res, st'))
    (hfit : AllFit (fat16NewFatItemRequests volume item st)) (hok : st'.kernel.oom = false) :
    ∃ I, ItemIn res I ∧ Owns st'.kernel (I ++ B) := by
  unfold fat16NewFatItemRequests at hfit
  unfold fat16NewFatItemForDirectoryItem at hnew
  dsimp only at hnew hfit
  split_ifs at hnew hfit with hnull hsub
  · cases hnew
    exact absurd hnull (kzalloc_ne_zero_of_ok hok)
  · obtain ⟨st₁, hmap, hnew⟩ := Option.map_eq_some_iff.mp hnew
    obtain ⟨⟨d, st₂⟩, hload, rfl⟩ := Option.map_eq_some_iff.mp hmap
    cases hnew
    obtain ⟨hok₁, -⟩ := fat16CloneDirectoryItem_ok hok
    obtain ⟨d, -, -, haddr, hown⟩ := h.alloc_block (by decide) (by decide) hnull
    have hloaded := Owns.loadFatDirectory hown hload hfit hok₁
    obtain ⟨c, hclone, hown'⟩ := hloaded.cloneDirectoryItem hok
    exact ⟨[c, d], itemIn_some haddr hclone, hown'⟩
  · cases hnew
    obtain ⟨d, -, -, haddr, hown⟩ := h.alloc_block (by decide) (by decide) hnull
    obtain ⟨c, hclone, hown'⟩ := hown.cloneDirectoryItem hok
    exact ⟨[c, d], itemIn_some haddr hclone, hown'⟩

theorem fat16FindItemLoop_oom {directory : FatDirectory} {name : List UInt8} : ∀ {n i : ℕ}
    {fItem res : Option FatItem} {st st' : FatState},
    fat16FindItemLoop volume directory name n i fItem st = some (res, st') →
    st'.kernel.oom = false → st.kernel.oom = false
  | 0, _, _, _, _, _, h, hok => by
      cases h
      exact hok
  | n + 1, i, fItem, res, st, st', h, hok => by
      unfold fat16FindItemLoop at h
      obtain ⟨filename, -, h⟩ := Option.bind_eq_some_iff.mp h
      split_ifs at h
      · obtain ⟨⟨f, st₁⟩, hnew, h⟩ := Option.bind_eq_some_iff.mp h
        exact (fat16NewFatItemForDirectoryItem_ok hnew (fat16FindItemLoop_oom h hok)).1
      · exact fat16FindItemLoop_oom h hok

/-- The last item that is found is owned, and those before are left behind. -/
theorem Owns.findItemLoop {directory : FatDirectory} {name : List UInt8} : ∀ {n i : ℕ}
    {fItem res : Option FatItem} {I : List ℕ} {st st' : FatState}, ItemIn fItem I →
    Owns st.kernel (I ++ B) →
    fat16FindItemLoop volume directory name n i fItem st = some (res, st') →
    AllFit (fat16FindItemLoopRequests volume directory name n i st) → st'.kernel.oom = false →
    ∃ J, ItemIn res J ∧ Owns st'.kernel (J ++ B)
  | 0, _, _, _, I, _, _, hitem, h, hloop, _, _ => by
      cases hloop
      exact ⟨I, hitem, h⟩
  | n + 1, i, fItem, res, I, st, st', hitem, h, hloop, hfit, hok => by
      unfold fat16FindItemLoop at hloop
      unfold fat16FindItemLoopRequests at hfit
      obtain ⟨filename, hname, hloop⟩ := Option.bind_eq_some_iff.mp hloop
      rw [hname] at hfit
      dsimp only at hfit
      split_ifs at hloop hfit
      · obtain ⟨⟨f, st₁⟩, hnew, hloop⟩ := Option.bind_eq_some_iff.mp hloop
        rw [hnew] at hfit
        obtain ⟨hfit₁, hfit₂⟩ := List.forall_mem_append.mp hfit
        have hrest := h.subperm (List.sublist_append_right I B).subperm
        obtain ⟨J, hitem', hown⟩ := hrest.newFatItem hnew hfit₁ (fat16FindItemLoop_oom hloop hok)
        exact Owns.findItemLoop hitem' hown hloop hfit₂ hok
      · exact Owns.findItemLoop hitem h hloop hfit hok

/-- An item of the kind file ends the walk. -/
theorem fat16WalkLoop_file {path : List (List UInt8)} {item : FatItem}
    (htype : item.type = FatItemType.file) (st : FatState) :
    fat16WalkLoop volume path item st = some (if path = [] then some item else none, st) := by
  cases path with
  | nil => rfl
  | cons part nextPart =>
      unfold fat16WalkLoop
      rw [if_pos (by rw [htype]; decide), if_neg (List.cons_ne_nil _ _)]

theorem Owns.getDirectoryEntry (h : Owns st.kernel B) {path : List (List UInt8)}
    {res : Option FatItem} (hget : fat16GetDirectoryEntry volume path st = some (res, st'))
    (hfit : AllFit (fat16GetDirectoryEntryRequests volume path st)) (hok : st'.kernel.oom = false) :
    ∃ J, ItemIn res J ∧ Owns st'.kernel (J ++ B) := by
  cases path with
  | nil => cases hget
  | cons part nextPart =>
      obtain ⟨⟨root, st₁⟩, hfind, hget⟩ := Option.bind_eq_some_iff.mp hget
      have hfound : st₁.kernel.oom = false →
          ∃ J, ItemIn root J ∧ Owns st₁.kernel (J ++ B) :=
        Owns.findItemLoop (show ItemIn none [] from rfl) h hfind hfit
      cases root with
      | none =>
          cases hget
          exact hfound hok
      | some item =>
          dsimp only at hget
          have htype := fat16FindItemLoop_file (fun f hf => by cases hf) hfind
          rw [fat16WalkLoop_file htype] at hget
          cases hget
          obtain ⟨J, hitem, hown⟩ := hfound hok
          split_ifs
          · exact ⟨J, hitem, hown⟩
          · exact ⟨[], rfl, hown.subperm (List.sublist_append_right J B).subperm⟩

theorem fat16GetDirectoryEntry_oom {path : List (List UInt8)} {res : Option FatItem}
    (hget : fat16GetDirectoryEntry volume path st = some (res, st'))
    (hok : st'.kernel.oom = false) :
    st.kernel.oom = false := by
  cases path with
  | nil => cases hget
  | cons part nextPart =>
      obtain ⟨⟨root, st₁⟩, hfind, hget⟩ := Option.bind_eq_some_iff.mp hget
      cases root with
      | none =>
          cases hget
          exact fat16FindItemLoop_oom hfind hok
      | some item =>
          dsimp only at hget
          have htype := fat16FindItemLoop_file (fun f hf => by cases hf) hfind
          rw [fat16WalkLoop_file htype] at hget
          cases hget
          exact fat16FindItemLoop_oom hfind hok

theorem fat16Open_oom {path : List (List UInt8)} {mode : FileMode} {streams streams' : FatStreams}
    {res : Except ℤ FatFileDescriptor}
    (hopen : fat16Open volume path mode streams k = some (res, streams', k'))
    (hok : k'.oom = false) : k.oom = false := by
  unfold fat16Open at hopen
  dsimp only at hopen
  split_ifs at hopen
  · cases hopen
    exact hok
  · cases hopen
    exact kzalloc_oom_false hok
  · obtain ⟨⟨item, st⟩, hget, heq⟩ := Option.map_eq_some_iff.mp hopen
    refine kzalloc_oom_false (fat16GetDirectoryEntry_oom hget ?_)
    cases item <;> cases heq <;> exact hok

/-- The descriptor is in block `t` and its item in the blocks `c` and `d`. -/
def DescriptorIn (desc : FatFileDescriptor) (t c d : ℕ) : Prop :=
  desc.ptr = blockAddr t ∧ ItemIn (some desc.item) [c, d]

/-- `fat16_open` fails, or the new descriptor is owned. -/
theorem Owns.fatOpen (h : Owns k B) {path : List (List UInt8)} {mode : FileMode}
    {streams streams' : FatStreams} {res : Except ℤ FatFileDescriptor}
    (hopen : fat16Open volume path mode streams k = some (res, streams', k'))
    (hfit : AllFit (fat16OpenRequests volume path mode streams k)) (hok : k'.oom = false) :
    (∃ e < 0, res = Except.error e ∧ Owns k' B) ∨
      ∃ desc t c d, res = Except.ok desc ∧ DescriptorIn desc t c d ∧
        Owns k' (c :: d :: t :: B) := by
  unfold fat16OpenRequests at hfit
  unfold fat16Open at hopen
  dsimp only at hopen hfit
  split_ifs at hopen hfit with hmode hnull
  · cases hopen
    exact Or.inl ⟨- ERDONLY, by decide, rfl, h⟩
  · cases hopen
    exact absurd hnull (kzalloc_ne_zero_of_ok hok)
  · obtain ⟨⟨item, st⟩, hget, heq⟩ := Option.map_eq_some_iff.mp hopen
    obtain ⟨t, -, -, haddr, hown⟩ := h.alloc_block (by decide) (by decide) hnull
    cases item with
    | none =>
        cases heq
        obtain ⟨J, -, hown'⟩ := Owns.getDirectoryEntry hown hget hfit hok
        exact Or.inl ⟨- EIO, by decide, rfl,
          hown'.subperm (List.sublist_append_of_sublist_right (List.sublist_cons_self t B)).subperm⟩
    | some item =>
        cases heq
        obtain ⟨J, hitem, hown'⟩ := Owns.getDirectoryEntry hown hget hfit hok
        obtain ⟨c, d, value, hvalue, rfl⟩ := hitem
        exact Or.inr ⟨_, t, c, d, rfl, ⟨haddr, c, d, value, hvalue, rfl⟩, hown'⟩

/-- Closing frees the descriptor and its item. -/
theorem Owns.fatClose {desc : FatFileDescriptor} {t c d : ℕ} (h : Owns k (c :: d :: t :: B))
    (hdesc : DescriptorIn desc t c d) :
    (fat16Close desc k).1 = 0 ∧ Owns (fat16Close desc k).2 B := by
  obtain ⟨ptr, item, pos⟩ := desc
  obtain ⟨rfl, c', d', value, rfl, heq⟩ := hdesc
  cases heq
  exact ⟨rfl, h.free.free.free⟩

/-! ### `fopen` and `fclose` -/

variable {disk : FatDisk} {filename modeStr : List UInt8} {f f' : FatFileState} {fd : ℤ}
  {desc : FatFileDescriptor} {r s t c d i : ℕ}

/-- The slot `i` of the table has the descriptor in block `s` with the private data `desc`. -/
def SlotHolds (f : FatFileState) (volume : FatVolume) (i s : ℕ) (desc : FatFileDescriptor) : Prop :=
  f.fileDescriptors[i]? = some (some ⟨blockAddr s, (i : ℤ) + 1, fat16Fs, desc, volume⟩)

/-- The table is full, or the descriptor in the slot is owned. -/
theorem Owns.newDescriptor (h : Owns f.kernel B)
    (hok : (fileNewDescriptor fat16Fs desc volume f).2.kernel.oom = false) :
    ((fileNewDescriptor fat16Fs desc volume f).1 < 0 ∧
        Owns (fileNewDescriptor fat16Fs desc volume f).2.kernel B) ∨
      ∃ i s : ℕ, (fileNewDescriptor fat16Fs desc volume f).1 = (i : ℤ) + 1 ∧
        SlotHolds (fileNewDescriptor fat16Fs desc volume f).2 volume i s desc ∧
        Owns (fileNewDescriptor fat16Fs desc volume f).2.kernel (s :: B) := by
  unfold fileNewDescriptor at hok ⊢
  cases hslot : freeSlot f.fileDescriptors with
  | none => exact Or.inl ⟨show - ENOMEM < 0 by decide, h⟩
  | some i =>
      rw [hslot] at hok
      dsimp only at hok ⊢
      have hne := kzalloc_ne_zero_of_ok hok
      obtain ⟨s, -, -, haddr, hown⟩ := h.alloc_block (by decide) (by decide) hne
      obtain ⟨hlt, -⟩ := List.getElem?_eq_some_iff.mp (freeSlot_eq_some hslot)
      refine Or.inr ⟨i, s, rfl, ?_, hown⟩
      unfold SlotHolds
      dsimp only
      rw [List.getElem?_set_self hlt, if_neg hne, haddr]

/-- Closing gives back what a descriptor has on the heap, or nothing if its number is not one that
is looked up. -/
theorem Owns.closeFile (h : Owns f.kernel (s :: c :: d :: t :: B))
    (hslot : SlotHolds f volume i s desc) (hdesc : DescriptorIn desc t c d) :
    Owns (fclose ((i : ℤ) + 1) f).2.kernel B := by
  unfold fclose
  cases hget : fileGetDescriptor ((i : ℤ) + 1) f with
  | none => exact h.tail.tail.tail.tail
  | some value =>
      have hvalue := (fileGetDescriptor_eq_some.mp hget).2
      rw [show ((i : ℤ) + 1 - 1).toNat = i by omega, hslot] at hvalue
      cases hvalue
      have hperm : (s :: c :: d :: t :: B).Perm (c :: d :: t :: s :: B) :=
        (show List.Perm ([c, d, t] ++ s :: B) _ from List.perm_middle).symm
      obtain ⟨hzero, hown⟩ := Owns.fatClose (h.perm hperm) hdesc
      have hclose : (if (fat16Close desc f.kernel).1 = 0 then
          fileFreeDescriptor ⟨blockAddr s, (i : ℤ) + 1, fat16Fs, desc, volume⟩
            { f with kernel := (fat16Close desc f.kernel).2 }
          else { f with kernel := (fat16Close desc f.kernel).2 } : FatFileState).kernel =
            kfree (blockAddr s) (fat16Close desc f.kernel).2 := by
        rw [if_pos hzero]
        rfl
      exact hclose ▸ hown.free

theorem fileNewDescriptor_oom
    (hok : (fileNewDescriptor fat16Fs desc volume f).2.kernel.oom = false) :
    f.kernel.oom = false := by
  unfold fileNewDescriptor at hok
  cases hslot : freeSlot f.fileDescriptors with
  | none =>
      rw [hslot] at hok
      exact hok
  | some i =>
      rw [hslot] at hok
      exact kzalloc_oom_false hok

/-- After a call that returned `fd`, the root in block `r` is owned, and with it the descriptor if
there is one. -/
def LeavesRoot (disk : FatDisk) (f : FatFileState) (fd : ℤ) (r : ℕ) : Prop :=
  (fd = 0 ∧ Owns f.kernel [r]) ∨ ∃ (i s t c d : ℕ) (desc : FatFileDescriptor),
    fd = (i : ℤ) + 1 ∧ SlotHolds f disk.fsPrivate i s desc ∧ DescriptorIn desc t c d ∧
      Owns f.kernel [s, c, d, t, r]

/-- What a path that is not refused leaves on the heap. -/
theorem fopen_leavesRoot {live : Layout UInt32} (hinv : HeapInv kernelHeap f.kernel.mem live)
    (hfs : disk.filesystem = none ∨ disk.filesystem = some fat16Fs) (h0 : 0 ∉ filename)
    (hpath : ¬ PathRefused filename) (hopen : fopen disk filename modeStr f = some (fd, f'))
    (hfit : AllFit (fopenRequests disk filename modeStr f)) (hok : f'.kernel.oom = false) :
    ∃ r < 25600, EntryFree kernelHeap f.kernel.mem r ∧ LeavesRoot disk f' fd r := by
  have hparse := (Owns.nil hinv).parse h0 hpath
  unfold fopen diskGet at hopen
  unfold fopenRequests at hfit
  dsimp only at hopen hfit
  generalize pathparserParse filename f.kernel = root at hopen hfit hparse
  have hfail : root.2.oom = false → fd = 0 → f'.kernel = root.2 →
      ∃ r < 25600, EntryFree kernelHeap f.kernel.mem r ∧ LeavesRoot disk f' fd r := by
    intro hroot hfd hkernel
    obtain ⟨r, hr, hfree, -, hown⟩ := hparse hroot
    exact ⟨r, hr, hfree, Or.inl ⟨hfd, hkernel ▸ hown⟩⟩
  by_cases hnull : root.1 = 0
  · rw [if_pos hnull] at hopen
    cases hopen
    exact hfail hok rfl rfl
  rw [if_neg hnull] at hopen
  by_cases hfirst : root.2.mem.read32 (off root.1 4) = 0
  · rw [if_pos hfirst] at hopen
    cases hopen
    exact hfail hok rfl rfl
  rw [if_neg hfirst] at hopen
  by_cases hdrive : i32 (root.2.mem.read32 (off root.1 0)).toNat ≠ 0
  · rw [if_pos hdrive] at hopen
    cases hopen
    exact hfail hok rfl rfl
  rw [if_neg hdrive] at hopen
  dsimp only at hopen
  rcases hfs with hfs | hfs
  · rw [hfs] at hopen
    cases hopen
    exact hfail hok rfl rfl
  rw [hfs] at hopen
  dsimp only at hopen
  by_cases hmode : fileGetModeByString modeStr = FileMode.invalid
  · rw [if_pos hmode] at hopen
    cases hopen
    exact hfail hok rfl rfl
  rw [if_neg hmode] at hopen
  obtain ⟨path, hread, hopen⟩ := Option.bind_eq_some_iff.mp hopen
  obtain ⟨⟨res, streams, k⟩, hfat, heq⟩ := Option.map_eq_some_iff.mp hopen
  have hgo : ¬ (root.1 = 0 ∨ root.2.mem.read32 (off root.1 4) = 0 ∨
      i32 (root.2.mem.read32 (off root.1 0)).toNat ≠ 0 ∨ disk.filesystem.isNone) := by
    rw [hfs]
    rintro (h | h | h | h)
    · exact hnull h
    · exact hfirst h
    · exact hdrive h
    · cases h
  rw [if_neg hgo, hread] at hfit
  cases res with
  | error e =>
      cases heq
      obtain ⟨r, hr, hfree, -, hown⟩ := hparse (fat16Open_oom hfat hok)
      rcases Owns.fatOpen hown hfat hfit hok with ⟨e', he, hres, hown'⟩ | ⟨_, _, _, _, hres, -⟩
      · cases hres
        exact ⟨r, hr, hfree, Or.inl ⟨if_pos he, hown'⟩⟩
      · cases hres
  | ok desc =>
      have hnew : fopenOut (fileNewDescriptor fat16Fs desc disk.fsPrivate
        { f with streams := streams, kernel := k }) = (fd, f') := heq
      obtain ⟨hfd, rfl⟩ := Prod.mk.inj hnew
      have hk := fileNewDescriptor_oom hok
      obtain ⟨r, hr, hfree, -, hown⟩ := hparse (fat16Open_oom hfat hk)
      refine ⟨r, hr, hfree, ?_⟩
      rcases Owns.fatOpen hown hfat hfit hk with ⟨_, _, hres, -⟩ | ⟨_, t, c, d, hres, hdesc, hown'⟩
      · cases hres
      cases hres
      rcases Owns.newDescriptor (f := { f with streams := streams, kernel := k }) hown' hok with
        ⟨hneg, hown''⟩ | ⟨i, s, hi, hslot, hown''⟩
      · rw [if_pos hneg] at hfd
        exact Or.inl ⟨hfd.symm, hown''.subperm (List.sublist_append_right [c, d, t] [r]).subperm⟩
      · rw [if_neg (by omega)] at hfd
        exact Or.inr ⟨i, s, t, c, d, desc, hfd.symm.trans hi, hslot, hdesc, hown''⟩

/-- A failed call leaves the block table as it was, and closing the descriptor of another brings
it back. -/
def HeapNeutral (f : FatFileState) (fd : ℤ) (f' : FatFileState) : Prop :=
  (fd = 0 → SameTable f.kernel.mem f'.kernel.mem) ∧
    (0 < fd → SameTable f.kernel.mem (fclose fd f').2.kernel.mem)

/-- A block that was free and is taken afterwards. -/
theorem not_sameTable_of_taken {m m' : Mem} (hb : b < 25600) (hfree : EntryFree kernelHeap m b)
    (htaken : ¬ EntryFree kernelHeap m' b) : ¬ SameTable m m' := by
  intro hsame
  refine htaken ?_
  unfold EntryFree
  rwa [hsame b hb]

/-- The root of a path that is not refused stays on the heap. -/
theorem fopen_not_heapNeutral {live : Layout UInt32}
    (hinv : HeapInv kernelHeap f.kernel.mem live)
    (hfs : disk.filesystem = none ∨ disk.filesystem = some fat16Fs) (h0 : 0 ∉ filename)
    (hpath : ¬ PathRefused filename) (hopen : fopen disk filename modeStr f = some (fd, f'))
    (hfit : AllFit (fopenRequests disk filename modeStr f)) (hok : f'.kernel.oom = false) :
    ¬ HeapNeutral f fd f' := by
  rintro ⟨hfailed, hclosed⟩
  obtain ⟨r, hr, hfree, hleaves⟩ := fopen_leavesRoot hinv hfs h0 hpath hopen hfit hok
  rcases hleaves with ⟨rfl, hown⟩ | ⟨i, s, t, c, d, desc, rfl, hslot, hdesc, hown⟩
  · exact not_sameTable_of_taken hr hfree (hown.taken List.mem_cons_self).2 (hfailed rfl)
  · have hown' := hown.closeFile hslot hdesc
    exact not_sameTable_of_taken hr hfree (hown'.taken List.mem_cons_self).2 (hclosed (by omega))

/-- **When opening a file gives its memory back.**  If every allocation of the call is served,
`fopen` is heap-neutral exactly for the paths that `pathparser_parse` refuses. -/
theorem fopen_heapNeutral_iff {live : Layout UInt32}
    (hinv : HeapInv kernelHeap f.kernel.mem live)
    (hfs : disk.filesystem = none ∨ disk.filesystem = some fat16Fs) (h0 : 0 ∉ filename)
    (hopen : fopen disk filename modeStr f = some (fd, f'))
    (hfit : AllFit (fopenRequests disk filename modeStr f)) (hok : f'.kernel.oom = false) :
    HeapNeutral f fd f' ↔ PathRefused filename := by
  refine ⟨fun hneutral => ?_, fun hpath => ?_⟩
  · by_contra hpath
    exact fopen_not_heapNeutral hinv hfs h0 hpath hopen hfit hok hneutral
  · unfold fopen at hopen
    dsimp only at hopen
    rw [(pathparserParse_of_refused f.kernel (strlen_eq_length h0 ▸ hpath)).1, if_pos rfl] at hopen
    cases hopen
    exact ⟨fun _ i _ => rfl, fun hpos => absurd hpos (lt_irrefl 0)⟩

/-! ### A path that is not refused -/

/-- Files are opened for reading alone, so with another mode nothing is loaded. -/
theorem allFit_of_not_read (hmode : fileGetModeByString modeStr ≠ FileMode.read) :
    AllFit (fopenRequests disk filename modeStr f) := by
  have hnone : fopenRequests disk filename modeStr f = [] := by
    unfold fopenRequests
    dsimp only
    split_ifs
    · rfl
    · split
      · rfl
      · unfold fat16OpenRequests
        exact if_pos hmode
  rw [hnone]
  exact List.forall_mem_nil _

/-- Opening `0:/A` for writing fails, whatever is on the disk. -/
theorem fopen_smallPath_write (volume : FatVolume) {f : FatFileState}
    (hk : f.kernel.oom = false) (hcard : 4 ≤ (freeBlocks f.kernel).card) :
    ∃ f', fopen ⟨some fat16Fs, volume⟩ smallPath [ascii 'w'] f = some (0, f') ∧
      f'.kernel.oom = false := by
  have hcs : ∀ c ∈ [[ascii 'A']], IsComponent c := by
    intro c hc
    rw [List.mem_singleton.mp hc]
    refine ⟨by decide, fun x hx => ?_⟩
    rw [List.mem_singleton.mp hx]
    decide
  have htext : smallPath = digitChar 0 :: 58 :: 47 :: (joinPath false [[ascii 'A']] ++ []) := by
    decide
  have hlen : smallPath.length ≤ peachosMaxPath := by decide
  have hzero : 0 ∉ smallPath := by decide
  obtain ⟨hok, -⟩ := pathparserParse_ok 0 false (List.cons_ne_nil [ascii 'A'] []) hcs hlen hk
    (n := 0) (by rw [List.length_singleton]; omega)
  obtain ⟨r, k, hparse, hr, -, hroot, -⟩ := pathparserParse_text 0 hcs
    (show Unread false [[ascii 'A']] [] from Or.inl rfl) (htext ▸ hzero) (htext ▸ hlen)
    (k := f.kernel) (by omega)
  change (pathparserParse smallPath f.kernel).2.oom = false at hok
  rw [← htext] at hparse
  rw [hparse] at hok
  rw [List.take_of_length_le (by rw [List.length_singleton]; omega)] at hroot
  obtain ⟨hnull, hdrive, hparts⟩ := hroot
  have hread := readParts_of_partStrings hparts (n := peachosMaxPath)
    (show 1 ≤ peachosMaxPath by decide) fun c hc => by
      rw [List.mem_singleton.mp hc]
      decide
  refine ⟨{ f with kernel := k }, ?_, hok⟩
  unfold fopen diskGet
  dsimp only
  rw [hparse]
  dsimp only
  rw [if_neg hnull, if_neg hparts.1, hdrive, if_neg (by decide)]
  dsimp only
  rw [if_neg (by decide), hread, Option.bind_some]
  rfl

/-- The root of `0:/A` is left on the heap by the call that fails. -/
theorem fopen_leaks_root : ∃ f', fopen ⟨some fat16Fs, threesVolume⟩ smallPath [ascii 'w'] noFiles =
      some (0, f') ∧ f'.kernel.oom = false ∧ ¬ HeapNeutral noFiles 0 f' := by
  obtain ⟨f', hopen, hok⟩ := fopen_smallPath_write threesVolume (f := noFiles) rfl
    (le_trans (by decide) freshKernel_topFree.card_le)
  exact ⟨f', hopen, hok, fopen_not_heapNeutral freshKernel_topFree.heap (Or.inr rfl) (by decide)
    (by decide) hopen (allFit_of_not_read (by decide)) hok⟩

theorem fopen_heapNeutral_iff_write :
    ∃ f', fopen ⟨some fat16Fs, threesVolume⟩ smallPath [ascii 'w'] noFiles = some (0, f') ∧
      (HeapNeutral noFiles 0 f' ↔ PathRefused smallPath) := by
  obtain ⟨f', hopen, hok⟩ := fopen_smallPath_write threesVolume (f := noFiles) rfl
    (le_trans (by decide) freshKernel_topFree.card_le)
  exact ⟨f', hopen, fopen_heapNeutral_iff freshKernel_topFree.heap (Or.inr rfl) (by decide)
    hopen (allFit_of_not_read (by decide)) hok⟩

end PeachOS
