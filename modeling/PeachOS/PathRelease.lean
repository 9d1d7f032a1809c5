import PeachOS.MallocFailure
import PeachOS.PathText

/-! # Giving a path back

`pathparser_free` walks over the parts of a root and frees the string and the structure of each,
and the root at the end.  The parser itself frees one buffer, that of the empty component where
it stops.

* `pathparser_released`: after both the block table is what it was before the path was parsed,
  and no pointer was freed twice.

`Marked` says which entries of the block table differ from those at the start. -/

namespace PeachOS

open ByteMemory Extents

/-! ### The code -/

/-- The loop of `pathparser_free` with at most `n` parts left: the pointers freed in order, and
the kernel afterwards. -/
def pathparserFreeLoop : ℕ → UInt32 → Kernel → Option (List UInt32 × Kernel)
  | 0, part, k => if part = 0 then some ([], k) else none
  | n + 1, part, k =>
      if part = 0 then some ([], k)
      else
        let nextPart := k.mem.read32 (off part 4)
        let str := k.mem.read32 (off part 0)
        (pathparserFreeLoop n nextPart (kfree part (kfree str k))).map fun r =>
          (str :: part :: r.1, r.2)

/-- `pathparser_free`. -/
def pathparserFree (n : ℕ) (root : UInt32) (k : Kernel) : Option (List UInt32 × Kernel) :=
  (pathparserFreeLoop n (k.mem.read32 (off root 4)) k).map fun r => (r.1 ++ [root], kfree root r.2)

/-- The pointers that `pathparser_get_path_part` frees. -/
def pathPartFrees (path : List UInt8) (k : Kernel) : List UInt32 :=
  let r := kzalloc 108 k
  if (pathPartLoop r.1 0 path r.2.mem).1 = 0 then [r.1] else []

/-- The pointers that the `while` loop of `pathparser_parse` frees. -/
def parsePartsFrees (part : UInt32) (path : List UInt8) (k : Kernel) : List UInt32 :=
  let s := pathparserParsePathPart part path k
  if s.1 = 0 then pathPartFrees path k
  else pathPartFrees path k ++ parsePartsFrees s.1 s.2.1 s.2.2
termination_by path.length
decreasing_by exact pathparserParsePathPart_length ‹_›

/-- The pointers that `pathparser_parse` frees. -/
def pathparserParseFrees (path : List UInt8) (k : Kernel) : List UInt32 :=
  if peachosMaxPath < strlen path then []
  else
    let d := pathparserGetDriveByPath path
    if d.1 < 0 then []
    else
      let root := pathparserCreateRoot d.1 k
      if root.1 = 0 then []
      else
        let first := pathparserParsePathPart 0 d.2 root.2
        if first.1 = 0 then pathPartFrees d.2 root.2
        else
          let k := { first.2.2 with mem := first.2.2.mem.write32 (off root.1 4) first.1 }
          pathPartFrees d.2 root.2 ++ parsePartsFrees first.1 first.2.1 k

/-! ### The components of a path -/

/-- A character of a component. -/
def inComponent (c : UInt8) : Bool := c ≠ 47 ∧ c ≠ 0

/-- What is left of a path behind its first component and a slash. -/
def afterComponent (path : List UInt8) : List UInt8 :=
  let rest := path.dropWhile inComponent
  if rest.headD 0 = 47 then rest.drop 1 else rest

theorem afterComponent_length (path : List UInt8) :
    (path.takeWhile inComponent).length + (afterComponent path).length ≤ path.length := by
  have hsplit : (path.takeWhile inComponent).length + (path.dropWhile inComponent).length =
      path.length := by
    rw [← List.length_append, List.takeWhile_append_dropWhile]
  unfold afterComponent
  dsimp only
  split_ifs
  · rw [List.length_drop]
    omega
  · omega

/-- The components of a path up to the first empty one. -/
def componentsOf (path : List UInt8) : List (List UInt8) :=
  if path.takeWhile inComponent = [] then []
  else path.takeWhile inComponent :: componentsOf (afterComponent path)
termination_by path.length
decreasing_by
  have hlen := afterComponent_length path
  have hpos := List.length_pos_of_ne_nil ‹_›
  omega

/-- Every component takes a character. -/
theorem length_componentsOf_le (path : List UInt8) : (componentsOf path).length ≤ path.length := by
  induction path using componentsOf.induct with
  | case1 path hnil =>
      rw [componentsOf, if_pos hnil]
      exact Nat.zero_le _
  | case2 path hne ih =>
      have hlen := afterComponent_length path
      have hpos := List.length_pos_of_ne_nil hne
      rw [componentsOf, if_neg hne, List.length_cons]
      omega

theorem isComponent_takeWhile {path : List UInt8} (hne : path.takeWhile inComponent ≠ []) :
    IsComponent (path.takeWhile inComponent) := by
  refine ⟨hne, fun x hx => ?_⟩
  simpa [inComponent] using List.mem_takeWhile_imp hx

theorem endsPart_dropWhile (path : List UInt8) : EndsPart (path.dropWhile inComponent) := by
  cases hrest : path.dropWhile inComponent with
  | nil => exact Or.inr rfl
  | cons c rest =>
      have hne : path.dropWhile inComponent ≠ [] := by
        rw [hrest]
        exact List.cons_ne_nil c rest
      have hc := List.head_dropWhile_not inComponent hne
      simp only [hrest, List.head_cons] at hc
      unfold EndsPart
      rw [List.headD_cons]
      by_contra hno
      rw [not_or] at hno
      simp [inComponent, hno.1, hno.2] at hc

/-! ### The block table -/

/-- The table of `m` is that of `m₀` but for the blocks of `B`, which were free and are
allocations of one block. -/
structure Marked (m₀ m : Mem) (B : List ℕ) : Prop where
  nodup : B.Nodup
  lt : ∀ b ∈ B, b < 25600
  free : ∀ b ∈ B, kernelHeap.entry m₀ b = heapBlockTableEntryFree
  single : ∀ b ∈ B, kernelHeap.entry m b = blockEntry 1 0
  entries : ∀ i < 25600, i ∉ B → kernelHeap.entry m i = kernelHeap.entry m₀ i

variable {m₀ m m' : Mem} {B C : List ℕ} {k k' : Kernel} {live : Layout UInt32} {b : ℕ}

theorem marked_nil (m₀ : Mem) : Marked m₀ m₀ [] := by
  refine ⟨List.nodup_nil, ?_, ?_, ?_, fun _ _ _ => rfl⟩ <;>
    exact fun b hb => absurd hb List.not_mem_nil

theorem Marked.sameTable (h : Marked m₀ m []) : SameTable m₀ m :=
  fun i hi => h.entries i hi List.not_mem_nil

theorem Marked.perm (h : Marked m₀ m B) (hperm : B.Perm C) : Marked m₀ m C :=
  ⟨hperm.nodup_iff.mp h.nodup, fun b hb => h.lt b (hperm.mem_iff.mpr hb),
    fun b hb => h.free b (hperm.mem_iff.mpr hb), fun b hb => h.single b (hperm.mem_iff.mpr hb),
    fun i hi hno => h.entries i hi (mt hperm.mem_iff.mp hno)⟩

/-- Stores outside the table. -/
theorem Marked.write (h : Marked m₀ m B) (hsame : ∀ x, InTable x → m' x = m x) :
    Marked m₀ m' B := by
  have hentry : ∀ i < 25600, kernelHeap.entry m' i = kernelHeap.entry m i :=
    fun i hi => hsame _ (inRange_off hi)
  refine ⟨h.nodup, h.lt, h.free, fun b hb => ?_, fun i hi hB => ?_⟩
  · rw [hentry b (h.lt b hb), h.single b hb]
  · rw [hentry i hi, h.entries i hi hB]

theorem Marked.taken (h : Marked m₀ k.mem B) (hb : b ∈ B) : ¬ EntryFree kernelHeap k.mem b := by
  unfold EntryFree
  rw [h.single b hb]
  exact blockEntry_type 1 0

/-- More blocks are taken.  In a well-formed heap a free entry has one value only. -/
theorem Marked.takes (hinv : HeapInv kernelHeap m₀ live) (h : Marked m₀ k.mem B)
    (ht : Takes k k' {c | c ∈ C}) (hC : C.Nodup) : Marked m₀ k'.mem (C ++ B) := by
  have hout : ∀ c ∈ C, c ∉ B := fun c hc hB => h.taken hB (ht.free c hc)
  have hcases : ∀ {c}, c ∈ C ++ B → c ∈ C ∨ c ∈ B := List.mem_append.mp
  refine ⟨List.nodup_append.mpr ⟨hC, h.nodup, fun c hc d hd e => hout c hc (e ▸ hd)⟩,
    fun c hc => (hcases hc).elim (ht.lt c) (h.lt c), fun c hc => (hcases hc).elim (fun hc => ?_)
      (h.free c), fun c hc => (hcases hc).elim (ht.single c) fun hB => ?_, fun i hi hno => ?_⟩
  · have hsame := h.entries c (ht.lt c hc) (hout c hc)
    refine hinv.encodes.free c (ht.lt c hc) (hinv.uncovered ?_)
    unfold EntryFree
    rw [← hsame]
    exact ht.free c hc
  · rw [ht.entries c (h.lt c hB) fun hc => hout c hc hB]
    exact h.single c hB
  · rw [List.mem_append, not_or] at hno
    rw [ht.entries i hi hno.1, h.entries i hi hno.2]

/-- A block is freed. -/
theorem Marked.kfree (h : Marked m₀ k.mem (b :: B)) :
    Marked m₀ (kfree (blockAddr b) k).mem B ∧
      ∀ x, ¬ InTable x → (PeachOS.kfree (blockAddr b) k).mem x = k.mem x := by
  have hlt := h.lt b List.mem_cons_self
  have hmem : ∀ c ∈ B, c ∈ b :: B := fun c hc => List.mem_cons_of_mem b hc
  obtain ⟨hnot, hnodup⟩ := List.nodup_cons.mp h.nodup
  obtain ⟨hclear, hkeep⟩ := kfree_block hlt (h.single b List.mem_cons_self)
  have hentry : ∀ i < 25600, i ≠ b →
      kernelHeap.entry (PeachOS.kfree (blockAddr b) k).mem i = kernelHeap.entry k.mem i :=
    fun i hi hib => hkeep _ fun e => hib (off_inj (by omega) (by omega) e)
  refine ⟨⟨hnodup, fun c hc => h.lt c (hmem c hc), fun c hc => h.free c (hmem c hc),
    fun c hc => ?_, fun i hi hno => ?_⟩, fun x hx => hkeep x fun e => hx ?_⟩
  · rw [hentry c (h.lt c (hmem c hc)) fun e => hnot (e ▸ hc), h.single c (hmem c hc)]
  · by_cases hib : i = b
    · rw [hib, hclear, h.free b List.mem_cons_self]
    · rw [hentry i hi hib, h.entries i hi fun hB => (List.mem_cons.mp hB).elim hib hno]
  · rw [e]
    exact inRange_off hlt

/-! ### The chain of parts -/

/-- The blocks of the parts from the address `a` on: of each, that of its string and its own. -/
def PartChain (m : Mem) : UInt32 → List (ℕ × ℕ) → Prop
  | a, [] => a = 0
  | a, (b, p) :: l => a = blockAddr p ∧ p < 25600 ∧ m.read32 (wordAddr p 0) = blockAddr b ∧
      PartChain m (m.read32 (wordAddr p 1)) l

/-- The blocks of a chain, in the order in which they are freed. -/
def chainBlocks (l : List (ℕ × ℕ)) : List ℕ := l.flatMap fun x => [x.1, x.2]

theorem chainBlocks_cons (b p : ℕ) (l : List (ℕ × ℕ)) :
    chainBlocks ((b, p) :: l) = b :: p :: chainBlocks l := rfl

/-- The chain is not in the block table. -/
theorem PartChain.congr (hsame : ∀ x, ¬ InTable x → m' x = m x) :
    ∀ {l : List (ℕ × ℕ)} {a : UInt32}, PartChain m a l → PartChain m' a l
  | [], _, h => h
  | (b, p) :: l, _, ⟨ha, hp, hstr, hrest⟩ => by
      have hword : ∀ j < 1024, m'.read32 (wordAddr p j) = m.read32 (wordAddr p j) := fun j hj =>
        read32_wordAddr_congr hp hj fun x hx => hsame x (hx.not_inTable hp)
      refine ⟨ha, hp, (hword 0 (by omega)).trans hstr, ?_⟩
      rw [hword 1 (by omega)]
      exact PartChain.congr hsame hrest

/-! ### Freeing -/

/-- The loop frees the blocks of the chain in order; by induction on the chain. -/
theorem pathparserFreeLoop_chain : ∀ {l : List (ℕ × ℕ)} {a : UInt32} {k : Kernel},
    PartChain k.mem a l → Marked m₀ k.mem (chainBlocks l ++ B) →
    ∃ k', (∀ n, l.length ≤ n →
        pathparserFreeLoop n a k = some ((chainBlocks l).map blockAddr, k')) ∧
      Marked m₀ k'.mem B
  | [], a, k, hchain, hmarked => by
      refine ⟨k, fun n _ => ?_, hmarked⟩
      cases n <;> exact if_pos hchain
  | (b, p) :: l, a, k, ⟨ha, hp, hstr, hrest⟩, hmarked => by
      subst ha
      rw [chainBlocks_cons] at hmarked
      obtain ⟨hmarked₁, hsame₁⟩ := hmarked.kfree
      obtain ⟨hmarked₂, hsame₂⟩ := hmarked₁.kfree
      obtain ⟨k', hloop, hmarked'⟩ := pathparserFreeLoop_chain
        (PartChain.congr (fun x hx => (hsame₂ x hx).trans (hsame₁ x hx)) hrest) hmarked₂
      refine ⟨k', fun n hn => ?_, hmarked'⟩
      obtain ⟨n, rfl⟩ : ∃ j, n = j + 1 := ⟨n - 1, by rw [List.length_cons] at hn; omega⟩
      rw [List.length_cons] at hn
      unfold pathparserFreeLoop
      rw [if_neg (blockAddr_ne_zero hp)]
      dsimp only
      change (pathparserFreeLoop n (k.mem.read32 (wordAddr p 1))
        (kfree (blockAddr p) (kfree (k.mem.read32 (wordAddr p 0)) k))).map _ = _
      have hstr' : k.mem.read32 (off (blockAddr p) 0) = blockAddr b := hstr
      rw [hstr, hloop n (by omega), hstr']
      rfl

/-- `pathparser_free` of a root with a chain of parts. -/
theorem pathparserFree_chain {r : ℕ} {l : List (ℕ × ℕ)}
    (hchain : PartChain k.mem (k.mem.read32 (wordAddr r 1)) l)
    (hmarked : Marked m₀ k.mem (chainBlocks l ++ [r])) :
    ∃ k', (∀ n, l.length ≤ n → pathparserFree n (blockAddr r) k =
        some ((chainBlocks l ++ [r]).map blockAddr, k')) ∧ SameTable m₀ k'.mem := by
  obtain ⟨k₁, hloop, hmarked₁⟩ := pathparserFreeLoop_chain hchain hmarked
  refine ⟨kfree (blockAddr r) k₁, fun n hn => ?_, hmarked₁.kfree.1.sameTable⟩
  unfold pathparserFree
  change (pathparserFreeLoop n (k.mem.read32 (wordAddr r 1)) k).map _ = _
  rw [hloop n hn, Option.map_some, List.map_append]
  rfl

/-! ### Parsing -/

/-- Where a component is empty the parser takes a buffer and frees it again. -/
theorem pathparserParsePathPart_end (hinv : HeapInv kernelHeap m₀ live)
    (hmarked : Marked m₀ k.mem B) (hfree : 0 < (freeBlocks k).card) (lastPart : UInt32)
    {path : List UInt8} (hpath : EndsPart path) :
    ∃ e rest k', pathparserParsePathPart lastPart path k = (0, rest, k') ∧
      Keeps k k' (fun _ => False) ∧ Marked m₀ k'.mem B ∧ pathPartFrees path k = [blockAddr e] ∧
      e < 25600 ∧ e ∉ B := by
  obtain ⟨e, he, htake, -⟩ := kzalloc_block_free 108 (by decide) (by decide) hfree
  have hget := pathparserGetPathPart_empty hpath k
  rw [he] at hget
  have htaken : Marked m₀ (kzalloc 108 k).2.mem ([e] ++ B) :=
    hmarked.takes hinv (by simpa using htake) (List.nodup_singleton e)
  have hfrees : pathPartFrees path k = [blockAddr e] := by
    unfold pathPartFrees
    dsimp only
    rw [he, pathPartLoop_end _ _ _ hpath, if_pos rfl]
  have hparse : pathparserParsePathPart lastPart path k =
      (0, (if path.headD 0 = 47 then path.drop 1 else path),
        kfree (blockAddr e) (kzalloc 108 k).2) := by
    rw [pathparserParsePathPart_of_null (by rw [hget]), hget]
  exact ⟨e, _, _, hparse, htake.keeps_kfree _, htaken.kfree.1, hfrees, htake.lt e rfl,
    (List.nodup_cons.mp htaken.nodup).1⟩

/-- The buffer of a component that is not empty is not freed. -/
theorem pathPartFrees_component {c rest : List UInt8} (hc : IsComponent c)
    (hlen : c.length < peachosMaxPath) (hrest : EndsPart rest) (k : Kernel) :
    pathPartFrees (c ++ rest) k = [] := by
  have hpath : c.length < 108 := hlen
  obtain ⟨m', hloop, -⟩ := pathPartLoop_append (kzalloc 108 k).1 hrest c 0 (kzalloc 108 k).2.mem
    hc.2 (by omega)
  have hne : 0 + c.length ≠ 0 := by
    rw [Nat.zero_add]
    exact fun h => hc.1 (List.length_eq_zero_iff.mp h)
  unfold pathPartFrees
  dsimp only
  rw [hloop]
  exact if_neg hne

/-- What the loop of `pathparser_parse` does behind the structure in block `p`: the chain of the
new parts is linked to it, their blocks are marked, and the one pointer freed is that of a block
`e` that is free at the end. -/
structure PartsParsed (m₀ : Mem) (B : List ℕ) (p : ℕ) (k k' : Kernel) (frees : List UInt32)
    (l : List (ℕ × ℕ)) (e : ℕ) : Prop where
  keeps : Keeps k k' (InNext p)
  chain : PartChain k'.mem (k'.mem.read32 (wordAddr p 1)) l
  marked : Marked m₀ k'.mem (chainBlocks l ++ B)
  frees : frees = [blockAddr e]
  lt : e < 25600
  notMem : e ∉ chainBlocks l ++ B

/-- By induction on the components. -/
theorem parsePartsLoop_parsed (hinv : HeapInv kernelHeap m₀ live) (path : List UInt8) :
    ∀ {p : ℕ} {k : Kernel} {B : List ℕ}, path.length < peachosMaxPath → TakenBlock k p →
    k.mem.read32 (wordAddr p 1) = 0 → Marked m₀ k.mem B →
    2 * (componentsOf path).length < (freeBlocks k).card →
    ∃ l e, PartsParsed m₀ B p k (parsePartsLoop (blockAddr p) path k)
      (parsePartsFrees (blockAddr p) path k) l e := by
  induction path using componentsOf.induct with
  | case1 path hnil =>
      intro p k B _ hp hnext hmarked hfree
      have hends : EndsPart path := by
        have hsplit := List.takeWhile_append_dropWhile (p := inComponent) (l := path)
        rw [hnil, List.nil_append] at hsplit
        rw [← hsplit]
        exact endsPart_dropWhile path
      obtain ⟨e, rest, k', hparse, hkeeps, hmarked', hfrees, he, hnot⟩ :=
        pathparserParsePathPart_end hinv hmarked (Nat.zero_lt_of_lt hfree) (blockAddr p) hends
      have hloop : parsePartsLoop (blockAddr p) path k = k' := by
        rw [parsePartsLoop, hparse, if_pos rfl]
      have hfrees' : parsePartsFrees (blockAddr p) path k = [blockAddr e] := by
        rw [parsePartsFrees, hparse, if_pos rfl, hfrees]
      rw [hloop]
      refine ⟨[], e, hkeeps.mono fun x hx => hx.elim, ?_, hmarked', hfrees', he, hnot⟩
      exact (hkeeps.read32_wordAddr hp (by omega) fun x hx => hx.elim).trans hnext
  | case2 path hne ih =>
      intro p k B hlen hp hnext hmarked hfree
      have hcomp := isComponent_takeWhile hne
      have hends := endsPart_dropWhile path
      have hsplit := List.takeWhile_append_dropWhile (p := inComponent) (l := path)
      have hafter := afterComponent_length path
      rw [componentsOf, if_neg hne, List.length_cons] at hfree
      obtain ⟨q, b, k₁, hparse, htake, hpart, hnext₁, hcard⟩ :=
        pathparserParsePathPart_free hcomp (by omega) hends (k := k) (by omega)
      have hlast := pathparserParsePathPart_link (blockAddr_ne_zero hp.1) hparse
        (blockAddr_ne_zero hpart.struct.1)
      have hnone := pathPartFrees_component hcomp (by omega) hends k
      rw [hsplit] at hlast hnone
      obtain ⟨k₂, hk₂⟩ : ∃ k₂ : Kernel,
        k₂ = { k₁ with mem := k₁.mem.write32 (wordAddr p 1) (blockAddr q) } := ⟨_, rfl⟩
      have hloop : parsePartsLoop (blockAddr p) path k =
          parsePartsLoop (blockAddr q) (afterComponent path) k₂ := by
        rw [parsePartsLoop, hlast, if_neg (blockAddr_ne_zero hpart.struct.1), hk₂]
        rfl
      have hfrees : parsePartsFrees (blockAddr p) path k =
          parsePartsFrees (blockAddr q) (afterComponent path) k₂ := by
        rw [parsePartsFrees, hlast, if_neg (blockAddr_ne_zero hpart.struct.1), hnone, hk₂]
        rfl
      obtain ⟨hkeeps₂, hpart₂, hnext₂, hlink⟩ := hpart.link hp htake hnext₁ hk₂
      have htable : ∀ x, InTable x → k₂.mem x = k₁.mem x := by
        intro x hx
        rw [hk₂]
        exact write32_wordAddr_apply hp.1 (by omega) _ _ fun h => h.not_inTable hp.1 hx
      have hpair : ({b} ∪ {q} : Set ℕ) = {c | c ∈ [b, q]} := by
        ext c
        exact (or_congr_right List.mem_singleton.symm).trans List.mem_cons.symm
      have hmarked₂ : Marked m₀ k₂.mem ([b, q] ++ B) :=
        (hmarked.takes hinv (hpair ▸ htake) (by simpa using hpart.apart)).write htable
      obtain ⟨l, e, hl⟩ := ih (by omega) hpart₂.struct hnext₂ hmarked₂
        (by rw [freeBlocks_congr htable]; omega)
      obtain ⟨hkeep, hfirst⟩ := Keeps.link hp hpart.struct.1 (htake.free q (Or.inr rfl)) hkeeps₂
        hlink hl.keeps
      have hperm : (chainBlocks l ++ ([b, q] ++ B)).Perm (chainBlocks ((b, q) :: l) ++ B) :=
        List.perm_append_comm_assoc _ _ _
      rw [hloop, hfrees]
      refine ⟨(b, q) :: l, e, hkeep, ?_, hl.marked.perm hperm, hl.frees, hl.lt,
        mt hperm.mem_iff.mpr hl.notMem⟩
      exact ⟨hfirst, hpart.struct.1, (hpart₂.keeps_next hl.keeps).part, hl.chain⟩

/-- A path that is refused costs nothing. -/
theorem pathparserParse_of_refused {path : List UInt8} (k : Kernel)
    (h : peachosMaxPath < strlen path ∨ pathparserPathValidFormat path = false) :
    pathparserParse path k = (0, k) ∧ pathparserParseFrees path k = [] := by
  unfold pathparserParse pathparserParseFrees
  by_cases hlen : peachosMaxPath < strlen path
  · rw [if_pos hlen, if_pos hlen]
    exact ⟨rfl, rfl⟩
  · have hdrive : pathparserGetDriveByPath path = (-EBADPATH, path) := by
      unfold pathparserGetDriveByPath
      rw [h.resolve_left hlen, if_neg Bool.false_ne_true]
    have hneg : -EBADPATH < 0 := by decide
    rw [if_neg hlen, if_neg hlen, hdrive]
    dsimp only
    rw [if_pos hneg, if_pos hneg]
    exact ⟨rfl, rfl⟩

/-- `first` of a new root is set as `next` of a part is: the rest of the parser is its loop from
the root on. -/
theorem pathparserParse_eq_loop {path t : List UInt8} {d : ℤ} {r : ℕ} {k k₁ : Kernel}
    (hlen : strlen path ≤ peachosMaxPath) (hdrive : pathparserGetDriveByPath path = (d, t))
    (hd : 0 ≤ d) (hroot : pathparserCreateRoot d k = (blockAddr r, k₁)) (hr : r < 25600)
    (hfirst : EndsPart t ∨ (pathparserParsePathPart 0 t k₁).1 ≠ 0) :
    pathparserParse path k = (blockAddr r, parsePartsLoop (blockAddr r) t k₁) ∧
      pathparserParseFrees path k = parsePartsFrees (blockAddr r) t k₁ := by
  have hne : blockAddr r ≠ 0 := blockAddr_ne_zero hr
  obtain ⟨hloop, hfrees⟩ : parsePartsLoop (blockAddr r) t k₁ =
      (let s := pathparserParsePathPart 0 t k₁
       if s.1 = 0 then s.2.2
       else parsePartsLoop s.1 s.2.1
         { s.2.2 with mem := s.2.2.mem.write32 (off (blockAddr r) 4) s.1 }) ∧
      parsePartsFrees (blockAddr r) t k₁ =
      (let s := pathparserParsePathPart 0 t k₁
       if s.1 = 0 then pathPartFrees t k₁
       else pathPartFrees t k₁ ++ parsePartsFrees s.1 s.2.1
         { s.2.2 with mem := s.2.2.mem.write32 (off (blockAddr r) 4) s.1 }) := by
    dsimp only
    rcases hfirst with hends | hpart
    · have hnull := (pathparserGetPathPart_ends hends k₁).1
      constructor
      · rw [parsePartsLoop, pathparserParsePathPart_of_null hnull,
          pathparserParsePathPart_of_null hnull, if_pos rfl, if_pos rfl]
      · rw [parsePartsFrees, pathparserParsePathPart_of_null hnull,
          pathparserParsePathPart_of_null hnull, if_pos rfl, if_pos rfl]
    · have hlink := pathparserParsePathPart_link hne rfl hpart
      constructor
      · rw [parsePartsLoop, hlink, if_neg hpart, if_neg hpart]
      · rw [parsePartsFrees, hlink, if_neg hpart]
  rw [hloop, hfrees]
  unfold pathparserParse pathparserParseFrees
  rw [if_neg hlen.not_gt, if_neg hlen.not_gt, hdrive]
  dsimp only
  rw [if_neg hd.not_gt, if_neg hd.not_gt, hroot]
  dsimp only
  rw [if_neg hne, if_neg hne]
  split_ifs <;> exact ⟨rfl, rfl⟩

/-- With two free blocks a path has a first part, unless it begins with an empty component. -/
theorem endsPart_or_ne {t : List UInt8} (hlen : t.length < peachosMaxPath)
    (hfree : t.takeWhile inComponent ≠ [] → 2 ≤ (freeBlocks k).card) :
    EndsPart t ∨ (pathparserParsePathPart 0 t k).1 ≠ 0 := by
  have hsplit := List.takeWhile_append_dropWhile (p := inComponent) (l := t)
  have hafter := afterComponent_length t
  by_cases hne : t.takeWhile inComponent = []
  · left
    rw [hne, List.nil_append] at hsplit
    rw [← hsplit]
    exact endsPart_dropWhile t
  · right
    obtain ⟨q, b, k', hparse, -, hpart, -⟩ := pathparserParsePathPart_free
      (isComponent_takeWhile hne) (by omega) (endsPart_dropWhile t) (hfree hne)
    rw [hsplit] at hparse
    rw [hparse]
    exact blockAddr_ne_zero hpart.struct.1

/-- **Parsed paths are released completely.**  For every well-formed heap with two free blocks
for each component of the path and two more: if the path is refused the block table is as
before; else `pathparser_free` of the root ends, with the block table as it was before the path
was parsed.  No pointer is freed twice. -/
theorem pathparser_released {path : List UInt8} (h0 : 0 ∉ path) {k : Kernel}
    {live : Layout UInt32} (hinv : HeapInv kernelHeap k.mem live)
    (hfree : 2 * (componentsOf (path.drop 3)).length + 2 ≤ (freeBlocks k).card) :
    ((pathparserParse path k).1 = 0 → SameTable k.mem (pathparserParse path k).2.mem ∧
      pathparserParseFrees path k = []) ∧
    ((pathparserParse path k).1 ≠ 0 → ∃ n freed k',
      (∀ i, n ≤ i → pathparserFree i (pathparserParse path k).1 (pathparserParse path k).2 =
        some (freed, k')) ∧ SameTable k.mem k'.mem ∧
      (pathparserParseFrees path k ++ freed).Nodup) := by
  by_cases hvalid : strlen path ≤ peachosMaxPath ∧ pathparserPathValidFormat path = true
  · obtain ⟨hlen, hformat⟩ := hvalid
    obtain ⟨d, t, rfl⟩ := (pathparserPathValidFormat_iff h0).mp hformat
    have hdrive : pathparserGetDriveByPath (digitChar d :: 58 :: 47 :: t) =
        (((d : ℕ) : ℤ), t) := by
      unfold pathparserGetDriveByPath
      rw [if_pos hformat]
      exact Prod.ext (tonumericdigit_digitChar d) rfl
    simp only [List.drop_succ_cons, List.drop_zero] at hfree
    obtain ⟨r, k₁, hroot, htake, -, hnext, hcard⟩ :=
      pathparserCreateRoot_free ((d : ℕ) : ℤ) (k := k) (by omega)
    have hr : TakenBlock k₁ r := ⟨htake.lt r rfl, htake.taken rfl⟩
    have hshort : t.length < peachosMaxPath := by
      rw [strlen_eq_length h0] at hlen
      simp only [List.length_cons] at hlen
      omega
    have hmarked : Marked k.mem k₁.mem ([r] ++ []) :=
      (marked_nil k.mem).takes hinv (by simpa using htake) (List.nodup_singleton r)
    obtain ⟨l, e, hl⟩ := parsePartsLoop_parsed hinv t hshort hr hnext hmarked (by omega)
    have hfirst : EndsPart t ∨ (pathparserParsePathPart 0 t k₁).1 ≠ 0 :=
      endsPart_or_ne hshort fun hne => by
        rw [componentsOf, if_neg hne, List.length_cons] at hfree
        omega
    obtain ⟨hparse, hfrees⟩ :=
      pathparserParse_eq_loop hlen hdrive (by omega) hroot hr.1 hfirst
    rw [hparse, hfrees, hl.frees]
    refine ⟨fun h => absurd h (blockAddr_ne_zero hr.1), fun _ => ?_⟩
    obtain ⟨k', hrun, hsame⟩ := pathparserFree_chain hl.chain hl.marked
    refine ⟨l.length, _, k', hrun, hsame, ?_⟩
    have hlt : ∀ b ∈ e :: (chainBlocks l ++ [r]), b < 25600 := fun b hb =>
      (List.mem_cons.mp hb).elim (fun h => h ▸ hl.lt) (hl.marked.lt b)
    exact List.Nodup.map_on (fun b hb c hc h => blockAddr_inj (hlt b hb) (hlt c hc) h)
      (List.nodup_cons.mpr ⟨hl.notMem, hl.marked.nodup⟩)
  · have hrefused : peachosMaxPath < strlen path ∨ pathparserPathValidFormat path = false := by
      rw [not_and_or, not_le, Bool.not_eq_true] at hvalid
      exact hvalid
    obtain ⟨hparse, hfrees⟩ := pathparserParse_of_refused k hrefused
    rw [hparse, hfrees]
    exact ⟨fun _ => ⟨fun _ _ => rfl, rfl⟩, fun h => absurd rfl h⟩

/-- The path `0:/a//b` in a kernel with an empty heap. -/
theorem pathparser_released_double_slash :
    ∃ n freed k', pathparserFree n (pathparserParse [48, 58, 47, 97, 47, 47, 98] freshKernel).1
        (pathparserParse [48, 58, 47, 97, 47, 47, 98] freshKernel).2 = some (freed, k') ∧
      SameTable freshKernel.mem k'.mem := by
  have hcard := freshKernel_topFree.card_le
  have hcomps := length_componentsOf_le [97, 47, 47, 98]
  simp only [List.length_cons, List.length_nil] at hcomps
  obtain ⟨-, hreleased⟩ := @pathparser_released [48, 58, 47, 97, 47, 47, 98] (by decide)
    freshKernel _ freshKernel_topFree.heap (by
      simp only [List.drop_succ_cons, List.drop_zero]
      omega)
  obtain ⟨d, hroot, -⟩ := pathparserParse_double_slash
  obtain ⟨n, freed, k', hrun, hsame, -⟩ := hreleased hroot
  exact ⟨n, freed, k', hrun n le_rfl, hsame⟩

end PeachOS
