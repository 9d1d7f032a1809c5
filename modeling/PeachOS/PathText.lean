import PeachOS.PathParser

/-! # The text of a path

What `pathparser_parse` keeps of the text of a path, for any string and any heap.  The parser
reads the components up to the first empty one; it takes one block for the root and two for
each part, and stops in silence when they run out.

`pathparserParse_text` says which parts there are, `pathparserParse_keeps_text_iff` when their
text is the whole path. -/

namespace PeachOS

open ByteMemory

/-! ### Reading the parts back -/

/-- The NUL-terminated string at `a` is `c`. -/
def StringAt (m : Mem) (a : UInt32) (c : List UInt8) : Prop :=
  0 ∉ c ∧ ∀ i ≤ c.length, m (off a i) = c.getD i 0

/-- The strings of the list of `path_part` structures at `a` are `cs`. -/
def PartStrings (m : Mem) : UInt32 → List (List UInt8) → Prop
  | a, [] => a = 0
  | a, c :: cs => a ≠ 0 ∧ StringAt m (m.read32 (off a 0)) c ∧ PartStrings m (m.read32 (off a 4)) cs

/-- The `path_root` at `r` has the drive `d` and parts with the strings `cs`. -/
def RootStrings (m : Mem) (r d : UInt32) (cs : List (List UInt8)) : Prop :=
  r ≠ 0 ∧ m.read32 (off r 0) = d ∧ PartStrings m (m.read32 (off r 4)) cs

/-- The terminator of one string at `a` is not inside another. -/
theorem StringAt.length_le {m : Mem} {a : UInt32} {c e : List UInt8} (hc : StringAt m a c)
    (he : StringAt m a e) : e.length ≤ c.length := by
  by_contra hlt
  have hin : c.length < e.length := by omega
  have hzero := hc.2 c.length le_rfl
  rw [he.2 c.length (by omega), List.getD_eq_getElem e 0 hin,
    List.getD_eq_default c 0 le_rfl] at hzero
  exact he.1 (hzero ▸ List.getElem_mem hin)

theorem StringAt.unique {m : Mem} {a : UInt32} {c e : List UInt8} (hc : StringAt m a c)
    (he : StringAt m a e) : c = e := by
  refine List.ext_getElem (Nat.le_antisymm (he.length_le hc) (hc.length_le he)) fun i h₁ h₂ => ?_
  rw [← List.getD_eq_getElem c 0 h₁, ← List.getD_eq_getElem e 0 h₂, ← hc.2 i (by omega),
    he.2 i (by omega)]

theorem PartStrings.unique {m : Mem} : ∀ {cs es : List (List UInt8)} {a : UInt32},
    PartStrings m a cs → PartStrings m a es → cs = es
  | [], [], _, _, _ => rfl
  | [], _ :: _, _, h, h' => absurd h h'.1
  | _ :: _, [], _, h, h' => absurd h' h.1
  | _ :: _, _ :: _, _, h, h' => by
      rw [h.2.1.unique h'.2.1, PartStrings.unique h.2.2 h'.2.2]

theorem RootStrings.unique {m : Mem} {r d e : UInt32} {cs es : List (List UInt8)}
    (h : RootStrings m r d cs) (h' : RootStrings m r e es) : d = e ∧ cs = es :=
  ⟨h.2.1.symm.trans h'.2.1, h.2.2.unique h'.2.2⟩

theorem HoldsString.stringAt {m : Mem} {a : UInt32} {c : List UInt8} (h : HoldsString m a c)
    (hc : IsComponent c) : StringAt m a c :=
  ⟨fun h0 => (hc.2 0 h0).2 rfl, fun i hi => h.2 i (Nat.lt_of_le_of_lt hi h.1)⟩

/-! ### The text behind the drive -/

/-- The text behind the components `cs` that the parser does not read: none, or a slash with
no component before it. -/
def Unread (slash : Bool) (cs : List (List UInt8)) (extra : List UInt8) : Prop :=
  extra = [] ∨ (extra.headD 0 = 47 ∧ (slash = true ∨ cs = []))

theorem Unread.tail {slash : Bool} {c : List UInt8} {cs : List (List UInt8)} {extra : List UInt8}
    (h : Unread slash (c :: cs) extra) (es : List (List UInt8)) : Unread slash es extra :=
  h.imp_right fun h => ⟨h.1, Or.inl (h.2.resolve_right (List.cons_ne_nil c cs))⟩

theorem Unread.endsPart {slash : Bool} {extra : List UInt8} {cs : List (List UInt8)}
    (h : Unread slash cs extra) : EndsPart extra := by
  rcases h with rfl | ⟨h, -⟩
  · exact Or.inr rfl
  · exact Or.inl h

/-- The text behind a component ends that component. -/
theorem Unread.endsPart_afterFirst {slash : Bool} {extra c : List UInt8} {cs : List (List UInt8)}
    (h : Unread slash (c :: cs) extra) : EndsPart (afterFirst slash cs ++ extra) := by
  cases cs with
  | nil =>
      cases slash with
      | false => exact h.endsPart
      | true => exact Or.inl rfl
  | cons e cs => exact Or.inl rfl

/-- The cursor behind a component. -/
theorem Unread.next {slash : Bool} {extra c : List UInt8} {cs : List (List UInt8)}
    (h : Unread slash (c :: cs) extra) :
    (if (afterFirst slash cs ++ extra).headD 0 = 47 then (afterFirst slash cs ++ extra).drop 1
      else afterFirst slash cs ++ extra) = joinPath slash cs ++ extra := by
  cases cs with
  | nil =>
      cases slash with
      | false =>
          rcases h with rfl | ⟨-, h⟩
          · rfl
          · exact absurd h (by simp)
      | true => rfl
  | cons e cs => rfl

/-- Every text is its components up to the first empty one and what is not read. -/
theorem exists_joinPath : ∀ (n : ℕ) (s : List UInt8), s.length ≤ n → 0 ∉ s →
    ∃ slash cs extra, s = joinPath slash cs ++ extra ∧ (∀ c ∈ cs, IsComponent c) ∧
      Unread slash cs extra
  | _, [], _, _ => ⟨false, [], [], rfl, fun _ h => absurd h List.not_mem_nil, Or.inl rfl⟩
  | n + 1, a :: s, hlen, h0 => by
      rcases eq_or_ne a 47 with rfl | ha
      · exact ⟨false, [], 47 :: s, rfl, fun _ h => absurd h List.not_mem_nil,
          Or.inr ⟨rfl, Or.inr rfl⟩⟩
      have hsplit := List.takeWhile_append_dropWhile (p := fun x : UInt8 => x ≠ 47) (l := a :: s)
      have hcomp : IsComponent ((a :: s).takeWhile fun x => x ≠ 47) := by
        refine ⟨fun h => ?_, fun x hx => ⟨?_, fun hx0 => h0 (hx0 ▸ ?_)⟩⟩
        · rw [List.takeWhile_cons_of_pos (by simpa using ha)] at h
          cases h
        · simpa using List.mem_takeWhile_imp hx
        · exact (List.takeWhile_prefix _).subset hx
      generalize hc : (a :: s).takeWhile (fun x => decide (x ≠ 47)) = c at hsplit hcomp
      cases hrest : (a :: s).dropWhile fun x => decide (x ≠ 47) with
      | nil =>
          rw [hrest, List.append_nil] at hsplit
          refine ⟨false, [c], [], ?_, fun e he => ?_, Or.inl rfl⟩
          · rw [← hsplit]
            simp [joinPath]
          · rwa [List.mem_singleton.mp he]
      | cons b t =>
          have hb : b = 47 := by
            have := List.head?_dropWhile_not (fun x : UInt8 => decide (x ≠ 47)) (a :: s)
            rw [hrest] at this
            simpa using this
          rw [hrest, hb] at hsplit
          have hlen' : c.length + (t.length + 1) = s.length + 1 := by
            have := congrArg List.length hsplit
            rwa [List.length_append, List.length_cons, List.length_cons] at this
          have hcpos : 0 < c.length := List.length_pos_of_ne_nil hcomp.1
          obtain ⟨slash, cs, extra, ht, hcs, hun⟩ := exists_joinPath n t
            (by rw [List.length_cons] at hlen; omega)
            fun h => h0 (hsplit ▸ List.mem_append_right c (List.mem_cons_of_mem 47 h))
          have hall : ∀ e ∈ c :: cs, IsComponent e := by
            intro e he
            rcases List.mem_cons.mp he with rfl | he
            · exact hcomp
            · exact hcs e he
          cases cs with
          | nil =>
              refine ⟨true, [c], extra, ?_, hall, hun.imp_right fun h => ⟨h.1, Or.inl rfl⟩⟩
              rw [← hsplit, ht]
              simp [joinPath]
          | cons e cs =>
              refine ⟨slash, c :: e :: cs, extra, ?_, hall, hun.imp_right fun h => ⟨h.1, ?_⟩⟩
              · rw [← hsplit, ht]
                simp [joinPath]
              · exact h.2.imp_right fun h => nomatch h

theorem length_afterFirst_true (cs : List (List UInt8)) :
    (afterFirst true cs).length = (joinPath true cs).length + 1 := by
  cases cs <;> rfl

theorem joinPath_true {cs : List (List UInt8)} (hne : cs ≠ []) :
    joinPath true cs = joinPath false cs ++ [47] := by
  induction cs with
  | nil => exact absurd rfl hne
  | cons c cs ih =>
      cases cs with
      | nil => simp [joinPath]
      | cons e cs => rw [joinPath, ih (List.cons_ne_nil e cs), joinPath, List.append_assoc]; rfl

theorem length_joinPath_le (slash : Bool) {cs : List (List UInt8)} (hne : cs ≠ []) :
    (joinPath slash cs).length ≤ (joinPath true cs).length := by
  cases slash with
  | true => exact le_rfl
  | false =>
      rw [joinPath_true hne, List.length_append]
      exact Nat.le_add_right _ _

/-- The text of some of the components is shorter than the text of all of them. -/
theorem length_joinPath_take (slash : Bool) : ∀ {cs : List (List UInt8)} {j : ℕ},
    (∀ c ∈ cs, IsComponent c) → j < cs.length →
    (joinPath true (cs.take j)).length < (joinPath slash cs).length
  | c :: cs, 0, hcs, _ => by
      have hpos := List.length_pos_of_ne_nil (hcs c List.mem_cons_self).1
      rw [joinPath_cons, List.length_append]
      exact Nat.lt_of_lt_of_le hpos (Nat.le_add_right _ _)
  | c :: e :: cs, j + 1, hcs, hj => by
      have ih := length_joinPath_take slash (j := j)
        (fun x hx => hcs x (List.mem_cons_of_mem c hx)) (Nat.lt_of_succ_lt_succ hj)
      rw [List.take_succ_cons, joinPath_cons, joinPath_cons, List.length_append, List.length_append,
        length_afterFirst_true]
      exact Nat.add_lt_add_left (Nat.succ_lt_succ ih) _

/-- Some of the components make up the whole text only if they are all of them and everything
is read. -/
theorem joinPath_take_eq {slash slash' : Bool} {cs : List (List UInt8)} {extra : List UInt8}
    {j : ℕ} (hcs : ∀ c ∈ cs, IsComponent c) (hun : Unread slash cs extra) (hne : cs ≠ [])
    (h : joinPath slash cs ++ extra = joinPath slash' (cs.take j)) :
    extra = [] ∧ cs.length ≤ j := by
  have hlen := congrArg List.length h
  rw [List.length_append] at hlen
  rcases Nat.lt_or_ge j cs.length with hj | hj
  · have hlt := length_joinPath_take slash hcs hj
    have hle : (joinPath slash' (cs.take j)).length ≤ (joinPath true (cs.take j)).length := by
      rcases eq_or_ne (cs.take j) [] with h0 | h0
      · rw [h0]
        exact le_rfl
      · exact length_joinPath_le slash' h0
    omega
  · refine ⟨?_, hj⟩
    rw [List.take_of_length_le hj] at hlen
    rcases hun with rfl | ⟨-, hs⟩
    · rfl
    · obtain rfl : slash = true := hs.resolve_right hne
      have hle := length_joinPath_le slash' hne
      exact List.length_eq_zero_iff.mp (by omega)

/-! ### Slashes -/

/-- No two slashes follow each other. -/
def NoDoubleSlash (path : List UInt8) : Prop := path.IsChain fun a b => ¬ (a = 47 ∧ b = 47)

instance (path : List UInt8) : Decidable (NoDoubleSlash path) :=
  inferInstanceAs (Decidable (path.IsChain _))

theorem noDoubleSlash_of_forall : ∀ {c : List UInt8}, (∀ x ∈ c, x ≠ 47) → NoDoubleSlash c
  | [], _ => List.isChain_nil
  | x :: _, h => List.isChain_cons.mpr ⟨fun _ _ hxy => h x List.mem_cons_self hxy.1,
      noDoubleSlash_of_forall fun y hy => h y (List.mem_cons_of_mem x hy)⟩

theorem IsComponent.noDoubleSlash_append {c rest : List UInt8} (hc : IsComponent c) :
    NoDoubleSlash (c ++ rest) ↔ NoDoubleSlash rest := by
  have hself : NoDoubleSlash c := noDoubleSlash_of_forall fun x hx => (hc.2 x hx).1
  unfold NoDoubleSlash at hself ⊢
  rw [List.isChain_append]
  refine ⟨fun h => h.2.1, fun h => ⟨hself, h, fun a ha b _ hab => ?_⟩⟩
  exact (hc.2 a (List.mem_of_mem_getLast? ha)).1 hab.1

theorem noDoubleSlash_slash_cons {s : List UInt8} :
    NoDoubleSlash (47 :: s) ↔ s.headD 0 ≠ 47 ∧ NoDoubleSlash s := by
  unfold NoDoubleSlash
  rw [List.isChain_cons]
  refine and_congr_left fun _ => ?_
  cases s <;> simp

theorem noDoubleSlash_cons {a : UInt8} (ha : a ≠ 47) {s : List UInt8} :
    NoDoubleSlash (a :: s) ↔ NoDoubleSlash s := by
  unfold NoDoubleSlash
  rw [List.isChain_cons]
  exact and_iff_right fun _ _ h => ha h.1

theorem IsComponent.headD_append {c rest : List UInt8} (hc : IsComponent c) :
    (c ++ rest).headD 0 ≠ 47 := by
  obtain ⟨x, c, rfl⟩ := List.exists_cons_of_ne_nil hc.1
  exact (hc.2 x List.mem_cons_self).1

/-- A text has no double slash behind its first component if and only if it is read whole. -/
theorem noDoubleSlash_joinPath {slash : Bool} {extra : List UInt8} :
    ∀ {cs : List (List UInt8)}, (∀ c ∈ cs, IsComponent c) → cs ≠ [] → Unread slash cs extra →
      (NoDoubleSlash (joinPath slash cs ++ extra) ↔ extra = [])
  | [c], hcs, _, hun => by
      have hc := hcs c List.mem_cons_self
      rw [joinPath_cons, List.append_assoc, hc.noDoubleSlash_append]
      rcases hun with rfl | ⟨hextra, hs⟩
      · refine iff_of_true ?_ rfl
        cases slash <;> decide
      · obtain rfl : slash = true := hs.resolve_right (List.cons_ne_nil _ _)
        refine iff_of_false (fun h => (noDoubleSlash_slash_cons.mp h).1 hextra) ?_
        rintro rfl
        exact absurd hextra (by decide)
  | c :: e :: cs, hcs, _, hun => by
      have htail := fun x hx => hcs x (List.mem_cons_of_mem c hx)
      have he := htail e List.mem_cons_self
      have ih : NoDoubleSlash (joinPath slash (e :: cs) ++ extra) ↔ extra = [] :=
        noDoubleSlash_joinPath htail (List.cons_ne_nil e cs) (hun.tail _)
      rw [joinPath_cons, List.append_assoc, (hcs c List.mem_cons_self).noDoubleSlash_append, ← ih]
      change NoDoubleSlash (47 :: (joinPath slash (e :: cs) ++ extra)) ↔ _
      rw [noDoubleSlash_slash_cons, joinPath_cons, List.append_assoc]
      exact and_iff_right he.headD_append

theorem joinPath_ne_nil (slash : Bool) {cs : List (List UInt8)} (hcs : ∀ c ∈ cs, IsComponent c)
    (hne : cs ≠ []) : joinPath slash cs ≠ [] := by
  obtain ⟨c, cs, rfl⟩ := List.exists_cons_of_ne_nil hne
  rw [joinPath_cons]
  exact List.append_ne_nil_of_left_ne_nil (hcs c List.mem_cons_self).1 _

/-- The slashes but for one at the end are as many as the components less one. -/
theorem count_dropLast_joinPath (slash : Bool) : ∀ {cs : List (List UInt8)},
    (∀ c ∈ cs, IsComponent c) → cs ≠ [] → (joinPath slash cs).dropLast.count 47 + 1 = cs.length
  | [c], hcs, _ => by
      have hc : (47 : UInt8) ∉ c := fun h => ((hcs c List.mem_cons_self).2 47 h).1 rfl
      have hzero : (joinPath slash [c]).dropLast.count 47 = 0 := by
        rw [List.count_eq_zero]
        cases slash with
        | false =>
            intro h
            have hmem := List.mem_of_mem_dropLast h
            rw [joinPath, if_neg Bool.false_ne_true, List.append_nil] at hmem
            exact hc hmem
        | true => rwa [joinPath, if_pos rfl, List.dropLast_concat]
      rw [hzero, List.length_singleton]
  | c :: e :: cs, hcs, _ => by
      have hc : (47 : UInt8) ∉ c := fun h => ((hcs c List.mem_cons_self).2 47 h).1 rfl
      have htail := fun x hx => hcs x (List.mem_cons_of_mem c hx)
      have ih := count_dropLast_joinPath slash htail (List.cons_ne_nil e cs)
      have hj := joinPath_ne_nil slash htail (List.cons_ne_nil e cs)
      rw [joinPath, List.dropLast_append_of_ne_nil (List.cons_ne_nil _ _),
        List.dropLast_cons_of_ne_nil hj, List.count_append, List.count_cons_self,
        List.count_eq_zero.mpr hc, Nat.zero_add, ih, List.length_cons, List.length_cons,
        List.length_cons]

/-! ### Single blocks -/

/-- The bytes of the blocks taken in `k` are the same in `k'`, outside `W`. -/
def SameBytes (k k' : Kernel) (W : UInt32 → Prop) : Prop :=
  ∀ b < 25600, ¬ EntryFree kernelHeap k.mem b → ∀ x, InBlock b x → ¬ W x → k'.mem x = k.mem x

theorem Keeps.sameBytes {k k' : Kernel} {W : UInt32 → Prop} (h : Keeps k k' W) :
    SameBytes k k' W := h.same

theorem Keeps.trans_sameBytes {k₁ k₂ k₃ : Kernel} {W V : UInt32 → Prop} (h₁ : Keeps k₁ k₂ W)
    (h₂ : SameBytes k₂ k₃ V)
    (hV : ∀ b < 25600, ¬ EntryFree kernelHeap k₁.mem b → ∀ x, InBlock b x → V x → W x) :
    SameBytes k₁ k₃ W := fun b hb ht x hx hw => by
  rw [h₂ b hb (h₁.taken b hb ht) x hx fun hv => hw (hV b hb ht x hx hv),
    h₁.same b hb ht x hx hw]

/-- The first address of the pool is above the low memory. -/
def InPool (x : UInt32) : Prop := 16777216 ≤ x.toNat

theorem InBlock.inPool {b : ℕ} (hb : b < 25600) {x : UInt32} (h : InBlock b x) : InPool x := by
  rw [inBlock_iff hb] at h
  unfold InPool
  omega

/-- Stores below the pool. -/
theorem SameBytes.of_low {k k' : Kernel} (W : UInt32 → Prop)
    (h : ∀ x, InPool x → k'.mem x = k.mem x) : SameBytes k k' W :=
  fun _ hb _ x hx _ => h x (hx.inPool hb)

/-- While a block is free, a request of at most one block is served. -/
theorem kzalloc_block_free (size : UInt32) (h1 : 1 ≤ size.toNat) (h2 : size.toNat ≤ 4096)
    {k : Kernel} (hk : 0 < (freeBlocks k).card) :
    ∃ b, (kzalloc size k).1 = blockAddr b ∧ Takes k (kzalloc size k).2 {b} ∧
      ∀ x, InRange (blockAddr b) size.toNat x → (kzalloc size k).2.mem x = 0 := by
  rcases kzalloc_block h1 h2 k with ⟨b, hb, htake, hzero, -⟩ | ⟨-, hnone⟩
  · exact ⟨b, hb, htake, hzero⟩
  · obtain ⟨i, hi⟩ := Finset.card_pos.mp hk
    rw [mem_freeBlocks] at hi
    exact absurd hi.2 (hnone i hi.1)

/-- When no block is free it is refused, and nothing is written. -/
theorem kzalloc_block_full {size : UInt32} (h1 : 1 ≤ size.toNat) (h2 : size.toNat ≤ 4096)
    {k : Kernel} (hk : (freeBlocks k).card = 0) : kzalloc size k = (0, ⟨k.mem, true⟩) := by
  rcases kzalloc_block h1 h2 k with ⟨b, -, htake, -⟩ | ⟨hnull, -⟩
  · have hmem := mem_freeBlocks.mpr ⟨htake.lt b rfl, htake.free b rfl⟩
    rw [Finset.card_eq_zero.mp hk] at hmem
    exact absurd hmem (Finset.notMem_empty b)
  · exact hnull

/-- Taking blocks uses them up. -/
theorem Takes.card_eq {k k' : Kernel} {F : Finset ℕ} (h : Takes k k' F) :
    (freeBlocks k').card + F.card = (freeBlocks k).card := by
  rw [← Finset.card_union_of_disjoint]
  · congr 1
    ext i
    rw [Finset.mem_union, mem_freeBlocks, mem_freeBlocks]
    by_cases hi : i ∈ F
    · exact iff_of_true (Or.inr hi) ⟨h.lt i hi, h.free i hi⟩
    · refine ⟨fun hf => ?_, fun hf => Or.inl ⟨hf.1, ?_⟩⟩
      · have hf := hf.resolve_right hi
        refine ⟨hf.1, ?_⟩
        unfold EntryFree
        rw [← h.entries i hf.1 hi]
        exact hf.2
      · unfold EntryFree
        rw [h.entries i hf.1 hi]
        exact hf.2
  · refine Finset.disjoint_left.mpr fun i hi hF => ?_
    exact h.taken hF (mem_freeBlocks.mp hi).2

theorem heapMarkFreeLoop_apply_ne (t : HeapTable) {x : UInt32} : ∀ (left : ℕ) (i : ℤ) (m : Mem),
    (∀ j : ℕ, j < left → x ≠ t.entryAddr (i + j)) → heapMarkFreeLoop t left i m x = m x
  | 0, _, _, _ => rfl
  | left + 1, i, m, h => by
      have hx : m.write (t.entryAddr i) heapBlockTableEntryFree x = m x := by
        refine Mem.write_ne _ _ ?_
        simpa using h 0 (Nat.succ_pos left)
      rw [heapMarkFreeLoop_succ]
      dsimp only
      split_ifs
      · exact hx
      · rw [heapMarkFreeLoop_apply_ne t left (i + 1) _ fun j hj => ?_, hx]
        have := h (j + 1) (Nat.succ_lt_succ hj)
        rwa [Nat.cast_succ, add_comm (j : ℤ) 1, ← add_assoc] at this

/-- `kfree` of null writes below the pool only: from the byte of block -4096 to the end of the
table. -/
theorem kfree_null_apply (k : Kernel) {x : UInt32} (hx : InPool x) :
    (kfree 0 k).mem x = k.mem x := by
  have hblock : heapAddressToBlock kernelHeap 0 = -4096 := by decide
  have hcount : (i32 kernelHeap.table.total.toNat - -4096).toNat = 29696 := by decide
  rw [kfree_mem, heapFree, heapMarkBlocksFree, hblock, hcount]
  refine heapMarkFreeLoop_apply_ne _ 29696 (-4096) k.mem fun j hj e => ?_
  have haddr : kernelHeap.table.entryAddr (-4096 + j) = off 0x6e00 j := by
    unfold HeapTable.entryAddr off
    rw [UInt32.ofInt_add, ← UInt32.add_assoc, ← ofInt_natCast]
    rfl
  have hlow : (off 0x6e00 j).toNat = 28160 + j :=
    toNat_off_of_lt (by rw [show (0x6e00 : UInt32).toNat = 28160 from rfl]; omega)
  unfold InPool at hx
  rw [e, haddr, hlow] at hx
  omega

/-! ### One part on any heap -/

/-- No part where the component is empty. -/
theorem pathparserGetPathPart_ends {path : List UInt8} (hpath : EndsPart path) (k : Kernel) :
    (pathparserGetPathPart path k).1 = 0 ∧
      SameBytes k (pathparserGetPathPart path k).2.2 (fun _ => False) ∧
      (0 < (freeBlocks k).card → Keeps k (pathparserGetPathPart path k).2.2 fun _ => False) := by
  rw [pathparserGetPathPart_empty hpath]
  rcases Nat.eq_zero_or_pos (freeBlocks k).card with h0 | h0
  · refine ⟨rfl, SameBytes.of_low _ fun x hx => ?_, fun hpos => by omega⟩
    rw [kzalloc_block_full (by decide) (by decide) h0]
    exact kfree_null_apply _ hx
  · obtain ⟨b, hb, htake, -⟩ := kzalloc_block_free 108 (by decide) (by decide) h0
    dsimp only
    rw [hb]
    have hkeeps := htake.keeps_kfree fun _ => False
    exact ⟨rfl, hkeeps.sameBytes, fun _ => hkeeps⟩

/-- Without a free block the characters of a component are stored from address 0 on. -/
theorem pathparserGetPathPart_full {c rest : List UInt8} (hc : IsComponent c)
    (hlen : c.length < peachosMaxPath) (hrest : EndsPart rest) {k : Kernel}
    (hk : (freeBlocks k).card = 0) :
    (pathparserGetPathPart (c ++ rest) k).1 = 0 ∧
      SameBytes k (pathparserGetPathPart (c ++ rest) k).2.2 fun _ => False := by
  have hpath : c.length < 108 := hlen
  obtain ⟨m', hloop, -, hold⟩ := pathPartLoop_append 0 hrest c 0 k.mem hc.2 (by omega)
  have hne : 0 + c.length ≠ 0 := fun h =>
    hc.1 (List.length_eq_zero_iff.mp (by rwa [Nat.zero_add] at h))
  unfold pathparserGetPathPart
  dsimp only
  rw [kzalloc_block_full (by decide) (by decide) hk, hloop]
  dsimp only
  rw [if_neg hne]
  refine ⟨rfl, SameBytes.of_low _ fun x hx => hold x fun j hj e => ?_⟩
  have hlow : (off 0 (0 + j)).toNat = j := by
    rw [Nat.zero_add, toNat_off_of_lt (by rw [UInt32.toNat_zero]; omega), UInt32.toNat_zero,
      Nat.zero_add]
  unfold InPool at hx
  rw [e, hlow] at hx
  omega

/-- With two free blocks a component gives a part. -/
theorem pathparserParsePathPart_free {c rest : List UInt8} (hc : IsComponent c)
    (hlen : c.length < peachosMaxPath) (hrest : EndsPart rest) {k : Kernel}
    (hk : 2 ≤ (freeBlocks k).card) :
    ∃ p b k', pathparserParsePathPart 0 (c ++ rest) k =
        (blockAddr p, (if rest.headD 0 = 47 then rest.drop 1 else rest), k') ∧
      Takes k k' ({b} ∪ {p}) ∧ PartAt k' p b c ∧ k'.mem.read32 (wordAddr p 1) = 0 ∧
      (freeBlocks k').card + 2 = (freeBlocks k).card := by
  obtain ⟨b, hb, htake, hzero⟩ := kzalloc_block_free 108 (by decide) (by decide)
    (Nat.lt_of_lt_of_le Nat.two_pos hk)
  obtain ⟨k₁, hget, -, htake₁, hstr⟩ := pathparserGetPathPart_take hc hlen hrest hb htake hzero
  have hcard₁ : (freeBlocks k₁).card + 1 = (freeBlocks k).card :=
    Takes.card_eq (F := {b}) (by rwa [Finset.coe_singleton])
  obtain ⟨p, hp, htake₂, -⟩ := kzalloc_block_free 8 (by decide) (by decide)
    (k := k₁) (by omega)
  obtain ⟨k', hparse, htake', hpart, hnext⟩ :=
    pathparserParsePathPart_take hget htake₁ hstr hp htake₂
  refine ⟨p, b, k', hparse, htake', hpart, hnext, ?_⟩
  rw [← Finset.card_pair hpart.apart]
  exact Takes.card_eq (by rwa [Finset.coe_pair, Set.insert_eq])

theorem pathparserParsePathPart_of_null {lastPart : UInt32} {path : List UInt8} {k : Kernel}
    (h0 : (pathparserGetPathPart path k).1 = 0) :
    pathparserParsePathPart lastPart path k = (0, (pathparserGetPathPart path k).2) := by
  unfold pathparserParsePathPart
  dsimp only
  rw [if_pos h0]

/-- With one free block a component gives no part, and the block is lost. -/
theorem pathparserParsePathPart_one {c rest : List UInt8} (hc : IsComponent c)
    (hlen : c.length < peachosMaxPath) (hrest : EndsPart rest) {k : Kernel}
    (hk : (freeBlocks k).card = 1) :
    (pathparserParsePathPart 0 (c ++ rest) k).1 = 0 ∧
      SameBytes k (pathparserParsePathPart 0 (c ++ rest) k).2.2 fun _ => False := by
  obtain ⟨b, hb, htake, hzero⟩ := kzalloc_block_free 108 (by decide) (by decide)
    (Nat.lt_of_lt_of_eq Nat.one_pos hk.symm)
  obtain ⟨k₁, hget, -, htake₁, -⟩ := pathparserGetPathPart_take hc hlen hrest hb htake hzero
  have hcard₁ : (freeBlocks k₁).card + 1 = (freeBlocks k).card :=
    Takes.card_eq (F := {b}) (by rwa [Finset.coe_singleton])
  unfold pathparserParsePathPart
  dsimp only
  rw [hget, if_neg (blockAddr_ne_zero (htake₁.lt b rfl))]
  dsimp only
  rw [kzalloc_block_full (by decide) (by decide) (by omega), if_neg (not_not.mpr rfl)]
  refine ⟨rfl, (htake₁.keeps _).trans_sameBytes (SameBytes.of_low (fun _ => False) fun x hx => ?_)
    fun _ _ _ _ _ h => h⟩
  have hlow : ∀ j, j < 8 → ¬ InRange (off 0 j) 4 x := by
    intro j hj hr
    have hj' : (off 0 j).toNat = j := by
      rw [toNat_off_of_lt (by rw [UInt32.toNat_zero]; omega), UInt32.toNat_zero, Nat.zero_add]
    unfold InPool at hx
    rw [inRange_iff (by omega), hj'] at hr
    omega
  dsimp only
  rw [Mem.write32_apply_of_not_inRange _ _ (hlow 4 (by omega)),
    Mem.write32_apply_of_not_inRange _ _ (hlow 0 (by omega))]

/-- A part that is not there: its component is empty or there are fewer than two blocks. -/
theorem pathparserParsePathPart_stop {slash : Bool} {extra : List UInt8}
    {cs : List (List UInt8)} (hcs : ∀ c ∈ cs, IsComponent c ∧ c.length < peachosMaxPath)
    (hun : Unread slash cs extra) {k : Kernel} (hk : cs = [] ∨ (freeBlocks k).card < 2) :
    (pathparserParsePathPart 0 (joinPath slash cs ++ extra) k).1 = 0 ∧
      SameBytes k (pathparserParsePathPart 0 (joinPath slash cs ++ extra) k).2.2
        (fun _ => False) ∧
      (cs = [] → 0 < (freeBlocks k).card →
        Keeps k (pathparserParsePathPart 0 (joinPath slash cs ++ extra) k).2.2 fun _ => False) := by
  cases cs with
  | nil =>
      obtain ⟨h0, hsame, hkeeps⟩ := pathparserGetPathPart_ends hun.endsPart k
      rw [joinPath, List.nil_append, pathparserParsePathPart_of_null h0]
      exact ⟨rfl, hsame, fun _ => hkeeps⟩
  | cons c cs =>
      have hc := hcs c List.mem_cons_self
      have hlt : (freeBlocks k).card < 2 := hk.resolve_left (List.cons_ne_nil c cs)
      have hnull : (pathparserParsePathPart 0 (c ++ (afterFirst slash cs ++ extra)) k).1 = 0 ∧
          SameBytes k (pathparserParsePathPart 0 (c ++ (afterFirst slash cs ++ extra)) k).2.2
            fun _ => False := by
        rcases Nat.eq_zero_or_pos (freeBlocks k).card with hcard | hcard
        · obtain ⟨h0, hsame⟩ :=
            pathparserGetPathPart_full hc.1 hc.2 hun.endsPart_afterFirst hcard
          rw [pathparserParsePathPart_of_null h0]
          exact ⟨rfl, hsame⟩
        · exact pathparserParsePathPart_one hc.1 hc.2 hun.endsPart_afterFirst (by omega)
      rw [joinPath_cons, List.append_assoc]
      exact ⟨hnull.1, hnull.2, fun h => absurd h (List.cons_ne_nil c cs)⟩

/-! ### The parts on any heap -/

/-- Without a new part the one parsed last gets at most null for its `next`. -/
theorem pathparserParsePathPart_null (lastPart : UInt32) {path : List UInt8} {k : Kernel}
    (h0 : (pathparserParsePathPart 0 path k).1 = 0) :
    pathparserParsePathPart lastPart path k = pathparserParsePathPart 0 path k ∨
      pathparserParsePathPart lastPart path k =
        (0, (pathparserParsePathPart 0 path k).2.1,
          { (pathparserParsePathPart 0 path k).2.2 with
            mem := (pathparserParsePathPart 0 path k).2.2.mem.write32 (off lastPart 4) 0 }) := by
  rcases eq_or_ne (pathparserGetPathPart path k).1 0 with hget | hget
  · left
    rw [pathparserParsePathPart_of_null hget, pathparserParsePathPart_of_null hget]
  · unfold pathparserParsePathPart at h0 ⊢
    dsimp only at h0 ⊢
    rw [if_neg hget, if_neg (not_not.mpr rfl)] at h0 ⊢
    rw [if_neg hget]
    rcases eq_or_ne lastPart 0 with rfl | hlast
    · left
      rw [if_neg (not_not.mpr rfl)]
    · right
      dsimp only at h0
      rw [if_pos hlast, h0]

/-- The loop stops where there is no part. -/
theorem parsePartsLoop_stop {slash : Bool} {extra : List UInt8} {cs : List (List UInt8)}
    (hcs : ∀ c ∈ cs, IsComponent c ∧ c.length < peachosMaxPath) (hun : Unread slash cs extra)
    {p : ℕ} {k k' : Kernel} (hk : cs = [] ∨ (freeBlocks k).card < 2) (hp : TakenBlock k p)
    (hnext : k.mem.read32 (wordAddr p 1) = 0)
    (hk' : k' = parsePartsLoop (blockAddr p) (joinPath slash cs ++ extra) k) :
    SameBytes k k' (InNext p) ∧ k'.mem.read32 (wordAddr p 1) = 0 ∧
      (cs = [] → 0 < (freeBlocks k).card → Keeps k k' (InNext p)) := by
  obtain ⟨h0, hsame, hkeeps⟩ := pathparserParsePathPart_stop hcs hun hk
  generalize hs : pathparserParsePathPart 0 (joinPath slash cs ++ extra) k = s at h0 hsame hkeeps
  have hlast := pathparserParsePathPart_null (blockAddr p) (hs ▸ h0)
  rw [hs] at hlast
  rw [hk']
  unfold parsePartsLoop
  rcases hlast with hlast | hlast <;> rw [hlast]
  · rw [if_pos h0]
    refine ⟨fun b hb ht x hx _ => hsame b hb ht x hx id, ?_,
      fun hnil hpos => (hkeeps hnil hpos).mono fun x hx => hx.elim⟩
    rw [← hnext]
    exact read32_wordAddr_congr hp.1 (by omega) fun x hx => hsame p hp.1 hp.2 x hx id
  · rw [if_pos rfl]
    have hwrite : Keeps s.2.2
        { s.2.2 with mem := s.2.2.mem.write32 (off (blockAddr p) 4) 0 } (InNext p) :=
      Keeps.of_write (fun x hx => (hx.inBlock hp.1).not_inTable hp.1) fun x hx =>
        Mem.write32_apply_of_not_inRange _ _ hx
    refine ⟨fun b hb ht x hx hw => ?_, Mem.read32_write32 _ _ _, fun hnil hpos => ?_⟩
    · rw [← hsame b hb ht x hx id]
      exact Mem.write32_apply_of_not_inRange _ _ hw
    · exact ((hkeeps hnil hpos).mono fun x hx => hx.elim).trans hwrite fun b hb ht x hx hw => hw

/-- The new part and the parts behind it are the parts behind the structure in block `p`. -/
theorem PartStrings.link {k k₂ k₃ : Kernel} {p q b : ℕ} {c : List UInt8} {cs : List (List UInt8)}
    (hc : IsComponent c) (hp : TakenBlock k p) (hq : EntryFree kernelHeap k.mem q)
    (hkeeps : Keeps k k₂ (InNext p)) (hpart : PartAt k₂ q b c)
    (hlink : k₂.mem.read32 (wordAddr p 1) = blockAddr q) (hsame : SameBytes k₂ k₃ (InNext q))
    (hlist : PartStrings k₃.mem (k₃.mem.read32 (wordAddr q 1)) cs) :
    SameBytes k k₃ (InNext p) ∧
      PartStrings k₃.mem (k₃.mem.read32 (wordAddr p 1)) (c :: cs) := by
  have hqlt : q < 25600 := hpart.struct.1
  have hout : ∀ b < 25600, ¬ EntryFree kernelHeap k.mem b → ∀ x, InNext q x → ¬ InBlock b x :=
    fun b hb ht x hx hxb => ht (InBlock.unique hb hqlt hxb (hx.inBlock hqlt) ▸ hq)
  have hpnext : k₃.mem.read32 (wordAddr p 1) = blockAddr q := by
    rw [← hlink]
    exact read32_wordAddr_congr hp.1 (by omega) fun x hx =>
      hsame p hp.1 (hp.keeps hkeeps).2 x hx fun hw => hout p hp.1 hp.2 x hw hx
  have hqpart : k₃.mem.read32 (wordAddr q 0) = blockAddr b := by
    rw [← hpart.part]
    exact Mem.read32_congr fun x hx => hsame q hqlt hpart.struct.2 x
      (inBlock_of_inRange_wordAddr hqlt (by omega) hx) fun hw => hw.not_first hqlt hx
  have hstr : HoldsString k₃.mem (blockAddr b) c := hpart.string.congr fun x hx =>
    hsame b hpart.buffer.1 hpart.buffer.2 x hx fun hw =>
      hpart.apart (InBlock.unique hpart.buffer.1 hqlt hx (hw.inBlock hqlt))
  refine ⟨hkeeps.trans_sameBytes hsame fun b hb ht x hx hw => absurd hx (hout b hb ht x hw), ?_⟩
  rw [hpnext]
  refine ⟨blockAddr_ne_zero hqlt, ?_, hlist⟩
  change StringAt _ (k₃.mem.read32 (wordAddr q 0)) c
  rw [hqpart]
  exact hstr.stringAt hc

/-- The loop links a part for each component while there are two blocks for it. -/
theorem parsePartsLoop_text {slash : Bool} {extra : List UInt8} :
    ∀ {cs : List (List UInt8)} {p : ℕ} {k k' : Kernel},
    (∀ c ∈ cs, IsComponent c ∧ c.length < peachosMaxPath) → Unread slash cs extra →
    TakenBlock k p → k.mem.read32 (wordAddr p 1) = 0 →
    k' = parsePartsLoop (blockAddr p) (joinPath slash cs ++ extra) k →
    SameBytes k k' (InNext p) ∧
      PartStrings k'.mem (k'.mem.read32 (wordAddr p 1)) (cs.take ((freeBlocks k).card / 2)) ∧
      (2 * cs.length < (freeBlocks k).card → Keeps k k' (InNext p))
  | [], p, k, k', hcs, hun, hp, hnext, hk' => by
      obtain ⟨hsame, hnext', hkeeps⟩ := parsePartsLoop_stop hcs hun (Or.inl rfl) hp hnext hk'
      exact ⟨hsame, by rw [List.take_nil, hnext']; rfl, hkeeps rfl⟩
  | c :: cs, p, k, k', hcs, hun, hp, hnext, hk' => by
      have hc := hcs c List.mem_cons_self
      rcases Nat.lt_or_ge (freeBlocks k).card 2 with hlt | hge
      · obtain ⟨hsame, hnext', -⟩ := parsePartsLoop_stop hcs hun (Or.inr hlt) hp hnext hk'
        rw [Nat.div_eq_of_lt hlt, List.take_zero, hnext']
        exact ⟨hsame, rfl, fun h => by rw [List.length_cons] at h; omega⟩
      obtain ⟨q, b, k₁, hparse, htake, hpart, hnext₁, hcard⟩ :=
        pathparserParsePathPart_free hc.1 hc.2 hun.endsPart_afterFirst hge
      have hlast := pathparserParsePathPart_link (blockAddr_ne_zero hp.1) hparse
        (blockAddr_ne_zero hpart.struct.1)
      rw [hun.next, ← List.append_assoc, ← joinPath_cons] at hlast
      obtain ⟨k₂, hk₂⟩ : ∃ k₂ : Kernel,
        k₂ = { k₁ with mem := k₁.mem.write32 (wordAddr p 1) (blockAddr q) } := ⟨_, rfl⟩
      have hloop : k' = parsePartsLoop (blockAddr q) (joinPath slash cs ++ extra) k₂ := by
        rw [hk', parsePartsLoop, hlast, if_neg (blockAddr_ne_zero hpart.struct.1), hk₂]
        rfl
      have hcard₂ : (freeBlocks k₂).card + 2 = (freeBlocks k).card := by
        rw [← hcard, hk₂, freeBlocks_congr fun x hx => ?_]
        exact write32_wordAddr_apply hp.1 (by omega) _ _ fun hxp => hxp.not_inTable hp.1 hx
      obtain ⟨hkeeps₂, hpart₂, hnext₂, hlink⟩ := hpart.link hp htake hnext₁ hk₂
      obtain ⟨hsame₃, hlist, hkeeps₃⟩ := parsePartsLoop_text
        (fun e he => hcs e (List.mem_cons_of_mem c he)) (hun.tail cs) hpart₂.struct hnext₂ hloop
      obtain ⟨hsame, hparts⟩ := PartStrings.link hc.1 hp (htake.free q (Or.inr rfl)) hkeeps₂ hpart₂
        hlink hsame₃ hlist
      refine ⟨hsame, ?_, fun h => ?_⟩
      · rw [show (freeBlocks k).card / 2 = (freeBlocks k₂).card / 2 + 1 by omega,
          List.take_succ_cons]
        exact hparts
      · rw [List.length_cons] at h
        exact hkeeps₂.trans (hkeeps₃ (by omega)) fun e he ht x hx hw => absurd
          (InBlock.unique he hpart.struct.1 hx (hw.inBlock hpart.struct.1) ▸
            htake.free q (Or.inr rfl)) ht

/-! ### The whole path on any heap -/

theorem pathparserPathValidFormat_cons (d : Fin 10) {t : List UInt8}
    (h0 : 0 ∉ digitChar d :: 58 :: 47 :: t) :
    pathparserPathValidFormat (digitChar d :: 58 :: 47 :: t) = true := by
  unfold pathparserPathValidFormat
  dsimp only
  rw [strnlen_eq _ h0, Bool.and_eq_true, Bool.and_eq_true]
  refine ⟨⟨?_, isdigit_digitChar d⟩, rfl⟩
  unfold peachosMaxPath
  simp only [List.length_cons, decide_eq_true_eq]
  omega

theorem isdigit_iff : ∀ c : UInt8, isdigit c = true ↔ ∃ d, c = digitChar d := by
  decide +kernel

/-- The format of a path: a digit, a colon and a slash. -/
theorem pathparserPathValidFormat_iff {path : List UInt8} (h0 : 0 ∉ path) :
    pathparserPathValidFormat path = true ↔ ∃ d t, path = digitChar d :: 58 :: 47 :: t := by
  constructor
  · unfold pathparserPathValidFormat
    dsimp only
    rw [Bool.and_eq_true, Bool.and_eq_true, beq_iff_eq]
    rintro ⟨⟨hlen, hdigit⟩, hsep⟩
    obtain ⟨d, hd⟩ := (isdigit_iff _).mp hdigit
    match path, hsep, hd with
    | a :: b :: c :: t, hsep, hd =>
        refine ⟨d, t, ?_⟩
        simp only [List.drop_succ_cons, List.drop_zero, List.take_succ_cons, List.take_zero,
          List.cons.injEq, and_true] at hsep
        rw [hsep.1, hsep.2, ← hd]
        rfl
  · rintro ⟨d, t, rfl⟩
    exact pathparserPathValidFormat_cons d h0

/-- While a block is free there is a root structure without parts. -/
theorem pathparserCreateRoot_free (driveNumber : ℤ) {k : Kernel} (hk : 0 < (freeBlocks k).card) :
    ∃ r k', pathparserCreateRoot driveNumber k = (blockAddr r, k') ∧ Takes k k' {r} ∧
      k'.mem.read32 (wordAddr r 0) = UInt32.ofInt driveNumber ∧
      k'.mem.read32 (wordAddr r 1) = 0 ∧ (freeBlocks k').card + 1 = (freeBlocks k).card := by
  obtain ⟨r, hr, htake, -⟩ := kzalloc_block_free 8 (by decide) (by decide) hk
  have hlt : r < 25600 := htake.lt r rfl
  have hwrite : Takes k ⟨((kzalloc 8 k).2.mem.write32 (wordAddr r 0)
      (UInt32.ofInt driveNumber)).write32 (wordAddr r 1) 0, (kzalloc 8 k).2.oom⟩ {r} := by
    refine htake.write fun x hx => ?_
    dsimp only
    rw [write32_wordAddr_apply hlt (by omega) _ _ (hx r rfl),
      write32_wordAddr_apply hlt (by omega) _ _ (hx r rfl)]
  unfold pathparserCreateRoot
  dsimp only
  rw [hr]
  refine ⟨r, _, rfl, hwrite, ?_, Mem.read32_write32 _ _ _, ?_⟩
  · change Mem.read32 (Mem.write32 (Mem.write32 _ (wordAddr r 0) _) (wordAddr r 1) 0) _ = _
    rw [read32_write32_wordAddr hlt (by omega) hlt (by omega) (by omega)]
    exact Mem.read32_write32 _ _ _
  · exact Takes.card_eq (F := {r}) (by rwa [Finset.coe_singleton])

/-- The parts of a root: `first` is linked as `next` of a part is. -/
theorem pathparserParse_parts_text {slash : Bool} {extra : List UInt8} {cs : List (List UInt8)}
    (hcs : ∀ c ∈ cs, IsComponent c ∧ c.length < peachosMaxPath) (hun : Unread slash cs extra)
    {r : ℕ} {k k' : Kernel} {s : UInt32 × List UInt8 × Kernel} (hr : TakenBlock k r)
    (hfirst : k.mem.read32 (wordAddr r 1) = 0)
    (hs : pathparserParsePathPart 0 (joinPath slash cs ++ extra) k = s)
    (hk' : k' = if s.1 = 0 then s.2.2 else parsePartsLoop s.1 s.2.1
      { s.2.2 with mem := s.2.2.mem.write32 (off (blockAddr r) 4) s.1 }) :
    SameBytes k k' (InNext r) ∧
      PartStrings k'.mem (k'.mem.read32 (wordAddr r 1)) (cs.take ((freeBlocks k).card / 2)) ∧
      (2 * cs.length < (freeBlocks k).card → Keeps k k' (InNext r)) := by
  rcases eq_or_ne s.1 0 with h0 | h0
  · have hstop : cs = [] ∨ (freeBlocks k).card < 2 := by
      by_contra hgo
      rw [not_or] at hgo
      obtain ⟨c, es, rfl⟩ := List.exists_cons_of_ne_nil hgo.1
      have hc := hcs c List.mem_cons_self
      obtain ⟨q, b, k₁, hparse, -, hpart, -⟩ := pathparserParsePathPart_free hc.1 hc.2
        hun.endsPart_afterFirst (Nat.not_lt.mp hgo.2)
      rw [joinPath_cons, List.append_assoc, hparse] at hs
      exact blockAddr_ne_zero hpart.struct.1 (by rw [← h0, ← hs])
    obtain ⟨-, hsame, hkeeps⟩ := pathparserParsePathPart_stop hcs hun hstop
    rw [hs] at hsame hkeeps
    rw [if_pos h0] at hk'
    subst hk'
    have hnull : s.2.2.mem.read32 (wordAddr r 1) = 0 := by
      rw [← hfirst]
      exact read32_wordAddr_congr hr.1 (by omega) fun x hx => hsame r hr.1 hr.2 x hx id
    have hnone : cs.take ((freeBlocks k).card / 2) = [] := by
      rcases hstop with rfl | hlt
      · exact List.take_nil
      · rw [Nat.div_eq_of_lt hlt, List.take_zero]
    refine ⟨fun b hb ht x hx _ => hsame b hb ht x hx id, ?_, fun hlt => ?_⟩
    · rw [hnone, hnull]
      rfl
    · have hnil : cs = [] := by
        rcases hstop with h | h
        · exact h
        · exact List.length_eq_zero_iff.mp (by omega)
      exact (hkeeps hnil (by omega)).mono fun x hx => hx.elim
  · rw [if_neg h0] at hk'
    refine parsePartsLoop_text hcs hun hr hfirst (hk'.trans (Eq.symm ?_))
    rw [parsePartsLoop, pathparserParsePathPart_link (blockAddr_ne_zero hr.1) hs h0, if_neg h0]

/-- **What the parser reads.**  On every string of the format `d:/…` and every heap with a free
block, the root has the drive and the components up to the first empty one, as far as there
are two blocks for each. -/
theorem pathparserParse_text (d : Fin 10) {slash : Bool} {cs : List (List UInt8)}
    {extra : List UInt8} (hcs : ∀ c ∈ cs, IsComponent c) (hun : Unread slash cs extra)
    (h0 : 0 ∉ digitChar d :: 58 :: 47 :: (joinPath slash cs ++ extra))
    (hlen : (digitChar d :: 58 :: 47 :: (joinPath slash cs ++ extra)).length ≤ peachosMaxPath)
    {k : Kernel} (hk : 0 < (freeBlocks k).card) :
    ∃ r k', pathparserParse (digitChar d :: 58 :: 47 :: (joinPath slash cs ++ extra)) k =
        (blockAddr r, k') ∧ r < 25600 ∧ EntryFree kernelHeap k.mem r ∧
      RootStrings k'.mem (blockAddr r) (UInt32.ofNat d)
        (cs.take (((freeBlocks k).card - 1) / 2)) ∧
      (2 * cs.length + 1 < (freeBlocks k).card → Keeps k k' (fun _ => False) ∧
        ¬ EntryFree kernelHeap k'.mem r) := by
  have hshort : ∀ c ∈ cs, IsComponent c ∧ c.length < peachosMaxPath := by
    intro c hc
    have hle := length_le_joinPath slash hc
    simp only [List.length_cons, List.length_append] at hlen
    exact ⟨hcs c hc, by omega⟩
  have hdrive : pathparserGetDriveByPath (digitChar d :: 58 :: 47 :: (joinPath slash cs ++ extra)) =
      (((d : ℕ) : ℤ), joinPath slash cs ++ extra) := by
    unfold pathparserGetDriveByPath
    rw [if_pos (pathparserPathValidFormat_cons d h0)]
    exact Prod.ext (tonumericdigit_digitChar d) rfl
  obtain ⟨r, k₁, hroot, htake, hdriveNo, hfirst, hcard⟩ := pathparserCreateRoot_free d hk
  have hr : TakenBlock k₁ r := ⟨htake.lt r rfl, htake.taken rfl⟩
  obtain ⟨s, hs⟩ : ∃ s, pathparserParsePathPart 0 (joinPath slash cs ++ extra) k₁ = s := ⟨_, rfl⟩
  obtain ⟨k', hk'⟩ : ∃ k', k' = if s.1 = 0 then s.2.2 else parsePartsLoop s.1 s.2.1
    { s.2.2 with mem := s.2.2.mem.write32 (off (blockAddr r) 4) s.1 } := ⟨_, rfl⟩
  obtain ⟨hsame, hlist, hkeeps⟩ := pathparserParse_parts_text hshort hun hr hfirst hs hk'
  refine ⟨r, k', ?_, hr.1, htake.free r rfl, ⟨blockAddr_ne_zero hr.1, ?_, ?_⟩, fun hlt => ?_⟩
  · rw [pathparserParse_of_drive (by rwa [strlen_eq_length h0]) hdrive, hroot,
      if_neg (blockAddr_ne_zero hr.1)]
    dsimp only
    rw [hs, hk']
    split_ifs <;> rfl
  · change k'.mem.read32 (wordAddr r 0) = _
    rw [← ofInt_natCast, ← hdriveNo]
    exact Mem.read32_congr fun x hx => hsame r hr.1 hr.2 x
      (inBlock_of_inRange_wordAddr hr.1 (by omega) hx) fun hw => hw.not_first hr.1 hx
  · rw [show (freeBlocks k).card - 1 = (freeBlocks k₁).card by omega]
    exact hlist
  · have hkeeps := hkeeps (by omega)
    refine ⟨(htake.keeps _).trans hkeeps fun b hb ht x hx hw => ?_, hkeeps.taken r hr.1 hr.2⟩
    exact ht (InBlock.unique hb hr.1 hx (hw.inBlock hr.1) ▸ htake.free r rfl)

/-! ### What is dropped -/

/-- The drive digit, `:/` and the parts with slashes between them. -/
def writePath (d : UInt32) (slash : Bool) (cs : List (List UInt8)) : List UInt8 :=
  UInt8.ofNat (48 + d.toNat) :: 58 :: 47 :: joinPath slash cs

/-- If the root that the parser returns has parts, they give back the path, up to a slash at
its end. -/
def KeepsText (path : List UInt8) (k : Kernel) : Prop :=
  ∀ d cs, RootStrings (pathparserParse path k).2.mem (pathparserParse path k).1 d cs → cs ≠ [] →
    ∃ slash, path = writePath d slash cs

/-- There are no parts: the path is too long or has another format, it has no component behind
the drive, or there is no room for one. -/
def NoParts (path : List UInt8) (k : Kernel) : Prop :=
  peachosMaxPath < path.length ∨ pathparserPathValidFormat path = false ∨
    (path.drop 3).headD 47 = 47 ∨ (freeBlocks k).card < 3

theorem writePath_ofNat (d : Fin 10) (slash : Bool) (cs : List (List UInt8)) :
    writePath (UInt32.ofNat d) slash cs = digitChar d :: 58 :: 47 :: joinPath slash cs := by
  have hd : (UInt32.ofNat d).toNat = d := by
    rw [UInt32.toNat_ofNat_of_lt']
    exact Nat.lt_trans d.2 (by decide)
  unfold writePath digitChar
  rw [hd]

theorem headD_joinPath_append {slash : Bool} {cs : List (List UInt8)} {extra : List UInt8}
    (hcs : ∀ c ∈ cs, IsComponent c) (hun : Unread slash cs extra) :
    (joinPath slash cs ++ extra).headD 47 = 47 ↔ cs = [] := by
  cases cs with
  | nil =>
      refine iff_of_true ?_ rfl
      rcases hun with rfl | ⟨h, -⟩
      · rfl
      · cases extra with
        | nil => rfl
        | cons a extra => exact h
  | cons c cs =>
      obtain ⟨x, c', hc'⟩ := List.exists_cons_of_ne_nil (hcs c List.mem_cons_self).1
      refine iff_of_false ?_ (List.cons_ne_nil c cs)
      rw [joinPath_cons, hc']
      exact ((hcs c List.mem_cons_self).2 x (hc' ▸ List.mem_cons_self)).1

/-- A path that is refused. -/
theorem pathparserParse_refused {path : List UInt8} (h0 : 0 ∉ path) {k : Kernel}
    (h : peachosMaxPath < path.length ∨ pathparserPathValidFormat path = false ∨
      (freeBlocks k).card = 0) : (pathparserParse path k).1 = 0 := by
  rw [← strlen_eq_length h0] at h
  unfold pathparserParse
  split_ifs with hlen
  · rfl
  dsimp only
  cases hformat : pathparserPathValidFormat path with
  | false =>
      have hdrive : pathparserGetDriveByPath path = (-EBADPATH, path) := by
        unfold pathparserGetDriveByPath
        rw [hformat, if_neg Bool.false_ne_true]
      rw [hdrive, if_pos (by decide : -EBADPATH < 0)]
  | true =>
      have hcard := (h.resolve_left hlen).resolve_left (by rw [hformat]; exact Bool.noConfusion)
      split_ifs with hneg hroot hfirst
      · rfl
      · rfl
      all_goals
        refine absurd ?_ hroot
        unfold pathparserCreateRoot
        dsimp only
        rw [kzalloc_block_full (by decide) (by decide) hcard]

theorem digitChar_ne_slash (d : Fin 10) : digitChar d ≠ 47 := by
  revert d
  decide

/-- The slashes of a path that is read whole, but for one at its end. -/
theorem count_dropLast_path (d : Fin 10) (slash : Bool) {cs : List (List UInt8)}
    (hcs : ∀ c ∈ cs, IsComponent c) (hne : cs ≠ []) :
    (digitChar d :: 58 :: 47 :: joinPath slash cs).dropLast.count 47 = cs.length := by
  have hj := joinPath_ne_nil slash hcs hne
  rw [List.dropLast_cons_of_ne_nil (by simp), List.dropLast_cons_of_ne_nil (by simp),
    List.dropLast_cons_of_ne_nil hj, List.count_cons_of_ne (digitChar_ne_slash d),
    List.count_cons_of_ne (by decide), List.count_cons_self, count_dropLast_joinPath slash hcs hne]

theorem noDoubleSlash_path (d : Fin 10) {slash : Bool} {cs : List (List UInt8)}
    {extra : List UInt8} (hcs : ∀ c ∈ cs, IsComponent c) (hne : cs ≠ [])
    (hun : Unread slash cs extra) :
    NoDoubleSlash (digitChar d :: 58 :: 47 :: (joinPath slash cs ++ extra)) ↔ extra = [] := by
  have hhead : (joinPath slash cs ++ extra).headD 0 ≠ 47 := by
    obtain ⟨c, cs, rfl⟩ := List.exists_cons_of_ne_nil hne
    rw [joinPath_cons, List.append_assoc]
    exact (hcs c List.mem_cons_self).headD_append
  rw [noDoubleSlash_cons (digitChar_ne_slash d), noDoubleSlash_cons (by decide),
    noDoubleSlash_slash_cons, and_iff_right hhead, noDoubleSlash_joinPath hcs hne hun]

/-- The parts that are read give the path back if there are none or if they are all of it. -/
theorem keepsText_iff_of_root {d : Fin 10} {slash : Bool} {cs : List (List UInt8)}
    {extra : List UInt8} {k : Kernel} {j : ℕ} (hcs : ∀ c ∈ cs, IsComponent c)
    (hun : Unread slash cs extra)
    (hroot : RootStrings
      (pathparserParse (digitChar d :: 58 :: 47 :: (joinPath slash cs ++ extra)) k).2.mem
      (pathparserParse (digitChar d :: 58 :: 47 :: (joinPath slash cs ++ extra)) k).1
      (UInt32.ofNat d) (cs.take j)) :
    KeepsText (digitChar d :: 58 :: 47 :: (joinPath slash cs ++ extra)) k ↔
      cs.take j = [] ∨ extra = [] ∧ cs.length ≤ j := by
  constructor
  · intro h
    rcases eq_or_ne (cs.take j) [] with hnil | hne
    · exact Or.inl hnil
    · obtain ⟨slash', hpath⟩ := h _ _ hroot hne
      rw [writePath_ofNat] at hpath
      have htext : joinPath slash cs ++ extra = joinPath slash' (cs.take j) := by
        simpa using hpath
      have hcsne : cs ≠ [] := fun h => hne (by rw [h, List.take_nil])
      exact Or.inr (joinPath_take_eq hcs hun hcsne htext)
  · intro h d' cs' hroot' hne
    obtain ⟨rfl, rfl⟩ := hroot'.unique hroot
    obtain ⟨rfl, hj⟩ := h.resolve_left hne
    exact ⟨slash, by rw [writePath_ofNat, List.take_of_length_le hj, List.append_nil]⟩

/-- **What the parser drops.**  The root that is returned has a drive and parts; these give
the whole path back if and only if there are no parts, or the path has no two slashes in a
row and there are blocks for the root and for two more for every part. -/
theorem pathparserParse_keepsText_iff {path : List UInt8} (h0 : 0 ∉ path) (k : Kernel) :
    ((pathparserParse path k).1 ≠ 0 →
      ∃ d cs, RootStrings (pathparserParse path k).2.mem (pathparserParse path k).1 d cs) ∧
    (KeepsText path k ↔ NoParts path k ∨
      NoDoubleSlash path ∧ 2 * path.dropLast.count 47 < (freeBlocks k).card) := by
  by_cases href : peachosMaxPath < path.length ∨ pathparserPathValidFormat path = false ∨
    (freeBlocks k).card = 0
  · have hnull := pathparserParse_refused h0 href
    refine ⟨fun h => absurd hnull h, iff_of_true (fun d cs h _ => absurd hnull h.1) (Or.inl ?_)⟩
    unfold NoParts
    exact href.imp_right (Or.imp_right fun h => Or.inr (by omega))
  simp only [not_or, Bool.not_eq_false, Nat.not_lt] at href
  obtain ⟨hlen, hformat, hcard⟩ := href
  obtain ⟨d, t, rfl⟩ := (pathparserPathValidFormat_iff h0).mp hformat
  obtain ⟨slash, cs, extra, rfl, hcs, hun⟩ := exists_joinPath t.length t le_rfl
    fun h => h0 (List.mem_cons_of_mem _ (List.mem_cons_of_mem _ (List.mem_cons_of_mem _ h)))
  obtain ⟨r, k', hparse, -, -, hroot, -⟩ :=
    pathparserParse_text d hcs hun h0 hlen (Nat.pos_of_ne_zero hcard)
  have hkeeps := keepsText_iff_of_root hcs hun (by rw [hparse]; exact hroot)
  have hnone : NoParts (digitChar d :: 58 :: 47 :: (joinPath slash cs ++ extra)) k ↔
      cs = [] ∨ (freeBlocks k).card < 3 := by
    unfold NoParts
    rw [hformat]
    simp only [Nat.not_lt.mpr hlen, Bool.true_eq_false, false_or]
    exact or_congr_left (headD_joinPath_append hcs hun)
  refine ⟨fun _ => ⟨_, _, by rw [hparse]; exact hroot⟩, hkeeps.trans ?_⟩
  rw [hnone, List.take_eq_nil_iff]
  rcases eq_or_ne cs [] with rfl | hne
  · simp
  rw [noDoubleSlash_path d hcs hne hun]
  by_cases hextra : extra = []
  · subst hextra
    rw [List.append_nil, count_dropLast_path d slash hcs hne]
    simp only [hne, true_and, false_or, or_false]
    omega
  · simp only [hne, hextra, false_and, false_or, or_false]
    omega

/-- The path `0:/a//b` in a kernel with an empty heap has the one part `a`. -/
theorem pathparserParse_double_slash :
    ∃ d, RootStrings (pathparserParse [48, 58, 47, 97, 47, 47, 98] freshKernel).2.mem
      (pathparserParse [48, 58, 47, 97, 47, 47, 98] freshKernel).1 d [[97]] := by
  have hcard := freshKernel_topFree.card_le
  have hcs : ∀ c ∈ [[97]], IsComponent c := by
    intro c hc
    rw [List.mem_singleton.mp hc]
    refine ⟨by decide, fun x hx => ?_⟩
    rw [List.mem_singleton.mp hx]
    decide
  have hun : Unread true [[97]] [47, 98] := Or.inr ⟨rfl, Or.inl rfl⟩
  have hfree : 0 < (freeBlocks freshKernel).card := by omega
  obtain ⟨r, k', hparse, -, -, hroot, -⟩ :=
    pathparserParse_text 0 hcs hun (by decide) (by decide) hfree
  rw [List.take_of_length_le (by rw [List.length_singleton]; omega)] at hroot
  refine ⟨UInt32.ofNat (0 : Fin 10), ?_⟩
  have hpath : ([48, 58, 47, 97, 47, 47, 98] : List UInt8) =
      digitChar 0 :: 58 :: 47 :: (joinPath true [[97]] ++ [47, 98]) := by decide
  rw [hpath, hparse]
  exact hroot

/-- It is not given back. -/
theorem not_keepsText_double_slash :
    ¬ ∀ (path : List UInt8) (k : Kernel), 0 ∉ path → KeepsText path k := by
  intro h
  obtain ⟨d, hroot⟩ := pathparserParse_double_slash
  obtain ⟨slash, hpath⟩ := h _ _ (by decide) d _ hroot (by decide)
  cases slash <;> simp [writePath, joinPath] at hpath

theorem pathparserParse_keepsText_iff_double_slash :
    (0 : UInt8) ∉ [(48 : UInt8), 58, 47, 97, 47, 47, 98] ∧
      ¬ KeepsText [48, 58, 47, 97, 47, 47, 98] freshKernel := by
  refine ⟨by decide, fun h => ?_⟩
  have hcard := freshKernel_topFree.card_le
  rcases ((pathparserParse_keepsText_iff (by decide) freshKernel).2.mp h) with hnone | ⟨hslash, -⟩
  · rcases hnone with h | h | h | h
    · exact absurd h (by decide)
    · exact absurd h (by decide)
    · exact absurd h (by decide)
    · omega
  · exact absurd hslash (by decide)

end PeachOS
