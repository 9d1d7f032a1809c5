import Mathlib

/-! # Doubly linked lists

Nodes of any type `α` with two successor functions `next` and `prev`, a null value, and the two
ends of a list.  `Path f a l b` says that the nodes from `a` on along `f` are `l`, up to `b`; a
list of nodes is linked if it is such a path both ways (`Linked`).  `Linked.cyclicNext_iterate`
goes around it; `Linked.concat` and `Linked.dropLast` are the edits at its end. -/

namespace LinkedList

variable {α : Type} {f g : α → α} {a b : α} {l l' : List α}

/-- From `a` on the nodes along `f` are those of `l`, and behind them comes `b`. -/
def Path (f : α → α) : α → List α → α → Prop
  | a, [], b => a = b
  | a, x :: l, b => a = x ∧ Path f (f x) l b

theorem Path.congr (h : Path f a l b) (hfg : ∀ x ∈ l, g x = f x) : Path g a l b := by
  induction l generalizing a with
  | nil => exact h
  | cons x l ih =>
      refine ⟨h.1, ?_⟩
      rw [hfg x List.mem_cons_self]
      exact ih h.2 fun y hy => hfg y (List.mem_cons_of_mem x hy)

theorem Path.update [DecidableEq α] {c : α} (h : Path f a l b) (hc : c ∉ l) (v : α) :
    Path (Function.update f c v) a l b :=
  h.congr fun x hx => Function.update_of_ne (fun hxc : x = c => hc (hxc ▸ hx)) v f

theorem path_append : Path f a (l ++ l') b ↔ ∃ c, Path f a l c ∧ Path f c l' b := by
  induction l generalizing a with
  | nil => exact ⟨fun h => ⟨a, rfl, h⟩, fun ⟨c, hc, h⟩ => hc ▸ h⟩
  | cons x l ih =>
      constructor
      · intro ⟨hx, h⟩
        obtain ⟨c, hc, h'⟩ := ih.mp h
        exact ⟨c, ⟨hx, hc⟩, h'⟩
      · intro ⟨c, ⟨hx, hc⟩, h'⟩
        exact ⟨hx, ih.mpr ⟨c, hc, h'⟩⟩

theorem path_concat {x : α} : Path f a (l ++ [x]) b ↔ Path f a l x ∧ f x = b := by
  rw [path_append]
  exact ⟨fun ⟨c, h, hc, hx⟩ => ⟨hc ▸ h, hx⟩, fun ⟨h, hx⟩ => ⟨x, h, rfl, hx⟩⟩

theorem Path.start_mem (h : Path f a l b) : a = b ∨ a ∈ l := by
  cases l with
  | nil => exact Or.inl h
  | cons x l => exact Or.inr (h.1 ▸ List.mem_cons_self)

/-- The step from a node leads to a node or to the end. -/
theorem Path.step_mem {x : α} (h : Path f a l b) (hx : x ∈ l) : f x = b ∨ f x ∈ l := by
  induction l generalizing a with
  | nil => exact absurd hx List.not_mem_nil
  | cons y l ih =>
      rcases List.mem_cons.mp hx with rfl | hx
      · exact (h.2 : Path f (f x) l b).start_mem.imp_right (List.mem_cons_of_mem x)
      · exact (ih h.2 hx).imp_right (List.mem_cons_of_mem y)

/-- No step stays at a node. -/
theorem Path.step_ne {x : α} (h : Path f a l b) (hnodup : l.Nodup) (hb : b ∉ l) (hx : x ∈ l) :
    f x ≠ x := by
  induction l generalizing a with
  | nil => exact absurd hx List.not_mem_nil
  | cons y l ih =>
      have hyl := (List.nodup_cons.mp hnodup).1
      rcases List.mem_cons.mp hx with rfl | hx
      · intro hfx
        rcases (h.2 : Path f (f x) l b).start_mem with hbx | hmem
        · exact hb (hbx.symm.trans hfx ▸ List.mem_cons_self)
        · exact hyl (hfx ▸ hmem)
      · exact ih h.2 (List.nodup_cons.mp hnodup).2 (fun hbl => hb (List.mem_cons_of_mem y hbl)) hx

/-- Every node but the first comes behind another one. -/
theorem Path.exists_step {x : α} (h : Path f a l b) (hx : x ∈ l) (ha : x ≠ a) :
    ∃ y ∈ l, f y = x := by
  induction l generalizing a with
  | nil => exact absurd hx List.not_mem_nil
  | cons y l ih =>
      have hxl : x ∈ l := (List.mem_cons.mp hx).resolve_left fun e => ha (e.trans h.1.symm)
      rcases eq_or_ne x (f y) with rfl | hne
      · exact ⟨y, List.mem_cons_self, rfl⟩
      · obtain ⟨z, hz, hzx⟩ := ih h.2 hxl hne
        exact ⟨z, List.mem_cons_of_mem y hz, hzx⟩

/-- The nodes of `l` are linked from `head` to `tail` and back, with null behind both ends. -/
structure Linked (null : α) (next prev : α → α) (head tail : α) (l : List α) : Prop where
  forward : Path next head l null
  backward : Path prev tail l.reverse null
  nodup : l.Nodup
  notMem : null ∉ l

variable {null head tail x : α} {next prev : α → α}

/-- Only the empty list has no head. -/
theorem Linked.head_eq_null (h : Linked null next prev head tail l) : head = null ↔ l = [] := by
  cases l with
  | nil => exact iff_of_true h.forward rfl
  | cons y l =>
      refine iff_of_false (fun h0 => h.notMem ?_) (List.cons_ne_nil y l)
      rw [← h0, h.forward.1]
      exact List.mem_cons_self

/-- The tail is a node of a list that is not empty. -/
theorem Linked.tail_eq (h : Linked null next prev head tail (l ++ [x])) : tail = x := by
  have hback := h.backward
  rw [List.reverse_append] at hback
  exact hback.1

theorem Linked.single (hnext : next x = null) (hprev : prev x = null)
    (hx : x ≠ null) : Linked null next prev x x [x] where
  forward := ⟨rfl, hnext⟩
  backward := ⟨rfl, hprev⟩
  nodup := List.nodup_singleton x
  notMem h := hx (List.mem_singleton.mp h).symm

theorem Linked.tail_mem (h : Linked null next prev head tail l) (hl : l ≠ []) : tail ∈ l := by
  obtain ⟨l, x, rfl⟩ := (List.eq_nil_or_concat' l).resolve_left hl
  rw [h.tail_eq]
  exact List.mem_append_right l (List.mem_singleton_self x)

theorem Linked.head_mem (h : Linked null next prev head tail l) (hl : l ≠ []) : head ∈ l := by
  obtain ⟨x, l, rfl⟩ := List.exists_cons_of_ne_nil hl
  rw [h.forward.1]
  exact List.mem_cons_self

/-- Only the links of the nodes matter. -/
theorem Linked.congr {next' prev' : α → α} (h : Linked null next prev head tail l)
    (hnext : ∀ x ∈ l, next' x = next x) (hprev : ∀ x ∈ l, prev' x = prev x) :
    Linked null next' prev' head tail l :=
  ⟨h.forward.congr hnext, h.backward.congr fun x hx => hprev x (List.mem_reverse.mp hx), h.nodup,
    h.notMem⟩

/-- What comes before a node is a node or null. -/
theorem Linked.prev_mem (h : Linked null next prev head tail l) (hx : x ∈ l) :
    prev x = null ∨ prev x ∈ l := by
  have hstep := h.backward.step_mem (List.mem_reverse.mpr hx)
  exact hstep.imp_right List.mem_reverse.mp

theorem Linked.prev_ne (h : Linked null next prev head tail l) (hx : x ∈ l) : prev x ≠ x :=
  h.backward.step_ne (List.nodup_reverse.mpr h.nodup) (mt List.mem_reverse.mp h.notMem)
    (List.mem_reverse.mpr hx)

/-- A node that is not the last comes before another one. -/
theorem Linked.exists_prev (h : Linked null next prev head tail l) (hx : x ∈ l) (ht : x ≠ tail) :
    ∃ y ∈ l, prev y = x := by
  obtain ⟨y, hy, hyx⟩ := h.backward.exists_step (List.mem_reverse.mpr hx) ht
  exact ⟨y, List.mem_reverse.mp hy, hyx⟩

/-! ### Around a list -/

/-- Behind each node of the path comes the next one, and the end behind the last. -/
theorem Path.getElem?_succ {x : α} (h : Path f a l b) {i : ℕ} (hx : l[i]? = some x) :
    (l ++ [b])[i + 1]? = some (f x) := by
  induction l generalizing a i with
  | nil => exact absurd hx (by simp)
  | cons y l ih =>
      rw [List.cons_append, List.getElem?_cons_succ]
      cases i with
      | zero =>
          obtain rfl : y = x := by simpa using hx
          cases l with
          | nil => exact congrArg some h.2.symm
          | cons z l => exact congrArg some h.2.1.symm
      | succ i =>
          rw [List.getElem?_cons_succ] at hx
          exact ih h.2 hx

variable [DecidableEq α]

/-- The node behind `a`, and the head behind the last node. -/
def cyclicNext (null head : α) (next : α → α) (a : α) : α :=
  if next a = null then head else next a

theorem Linked.cyclicNext_getElem? (h : Linked null next prev head tail l) {i : ℕ}
    (hx : l[i]? = some x) :
    l[(i + 1) % l.length]? = some (cyclicNext null head next x) := by
  have hstep := h.forward.getElem?_succ hx
  obtain ⟨hi, -⟩ := List.getElem?_eq_some_iff.mp hx
  unfold cyclicNext
  by_cases hs : i + 1 < l.length
  · rw [List.getElem?_append_left hs] at hstep
    have hne : next x ≠ null := fun h0 => h.notMem (h0 ▸ List.mem_of_getElem? hstep)
    rw [if_neg hne, Nat.mod_eq_of_lt hs, hstep]
  · have hlast : i + 1 = l.length := by omega
    rw [hlast, List.getElem?_concat_length, Option.some.injEq] at hstep
    rw [if_pos hstep.symm, hlast, Nat.mod_self]
    have hne : l ≠ [] := List.ne_nil_of_length_pos (Nat.zero_lt_of_lt hi)
    obtain ⟨y, l, rfl⟩ := List.exists_cons_of_ne_nil hne
    rw [List.getElem?_cons_zero, h.forward.1]

/-- By induction on the steps. -/
theorem Linked.cyclicNext_iterate (h : Linked null next prev head tail l) {i : ℕ}
    (hx : l[i]? = some x) (k : ℕ) :
    l[(i + k) % l.length]? = some ((cyclicNext null head next)^[k] x) := by
  induction k with
  | zero =>
      obtain ⟨hi, -⟩ := List.getElem?_eq_some_iff.mp hx
      rwa [Nat.add_zero, Nat.mod_eq_of_lt hi]
  | succ k ih =>
      rw [Function.iterate_succ_apply', ← h.cyclicNext_getElem? ih, Nat.mod_add_mod,
        Nat.add_assoc]

/-! ### Edits at the end -/

/-- A node is linked in behind the tail. -/
theorem Linked.concat (h : Linked null next prev head tail l) (hl : l ≠ []) (hx : x ≠ null)
    (hmem : x ∉ l) (hnext : next x = null) :
    Linked null (Function.update next tail x) (Function.update prev x tail) head x (l ++ [x]) := by
  obtain ⟨l, t, rfl⟩ := (List.eq_nil_or_concat' l).resolve_left hl
  obtain rfl := h.tail_eq
  obtain ⟨hinit, -⟩ := path_concat.mp h.forward
  have htx : x ≠ tail := fun hxt => hmem (List.mem_append_right l (hxt ▸ List.mem_singleton_self x))
  have hapart : tail ∉ l := fun ht =>
    (List.nodup_append.mp h.nodup).2.2 tail ht tail (List.mem_singleton_self tail) rfl
  constructor
  · rw [path_concat, path_concat, Function.update_self, Function.update_of_ne htx]
    exact ⟨⟨hinit.update hapart x, rfl⟩, hnext⟩
  · rw [List.reverse_append]
    refine ⟨rfl, ?_⟩
    rw [Function.update_self]
    exact h.backward.update (mt List.mem_reverse.mp hmem) tail
  · refine List.nodup_append.mpr ⟨h.nodup, List.nodup_singleton x, fun y hy z hz hyz => hmem ?_⟩
    rwa [← List.mem_singleton.mp hz, ← hyz]
  · intro h0
    rcases List.mem_append.mp h0 with h0 | h0
    · exact h.notMem h0
    · exact hx (List.mem_singleton.mp h0).symm

/-- The last of several nodes is unlinked. -/
theorem Linked.dropLast (h : Linked null next prev head tail (l ++ [x])) (hl : l ≠ []) :
    prev x ≠ null ∧ Linked null (Function.update next (prev x) null) prev head (prev x) l := by
  obtain ⟨l, p, rfl⟩ := (List.eq_nil_or_concat' l).resolve_left hl
  have hback := h.backward
  rw [List.reverse_append, List.reverse_append] at hback
  obtain ⟨-, rfl, hrest⟩ := hback
  have hnodup := (List.nodup_append.mp h.nodup).1
  have hapart : prev x ∉ l := fun hp =>
    (List.nodup_append.mp hnodup).2.2 _ hp _ (List.mem_singleton_self _) rfl
  obtain ⟨hinit, -⟩ := path_concat.mp (path_concat.mp h.forward).1
  refine ⟨fun h0 => h.notMem ?_, ⟨?_, ?_, hnodup, fun h0 => h.notMem (List.mem_append_left _ h0)⟩⟩
  · exact List.mem_append_left _ (List.mem_append_right _ (h0 ▸ List.mem_singleton_self _))
  · rw [path_concat, Function.update_self]
    exact ⟨hinit.update hapart null, rfl⟩
  · rw [List.reverse_append]
    exact ⟨rfl, hrest⟩

end LinkedList
