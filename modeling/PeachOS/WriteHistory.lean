import Mathlib

/-! # Write histories

A total map that is only changed by point updates is determined by its first value and by
the list of the updates, oldest first.

* `replay f h` performs the writes of `h` on `f`.
* `lastWrite h a` is the value of the last write to `a`, if there is one, and `replay_apply`
  says that this, or else the first value, is what the map holds.
* `sweep key val n` is the history of a loop that writes `val i` to `key i`. -/

namespace WriteHistory

variable {α β : Type*}

/-- The writes of a loop with `n` rounds. -/
def sweep (key : ℕ → α) (val : ℕ → β) (n : ℕ) : List (α × β) :=
  (List.range n).map fun i => (key i, val i)

/-- The first round of a loop taken apart from the rest. -/
theorem sweep_succ (key : ℕ → α) (val : ℕ → β) (n : ℕ) :
    sweep key val (n + 1) =
      (key 0, val 0) :: sweep (fun i => key (i + 1)) (fun i => val (i + 1)) n := by
  unfold sweep
  rw [List.range_succ_eq_map, List.map_cons, List.map_map]
  rfl

variable [DecidableEq α]

/-- The map after the writes of the history, oldest first. -/
def replay (f : α → β) (h : List (α × β)) : α → β :=
  h.foldl (fun f p => Function.update f p.1 p.2) f

/-- The value of the last write to `x`. -/
def lastWrite : List (α × β) → α → Option β
  | [], _ => none
  | (a, b) :: h, x => (lastWrite h x).or (if x = a then some b else none)

theorem lastWrite_cons (a : α) (b : β) (h : List (α × β)) (x : α) :
    lastWrite ((a, b) :: h) x = (lastWrite h x).or (if x = a then some b else none) := rfl

theorem replay_append (f : α → β) (h h' : List (α × β)) :
    replay f (h ++ h') = replay (replay f h) h' := List.foldl_append

theorem replay_apply : ∀ (h : List (α × β)) (f : α → β) (x : α),
    replay f h x = (lastWrite h x).getD (f x)
  | [], _, _ => rfl
  | (a, b) :: h, f, x => by
      have ih := replay_apply h (Function.update f a b) x
      unfold replay at ih ⊢
      rw [List.foldl_cons, ih, lastWrite_cons]
      cases lastWrite h x with
      | some y => rfl
      | none =>
          by_cases hx : x = a
          · subst hx; simp
          · simp [hx]

theorem lastWrite_append : ∀ (h h' : List (α × β)) (x : α),
    lastWrite (h ++ h') x = (lastWrite h' x).or (lastWrite h x)
  | [], h', x => by cases h₀ : lastWrite h' x <;> simp [lastWrite, h₀]
  | (a, b) :: h, h', x => by
      simp only [List.cons_append, lastWrite, lastWrite_append h h' x]
      exact Option.or_assoc

theorem lastWrite_eq_none_iff : ∀ {h : List (α × β)} {x : α},
    lastWrite h x = none ↔ ∀ p ∈ h, p.1 ≠ x
  | [], x => by simp [lastWrite]
  | (a, b) :: h, x => by
      simp only [lastWrite, Option.or_eq_none_iff, lastWrite_eq_none_iff (h := h), List.mem_cons,
        forall_eq_or_imp, ne_eq]
      constructor
      · rintro ⟨h₁, h₂⟩
        refine ⟨fun e => ?_, h₁⟩
        rw [if_pos e.symm] at h₂
        cases h₂
      · rintro ⟨h₁, h₂⟩
        exact ⟨h₂, if_neg fun e => h₁ e.symm⟩

theorem mem_of_lastWrite_eq_some : ∀ {h : List (α × β)} {x : α} {y : β},
    lastWrite h x = some y → (x, y) ∈ h
  | (a, b) :: h, x, y, e => by
      unfold lastWrite at e
      rcases Option.or_eq_some_iff.mp e with e₁ | ⟨-, e₂⟩
      · exact List.mem_cons_of_mem _ (mem_of_lastWrite_eq_some e₁)
      · split_ifs at e₂ with hx
        obtain rfl := Option.some.inj e₂
        exact hx ▸ List.mem_cons_self

/-! ### Histories in sequence -/

/-- No history of the sequence writes to `x`. -/
theorem lastWrite_flatMap_eq_none {ι : Type*} {l : List ι} {h : ι → List (α × β)} {x : α}
    (hnone : ∀ i ∈ l, lastWrite (h i) x = none) : lastWrite (l.flatMap h) x = none := by
  rw [lastWrite_eq_none_iff]
  intro p hp
  obtain ⟨i, hi, hpi⟩ := List.mem_flatMap.mp hp
  exact lastWrite_eq_none_iff.mp (hnone i hi) p hpi

/-- One history of the sequence leaves `y` at `x`, and no other writes there. -/
theorem lastWrite_flatMap {ι : Type*} {h : ι → List (α × β)} {x : α} {y : β} {i : ι}
    (hy : lastWrite (h i) x = some y) : ∀ {l : List ι}, i ∈ l →
      (∀ j ∈ l, j ≠ i → lastWrite (h j) x = none) → lastWrite (l.flatMap h) x = some y
  | j :: l, hi, hnone => by
      rw [List.flatMap_cons, lastWrite_append]
      by_cases hil : i ∈ l
      · rw [lastWrite_flatMap hy hil fun k hk hki => hnone k (List.mem_cons_of_mem _ hk) hki]
        rfl
      · have hij : i = j := (List.mem_cons.mp hi).resolve_right hil
        rw [lastWrite_flatMap_eq_none fun k hk => hnone k (List.mem_cons_of_mem _ hk) fun e =>
          hil (e ▸ hk), ← hij, hy]
        rfl

/-- The last index of a list with some property. -/
theorem exists_last {ι : Type*} {p : ι → Prop} : ∀ {l : List ι}, (∃ i ∈ l, p i) →
    ∃ pre i post, l = pre ++ i :: post ∧ p i ∧ ∀ j ∈ post, ¬ p j
  | [], h => by
      obtain ⟨i, hi, -⟩ := h
      exact absurd hi List.not_mem_nil
  | a :: l, h => by
      by_cases hl : ∃ i ∈ l, p i
      · obtain ⟨pre, i, post, rfl, hi, hpost⟩ := exists_last hl
        exact ⟨a :: pre, i, post, rfl, hi, hpost⟩
      · obtain ⟨i, hi, hpi⟩ := h
        rcases List.mem_cons.mp hi with rfl | hi
        · exact ⟨[], i, l, rfl, hpi, fun j hj hpj => hl ⟨j, hj, hpj⟩⟩
        · exact absurd ⟨i, hi, hpi⟩ hl

/-- The histories of `post` do not write to `x`: the last of the others decides. -/
theorem replay_flatMap_append {ι : Type*} (f : α → β) (h : ι → List (α × β)) (pre : List ι)
    {post : List ι} {x : α} (hpost : ∀ j ∈ post, lastWrite (h j) x = none) :
    replay f ((pre ++ post).flatMap h) x = replay f (pre.flatMap h) x := by
  rw [List.flatMap_append, replay_apply, replay_apply, lastWrite_append,
    lastWrite_flatMap_eq_none hpost, Option.none_or]

theorem replay_flatMap_concat {ι : Type*} (f : α → β) (h : ι → List (α × β)) (pre : List ι)
    {i : ι} {x : α} {y : β} (hy : lastWrite (h i) x = some y) :
    replay f ((pre ++ [i]).flatMap h) x = y := by
  rw [List.flatMap_append, List.flatMap_singleton, replay_apply, lastWrite_append, hy,
    Option.some_or, Option.getD_some]

/-- **Leaving histories out.**  Performing only the histories that `p` selects gives the same
values on `S` exactly when whatever another history writes there is overwritten later on, or is
what the selected histories before it leave. -/
theorem replay_flatMap_filter_iff {ι : Type*} (f : α → β) (h : ι → List (α × β)) (p : ι → Bool)
    (l : List ι) (S : Set α) :
    (∀ x ∈ S, replay f (l.flatMap h) x = replay f ((l.filter p).flatMap h) x) ↔
      ∀ pre i post, l = pre ++ i :: post → p i = false → ∀ x ∈ S, ∀ y,
        lastWrite (h i) x = some y → (∃ j ∈ post, lastWrite (h j) x ≠ none) ∨
          replay f ((pre.filter p).flatMap h) x = y := by
  have hsplit : ∀ (pre : List ι) (i : ι) (post : List ι),
      pre ++ i :: post = pre ++ [i] ++ post := fun pre i post => by simp
  constructor
  · intro hsame pre i post hl hi x hx y hy
    by_cases hpost : ∃ j ∈ post, lastWrite (h j) x ≠ none
    · exact Or.inl hpost
    · right
      have hnone : ∀ j ∈ post, lastWrite (h j) x = none := fun j hj => by
        by_contra hne
        exact hpost ⟨j, hj, hne⟩
      have hx' := hsame x hx
      rw [hl, hsplit, replay_flatMap_append f h _ hnone, replay_flatMap_concat f h _ hy,
        List.filter_append, List.filter_append, List.filter_singleton, hi, cond_false,
        List.append_nil, replay_flatMap_append f h _ fun j hj =>
          hnone j (List.mem_of_mem_filter hj)] at hx'
      exact hx'.symm
  · intro hcond x hx
    by_cases hwritten : ∃ i ∈ l, lastWrite (h i) x ≠ none
    · obtain ⟨pre, i, post, hl, hi, hpost⟩ := exists_last hwritten
      have hnone : ∀ j ∈ post, lastWrite (h j) x = none := fun j hj => not_not.mp (hpost j hj)
      obtain ⟨y, hy⟩ := Option.ne_none_iff_exists'.mp hi
      have hwhole : replay f (l.flatMap h) x = y := by
        rw [hl, hsplit, replay_flatMap_append f h _ hnone, replay_flatMap_concat f h _ hy]
      rw [hwhole, hl, hsplit, List.filter_append, List.filter_append,
        replay_flatMap_append f h _ fun j hj => hnone j (List.mem_of_mem_filter hj)]
      cases hp : p i with
      | true =>
          rw [List.filter_singleton, hp, cond_true, replay_flatMap_concat f h _ hy]
      | false =>
          rw [List.filter_singleton, hp, cond_false, List.append_nil]
          rcases hcond pre i post hl hp x hx y hy with ⟨j, hj, hne⟩ | heq
          · exact absurd (hnone j hj) hne
          · exact heq.symm
    · have hnone : ∀ i ∈ l, lastWrite (h i) x = none := fun i hi => by
        by_contra hne
        exact hwritten ⟨i, hi, hne⟩
      rw [replay_apply, replay_apply, lastWrite_flatMap_eq_none hnone,
        lastWrite_flatMap_eq_none fun i hi => hnone i (List.mem_of_mem_filter hi)]

/-! ### Loops -/

variable {key : ℕ → α} {val : ℕ → β} {n : ℕ} {x : α}

theorem lastWrite_sweep_eq_none_iff :
    lastWrite (sweep key val n) x = none ↔ ∀ i < n, key i ≠ x := by
  rw [lastWrite_eq_none_iff]
  unfold sweep
  simp

/-- A loop that writes to each key once leaves its value there. -/
theorem lastWrite_sweep (hinj : ∀ i < n, ∀ j < n, key i = key j → i = j) {i : ℕ} (hi : i < n) :
    lastWrite (sweep key val n) (key i) = some (val i) := by
  cases h : lastWrite (sweep key val n) (key i) with
  | none => exact absurd rfl (lastWrite_sweep_eq_none_iff.mp h i hi)
  | some y =>
      have hmem := mem_of_lastWrite_eq_some h
      unfold sweep at hmem
      obtain ⟨j, hj, he⟩ := List.mem_map.mp hmem
      obtain ⟨hkey, rfl⟩ := Prod.mk.inj he
      rw [hinj j (List.mem_range.mp hj) i hi hkey]

end WriteHistory
