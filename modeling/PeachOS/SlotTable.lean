import Mathlib

/-! # Tables of slots with a null value

A fixed array whose empty slots hold a distinguished value `null`: search for an empty slot,
fill it, and clear every slot that holds a given value.  The lemmas say which non-null
values sit in which slot afterwards; the null value itself is never tracked. -/

namespace SlotTable

variable {α : Type} [DecidableEq α] {null a b : α} {l : List α} {i j : ℕ}

/-- The first empty slot. -/
def freeIndex (null : α) (l : List α) : Option ℕ := l.findIdx? (fun x => decide (x = null))

/-- Empty every slot that holds `a`. -/
def clear (null : α) (l : List α) (a : α) : List α := l.map fun x => if x = a then null else x

@[simp] theorem length_clear : (clear null l a).length = l.length := by simp [clear]

theorem freeIndex_eq_none : freeIndex null l = none ↔ null ∉ l := by
  unfold freeIndex
  rw [List.findIdx?_eq_none_iff]
  constructor
  · intro h hmem
    simpa using h null hmem
  · intro h x hx
    have hne : x ≠ null := fun e => h (e ▸ hx)
    simpa using hne

theorem freeIndex_eq_some (h : freeIndex null l = some i) : l[i]? = some null := by
  unfold freeIndex at h
  rw [List.findIdx?_eq_some_iff_getElem] at h
  obtain ⟨hi, hp, -⟩ := h
  rw [List.getElem?_eq_getElem hi]
  simpa using hp

omit [DecidableEq α] in
/-- After an empty slot is filled, the non-null values are the old ones and the new one. -/
theorem getElem?_fill (h : l[i]? = some null) (hb : b ≠ null) :
    (l.set i a)[j]? = some b ↔ (j = i ∧ b = a) ∨ l[j]? = some b := by
  have hi : i < l.length := (List.getElem?_eq_some_iff.mp h).1
  by_cases hj : j = i
  · subst hj
    rw [List.getElem?_set_self hi, h]
    constructor
    · intro e; exact Or.inl ⟨rfl, (Option.some.inj e).symm⟩
    · rintro (⟨-, rfl⟩ | e)
      · rfl
      · exact absurd (Option.some.inj e).symm hb
  · rw [List.getElem?_set_ne (Ne.symm hj)]
    simp [hj]

omit [DecidableEq α] in
theorem mem_fill (h : l[i]? = some null) (hb : b ≠ null) : b ∈ l.set i a ↔ b = a ∨ b ∈ l := by
  simp only [List.mem_iff_getElem?, getElem?_fill h hb]
  constructor
  · rintro ⟨j, ⟨-, rfl⟩ | hj⟩
    · exact Or.inl rfl
    · exact Or.inr ⟨j, hj⟩
  · rintro (rfl | ⟨j, hj⟩)
    · exact ⟨i, Or.inl ⟨rfl, rfl⟩⟩
    · exact ⟨j, Or.inr hj⟩

/-- Clearing keeps exactly the other non-null values, in their slots. -/
theorem getElem?_clear (hb : b ≠ null) :
    (clear null l a)[j]? = some b ↔ b ≠ a ∧ l[j]? = some b := by
  unfold clear
  rw [List.getElem?_map, Option.map_eq_some_iff]
  constructor
  · rintro ⟨x, hx, he⟩
    split_ifs at he with hxa
    · exact absurd he.symm hb
    · exact ⟨he ▸ hxa, he ▸ hx⟩
  · rintro ⟨hne, hx⟩
    exact ⟨b, hx, if_neg hne⟩

theorem mem_clear (hb : b ≠ null) : b ∈ clear null l a ↔ b ≠ a ∧ b ∈ l := by
  simp only [List.mem_iff_getElem?, getElem?_clear hb]
  constructor
  · rintro ⟨j, hne, hj⟩; exact ⟨hne, j, hj⟩
  · rintro ⟨hne, j, hj⟩; exact ⟨j, hne, hj⟩

/-- Clearing the null value, or one that is absent, changes nothing. -/
theorem clear_eq_self (h : a = null ∨ a ∉ l) : clear null l a = l := by
  unfold clear
  rw [List.map_congr_left (g := id), List.map_id]
  intro x hx
  dsimp only [id]
  split_ifs with hxa
  · rcases h with rfl | h
    · exact hxa.symm
    · exact absurd (hxa ▸ hx) h
  · rfl

/-- A value that occurs once is cleared by emptying its slot. -/
theorem clear_eq_set (hi : l[i]? = some a) (honce : ∀ j, l[j]? = some a → j = i) :
    clear null l a = l.set i null := by
  apply List.ext_getElem?
  intro j
  unfold clear
  rw [List.getElem?_map, List.getElem?_set]
  have hlt : i < l.length := (List.getElem?_eq_some_iff.mp hi).1
  by_cases hj : i = j
  · subst hj
    rw [hi, if_pos rfl, if_pos hlt]
    simp
  · rw [if_neg hj]
    cases hl : l[j]? with
    | none => rfl
    | some x =>
        have hxa : x ≠ a := fun e => hj (honce j (e ▸ hl)).symm
        simp [hxa]

end SlotTable
