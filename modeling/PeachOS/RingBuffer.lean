import Mathlib

/-! # Ring buffers that mark empty slots

A queue kept in a fixed list of slots, addressed modulo its length by two free-running
counters.  Emptiness is not read off the counters: an empty slot holds `null`, and no queued
item is `null`.  `Holds buf null n u` says that the slots from number `n` on hold the items
`u` and that all other slots are empty. -/

namespace RingBuffer

variable {α : Type*}

/-- The slots of `buf` hold the queue `u`, whose first item has the number `n`. -/
structure Holds (buf : List α) (null : α) (n : ℕ) (u : List α) : Prop where
  pos : 0 < buf.length
  fits : u.length ≤ buf.length
  slot : ∀ i < buf.length, buf[(n + i) % buf.length]? = some (u[i]?.getD null)

variable {buf u : List α} {null c : α} {n : ℕ}

/-- Slot numbers within one round are different slots. -/
theorem slot_inj {n i j l : ℕ} (hi : i < l) (hj : j < l) (h : (n + i) % l = (n + j) % l) :
    i = j := by
  have hmod : i ≡ j [MOD l] := Nat.ModEq.add_left_cancel' n h
  exact Nat.ModEq.eq_of_lt_of_lt hmod hi hj

theorem holds_empty (null : α) {l : ℕ} (hl : 0 < l) (n : ℕ) :
    Holds (List.replicate l null) null n [] := by
  refine ⟨by simpa using hl, Nat.zero_le _, fun i hi => ?_⟩
  rw [List.length_replicate] at hi ⊢
  rw [List.getElem?_replicate_of_lt (Nat.mod_lt _ hl)]
  rfl

/-- The first slot tells whether the queue is empty. -/
theorem Holds.front (h : Holds buf null n u) :
    buf[n % buf.length]? = some (u.head?.getD null) := by
  have h0 := h.slot 0 h.pos
  rwa [Nat.add_zero, ← List.head?_eq_getElem?] at h0

/-- Writing behind the last item appends to the queue. -/
theorem Holds.push (h : Holds buf null n u) (hroom : u.length < buf.length) (c : α) :
    Holds (buf.set ((n + u.length) % buf.length) c) null n (u ++ [c]) := by
  refine ⟨by rw [List.length_set]; exact h.pos, ?_, fun i hi => ?_⟩
  · rw [List.length_set, List.length_append, List.length_singleton]
    exact hroom
  · rw [List.length_set] at hi ⊢
    by_cases hiu : i = u.length
    · subst hiu
      rw [List.getElem?_set_self (Nat.mod_lt _ h.pos), List.getElem?_append_right le_rfl]
      simp
    · have hne : (n + u.length) % buf.length ≠ (n + i) % buf.length := fun e =>
        hiu (slot_inj hroom hi e).symm
      rw [List.getElem?_set_ne hne, h.slot i hi]
      rcases Nat.lt_or_ge i u.length with hlt | hge
      · rw [List.getElem?_append_left hlt]
      · rw [List.getElem?_eq_none hge, List.getElem?_eq_none]
        rw [List.length_append, List.length_singleton]
        omega

/-- Clearing the first slot removes the first item. -/
theorem Holds.pop (h : Holds buf null n (c :: u)) :
    Holds (buf.set (n % buf.length) null) null (n + 1) u := by
  have hfits := h.fits
  rw [List.length_cons] at hfits
  refine ⟨by rw [List.length_set]; exact h.pos, by rw [List.length_set]; omega, fun i hi => ?_⟩
  rw [List.length_set] at hi ⊢
  rcases Nat.lt_or_ge (i + 1) buf.length with hlt | hge
  · have hne : n % buf.length ≠ (n + 1 + i) % buf.length := by
      intro e
      have := slot_inj (n := n) (i := 0) (j := i + 1) h.pos hlt
        (by rw [Nat.add_zero, e]; congr 1; ring)
      omega
    rw [List.getElem?_set_ne hne, show n + 1 + i = n + (i + 1) by ring, h.slot _ hlt]
    rfl
  · -- the slot just cleared is the last of the next round
    have hlast : (n + 1 + i) % buf.length = n % buf.length := by
      rw [show n + 1 + i = n + buf.length by omega, Nat.add_mod_right]
    rw [hlast, List.getElem?_set_self (Nat.mod_lt _ h.pos), List.getElem?_eq_none (by omega)]
    rfl

/-- Writing behind a full queue replaces its first item. -/
theorem Holds.overwrite {d : α} (h : Holds buf null n (d :: u)) (c : α) :
    Holds (buf.set (n % buf.length) c) null n (c :: u) := by
  refine ⟨by rw [List.length_set]; exact h.pos, by rw [List.length_set]; exact h.fits,
    fun i hi => ?_⟩
  rw [List.length_set] at hi ⊢
  cases i with
  | zero =>
      rw [Nat.add_zero, List.getElem?_set_self (Nat.mod_lt _ h.pos)]
      rfl
  | succ i =>
      have hne : n % buf.length ≠ (n + (i + 1)) % buf.length := fun e => by
        have := slot_inj (n := n) (i := 0) (j := i + 1) h.pos hi (by rw [Nat.add_zero, e])
        omega
      rw [List.getElem?_set_ne hne, h.slot _ hi]
      rfl

end RingBuffer
