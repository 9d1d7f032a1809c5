import PeachOS.ByteMemory

/-! # Extents and their encoding in a table

The abstract side of a block allocator, over any index type `ι` (the handles) and any type
`E` of table entries.

* An `Extent` is a non-empty run of consecutive blocks; a layout `ι → Option Extent` says
  which extent each live handle owns.
* `Packed total L`: the extents of `L` lie in `[0, total)` and those of different handles
  are disjoint.
* A `Code` fixes the entry written at each offset of an extent and the entry of a free
  block; `Encodes c total tbl L` says that the table `tbl` is exactly the encoding of `L`.
* `Encodes.alloc` and `Encodes.free` are the two steps of an allocator.

`firstRun` describes first fit: the least start of a run of `n` consecutive indices that
satisfy a predicate. -/

namespace Extents

/-- A non-empty run of blocks. -/
@[ext] structure Extent where
  start : ℕ
  len : ℕ
  len_pos : 0 < len

namespace Extent

/-- Block `i` belongs to the extent. -/
def Has (e : Extent) (i : ℕ) : Prop := e.start ≤ i ∧ i < e.start + e.len

instance (e : Extent) (i : ℕ) : Decidable (e.Has i) := by unfold Has; infer_instance

/-- No block belongs to both. -/
def Apart (e f : Extent) : Prop := ∀ i, e.Has i → ¬ f.Has i

theorem has_start (e : Extent) : e.Has e.start := ⟨le_rfl, Nat.lt_add_of_pos_right e.len_pos⟩

/-- An extent of one block. -/
theorem has_single {b i : ℕ} : (⟨b, 1, one_pos⟩ : Extent).Has i ↔ i = b := by
  unfold Has
  dsimp only
  omega

theorem has_add (e : Extent) {k : ℕ} (hk : k < e.len) : e.Has (e.start + k) := ⟨by omega, by omega⟩

theorem Has.exists_add {e : Extent} {i : ℕ} (h : e.Has i) : ∃ k < e.len, i = e.start + k := by
  obtain ⟨h₁, h₂⟩ := h
  exact ⟨i - e.start, by omega, by omega⟩

end Extent

variable {ι E : Type} [DecidableEq ι]

/-- Which extent each handle owns; `none` when the handle is not live. -/
abbrev Layout (ι : Type) := ι → Option Extent

/-- The extents lie in `[0, total)` and those of different handles share no block. -/
structure Packed (total : ℕ) (L : Layout ι) : Prop where
  inside : ∀ a e, L a = some e → e.start + e.len ≤ total
  apart : ∀ a b e f, a ≠ b → L a = some e → L b = some f → e.Apart f

/-- Block `i` belongs to no live extent. -/
def Uncovered (L : Layout ι) (i : ℕ) : Prop := ∀ a e, L a = some e → ¬ e.Has i

/-- The table entries of an encoding: `at' len k` at offset `k` of an extent of `len` blocks. -/
structure Code (E : Type) where
  at' : ℕ → ℕ → E
  free : E

/-- The table is exactly the encoding of the layout. -/
structure Encodes (c : Code E) (total : ℕ) (tbl : ℕ → E) (L : Layout ι) : Prop where
  packed : Packed total L
  taken : ∀ a e, L a = some e → ∀ k < e.len, tbl (e.start + k) = c.at' e.len k
  free : ∀ i < total, Uncovered L i → tbl i = c.free

/-! ### The empty layout -/

/-- No handle is live. -/
def empty : Layout ι := fun _ => none

omit [DecidableEq ι] in
theorem encodes_empty {c : Code E} {total : ℕ} {tbl : ℕ → E} (h : ∀ i < total, tbl i = c.free) :
    Encodes c total tbl (empty : Layout ι) where
  packed := ⟨fun _ _ h => (nomatch h), fun _ _ _ _ _ h => (nomatch h)⟩
  taken := fun _ _ h => (nomatch h)
  free := fun i hi _ => h i hi

/-! ### Allocation -/

/-- Handle `a` gets the extent `e`. -/
def assign (L : Layout ι) (a : ι) (e : Extent) : Layout ι := Function.update L a (some e)

@[simp] theorem assign_self (L : Layout ι) (a : ι) (e : Extent) : assign L a e a = some e := by
  simp [assign]

theorem assign_of_ne (L : Layout ι) {a b : ι} (e : Extent) (h : b ≠ a) :
    assign L a e b = L b := by
  simp [assign, h]

theorem Packed.assign {total : ℕ} {L : Layout ι} (hL : Packed total L) {a : ι} {e : Extent}
    (hin : e.start + e.len ≤ total) (hfree : ∀ i, e.Has i → Uncovered L i) :
    Packed total (assign L a e) where
  inside := by
    intro b f hb
    by_cases hba : b = a
    · subst hba
      rw [assign_self] at hb
      obtain rfl := Option.some.inj hb
      exact hin
    · rw [assign_of_ne L e hba] at hb
      exact hL.inside b f hb
  apart := by
    intro b d f g hbd hb hd
    by_cases hba : b = a
    · subst hba
      rw [assign_self] at hb
      rw [assign_of_ne L e hbd.symm] at hd
      obtain rfl := Option.some.inj hb
      exact fun i hi => hfree i hi d g hd
    · rw [assign_of_ne L e hba] at hb
      by_cases hda : d = a
      · subst hda
        rw [assign_self] at hd
        obtain rfl := Option.some.inj hd
        exact fun i hi he => hfree i he b f hb hi
      · rw [assign_of_ne L e hda] at hd
        exact hL.apart b d f g hbd hb hd

/-- Writing the code of a fresh extent and nothing else encodes the layout with it. -/
theorem Encodes.alloc {c : Code E} {total : ℕ} {tbl tbl' : ℕ → E} {L : Layout ι}
    (h : Encodes c total tbl L) {a : ι} {e : Extent} (ha : L a = none)
    (hin : e.start + e.len ≤ total) (hfree : ∀ i, e.Has i → Uncovered L i)
    (hnew : ∀ k < e.len, tbl' (e.start + k) = c.at' e.len k)
    (hold : ∀ i < total, ¬ e.Has i → tbl' i = tbl i) :
    Encodes c total tbl' (assign L a e) where
  packed := h.packed.assign hin hfree
  taken := by
    intro b f hb k hk
    by_cases hba : b = a
    · subst hba
      rw [assign_self] at hb
      obtain rfl := Option.some.inj hb
      exact hnew k hk
    · rw [assign_of_ne L e hba] at hb
      have hlt : f.start + k < total := by have := h.packed.inside b f hb; omega
      rw [hold _ hlt fun he => hfree _ he b f hb (f.has_add hk)]
      exact h.taken b f hb k hk
  free := by
    intro i hi hu
    have he : ¬ e.Has i := hu a e (assign_self L a e)
    rw [hold i hi he]
    refine h.free i hi fun b f hb => hu b f ?_
    rw [assign_of_ne L e fun hba => ?_]
    · exact hb
    · rw [hba, ha] at hb; cases hb

/-! ### Release -/

/-- Handle `a` is no longer live. -/
def release (L : Layout ι) (a : ι) : Layout ι := Function.update L a none

@[simp] theorem release_self (L : Layout ι) (a : ι) : release L a a = none := by simp [release]

theorem release_of_ne (L : Layout ι) {a b : ι} (h : b ≠ a) : release L a b = L b := by
  simp [release, h]

theorem release_eq_some {L : Layout ι} {a b : ι} {e : Extent} (h : release L a b = some e) :
    b ≠ a ∧ L b = some e := by
  by_cases hba : b = a
  · subst hba; rw [release_self] at h; cases h
  · exact ⟨hba, release_of_ne L hba ▸ h⟩

/-- Freeing exactly the blocks of a live extent encodes the layout without it. -/
theorem Encodes.free' {c : Code E} {total : ℕ} {tbl tbl' : ℕ → E} {L : Layout ι}
    (h : Encodes c total tbl L) {a : ι} {e : Extent} (ha : L a = some e)
    (hnew : ∀ i, e.Has i → tbl' i = c.free)
    (hold : ∀ i < total, ¬ e.Has i → tbl' i = tbl i) :
    Encodes c total tbl' (release L a) where
  packed := by
    refine ⟨fun b f hb => ?_, fun b d f g hbd hb hd => ?_⟩
    · exact h.packed.inside b f (release_eq_some hb).2
    · exact h.packed.apart b d f g hbd (release_eq_some hb).2 (release_eq_some hd).2
  taken := by
    intro b f hb k hk
    obtain ⟨hba, hb⟩ := release_eq_some hb
    have hlt : f.start + k < total := by have := h.packed.inside b f hb; omega
    rw [hold _ hlt (h.packed.apart b a f e hba hb ha _ (f.has_add hk))]
    exact h.taken b f hb k hk
  free := by
    intro i hi hu
    by_cases he : e.Has i
    · exact hnew i he
    · rw [hold i hi he]
      refine h.free i hi fun b f hb => ?_
      by_cases hba : b = a
      · subst hba; rw [ha] at hb; obtain rfl := Option.some.inj hb; exact he
      · exact hu b f ((release_of_ne L hba).trans hb)

omit [DecidableEq ι] in
/-- An entry that no offset of the code carries marks a block outside every extent. -/
theorem Encodes.uncovered {c : Code E} {total : ℕ} {tbl : ℕ → E} {L : Layout ι}
    (h : Encodes c total tbl L) {i : ℕ} (hne : ∀ len, ∀ k < len, tbl i ≠ c.at' len k) :
    Uncovered L i := by
  intro a e ha hi
  obtain ⟨k, hk, rfl⟩ := hi.exists_add
  exact hne e.len k hk (h.taken a e ha k hk)

/-! ### First fit -/

/-- The `n` indices from `s` on satisfy `p`. -/
def Run (p : ℕ → Prop) (s n : ℕ) : Prop := ∀ k < n, p (s + k)

/-- `s` is the least start of a run of `n` indices below `total`. -/
structure FirstRun (p : ℕ → Prop) (total n s : ℕ) : Prop where
  inside : s + n ≤ total
  run : Run p s n
  least : ∀ s', s' + n ≤ total → Run p s' n → s ≤ s'

/-- The first fit depends on the indices below `total` only. -/
theorem FirstRun.unique {p q : ℕ → Prop} {total n s t : ℕ} (hs : FirstRun p total n s)
    (ht : FirstRun q total n t) (hpq : ∀ i < total, p i ↔ q i) : s = t := by
  have hst := hs.inside
  have htt := ht.inside
  refine le_antisymm (hs.least t htt fun k hk => ?_) (ht.least s hst fun k hk => ?_)
  · exact (hpq _ (by omega)).mpr (ht.run k hk)
  · exact (hpq _ (by omega)).mp (hs.run k hk)

/-- No run of `n` indices ends at or before `i`. -/
def NoRun (p : ℕ → Prop) (n i : ℕ) : Prop := ∀ s, s + n ≤ i → ¬ Run p s n

variable {p : ℕ → Prop} {n i b : ℕ}

/-- An index outside the predicate ends no run. -/
theorem NoRun.skip (h : NoRun p n i) (hn : 0 < n) (hi : ¬ p i) : NoRun p n (i + 1) := by
  intro s hs hr
  rcases Nat.lt_or_ge i (s + n) with hlt | hge
  · refine hi ?_
    have := hr (n - 1) (by omega)
    rwa [show s + (n - 1) = i by omega] at this
  · exact h s hge hr

/-- A run that starts at the beginning or after a gap at `b - 1`, and is still too short,
ends no run of `n` indices. -/
theorem NoRun.extend (h : NoRun p n i) (hb : b = 0 ∨ ¬ p (b - 1)) (hbi : b ≤ i)
    (hshort : i + 1 < b + n) : NoRun p n (i + 1) := by
  intro s hs hr
  rcases Nat.lt_or_ge i (s + n) with hlt | hge
  · rcases hb with rfl | hgap
    · omega
    · refine hgap ?_
      have := hr (b - 1 - s) (by omega)
      rwa [show s + (b - 1 - s) = b - 1 by omega] at this
  · exact h s hge hr

/-- A run from a gap at `b - 1` that reaches length `n` for the first time is the first fit. -/
theorem NoRun.firstRun {total : ℕ} (h : NoRun p n i) (hb : b = 0 ∨ ¬ p (b - 1))
    (hlen : i + 1 = b + n) (hin : i + 1 ≤ total) (hr : Run p b n) : FirstRun p total n b where
  inside := by omega
  run := hr
  least := by
    intro s' _ hr'
    by_contra hlt
    rcases hb with rfl | hgap
    · omega
    · rcases Nat.lt_or_ge (b - 1) (s' + n) with h₁ | h₂
      · refine hgap ?_
        have := hr' (b - 1 - s') (by omega)
        rwa [show s' + (b - 1 - s') = b - 1 by omega] at this
      · exact h s' (by omega) hr'

end Extents
