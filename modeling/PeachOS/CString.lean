import Mathlib

/-! # C strings

The functions of `string.c` on strings given by their characters: a list stands for its
bytes followed by a NUL.  A `char` is signed. -/

namespace PeachOS

/-- The value of a `char`. -/
def charVal (c : UInt8) : ℤ := c.toInt8.toInt

/-- The code of an ASCII character. -/
def ascii (c : Char) : UInt8 := UInt8.ofNat c.toNat

/-- `strlen`. -/
def strlen : List UInt8 → ℕ
  | [] => 0
  | c :: s => if c = 0 then 0 else strlen s + 1

/-- `strnlen`. -/
def strnlen : List UInt8 → ℕ → ℕ
  | [], _ => 0
  | _ :: _, 0 => 0
  | c :: s, max + 1 => if c = 0 then 0 else strnlen s max + 1

/-- The string that `strncpy` leaves in a buffer of `count` bytes. -/
def strncpy (src : List UInt8) (count : ℕ) : List UInt8 :=
  (src.takeWhile fun c => c ≠ 0).take (count - 1)

/-- `PEACHOS_MAX_PATH`. -/
def peachosMaxPath : ℕ := 108

/-- `isdigit`. -/
def isdigit (c : UInt8) : Bool := 48 ≤ charVal c ∧ charVal c ≤ 57

/-- `tonumericdigit`. -/
def tonumericdigit (c : UInt8) : ℤ := charVal c - 48

/-- `tolower`. -/
def tolower (c : UInt8) : UInt8 := if 65 ≤ charVal c ∧ charVal c ≤ 90 then c + 32 else c

/-- `istrncmp`. -/
def istrncmp : List UInt8 → List UInt8 → ℕ → ℤ
  | _, _, 0 => 0
  | s₁, s₂, n + 1 =>
      let u₁ := s₁.headD 0
      let u₂ := s₂.headD 0
      if u₁ ≠ u₂ ∧ tolower u₁ ≠ tolower u₂ then (u₁.toNat : ℤ) - u₂.toNat
      else if u₁ = 0 then 0
      else istrncmp s₁.tail s₂.tail n

/-- `strncmp`. -/
def strncmp : List UInt8 → List UInt8 → ℕ → ℤ
  | _, _, 0 => 0
  | s₁, s₂, n + 1 =>
      let u₁ := s₁.headD 0
      let u₂ := s₂.headD 0
      if u₁ ≠ u₂ then (u₁.toNat : ℤ) - u₂.toNat
      else if u₁ = 0 then 0
      else strncmp s₁.tail s₂.tail n

theorem strlen_eq_length : ∀ {s : List UInt8}, 0 ∉ s → strlen s = s.length
  | [], _ => rfl
  | c :: s, h => by
      rw [List.mem_cons, not_or] at h
      unfold strlen
      rw [if_neg (Ne.symm h.1), strlen_eq_length h.2, List.length_cons]

theorem strnlen_eq : ∀ {s : List UInt8} (max : ℕ), 0 ∉ s → strnlen s max = min s.length max
  | [], _, _ => by simp [strnlen]
  | _ :: _, 0, _ => by simp [strnlen]
  | c :: s, max + 1, h => by
      rw [List.mem_cons, not_or] at h
      unfold strnlen
      rw [if_neg (Ne.symm h.1), strnlen_eq max h.2, List.length_cons]
      omega

theorem tolower_eq_zero_iff : ∀ c, tolower c = 0 ↔ c = 0 := by decide +kernel

/-- Two strings are equal but for the case of their ASCII letters. -/
def SameName (s₁ s₂ : List UInt8) : Prop := s₁.map tolower = s₂.map tolower

instance (s₁ s₂ : List UInt8) : Decidable (SameName s₁ s₂) :=
  inferInstanceAs (Decidable (s₁.map tolower = s₂.map tolower))

theorem istrncmp_cons (c d : UInt8) (s₁ s₂ : List UInt8) (n : ℕ) :
    istrncmp (c :: s₁) (d :: s₂) (n + 1) =
      if c ≠ d ∧ tolower c ≠ tolower d then (c.toNat : ℤ) - d.toNat
      else if c = 0 then 0 else istrncmp s₁ s₂ n := rfl

theorem SameName.cons_iff {c d : UInt8} {s₁ s₂ : List UInt8} :
    SameName (c :: s₁) (d :: s₂) ↔ tolower c = tolower d ∧ SameName s₁ s₂ := by
  unfold SameName
  rw [List.map_cons, List.map_cons, List.cons.injEq]

/-- Where the characters differ in more than the case, so does what is returned from 0. -/
theorem toNat_sub_ne_zero {c d : UInt8} (h : tolower c ≠ tolower d) :
    (c.toNat : ℤ) - d.toNat ≠ 0 := by
  intro h0
  refine h (congrArg tolower (UInt8.toNat_inj.mp ?_))
  omega

/-- `istrncmp` returns 0 for the strings whose first `n` characters are equal but for the
case. -/
theorem istrncmp_eq_zero_iff_take : ∀ (n : ℕ) {s₁ s₂ : List UInt8}, 0 ∉ s₁ → 0 ∉ s₂ →
    (istrncmp s₁ s₂ n = 0 ↔ SameName (s₁.take n) (s₂.take n))
  | 0, _, _, _, _ => iff_of_true rfl rfl
  | n + 1, [], [], _, _ => by simp [istrncmp, SameName]
  | n + 1, [], d :: s₂, _, h₂ => by
      have hd : d ≠ 0 := fun h => h₂ (h ▸ List.mem_cons_self)
      have hlow : tolower 0 ≠ tolower d := fun h => hd ((tolower_eq_zero_iff d).mp h.symm)
      refine iff_of_false ?_ (by simp [SameName])
      unfold istrncmp
      dsimp only [List.headD_nil, List.headD_cons]
      rw [if_pos ⟨hd.symm, hlow⟩]
      exact toNat_sub_ne_zero hlow
  | n + 1, c :: s₁, [], h₁, _ => by
      have hc : c ≠ 0 := fun h => h₁ (h ▸ List.mem_cons_self)
      have hlow : tolower c ≠ tolower 0 := fun h => hc ((tolower_eq_zero_iff c).mp h)
      refine iff_of_false ?_ (by simp [SameName])
      unfold istrncmp
      dsimp only [List.headD_nil, List.headD_cons]
      rw [if_pos ⟨hc, hlow⟩]
      exact toNat_sub_ne_zero hlow
  | n + 1, c :: s₁, d :: s₂, h₁, h₂ => by
      have hc : c ≠ 0 := fun h => h₁ (h ▸ List.mem_cons_self)
      have ih := istrncmp_eq_zero_iff_take n (fun h => h₁ (List.mem_cons_of_mem c h))
        (fun h => h₂ (List.mem_cons_of_mem d h))
      rw [istrncmp_cons, List.take_succ_cons, List.take_succ_cons, SameName.cons_iff, ← ih]
      by_cases hlow : tolower c = tolower d
      · rw [if_neg fun h => h.2 hlow, if_neg hc]
        exact (and_iff_right hlow).symm
      · rw [if_pos ⟨fun h => hlow (congrArg tolower h), hlow⟩]
        exact iff_of_false (toNat_sub_ne_zero hlow) fun h => hlow h.1

theorem SameName.length_eq {s₁ s₂ : List UInt8} (h : SameName s₁ s₂) : s₁.length = s₂.length := by
  simpa using congrArg List.length h

/-- A string shorter than `n` characters equals the whole of the other string. -/
theorem SameName.take_iff {n : ℕ} {s₁ s₂ : List UInt8} (hlen : s₁.length < n) :
    SameName (s₁.take n) (s₂.take n) ↔ SameName s₁ s₂ := by
  rw [List.take_of_length_le hlen.le]
  constructor
  · intro h
    have hshort : s₁.length = min n s₂.length := by simpa using h.length_eq
    rwa [List.take_of_length_le (by omega)] at h
  · intro h
    rwa [List.take_of_length_le (by rw [← h.length_eq]; exact hlen.le)]

/-- `istrncmp` returns 0 for the strings that are equal but for the case, if the first one and
its terminator fit in the `n` characters that are compared. -/
theorem istrncmp_eq_zero_iff {n : ℕ} {s₁ s₂ : List UInt8} (h₁ : 0 ∉ s₁) (h₂ : 0 ∉ s₂)
    (hlen : s₁.length < n) : istrncmp s₁ s₂ n = 0 ↔ SameName s₁ s₂ :=
  (istrncmp_eq_zero_iff_take n h₁ h₂).trans (SameName.take_iff hlen)

/-- The character of a decimal digit. -/
def digitChar (d : Fin 10) : UInt8 := UInt8.ofNat (48 + d)

theorem isdigit_digitChar : ∀ d, isdigit (digitChar d) = true := by decide

theorem tonumericdigit_digitChar : ∀ d, tonumericdigit (digitChar d) = (d : ℕ) := by decide

end PeachOS
