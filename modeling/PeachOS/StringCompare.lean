import PeachOS.CString

/-! # Comparing names

`istrncmp` on the bytes of memory: its two pointers walk over NUL-terminated strings, with
anything behind the NUL, and the bytes that they reach are recorded.

* `istrncmp_compares`: 0 is returned for the strings whose first `n` characters are equal but
  for the case of their ASCII letters, and no byte is read behind a NUL or from index `n` on. -/

namespace PeachOS

/-- A NUL-terminated string: the bytes from its address on, and its length. -/
structure NulString where
  bytes : ℕ → UInt8
  length : ℕ
  terminated : bytes length = 0
  nonzero : ∀ i < length, bytes i ≠ 0

/-- What `istrncmp` returns, with the indices of the bytes that it reads in both strings. -/
structure Comparison where
  result : ℤ
  inspected : List ℕ

/-- The loop of `istrncmp` with `n` characters left, its pointers at index `i`. -/
def istrncmpLoop (s₁ s₂ : ℕ → UInt8) : ℕ → ℕ → Comparison
  | 0, _ => ⟨0, []⟩
  | n + 1, i =>
      let u₁ := s₁ i
      let u₂ := s₂ i
      if u₁ ≠ u₂ ∧ tolower u₁ ≠ tolower u₂ then ⟨(u₁.toNat : ℤ) - u₂.toNat, [i]⟩
      else if u₁ = 0 then ⟨0, [i]⟩
      else
        let rest := istrncmpLoop s₁ s₂ n (i + 1)
        ⟨rest.result, i :: rest.inspected⟩

/-- `istrncmp` on the bytes from two addresses on. -/
def istrncmpBytes (s₁ s₂ : ℕ → UInt8) (n : ℕ) : Comparison := istrncmpLoop s₁ s₂ n 0

/-- 'A'..'Z' go to 'a'..'z', and the other bytes to themselves. -/
def lowerCase (c : UInt8) : UInt8 :=
  if ascii 'A' ≤ c ∧ c ≤ ascii 'Z' then c - ascii 'A' + ascii 'a' else c

/-- The signed comparisons of `tolower` hold for the capitals only. -/
theorem tolower_eq_lowerCase : tolower = lowerCase := by
  funext c
  exact (by decide +kernel : ∀ c, tolower c = lowerCase c) c

/-! ### The characters of a string -/

namespace NulString

/-- The characters from index `i` on. -/
def textFrom (s : NulString) (i : ℕ) : List UInt8 :=
  (List.range' i (s.length - i)).map s.bytes

/-- The characters. -/
def text (s : NulString) : List UInt8 := s.textFrom 0

theorem textFrom_of_lt (s : NulString) {i : ℕ} (hi : i < s.length) :
    s.textFrom i = s.bytes i :: s.textFrom (i + 1) := by
  unfold textFrom
  obtain ⟨k, hk⟩ : ∃ k, s.length - i = k + 1 := ⟨s.length - i - 1, by omega⟩
  rw [hk, List.range'_succ, List.map_cons, show s.length - (i + 1) = k by omega]

theorem textFrom_length (s : NulString) : s.textFrom s.length = [] := by
  simp [textFrom]

/-- The byte at an index within the string or of its NUL. -/
theorem headD_textFrom (s : NulString) {i : ℕ} (hi : i ≤ s.length) :
    (s.textFrom i).headD 0 = s.bytes i := by
  rcases Nat.lt_or_eq_of_le hi with hlt | rfl
  · rw [textFrom_of_lt s hlt, List.headD_cons]
  · rw [textFrom_length, List.headD_nil, s.terminated]

theorem zero_notMem_text (s : NulString) : 0 ∉ s.text := by
  unfold text textFrom
  rw [List.mem_map]
  rintro ⟨i, hi, hzero⟩
  exact s.nonzero i (by simpa using hi) hzero

theorem lt_of_ne_zero (s : NulString) {i : ℕ} (hi : i ≤ s.length) (hne : s.bytes i ≠ 0) :
    i < s.length :=
  lt_of_le_of_ne hi fun h => hne (h ▸ s.terminated)

/-- The string of given characters, none of them NUL. -/
def ofChars (cs : List UInt8) (h : 0 ∉ cs) : NulString where
  bytes i := cs.getD i 0
  length := cs.length
  terminated := by simp
  nonzero i hi hzero := by
    rw [List.getD_eq_getElem cs 0 hi] at hzero
    exact h (hzero ▸ List.getElem_mem hi)

theorem text_ofChars (cs : List UInt8) (h : 0 ∉ cs) : (ofChars cs h).text = cs := by
  unfold text textFrom ofChars
  dsimp only
  refine List.ext_getElem (by simp) fun i _ hi => ?_
  simp [hi]

end NulString

/-! ### The loop -/

/-- Two characters that pass the first test of the loop are both NUL or neither. -/
theorem eq_zero_of_same {c d : UInt8} (hsame : ¬ (c ≠ d ∧ tolower c ≠ tolower d)) (hd : d = 0) :
    c = 0 := by
  by_contra hc
  refine hsame ⟨fun h => hc (h.trans hd), fun hlow => hc ?_⟩
  rw [← tolower_eq_zero_iff, hlow, hd]
  rfl

/-- Up to the NULs the loop on memory computes what `istrncmp` does on the characters. -/
theorem istrncmpLoop_result {a b : NulString} : ∀ {n i : ℕ}, i ≤ a.length → i ≤ b.length →
    (istrncmpLoop a.bytes b.bytes n i).result = istrncmp (a.textFrom i) (b.textFrom i) n
  | 0, _, _, _ => rfl
  | n + 1, i, ha, hb => by
      unfold istrncmpLoop istrncmp
      rw [a.headD_textFrom ha, b.headD_textFrom hb]
      dsimp only
      by_cases hdiff : a.bytes i ≠ b.bytes i ∧ tolower (a.bytes i) ≠ tolower (b.bytes i)
      · rw [if_pos hdiff, if_pos hdiff]
      · rw [if_neg hdiff, if_neg hdiff]
        by_cases hzero : a.bytes i = 0
        · rw [if_pos hzero, if_pos hzero]
        · rw [if_neg hzero, if_neg hzero]
          have hia := a.lt_of_ne_zero ha hzero
          have hib := b.lt_of_ne_zero hb fun h => hzero (eq_zero_of_same hdiff h)
          rw [a.textFrom_of_lt hia, b.textFrom_of_lt hib]
          exact istrncmpLoop_result hia hib

/-- It reads no byte behind a NUL and makes at most `n` steps. -/
theorem istrncmpLoop_inspected {a b : NulString} : ∀ {n i : ℕ}, i ≤ a.length → i ≤ b.length →
    ∀ j ∈ (istrncmpLoop a.bytes b.bytes n i).inspected, j < i + n ∧ j ≤ a.length ∧ j ≤ b.length
  | 0, _, _, _ => fun _ hj => nomatch hj
  | n + 1, i, ha, hb => by
      intro j hj
      have hfirst : i < i + (n + 1) ∧ i ≤ a.length ∧ i ≤ b.length := ⟨by omega, ha, hb⟩
      unfold istrncmpLoop at hj
      dsimp only at hj
      by_cases hdiff : a.bytes i ≠ b.bytes i ∧ tolower (a.bytes i) ≠ tolower (b.bytes i)
      · rw [if_pos hdiff, List.mem_singleton] at hj
        exact hj ▸ hfirst
      · rw [if_neg hdiff] at hj
        by_cases hzero : a.bytes i = 0
        · rw [if_pos hzero, List.mem_singleton] at hj
          exact hj ▸ hfirst
        · rw [if_neg hzero, List.mem_cons] at hj
          rcases hj with rfl | hj
          · exact hfirst
          · have hia := a.lt_of_ne_zero ha hzero
            have hib := b.lt_of_ne_zero hb fun h => hzero (eq_zero_of_same hdiff h)
            obtain ⟨hlt, hrest⟩ := istrncmpLoop_inspected hia hib j hj
            exact ⟨by omega, hrest⟩

/-- On the strings of given characters it is `istrncmp`. -/
theorem istrncmpBytes_ofChars {cs ds : List UInt8} (hc : 0 ∉ cs) (hd : 0 ∉ ds) (n : ℕ) :
    (istrncmpBytes (NulString.ofChars cs hc).bytes (NulString.ofChars ds hd).bytes n).result =
      istrncmp cs ds n := by
  have h := istrncmpLoop_result (a := NulString.ofChars cs hc) (b := NulString.ofChars ds hd)
    (n := n) (i := 0) (Nat.zero_le _) (Nat.zero_le _)
  change _ = istrncmp (NulString.ofChars cs hc).text (NulString.ofChars ds hd).text n at h
  rwa [NulString.text_ofChars, NulString.text_ofChars] at h

/-- Two strings compare equal when their first `n` characters differ at most in the case. -/
theorem istrncmpBytes_eq_zero_iff (a b : NulString) (n : ℕ) :
    (istrncmpBytes a.bytes b.bytes n).result = 0 ↔
      (a.text.take n).map lowerCase = (b.text.take n).map lowerCase := by
  unfold istrncmpBytes
  rw [istrncmpLoop_result (Nat.zero_le _) (Nat.zero_le _), ← tolower_eq_lowerCase]
  exact istrncmp_eq_zero_iff_take n a.zero_notMem_text b.zero_notMem_text

/-- **What `istrncmp` compares.**  The first `n` characters, but for the case of the ASCII
letters: so comparing equal is an equivalence, and no byte behind a NUL or from index `n` on
is read. -/
theorem istrncmp_compares (n : ℕ) :
    (∀ a b : NulString, (istrncmpBytes a.bytes b.bytes n).result = 0 ↔
      (a.text.take n).map lowerCase = (b.text.take n).map lowerCase) ∧
    (Equivalence fun a b : NulString => (istrncmpBytes a.bytes b.bytes n).result = 0) ∧
    ∀ a b : NulString, ∀ j ∈ (istrncmpBytes a.bytes b.bytes n).inspected,
      j < n ∧ j ≤ a.length ∧ j ≤ b.length := by
  have heq := fun a b => istrncmpBytes_eq_zero_iff a b n
  refine ⟨heq, ⟨?_, ?_, ?_⟩, ?_⟩
  · exact fun a => (heq a a).mpr rfl
  · exact fun {a b} h => (heq b a).mpr ((heq a b).mp h).symm
  · exact fun {a b c} h h' => (heq a c).mpr (((heq a b).mp h).trans ((heq b c).mp h'))
  · intro a b j hj
    have hbound := istrncmpLoop_inspected (Nat.zero_le _) (Nat.zero_le _) j hj
    rwa [zero_add] at hbound

example : (istrncmpBytes (NulString.ofChars ("ReadMe".toList.map ascii) (by decide)).bytes
    (NulString.ofChars ("readme.txt".toList.map ascii) (by decide)).bytes 6).result = 0 := by
  decide

end PeachOS
