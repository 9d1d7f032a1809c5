import PeachOS.CString

/-! # Decimal numerals

`itoa` of the user programs' library.  A number is an `int`: each signed operation is checked,
and so is each index of the buffer.

* `itoa_exact`: every `int` is written as its decimal numeral.  The loop works on the negated
  magnitude, for which -2^31 has no opposite to overflow. -/

namespace PeachOS

/-- The range of an `int`. -/
def FitsInt (v : ℤ) : Prop := -2 ^ 31 ≤ v ∧ v < 2 ^ 31

instance (v : ℤ) : Decidable (FitsInt v) := by unfold FitsInt; infer_instance

/-- The result of a signed operation, none where it overflows. -/
def intOp (v : ℤ) : Option ℤ := if FitsInt v then some v else none

/-- The buffer of `itoa` and the index of the first character written. -/
structure ItoaBuffer where
  text : Vector UInt8 12
  loc : ℤ

/-- `text[--loc] = c`; none outside the buffer. -/
def storeBefore (c : ℤ) (b : ItoaBuffer) : Option ItoaBuffer :=
  (intOp (b.loc - 1)).bind fun loc =>
    if h : 0 ≤ loc ∧ loc.toNat < 12 then some ⟨b.text.set loc.toNat (UInt8.ofInt c) h.2, loc⟩
    else none

/-- The loop of `itoa`. -/
def itoaLoop (i : ℤ) (b : ItoaBuffer) : Option ItoaBuffer :=
  if i = 0 then some b
  else
    (intOp (i.tmod 10)).bind fun rem =>
      (intOp (48 - rem)).bind fun digit =>
        (storeBefore digit b).bind fun b =>
          if FitsInt (i.tdiv 10) then itoaLoop (i.tdiv 10) b else none
termination_by i.natAbs
decreasing_by
  rw [Int.natAbs_tdiv]
  exact Nat.div_lt_self (by omega) (by norm_num)

/-- `itoa`, with what its buffer holds before the call; the string that it returns begins at
`loc`. -/
def itoa (i : ℤ) (text : Vector UInt8 12) : Option ItoaBuffer :=
  let b : ItoaBuffer := ⟨text.set 11 0, 11⟩
  let neg : UInt8 := if i ≥ 0 then 0 else 1
  (if i ≥ 0 then intOp (-i) else some i).bind fun i =>
    (itoaLoop i b).bind fun b =>
      (if b.loc = 11 then storeBefore 48 b else some b).bind fun b =>
        if neg ≠ 0 then storeBefore 45 b else some b

/-- The bytes from the returned pointer to the end of the buffer. -/
def ItoaBuffer.returned (b : ItoaBuffer) : List UInt8 := b.text.toList.drop b.loc.toNat

/-! ### Decimal numerals -/

/-- The character of a digit. -/
def decimalChar (d : ℕ) : UInt8 := UInt8.ofNat (48 + d)

/-- The value of a sequence of digits. -/
def decimalValue (ds : List ℕ) : ℕ := ds.foldl (fun v d => 10 * v + d) 0

/-- The canonical numeral of a number: a '-' for the negative ones, then the digits of the
magnitude, of which the first is not 0 unless the number is. -/
def IsNumeral (s : List UInt8) (v : ℤ) : Prop :=
  ∃ ds : List ℕ, s = (if v < 0 then [ascii '-'] else []) ++ ds.map decimalChar ∧
    (∀ d ∈ ds, d < 10) ∧ decimalValue ds = v.natAbs ∧ ds ≠ [] ∧ (ds.head? = some 0 → ds = [0])

/-- The digits of a positive number; none for 0. -/
def decimalDigits (m : ℕ) : List ℕ := (Nat.digits 10 m).reverse

@[simp] theorem decimalDigits_zero : decimalDigits 0 = [] := by simp [decimalDigits]

theorem decimalDigits_of_pos {m : ℕ} (hm : 0 < m) :
    decimalDigits m = decimalDigits (m / 10) ++ [m % 10] := by
  unfold decimalDigits
  rw [Nat.digits_def' (by norm_num) hm, List.reverse_cons]

theorem decimalDigits_lt (m : ℕ) : ∀ d ∈ decimalDigits m, d < 10 := fun _ hd =>
  Nat.digits_lt_base (by norm_num) (List.mem_reverse.mp hd)

theorem decimalDigits_ne_nil {m : ℕ} (hm : 0 < m) : decimalDigits m ≠ [] := by
  rw [decimalDigits_of_pos hm]
  simp

theorem length_decimalDigits_le {m k : ℕ} (hm : m < 10 ^ k) : (decimalDigits m).length ≤ k := by
  unfold decimalDigits
  rw [List.length_reverse]
  exact (Nat.digits_length_le_iff (by norm_num) m).mpr hm

theorem decimalValue_concat (ds : List ℕ) (d : ℕ) :
    decimalValue (ds ++ [d]) = 10 * decimalValue ds + d := by
  simp [decimalValue]

theorem decimalValue_decimalDigits (m : ℕ) : decimalValue (decimalDigits m) = m := by
  induction m using Nat.strong_induction_on with
  | _ m ih =>
      rcases Nat.eq_zero_or_pos m with rfl | hm
      · rw [decimalDigits_zero]
        rfl
      · rw [decimalDigits_of_pos hm, decimalValue_concat, ih (m / 10) (by omega)]
        omega

/-- No leading zero: the first digit is that of a number below 10. -/
theorem head?_decimalDigits (m : ℕ) : (decimalDigits m).head? ≠ some 0 := by
  induction m using Nat.strong_induction_on with
  | _ m ih =>
      rcases Nat.eq_zero_or_pos m with rfl | hm
      · simp
      · rw [decimalDigits_of_pos hm]
        rcases Nat.eq_zero_or_pos (m / 10) with hsmall | hbig
        · rw [hsmall, decimalDigits_zero, List.nil_append, List.head?_cons, ne_eq,
            Option.some.injEq]
          omega
        · rw [List.head?_append_of_ne_nil _ (decimalDigits_ne_nil hbig)]
          exact ih (m / 10) (by omega)

/-- The digits of the canonical numeral. -/
def numeralDigits (m : ℕ) : List ℕ := if m = 0 then [0] else decimalDigits m

theorem numeralDigits_of_pos {m : ℕ} (hm : 0 < m) : numeralDigits m = decimalDigits m :=
  if_neg hm.ne'

theorem length_numeralDigits_le {m : ℕ} (hm : m ≤ 2 ^ 31) : (numeralDigits m).length ≤ 10 := by
  rcases Nat.eq_zero_or_pos m with rfl | hpos
  · decide
  · rw [numeralDigits_of_pos hpos]
    exact length_decimalDigits_le (by omega)

/-- The digits behind a '-' or nothing are the canonical numeral. -/
theorem isNumeral_numeralDigits (v : ℤ) :
    IsNumeral ((if v < 0 then [ascii '-'] else []) ++ (numeralDigits v.natAbs).map decimalChar)
      v := by
  refine ⟨numeralDigits v.natAbs, rfl, ?_⟩
  rcases Nat.eq_zero_or_pos v.natAbs with hzero | hpos
  · rw [hzero]
    decide
  · rw [numeralDigits_of_pos hpos]
    exact ⟨decimalDigits_lt _, decimalValue_decimalDigits _, decimalDigits_ne_nil hpos,
      fun h => absurd h (head?_decimalDigits _)⟩

theorem decimalChar_ne_zero : ∀ d < 10, decimalChar d ≠ 0 := by decide

theorem IsNumeral.zero_notMem {s : List UInt8} {v : ℤ} (h : IsNumeral s v) : 0 ∉ s := by
  obtain ⟨ds, rfl, hlt, -⟩ := h
  rw [List.mem_append, List.mem_map]
  rintro (hsign | ⟨d, hd, hzero⟩)
  · split_ifs at hsign
    · exact absurd hsign (by decide)
    · exact absurd hsign List.not_mem_nil
  · exact decimalChar_ne_zero d (hlt d hd) hzero

/-! ### The buffer -/

theorem intOp_of_fits {v : ℤ} (hv : FitsInt v) : intOp v = some v := if_pos hv

/-- A character stored inside the buffer goes before the bytes that follow. -/
theorem storeBefore_some {b : ItoaBuffer} (hpos : 0 < b.loc) (hloc : b.loc ≤ 11) (c : ℤ) :
    ∃ b', storeBefore c b = some b' ∧ b'.loc = b.loc - 1 ∧
      b'.returned = UInt8.ofInt c :: b.returned := by
  have hfits : FitsInt (b.loc - 1) := ⟨by omega, by omega⟩
  have hin : 0 ≤ b.loc - 1 ∧ (b.loc - 1).toNat < 12 := ⟨by omega, by omega⟩
  refine ⟨⟨b.text.set (b.loc - 1).toNat (UInt8.ofInt c) hin.2, b.loc - 1⟩, ?_, rfl, ?_⟩
  · unfold storeBefore
    rw [intOp_of_fits hfits, Option.bind_some, dif_pos hin]
  · unfold ItoaBuffer.returned
    dsimp only
    have hlen : (b.loc - 1).toNat <
        (b.text.toList.set (b.loc - 1).toNat (UInt8.ofInt c)).length := by
      simpa using hin.2
    rw [Vector.toList_set, List.drop_eq_getElem_cons hlen, List.getElem_set_self,
      List.drop_set_of_lt (by omega), show (b.loc - 1).toNat + 1 = b.loc.toNat by omega]

/-- The character that the loop makes of a remainder, which is negative. -/
theorem ofInt_digit : ∀ d < 10, UInt8.ofInt (48 - -((d : ℕ) : ℤ)) = decimalChar d := by decide

/-- The loop writes the digits of the magnitude before what is in the buffer; by induction on
the magnitude, whose last digit it writes first. -/
theorem itoaLoop_digits (m : ℕ) : ∀ {b : ItoaBuffer}, m ≤ 2 ^ 31 →
    (decimalDigits m).length ≤ b.loc → b.loc ≤ 11 →
    ∃ b', itoaLoop (-m) b = some b' ∧ b'.loc = b.loc - (decimalDigits m).length ∧
      b'.returned = (decimalDigits m).map decimalChar ++ b.returned := by
  induction m using Nat.strong_induction_on with
  | _ m ih =>
      intro b hm hlen hloc
      rcases Nat.eq_zero_or_pos m with rfl | hpos
      · exact ⟨b, by rw [itoaLoop, if_pos (by simp)], by simp, by simp⟩
      · have hrem : (-(m : ℤ)).tmod 10 = -((m % 10 : ℕ) : ℤ) := by
          rw [Int.neg_tmod]
          rfl
        have hquot : (-(m : ℤ)).tdiv 10 = -((m / 10 : ℕ) : ℤ) := by
          rw [Int.neg_tdiv]
          rfl
        rw [decimalDigits_of_pos hpos, List.length_append, List.length_singleton] at hlen
        obtain ⟨b₁, hstore, hloc₁, hret₁⟩ := storeBefore_some (c := 48 - -((m % 10 : ℕ) : ℤ))
          (by omega) hloc
        obtain ⟨b₂, hloop, hloc₂, hret₂⟩ := ih (m / 10) (by omega) (b := b₁) (by omega)
          (by omega) (by omega)
        refine ⟨b₂, ?_, ?_, ?_⟩
        · rw [itoaLoop, if_neg (by omega), hrem, hquot, intOp_of_fits ⟨by omega, by omega⟩,
            Option.bind_some, intOp_of_fits ⟨by omega, by omega⟩, Option.bind_some, hstore,
            Option.bind_some, if_pos ⟨by omega, by omega⟩, hloop]
        · rw [decimalDigits_of_pos hpos, List.length_append, List.length_singleton]
          omega
        · rw [decimalDigits_of_pos hpos, List.map_append, hret₂, hret₁,
            ofInt_digit _ (Nat.mod_lt m (by norm_num))]
          simp

/-- The buffer when the loop begins. -/
theorem returned_start (text : Vector UInt8 12) :
    (⟨text.set 11 0, 11⟩ : ItoaBuffer).returned = [0] := by
  unfold ItoaBuffer.returned
  dsimp only
  have hlen : 11 < (text.toList.set 11 0).length := by simp
  rw [Vector.toList_set, show (11 : ℤ).toNat = 11 from rfl, List.drop_eq_getElem_cons hlen,
    List.getElem_set_self, List.drop_of_length_le (by simp)]

/-- Where the loop has made no digit, `itoa` puts in the one of 0. -/
theorem storeBefore_zero {b : ItoaBuffer} {m : ℕ} (hloc : b.loc = 11 - (decimalDigits m).length)
    (hret : b.returned = (decimalDigits m).map decimalChar ++ [0]) :
    ∃ b', (if b.loc = 11 then storeBefore 48 b else some b) = some b' ∧
      b'.loc = 11 - (numeralDigits m).length ∧
      b'.returned = (numeralDigits m).map decimalChar ++ [0] := by
  rcases Nat.eq_zero_or_pos m with rfl | hpos
  · rw [decimalDigits_zero] at hloc hret
    have hloc : b.loc = 11 := by simpa using hloc
    obtain ⟨b', hstore, hloc', hret'⟩ := storeBefore_some (b := b) (by omega) (by omega) 48
    refine ⟨b', by rw [if_pos hloc, hstore], ?_, ?_⟩
    · rw [hloc', hloc]
      rfl
    · rw [hret', hret]
      rfl
  · have hcount := List.length_pos_of_ne_nil (decimalDigits_ne_nil hpos)
    rw [numeralDigits_of_pos hpos]
    exact ⟨b, if_neg (by omega), hloc, hret⟩

/-- The number that the loop works on is the negated magnitude. -/
theorem itoa_negated {i : ℤ} (hi : FitsInt i) :
    (if i ≥ 0 then intOp (-i) else some i) = some (-(i.natAbs : ℤ)) := by
  unfold FitsInt at hi
  split_ifs with hneg
  · rw [intOp_of_fits ⟨by omega, by omega⟩, show -i = -(i.natAbs : ℤ) by omega]
  · rw [show i = -(i.natAbs : ℤ) by omega, Int.natAbs_neg, Int.natAbs_natCast]

/-- **`itoa` is exact.**  For every `int` and whatever the buffer holds, no operation overflows
and no index leaves the buffer; the string returned, up to the NUL at the buffer's end, is the
canonical numeral of the number. -/
theorem itoa_exact (i : Int32) (text : Vector UInt8 12) :
    ∃ b, itoa i.toInt text = some b ∧ 0 ≤ b.loc ∧ b.loc < 12 ∧
      ∃ s, b.returned = s ++ [0] ∧ 0 ∉ s ∧ IsNumeral s i.toInt := by
  have hi : FitsInt i.toInt := ⟨i.le_toInt, i.toInt_lt⟩
  generalize i.toInt = v at hi ⊢
  have hm : v.natAbs ≤ 2 ^ 31 := by
    unfold FitsInt at hi
    omega
  have hdigits := length_decimalDigits_le (show v.natAbs < 10 ^ 10 by omega)
  have hnumeral := length_numeralDigits_le hm
  obtain ⟨b₁, hloop, hloc₁, hret₁⟩ := itoaLoop_digits v.natAbs (b := ⟨text.set 11 0, 11⟩) hm
    (by dsimp only; omega) le_rfl
  rw [returned_start] at hret₁
  obtain ⟨b₂, hzero, hloc₂, hret₂⟩ := storeBefore_zero hloc₁ hret₁
  have hbody : itoa v text =
      if (if v ≥ 0 then 0 else 1 : UInt8) ≠ 0 then storeBefore 45 b₂ else some b₂ := by
    unfold itoa
    rw [itoa_negated hi, Option.bind_some, hloop, Option.bind_some, hzero, Option.bind_some]
  have hcanon := isNumeral_numeralDigits v
  by_cases hneg : v < 0
  · obtain ⟨b₃, hminus, hloc₃, hret₃⟩ := storeBefore_some (b := b₂) (by omega) (by omega) 45
    rw [if_pos hneg] at hcanon
    refine ⟨b₃, ?_, by omega, by omega, _, ?_, hcanon.zero_notMem, hcanon⟩
    · rw [hbody, if_neg (show ¬ v ≥ 0 by omega), if_pos (by decide), hminus]
    · rw [hret₃, hret₂]
      rfl
  · rw [if_neg hneg] at hcanon
    refine ⟨b₂, ?_, by omega, by omega, _, ?_, hcanon.zero_notMem, hcanon⟩
    · rw [hbody, if_pos (show v ≥ 0 by omega), if_neg (by decide)]
    · rw [hret₂]
      rfl

end PeachOS
