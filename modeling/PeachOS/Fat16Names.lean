import PeachOS.Fat16Path

/-! # FAT16: names of items

What `fat16_get_full_relative_filename` makes of the two fields of a name, whatever stands in
them and behind them.  `fat16_to_proper_string` knows no width: in a field without a blank it
runs on into the bytes behind the field.  `fat16GetFullRelativeFilename_iff` says for which
items that does no harm. -/

namespace PeachOS

/-! ### Fields -/

/-- The first `len` bytes without the spaces at their end. -/
def unpadded (bytes : ℕ → UInt8) (len : ℕ) : List UInt8 :=
  ((List.range len).map bytes).rdropWhile fun c => c = 0x20

theorem unpadded_succ (bytes : ℕ → UInt8) (len : ℕ) :
    unpadded bytes (len + 1) =
      if bytes len = 0x20 then unpadded bytes len else (List.range (len + 1)).map bytes := by
  unfold unpadded
  rw [List.range_succ, List.map_append, List.map_singleton, List.rdropWhile_concat]
  simp

theorem length_unpadded_le (bytes : ℕ → UInt8) (len : ℕ) : (unpadded bytes len).length ≤ len := by
  refine (List.rdropWhile_prefix _ _).length_le.trans ?_
  rw [List.length_map, List.length_range]

theorem getElem_unpadded (bytes : ℕ → UInt8) {len i : ℕ} (h : i < (unpadded bytes len).length) :
    (unpadded bytes len)[i] = bytes i := by
  have hpre : unpadded bytes len <+: (List.range len).map bytes := List.rdropWhile_prefix _ _
  rw [hpre.getElem h, List.getElem_map, List.getElem_range]

theorem unpadded_space {f : ℕ → UInt8} : ∀ {n i : ℕ}, (unpadded f n).length ≤ i →
    i < n → f i = 0x20
  | n + 1, i, h, hi => by
      rw [unpadded_succ] at h
      split_ifs at h with hspace
      · rcases Nat.lt_succ_iff_lt_or_eq.mp hi with hlt | rfl
        · exact unpadded_space h hlt
        · exact hspace
      · rw [List.length_map, List.length_range] at h
        omega

/-- The name of an item: the name field without its padding and, if the extension is not blank,
a dot and the extension without its padding. -/
def properName (item : ℕ → UInt8) : List UInt8 :=
  let ext := unpadded (fun i => item (8 + i)) 3
  unpadded item 8 ++ if ext = [] then [] else ascii '.' :: ext

theorem properName_of_nil {item : ℕ → UInt8} (h : unpadded (fun i => item (8 + i)) 3 = []) :
    properName item = unpadded item 8 := by
  unfold properName
  dsimp only
  rw [if_pos h, List.append_nil]

theorem properName_of_ne {item : ℕ → UInt8} (h : unpadded (fun i => item (8 + i)) 3 ≠ []) :
    properName item =
      unpadded item 8 ++ ascii '.' :: unpadded (fun i => item (8 + i)) 3 := by
  unfold properName
  dsimp only
  rw [if_neg h]

theorem length_properName_le (item : ℕ → UInt8) : (properName item).length ≤ 12 := by
  have hname := length_unpadded_le item 8
  have hext := length_unpadded_le (fun i => item (8 + i)) 3
  unfold properName
  dsimp only
  split_ifs
  · rw [List.append_nil]
    omega
  · rw [List.length_append, List.length_cons]
    omega

/-! ### What is copied -/

/-- The string that is copied ends at the first blank. -/
theorem fat16ToProperString_eq_some_iff : ∀ {room : ℕ} {input : ℕ → UInt8} {out : List UInt8},
    fat16ToProperString room input = some out ↔ out.length < room ∧
      (∀ i (h : i < out.length), out[i] = input i ∧ ¬ IsBlank (input i)) ∧
      IsBlank (input out.length)
  | 0, _, _ => by simp [fat16ToProperString]
  | room + 1, input, out => by
      have hblank : IsBlank (input 0) ↔ ¬ (input 0 ≠ 0x00 ∧ input 0 ≠ 0x20) := by
        unfold IsBlank
        tauto
      unfold fat16ToProperString
      cases out with
      | nil =>
          simp only [List.length_nil, Nat.not_lt_zero, IsEmpty.forall_iff, implies_true, true_and,
            Nat.succ_pos, hblank]
          split_ifs with hc <;> simp [hc]
      | cons c out =>
          split_ifs with hc
          · rw [Option.map_eq_some_iff]
            constructor
            · rintro ⟨out', hout', heq⟩
              obtain ⟨rfl, rfl⟩ := List.cons.inj heq
              obtain ⟨hlen, hall, hend⟩ := fat16ToProperString_eq_some_iff.mp hout'
              refine ⟨Nat.succ_lt_succ hlen, fun i hi => ?_, hend⟩
              cases i with
              | zero => exact ⟨rfl, fun h => hblank.mp h hc⟩
              | succ i => exact hall i (Nat.lt_of_succ_lt_succ hi)
            · rintro ⟨hlen, hall, hend⟩
              have hfirst : c = input 0 := (hall 0 (Nat.succ_pos _)).1
              refine ⟨out, fat16ToProperString_eq_some_iff.mpr ⟨Nat.lt_of_succ_lt_succ hlen,
                fun i hi => hall (i + 1) (Nat.succ_lt_succ hi), hend⟩, by rw [hfirst]⟩
          · refine iff_of_false (by simp) fun h => ?_
            exact (h.2.1 0 (Nat.succ_pos _)).2 (hblank.mpr hc)

theorem fat16ToProperString_not_blank {room : ℕ} {input : ℕ → UInt8} {out : List UInt8}
    (h : fat16ToProperString room input = some out) : ∀ c ∈ out, ¬ IsBlank c := by
  intro c hc
  obtain ⟨i, hi, rfl⟩ := List.getElem_of_mem hc
  obtain ⟨heq, hnot⟩ := (fat16ToProperString_eq_some_iff.mp h).2.1 i hi
  rwa [heq]

/-- A field with a blank at its end, or behind it, and no other one. -/
theorem fat16ToProperString_unpadded {room len : ℕ} {input : ℕ → UInt8}
    (hroom : (unpadded input len).length < room) (hno : ∀ c ∈ unpadded input len, ¬ IsBlank c)
    (hend : (unpadded input len).length = len → IsBlank (input len)) :
    fat16ToProperString room input = some (unpadded input len) := by
  refine fat16ToProperString_eq_some_iff.mpr ⟨hroom, fun i hi => ?_, ?_⟩
  · have heq := getElem_unpadded input hi
    exact ⟨heq, heq ▸ hno _ (List.getElem_mem hi)⟩
  · rcases (length_unpadded_le input len).lt_or_eq with hlt | heq
    · exact Or.inr (unpadded_space le_rfl hlt)
    · rw [heq]
      exact hend heq

/-- The copy does not end inside a field without blanks. -/
theorem length_unpadded_le_of_some {room len : ℕ} {input : ℕ → UInt8} {out : List UInt8}
    (h : fat16ToProperString room input = some out)
    (hno : ∀ c ∈ unpadded input len, ¬ IsBlank c) : (unpadded input len).length ≤ out.length := by
  by_contra hlt
  have hin : out.length < (unpadded input len).length := by omega
  have hend := (fat16ToProperString_eq_some_iff.mp h).2.2
  rw [← getElem_unpadded input hin] at hend
  exact hno _ (List.getElem_mem hin) hend

/-! ### Rendering -/

/-- The item is rendered as its name, which has at most twelve characters. -/
def RendersRight (item : ℕ → UInt8) : Prop :=
  fat16GetFullRelativeFilename item peachosMaxPath = some (properName item) ∧
    (properName item).length ≤ 12

/-- No blank stands in the name or in the extension; an extension stands behind a name field
that is not full; and a full extension has a blank behind it, in the byte of the attributes. -/
structure NameEnds (item : ℕ → UInt8) : Prop where
  name : ∀ c ∈ unpadded item 8, ¬ IsBlank c
  ext : ∀ c ∈ unpadded (fun i => item (8 + i)) 3, ¬ IsBlank c
  short : (unpadded item 8).length = 8 → unpadded (fun i => item (8 + i)) 3 = []
  behind : (unpadded (fun i => item (8 + i)) 3).length = 3 → IsBlank (item 11)

theorem not_isBlank_dot : ¬ IsBlank (ascii '.') := by decide

theorem unpadded_ne_nil {input : ℕ → UInt8} {len : ℕ} (h : ¬ IsBlank (input 0)) :
    unpadded input (len + 1) ≠ [] := by
  intro hnil
  refine h (Or.inr (unpadded_space ?_ (Nat.succ_pos len)))
  rw [hnil]
  exact le_rfl

theorem NameEnds.of_renders {item : ℕ → UInt8} (h : RendersRight item) : NameEnds item := by
  have hle := length_unpadded_le item 8
  obtain ⟨out, hname, hrest⟩ := Option.bind_eq_some_iff.mp h.1
  by_cases h8 : IsBlank (item 8)
  · rw [if_neg fun hc => h8.elim hc.1 hc.2] at hrest
    have hout := fat16ToProperString_not_blank hname
    rw [Option.some.inj hrest] at hout hname
    have hext : unpadded (fun i => item (8 + i)) 3 = [] := by
      by_contra hne
      have hpos := List.length_pos_of_ne_nil hne
      have hmem : item 8 ∈ properName item := by
        rw [properName_of_ne hne]
        refine List.mem_append_right _ (List.mem_cons_of_mem _ ?_)
        have hfirst := getElem_unpadded (fun i => item (8 + i)) hpos
        rw [← hfirst]
        exact List.getElem_mem hpos
      exact hout _ hmem h8
    rw [properName_of_nil hext] at hout
    refine ⟨hout, ?_, fun _ => hext, ?_⟩
    · rw [hext]
      exact fun c hc => absurd hc List.not_mem_nil
    · rw [hext]
      exact fun hc => nomatch hc
  · rw [if_pos (not_or.mp h8)] at hrest
    obtain ⟨out', hext', heq⟩ := Option.map_eq_some_iff.mp hrest
    have hne : unpadded (fun i => item (8 + i)) 3 ≠ [] := unpadded_ne_nil h8
    rw [properName_of_ne hne] at heq
    -- every character that is copied, and so every character of the name, is no blank
    have hall : ∀ c ∈ out ++ ascii '.' :: out', ¬ IsBlank c := by
      intro c hc
      rcases List.mem_append.mp hc with hc | hc
      · exact fat16ToProperString_not_blank hname c hc
      · rcases List.mem_cons.mp hc with rfl | hc
        · exact not_isBlank_dot
        · exact fat16ToProperString_not_blank hext' c hc
    rw [heq] at hall
    have hnoname : ∀ c ∈ unpadded item 8, ¬ IsBlank c := fun c hc =>
      hall c (List.mem_append_left _ hc)
    have hnoext : ∀ c ∈ unpadded (fun i => item (8 + i)) 3, ¬ IsBlank c := fun c hc =>
      hall c (List.mem_append_right _ (List.mem_cons_of_mem _ hc))
    have hshort : (unpadded item 8).length ≠ 8 := by
      intro hfull
      -- the copy of the name runs on through the extension
      have hrun : 8 + (unpadded (fun i => item (8 + i)) 3).length ≤ out.length := by
        by_contra hlt
        have hend := (fat16ToProperString_eq_some_iff.mp hname).2.2
        rcases Nat.lt_or_ge out.length 8 with h8' | h8'
        · have hin : out.length < (unpadded item 8).length := by omega
          rw [← getElem_unpadded item hin] at hend
          exact hnoname _ (List.getElem_mem hin) hend
        · have hin : out.length - 8 < (unpadded (fun i => item (8 + i)) 3).length := by omega
          have hchar := getElem_unpadded (fun i => item (8 + i)) hin
          rw [Nat.add_sub_cancel' h8'] at hchar
          rw [← hchar] at hend
          exact hnoext _ (List.getElem_mem hin) hend
      have hlen := congrArg List.length heq
      rw [List.length_append, List.length_append, List.length_cons, List.length_cons] at hlen
      have hpos := List.length_pos_of_ne_nil hne
      have hle' := length_unpadded_le_of_some hext' hnoext
      omega
    have hout : out = unpadded item 8 := by
      have hroom : (unpadded item 8).length < peachosMaxPath := by unfold peachosMaxPath; omega
      rw [fat16ToProperString_unpadded hroom hnoname fun hfull => absurd hfull hshort] at hname
      exact (Option.some.inj hname).symm
    rw [hout] at heq
    have hout' : out' = unpadded (fun i => item (8 + i)) 3 :=
      (List.cons.inj (List.append_cancel_left heq)).2
    refine ⟨hnoname, hnoext, fun hfull => absurd hfull hshort, fun hthree => ?_⟩
    have hend := (fat16ToProperString_eq_some_iff.mp hext').2.2
    rwa [hout', hthree] at hend

theorem NameEnds.renders {item : ℕ → UInt8} (h : NameEnds item) : RendersRight item := by
  have hle := length_unpadded_le item 8
  have hle' := length_unpadded_le (fun i => item (8 + i)) 3
  refine ⟨?_, length_properName_le item⟩
  unfold fat16GetFullRelativeFilename
  by_cases hext : unpadded (fun i => item (8 + i)) 3 = []
  · have h8 : item 8 = 0x20 := by
      have hspaces := fun i => unpadded_space (f := fun i => item (8 + i)) (n := 3) (i := i)
      exact hspaces 0 (by rw [hext]; exact le_rfl) (by decide)
    rw [fat16ToProperString_unpadded (by unfold peachosMaxPath; omega) h.name fun _ => Or.inr h8,
      Option.bind_some, if_neg fun hc => hc.2 h8, properName_of_nil hext]
  · have hpos := List.length_pos_of_ne_nil hext
    have h8 : ¬ IsBlank (item 8) := by
      have hfirst := getElem_unpadded (fun i => item (8 + i)) hpos
      have hnot := h.ext _ (List.getElem_mem hpos)
      rwa [hfirst] at hnot
    rw [fat16ToProperString_unpadded (by unfold peachosMaxPath; omega) h.name
        fun hfull => absurd (h.short hfull) hext,
      Option.bind_some, if_pos (not_or.mp h8),
      fat16ToProperString_unpadded (by unfold peachosMaxPath; omega) h.ext h.behind,
      Option.map_some, properName_of_ne hext]

/-- **Rendering a name** is right if and only if the name ends where its fields do. -/
theorem fat16GetFullRelativeFilename_iff (item : ℕ → UInt8) :
    RendersRight item ↔ NameEnds item :=
  ⟨NameEnds.of_renders, NameEnds.renders⟩

/-- An item whose name and extension fill their fields, of an archived file. -/
def fullNameItem : ℕ → UInt8 := fun i =>
  if i < 8 then 65 else if i < 11 then 66 else if i = 11 then 0x20 else 0

/-- The extension is copied behind the name as well. -/
theorem fat16GetFullRelativeFilename_full : ¬ RendersRight fullNameItem := by
  intro h
  exact absurd ((NameEnds.of_renders h).short (by decide)) (by decide)

end PeachOS
