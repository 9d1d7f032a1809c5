import PeachOS.Terminal
import PeachOS.UserCopy

/-! # The text buffer in memory

`print` reads a string byte by byte while `terminal_putchar` stores to the cells of `video_mem`,
two bytes each from `0xB8000` on.  `printAt` runs both on the same memory.

The rows of the terminal have no bound.  Behind the video memory, which ends at `0xC0000`, the
stores would reach the ROM and then, from `0x100000` on, the image of the kernel.  What happens
there is not modelled: a character for such a cell has no result.  `printAt_eq`: where the string
is not in video memory, `printAt` is `print` of that string, and it has a result if and only if
the characters stay in video memory (`writeText_isSome_iff`). -/

namespace PeachOS

open ByteMemory

/-! ### The code -/

/-- The cells of the video memory, the 32 KiB from `0xB8000` on. -/
def videoCells : ℕ := 16384

/-- The address of cell `i` of `video_mem`. -/
def cellAddr (i : ℕ) : UInt32 := off 0xB8000 (2 * i)

/-- Store a cell. -/
def storeCell (i : ℕ) (cell : UInt16) (m : Mem) : Mem :=
  (m.write (cellAddr i) cell.toUInt8).write (off (cellAddr i) 1) (cell >>> 8).toUInt8

/-- The cells that are written on the way from `t` to `t'`. -/
def newCells (t t' : Terminal) : List ℕ :=
  t'.written.take (t'.written.length - t.written.length)

/-- `terminal_writechar` on the terminal and its memory; `none` is a store outside of the video
memory. -/
def writecharAt (c colour : UInt8) (s : Terminal × Mem) : Option (Terminal × Mem) :=
  let t := terminalWritechar c colour s.1
  if ∀ i ∈ newCells s.1 t, i < videoCells then
    some (t, (newCells s.1 t).foldr (fun i m => storeCell i (t.videoMem i) m) s.2)
  else none

/-- `strlen` of memory, with the rounds left; `none` is a loop that does not end. -/
def strlenAt (m : Mem) (ptr : UInt32) : ℕ → ℕ → Option ℕ
  | 0, _ => none
  | left + 1, i => if m (off ptr i) = 0 then some i else strlenAt m ptr left (i + 1)

/-- The loop of `print`, with the rounds left. -/
def printLoop (str : UInt32) : ℕ → ℕ → Terminal × Mem → Option (Terminal × Mem)
  | 0, _, s => some s
  | left + 1, i, s => (writecharAt (s.2 (off str i)) 15 s).bind (printLoop str left (i + 1))

/-- `print` of the string at `str`. -/
def printAt (str : UInt32) (s : Terminal × Mem) : Option (Terminal × Mem) :=
  (strlenAt s.2 str 4294967296 0).bind fun len => printLoop str len 0 s

/-! ### The cells of one character -/

variable {t t' : Terminal} {m : Mem} {c colour : UInt8} {str x : UInt32} {text : List UInt8}

/-- The cell `i` is written on the way from `t` to `t'`. -/
def WritesCell (t t' : Terminal) (i : ℕ) : Prop :=
  t'.written = i :: t.written ∧ ∃ cell, t'.videoMem = Function.update t.videoMem i cell

/-- A printable character writes one cell. -/
theorem terminalWritechar_writes_printable (hc : Printable c) (colour : UInt8) (t : Terminal) :
    ∃ i, WritesCell t (terminalWritechar c colour t) i := by
  refine ⟨t.row.toNat * vgaWidth + t.col.toNat, ?_⟩
  rw [terminalWritechar_printable hc]
  dsimp only
  split_ifs <;> exact ⟨rfl, _, rfl⟩

/-- Every character writes one cell at most. -/
theorem terminalWritechar_writes (c colour : UInt8) (t : Terminal) :
    ((terminalWritechar c colour t).written = t.written ∧
        (terminalWritechar c colour t).videoMem = t.videoMem) ∨
      ∃ i, WritesCell t (terminalWritechar c colour t) i := by
  by_cases h10 : c = 10
  · subst h10
    rw [terminalWritechar_newline]
    exact Or.inl ⟨rfl, rfl⟩
  by_cases h8 : c = 8
  · subst h8
    rw [terminalWritechar_backspace, terminalBackspace]
    dsimp only
    split_ifs
    · exact Or.inl ⟨rfl, rfl⟩
    -- the blank
    all_goals
      right
      obtain ⟨i, hblank⟩ := terminalWritechar_writes_printable (c := 32) (by decide) 15 _
      exact ⟨i, hblank⟩
  · exact Or.inr (terminalWritechar_writes_printable ⟨h10, h8⟩ colour t)

/-- The record of the cells only grows. -/
theorem terminalWritechar_suffix (c colour : UInt8) (t : Terminal) :
    t.written <:+ (terminalWritechar c colour t).written := by
  rcases terminalWritechar_writes c colour t with ⟨h, -⟩ | ⟨i, h, -⟩
  · rw [h]
  · rw [h]
    exact List.suffix_cons i _

theorem terminalText_suffix : ∀ (text : List UInt8) (t : Terminal),
    t.written <:+ (terminalText text t).written
  | [], _ => List.suffix_refl _
  | c :: text, t =>
      (terminalWritechar_suffix c 15 t).trans (terminalText_suffix text (terminalWritechar c 15 t))

theorem newCells_of_append {l : List ℕ} (h : t'.written = l ++ t.written) : newCells t t' = l := by
  unfold newCells
  rw [h, List.length_append, Nat.add_sub_cancel, List.take_left']
  rfl

/-- What one character does to the terminal and to memory. -/
theorem writecharAt_spec {s s' : Terminal × Mem} (h : writecharAt c colour s = some s') :
    s'.1 = terminalWritechar c colour s.1 ∧
      (s'.1.written = s.1.written ∧ s'.1.videoMem = s.1.videoMem ∧ s'.2 = s.2 ∨
        ∃ i < videoCells, WritesCell s.1 s'.1 i ∧ s'.2 = storeCell i (s'.1.videoMem i) s.2) := by
  unfold writecharAt at h
  dsimp only at h
  split_ifs at h with hvideo
  obtain rfl := Option.some.inj h
  refine ⟨rfl, ?_⟩
  rcases terminalWritechar_writes c colour s.1 with ⟨hw, hv⟩ | ⟨i, hw⟩
  · left
    have hnew : newCells s.1 (terminalWritechar c colour s.1) = [] :=
      newCells_of_append (by rw [hw]; rfl)
    rw [hnew]
    exact ⟨hw, hv, rfl⟩
  · right
    have hnew : newCells s.1 (terminalWritechar c colour s.1) = [i] :=
      newCells_of_append (by rw [hw.1]; rfl)
    rw [hnew] at hvideo ⊢
    exact ⟨i, hvideo i List.mem_cons_self, hw, rfl⟩

/-! ### Stores to the video memory -/

/-- A byte of the video memory. -/
def ScreenByte (x : UInt32) : Prop := 0xB8000 ≤ x.toNat ∧ x.toNat < 0xC0000

theorem inCell_iff {i : ℕ} (hi : i < videoCells) :
    InRange (cellAddr i) 2 x ↔ x.toNat = 0xB8000 + 2 * i ∨ x.toNat = 0xB8000 + 2 * i + 1 := by
  unfold videoCells at hi
  have haddr : (cellAddr i).toNat = 0xB8000 + 2 * i := by
    unfold cellAddr
    rw [toNat_off, show (0xB8000 : UInt32).toNat = 0xB8000 from rfl]
    omega
  rw [inRange_iff (by omega), haddr]
  omega

theorem storeCell_apply_of_not_inRange {i : ℕ} {cell : UInt16} (hx : ¬ InRange (cellAddr i) 2 x) :
    storeCell i cell m x = m x := by
  unfold storeCell
  rw [Mem.write_ne, Mem.write_ne]
  · rintro rfl
    exact hx (by simpa using inRange_off (p := cellAddr i) (k := 0) (show 0 < 2 by decide))
  · rintro rfl
    exact hx (inRange_off (by decide))

/-- Whatever is written, only the video memory changes. -/
theorem writecharAt_frame {s s' : Terminal × Mem} (h : writecharAt c colour s = some s')
    (hx : ¬ ScreenByte x) : s'.2 x = s.2 x := by
  obtain ⟨-, ⟨-, -, hmem⟩ | ⟨i, hi, -, hmem⟩⟩ := writecharAt_spec h
  · rw [hmem]
  · rw [hmem]
    refine storeCell_apply_of_not_inRange fun hr => hx ?_
    rw [inCell_iff hi] at hr
    unfold videoCells at hi
    unfold ScreenByte
    omega

/-! ### What the screen shows -/

/-- The cell `i` in memory. -/
def cellAt (m : Mem) (i : ℕ) : UInt16 :=
  UInt16.ofNat ((m (cellAddr i)).toNat + 256 * (m (off (cellAddr i) 1)).toNat)

/-- Memory holds the cells that were written. -/
def Displays (t : Terminal) (m : Mem) : Prop :=
  ∀ i ∈ t.written, i < videoCells ∧ cellAt m i = t.videoMem i

/-- A store to a cell is read back. -/
theorem cellAt_storeCell (i : ℕ) (cell : UInt16) (m : Mem) :
    cellAt (storeCell i cell m) i = cell := by
  have hne : cellAddr i ≠ off (cellAddr i) 1 := by
    intro e
    have := congrArg UInt32.toNat e
    rw [toNat_off] at this
    have := toNat_lt (cellAddr i)
    omega
  have hcell := cell.toNat_lt
  apply UInt16.toNat.inj
  unfold cellAt storeCell
  rw [Mem.write_same, Mem.write_ne _ _ hne, Mem.write_same]
  rw [UInt16.toNat_ofNat', UInt16.toNat_toUInt8, UInt16.toNat_toUInt8, UInt16.toNat_shiftRight]
  simp only [UInt16.reduceToNat, Nat.shiftRight_eq_div_pow, Nat.reduceMod, Nat.reducePow]
  omega

theorem cellAt_congr {m' : Mem} {i : ℕ} (h : ∀ x, InRange (cellAddr i) 2 x → m' x = m x) :
    cellAt m' i = cellAt m i := by
  unfold cellAt
  rw [h _ (by simpa using inRange_off (p := cellAddr i) (k := 0) (show 0 < 2 by decide)),
    h _ (inRange_off (by decide))]

/-- Two cells do not meet. -/
theorem cellAt_storeCell_of_ne {i j : ℕ} (hi : i < videoCells) (hj : j < videoCells) (hne : j ≠ i)
    (cell : UInt16) (m : Mem) : cellAt (storeCell i cell m) j = cellAt m j := by
  refine cellAt_congr fun x hx => storeCell_apply_of_not_inRange fun hr => ?_
  rw [inCell_iff hj] at hx
  rw [inCell_iff hi] at hr
  omega

theorem Displays.writecharAt {s s' : Terminal × Mem} (h : Displays s.1 s.2)
    (hwrite : PeachOS.writecharAt c colour s = some s') : Displays s'.1 s'.2 := by
  obtain ⟨-, ⟨hw, hv, hmem⟩ | ⟨i, hi, ⟨hw, cell, hv⟩, hmem⟩⟩ := writecharAt_spec hwrite
  · intro j hj
    rw [hw] at hj
    rw [hv, hmem]
    exact h j hj
  · intro j hj
    rw [hw] at hj
    rw [hmem]
    rcases eq_or_ne j i with rfl | hne
    · exact ⟨hi, cellAt_storeCell _ _ _⟩
    · obtain ⟨hjb, hcell⟩ := h j ((List.mem_cons.mp hj).resolve_left hne)
      rw [cellAt_storeCell_of_ne hi hjb hne, hv, Function.update_of_ne hne]
      exact ⟨hjb, hcell⟩

/-! ### The characters of a text -/

/-- Write the characters of a text. -/
def writeText : List UInt8 → Terminal × Mem → Option (Terminal × Mem)
  | [], s => some s
  | c :: text, s => (writecharAt c 15 s).bind (writeText text)

/-- The characters of a text go to the video memory. -/
def ShownIn (text : List UInt8) (t : Terminal) : Prop :=
  ∀ i ∈ newCells t (terminalText text t), i < videoCells

theorem newCells_cons (c : UInt8) (text : List UInt8) (t : Terminal) :
    newCells t (terminalText (c :: text) t) =
      newCells (terminalWritechar c 15 t) (terminalText text (terminalWritechar c 15 t)) ++
        newCells t (terminalWritechar c 15 t) := by
  obtain ⟨l, hl⟩ := terminalWritechar_suffix c 15 t
  obtain ⟨l', hl'⟩ := terminalText_suffix text (terminalWritechar c 15 t)
  rw [newCells_of_append hl.symm, newCells_of_append hl'.symm]
  refine newCells_of_append ?_
  change (terminalText text (terminalWritechar c 15 t)).written = _
  rw [← hl', ← hl, List.append_assoc]

theorem writecharAt_isSome_iff (c : UInt8) (s : Terminal × Mem) :
    (writecharAt c 15 s).isSome ↔ ShownIn [c] s.1 := by
  unfold writecharAt ShownIn
  dsimp only
  split_ifs with hvideo
  · exact iff_of_true rfl hvideo
  · exact iff_of_false (by simp) hvideo

/-- A text has a result if and only if its characters stay in the video memory. -/
theorem writeText_isSome_iff : ∀ (text : List UInt8) (s : Terminal × Mem),
    (writeText text s).isSome ↔ ShownIn text s.1
  | [], s => by
      refine iff_of_true rfl fun i hi => ?_
      have hnil : newCells s.1 (terminalText [] s.1) = [] := newCells_of_append rfl
      rw [hnil] at hi
      exact absurd hi List.not_mem_nil
  | c :: text, s => by
      have ih := writeText_isSome_iff text
      unfold ShownIn at ih ⊢
      simp only [newCells_cons, List.mem_append, or_imp, forall_and]
      unfold writeText writecharAt
      dsimp only
      split_ifs with hvideo
      · rw [Option.bind_some, ih]
        exact ⟨fun h => ⟨h, hvideo⟩, And.left⟩
      · exact iff_of_false (by simp) fun h => hvideo h.2

theorem writeText_terminal : ∀ {text : List UInt8} {s s' : Terminal × Mem},
    writeText text s = some s' → s'.1 = terminalText text s.1
  | [], s, s', h => by
      obtain rfl := Option.some.inj h
      rfl
  | c :: text, s, s', h => by
      obtain ⟨s₁, h₁, h⟩ := Option.bind_eq_some_iff.mp h
      rw [writeText_terminal h, (writecharAt_spec h₁).1]
      rfl

theorem writeText_frame (hx : ¬ ScreenByte x) : ∀ {text : List UInt8} {s s' : Terminal × Mem},
    writeText text s = some s' → s'.2 x = s.2 x
  | [], s, s', h => by
      obtain rfl := Option.some.inj h
      rfl
  | c :: text, s, s', h => by
      obtain ⟨s₁, h₁, h⟩ := Option.bind_eq_some_iff.mp h
      rw [writeText_frame hx h, writecharAt_frame h₁ hx]

/-- **The screen is what the terminal recorded**, whatever is written. -/
theorem Displays.writeText : ∀ {text : List UInt8} {s s' : Terminal × Mem}, Displays s.1 s.2 →
    PeachOS.writeText text s = some s' → Displays s'.1 s'.2
  | [], s, s', h, hwrite => by
      obtain rfl := Option.some.inj hwrite
      exact h
  | c :: text, s, s', h, hwrite => by
      obtain ⟨s₁, h₁, hwrite⟩ := Option.bind_eq_some_iff.mp hwrite
      exact (h.writecharAt h₁).writeText hwrite

/-! ### Printing a string -/

/-- Whatever the loop reads, it writes a text. -/
theorem printLoop_terminal : ∀ (left i : ℕ) {s s' : Terminal × Mem},
    printLoop str left i s = some s' → ∃ text, s'.1 = terminalText text s.1
  | 0, _, s, s', h => by
      obtain rfl := Option.some.inj h
      exact ⟨[], rfl⟩
  | left + 1, i, s, s', h => by
      obtain ⟨s₁, h₁, h⟩ := Option.bind_eq_some_iff.mp h
      obtain ⟨text, htext⟩ := printLoop_terminal left (i + 1) h
      rw [(writecharAt_spec h₁).1] at htext
      exact ⟨s.2 (off str i) :: text, htext⟩

theorem printAt_terminal {s s' : Terminal × Mem} (h : printAt str s = some s') :
    ∃ text, s'.1 = terminalText text s.1 := by
  obtain ⟨len, -, h⟩ := Option.bind_eq_some_iff.mp h
  exact printLoop_terminal len 0 h

/-- `text` stands at `p`, with a NUL behind it. -/
structure TextAt (m : Mem) (p : UInt32) (text : List UInt8) : Prop where
  char : ∀ i (hi : i < text.length), m (off p i) = text[i]
  nul : m (off p text.length) = 0
  nonzero : 0 ∉ text

/-- In front of a NUL stands a text. -/
theorem exists_textAt (hx : m x = 0) (hle : str.toNat ≤ x.toNat) :
    ∃ text, TextAt m str text ∧ str.toNat + text.length ≤ x.toNat := by
  have hlt := toNat_lt x
  have hnul : ∃ j, m (off str j) = 0 := by
    refine ⟨x.toNat - str.toNat, ?_⟩
    rwa [show off str (x.toNat - str.toNat) = x from UInt32.toNat.inj
      (by rw [toNat_off_of_lt (by omega)]; omega)]
  have hfirst : Nat.find hnul ≤ x.toNat - str.toNat := Nat.find_min' hnul (by
    rwa [show off str (x.toNat - str.toNat) = x from UInt32.toNat.inj
      (by rw [toNat_off_of_lt (by omega)]; omega)])
  refine ⟨(List.range (Nat.find hnul)).map fun i => m (off str i), ⟨fun i hi => ?_, ?_, ?_⟩, ?_⟩
  · rw [List.getElem_map, List.getElem_range]
  · rw [List.length_map, List.length_range]
    exact Nat.find_spec hnul
  · rintro h0
    obtain ⟨i, hi, hzero⟩ := List.mem_map.mp h0
    exact Nat.find_min hnul (List.mem_range.mp hi) hzero
  · rw [List.length_map, List.length_range]
    omega

/-- There is one text at a place. -/
theorem TextAt.unique {text' : List UInt8} (h : TextAt m str text) (h' : TextAt m str text') :
    text' = text := by
  -- a text that is shorter would have a NUL in it
  have hle : ∀ {v w : List UInt8}, TextAt m str v → TextAt m str w → v.length ≤ w.length := by
    intro v w hv hw
    by_contra hlt
    have hchar := hv.char w.length (by omega)
    rw [hw.nul] at hchar
    exact hv.nonzero (hchar ▸ List.getElem_mem _)
  have hlen : text'.length = text.length := Nat.le_antisymm (hle h' h) (hle h h')
  refine List.ext_getElem hlen fun i hi hi' => ?_
  rw [← h'.char i hi, h.char i hi']

theorem strlenAt_of_textAt (h : TextAt m str text) :
    ∀ (left i : ℕ), i ≤ text.length → text.length < i + left →
      strlenAt m str left i = some text.length
  | 0, i, hi, hleft => absurd hleft (by omega)
  | left + 1, i, hi, hleft => by
      rw [strlenAt]
      rcases Nat.lt_or_ge i text.length with hlt | hge
      · have hne : text[i] ≠ 0 := fun e => h.nonzero (e ▸ List.getElem_mem hlt)
        rw [h.char i hlt, if_neg hne]
        exact strlenAt_of_textAt h left (i + 1) hlt (by omega)
      · obtain rfl : i = text.length := by omega
        rw [h.nul, if_pos rfl]

/-- The loop writes the characters that are left. -/
theorem printLoop_eq {n : ℕ} (hout : ∀ j < n, ¬ ScreenByte (off str j)) :
    ∀ (text : List UInt8) (i : ℕ) (s : Terminal × Mem),
      (∀ j (hj : j < text.length), s.2 (off str (i + j)) = text[j]) → i + text.length ≤ n →
      printLoop str text.length i s = writeText text s
  | [], _, _, _, _ => rfl
  | c :: text, i, s, hchars, hn => by
      have hc : s.2 (off str i) = c := hchars 0 (by simp)
      rw [List.length_cons] at hn ⊢
      rw [printLoop, writeText, hc]
      refine Option.bind_congr fun s₁ h₁ => ?_
      refine printLoop_eq hout text (i + 1) s₁ (fun j hj => ?_) (by omega)
      rw [writecharAt_frame h₁ (hout _ (by omega)), Nat.add_assoc, Nat.add_comm 1]
      exact hchars (j + 1) (by simpa using hj)

/-- **`print` in memory** writes the characters of a string that is not in video memory. -/
theorem printAt_eq (htext : TextAt m str text) (hlen : text.length < 4294967296)
    (hout : ∀ j < text.length, ¬ ScreenByte (off str j)) (t : Terminal) :
    printAt str (t, m) = writeText text (t, m) := by
  unfold printAt
  rw [strlenAt_of_textAt htext 4294967296 0 (Nat.zero_le _) (by omega), Option.bind_some]
  exact printLoop_eq hout text 0 (t, m)
    (fun j hj => by rw [Nat.zero_add]; exact htext.char j hj) (by omega)

end PeachOS
