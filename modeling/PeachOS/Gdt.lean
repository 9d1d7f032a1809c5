import PeachOS.ByteMemory

/-! # The global descriptor table

`gdt.c`: structured segments are packed into the 8-byte descriptors of the processor.  The
base is scattered over bytes 2, 3, 4 and 7, the 20-bit limit over bytes 0 and 1 and the low
nibble of byte 6, whose high nibble says whether the limit counts bytes or pages.

`GdtDescriptor.decode` reads a descriptor the way the processor does;
`gdtStructuredToGdt_roundTrip` says that it finds the segments that were encoded. -/

namespace PeachOS

open ByteMemory

/-- `struct gdt_structured`. -/
@[ext] structure GdtStructured where
  base : UInt32
  limit : UInt32
  type : UInt8
deriving DecidableEq, Repr

/-- The limits that `encodeGdtEntry` accepts. -/
def GdtStructured.Admissible (source : GdtStructured) : Prop :=
  ¬ (source.limit > 65536 ∧ source.limit &&& 0xfff ≠ 0xfff)

instance (source : GdtStructured) : Decidable source.Admissible := by
  unfold GdtStructured.Admissible; infer_instance

/-! ### Encoding -/

/-- `encodeGdtEntry`; `none` when it panics, which never returns. -/
def encodeGdtEntry (target : UInt32) (source : GdtStructured) (m : Mem) : Option Mem :=
  if source.limit > 65536 ∧ source.limit &&& 0xfff ≠ 0xfff then none
  else
    let m := m.write (off target 6) 0x40
    let limit := if source.limit > 65536 then source.limit >>> 12 else source.limit
    let m := if source.limit > 65536 then m.write (off target 6) 0xc0 else m
    -- encode the limit
    let m := m.write (off target 0) (limit &&& 0xff).toUInt8
    let m := m.write (off target 1) ((limit >>> 8) &&& 0xff).toUInt8
    let m := m.write (off target 6) (m (off target 6) ||| ((limit >>> 16) &&& 0x0f).toUInt8)
    -- encode the base
    let m := m.write (off target 2) (source.base &&& 0xff).toUInt8
    let m := m.write (off target 3) ((source.base >>> 8) &&& 0xff).toUInt8
    let m := m.write (off target 4) ((source.base >>> 16) &&& 0xff).toUInt8
    let m := m.write (off target 7) ((source.base >>> 24) &&& 0xff).toUInt8
    -- set the type
    some (m.write (off target 5) source.type)

/-- The loop of `gdt_structured_to_gdt`: `left` entries remain from index `i` on. -/
def gdtLoop (gdt : UInt32) (structuredGdt : ℕ → GdtStructured) : ℕ → ℕ → Mem → Option Mem
  | 0, _, m => some m
  | left + 1, i, m =>
      (encodeGdtEntry (off gdt (8 * i)) (structuredGdt i) m).bind
        (gdtLoop gdt structuredGdt left (i + 1))

/-- `gdt_structured_to_gdt`. -/
def gdtStructuredToGdt (gdt : UInt32) (structuredGdt : ℕ → GdtStructured) (totalEntries : ℤ)
    (m : Mem) : Option Mem :=
  gdtLoop gdt structuredGdt totalEntries.toNat 0 m

/-! ### Decoding -/

/-- The eight bytes of `struct gdt`. -/
abbrev GdtDescriptor := Fin 8 → UInt8

/-- The descriptor at an address. -/
def gdtDescriptor (m : Mem) (target : UInt32) : GdtDescriptor := fun k => m (off target k)

namespace GdtDescriptor

def base (d : GdtDescriptor) : UInt32 :=
  UInt32.ofNat ((d 2).toNat + 256 * (d 3).toNat + 65536 * (d 4).toNat + 16777216 * (d 7).toNat)

/-- The 20-bit limit field. -/
def limitField (d : GdtDescriptor) : ℕ :=
  (d 0).toNat + 256 * (d 1).toNat + 65536 * (d 6 &&& 0x0f).toNat

/-- The granularity bit is set: the limit counts pages. -/
def Granular (d : GdtDescriptor) : Prop := d 6 &&& 0x80 ≠ 0

instance (d : GdtDescriptor) : Decidable d.Granular := by unfold Granular; infer_instance

def limit (d : GdtDescriptor) : UInt32 :=
  UInt32.ofNat (if d.Granular then d.limitField * 4096 + 4095 else d.limitField)

/-- The segment a descriptor stands for, by the layout of the processor. -/
def decode (d : GdtDescriptor) : GdtStructured := ⟨d.base, d.limit, d 5⟩

end GdtDescriptor

/-! ### Bytes and nibbles -/

theorem toNat_maskByte (v : UInt32) : (v &&& 0xff).toUInt8.toNat = v.toNat % 256 := by
  have hmask : (v &&& 0xff).toNat = v.toNat % 256 := by
    rw [UInt32.toNat_and]
    exact Nat.and_two_pow_sub_one_eq_mod v.toNat 8
  rw [UInt32.toNat_toUInt8, hmask]
  omega

theorem toNat_maskNibble (v : UInt32) : (v &&& 0x0f).toUInt8.toNat = v.toNat % 16 := by
  have hmask : (v &&& 0x0f).toNat = v.toNat % 16 := by
    rw [UInt32.toNat_and]
    exact Nat.and_two_pow_sub_one_eq_mod v.toNat 4
  rw [UInt32.toNat_toUInt8, hmask]
  omega

theorem toNat_mask12 (v : UInt32) : (v &&& 0xfff).toNat = v.toNat % 4096 := by
  rw [UInt32.toNat_and]
  exact Nat.and_two_pow_sub_one_eq_mod v.toNat 12

theorem toNat_shiftRight (v n : UInt32) (hn : n.toNat < 32) :
    (v >>> n).toNat = v.toNat / 2 ^ n.toNat := by
  rw [UInt32.toNat_shiftRight, Nat.mod_eq_of_lt hn, Nat.shiftRight_eq_div_pow]

/-- A nibble or-ed into the flags is read back and leaves the granularity bit alone. -/
theorem highFlags {flags n : UInt8} (hflags : flags = 0x40 ∨ flags = 0xc0) (hn : n.toNat < 16) :
    ((flags ||| n) &&& 0x0f) = n ∧ ((flags ||| n) &&& 0x80 ≠ 0 ↔ flags = 0xc0) := by
  have hall : ∀ j < 16,
      (((0x40 ||| UInt8.ofNat j) &&& 0x0f) = UInt8.ofNat j ∧
        (0x40 ||| UInt8.ofNat j) &&& 0x80 = 0) ∧
      ((0xc0 ||| UInt8.ofNat j) &&& 0x0f) = UInt8.ofNat j ∧
        (0xc0 ||| UInt8.ofNat j) &&& 0x80 ≠ 0 := by decide
  obtain ⟨hbytes, hpages⟩ := hall n.toNat hn
  rw [UInt8.ofNat_toNat] at hbytes hpages
  rcases hflags with rfl | rfl
  · exact ⟨hbytes.1, iff_of_false (fun h => h hbytes.2) (by decide)⟩
  · exact ⟨hpages.1, iff_of_true hpages.2 rfl⟩

/-! ### One descriptor -/

/-- The limit as it is stored, in bytes or in pages. -/
def storedLimit (source : GdtStructured) : UInt32 :=
  if source.limit > 65536 then source.limit >>> 12 else source.limit

/-- The high nibble of byte 6. -/
def storedFlags (source : GdtStructured) : UInt8 := if source.limit > 65536 then 0xc0 else 0x40

/-- The bytes that `encodeGdtEntry` stores. -/
def gdtBytes (source : GdtStructured) : GdtDescriptor
  | 0 => (storedLimit source &&& 0xff).toUInt8
  | 1 => ((storedLimit source >>> 8) &&& 0xff).toUInt8
  | 2 => (source.base &&& 0xff).toUInt8
  | 3 => ((source.base >>> 8) &&& 0xff).toUInt8
  | 4 => ((source.base >>> 16) &&& 0xff).toUInt8
  | 5 => source.type
  | 6 => storedFlags source ||| ((storedLimit source >>> 16) &&& 0x0f).toUInt8
  | 7 => ((source.base >>> 24) &&& 0xff).toUInt8

/-- `encodeGdtEntry` stores the eight bytes of the descriptor of an admissible segment, and
nothing else. -/
theorem encodeGdtEntry_spec {source : GdtStructured} (hadm : source.Admissible) (target : UInt32)
    (m : Mem) :
    ∃ m', encodeGdtEntry target source m = some m' ∧ gdtDescriptor m' target = gdtBytes source ∧
      ∀ x, ¬ InRange target 8 x → m' x = m x := by
  have hoff : ∀ j k : ℕ, j < 8 → k < 8 → (off target j = off target k ↔ j = k) :=
    fun j k hj hk => ⟨off_inj (by omega) (by omega), fun e => e ▸ rfl⟩
  refine ⟨_, if_neg hadm, ?_, fun x hx => ?_⟩
  · funext k
    by_cases hlarge : source.limit > 65536 <;> fin_cases k <;>
      simp [-off_zero, gdtDescriptor, gdtBytes, storedLimit, storedFlags, Mem.write, hlarge, hoff]
  · have hout : ∀ k < 8, x ≠ off target k := fun k hk e => hx (e ▸ inRange_off hk)
    by_cases hlarge : source.limit > 65536 <;> simp [-off_zero, Mem.write, hlarge, hout]

/-- The base is scattered and gathered again. -/
theorem gdtBytes_base (source : GdtStructured) : (gdtBytes source).base = source.base := by
  have hlt := toNat_lt source.base
  apply UInt32.toNat.inj
  unfold GdtDescriptor.base
  rw [UInt32.toNat_ofNat']
  simp only [gdtBytes, toNat_maskByte]
  rw [toNat_shiftRight _ 8 (by decide), toNat_shiftRight _ 16 (by decide),
    toNat_shiftRight _ 24 (by decide)]
  simp only [UInt32.reduceToNat]
  omega

/-- The limit field holds the stored limit when it has at most 20 bits. -/
theorem gdtBytes_limitField {source : GdtStructured}
    (hbits : (storedLimit source).toNat < 1048576) :
    (gdtBytes source).limitField = (storedLimit source).toNat := by
  have hnibble : ((storedLimit source >>> 16) &&& 0x0f).toUInt8.toNat =
      (storedLimit source).toNat / 65536 % 16 := by
    rw [toNat_maskNibble, toNat_shiftRight _ 16 (by decide)]
    rfl
  have hflags : storedFlags source = 0x40 ∨ storedFlags source = 0xc0 := by
    unfold storedFlags
    split_ifs
    · exact Or.inr rfl
    · exact Or.inl rfl
  unfold GdtDescriptor.limitField
  simp only [gdtBytes]
  rw [(highFlags hflags (by omega)).1, hnibble, toNat_maskByte, toNat_maskByte,
    toNat_shiftRight _ 8 (by decide)]
  simp only [UInt32.reduceToNat]
  omega

/-- The granularity bit is set for the limits above 65536. -/
theorem gdtBytes_granular (source : GdtStructured) :
    (gdtBytes source).Granular ↔ source.limit > 65536 := by
  have hnibble : ((storedLimit source >>> 16) &&& 0x0f).toUInt8.toNat < 16 := by
    rw [toNat_maskNibble]
    omega
  unfold GdtDescriptor.Granular
  simp only [gdtBytes, storedFlags]
  by_cases hlarge : source.limit > 65536
  · rw [if_pos hlarge]
    exact iff_of_true ((highFlags (Or.inr rfl) hnibble).2.mpr rfl) hlarge
  · rw [if_neg hlarge]
    exact iff_of_false (fun h => absurd ((highFlags (Or.inl rfl) hnibble).2.mp h) (by decide))
      hlarge

theorem gdtBytes_limit {source : GdtStructured} (hadm : source.Admissible) :
    (gdtBytes source).limit = source.limit := by
  have hlt := toNat_lt source.limit
  apply UInt32.toNat.inj
  unfold GdtDescriptor.limit
  by_cases hlarge : source.limit > 65536
  · -- the limit counts pages, and its low 12 bits are all ones
    have hones : source.limit.toNat % 4096 = 4095 := by
      have hmask : source.limit &&& 0xfff = 0xfff := by
        by_contra hne
        exact hadm ⟨hlarge, hne⟩
      rw [← toNat_mask12, hmask]
      rfl
    have hstored : (storedLimit source).toNat = source.limit.toNat / 4096 := by
      unfold storedLimit
      rw [if_pos hlarge, toNat_shiftRight _ 12 (by decide)]
      rfl
    rw [if_pos ((gdtBytes_granular source).mpr hlarge), gdtBytes_limitField (by omega), hstored,
      UInt32.toNat_ofNat']
    omega
  · have hsmall : source.limit.toNat ≤ 65536 := by
      rw [gt_iff_lt, UInt32.lt_iff_toNat_lt] at hlarge
      exact Nat.le_of_not_lt hlarge
    have hstored : storedLimit source = source.limit := if_neg hlarge
    rw [if_neg fun hg => hlarge ((gdtBytes_granular source).mp hg),
      gdtBytes_limitField (by rw [hstored]; omega), hstored, UInt32.toNat_ofNat']
    omega

/-- The processor reads back the segment that was encoded. -/
theorem decode_gdtBytes {source : GdtStructured} (hadm : source.Admissible) :
    (gdtBytes source).decode = source :=
  GdtStructured.ext (gdtBytes_base source) (gdtBytes_limit hadm) rfl

/-! ### The table -/

/-- The loop from entry `i` on: the entries that remain are encoded and nothing else changes,
by induction on their number. -/
theorem gdtLoop_spec (gdt : UInt32) {structuredGdt : ℕ → GdtStructured} {n : ℕ}
    (hn : 8 * n ≤ 4294967296) (hadm : ∀ i < n, (structuredGdt i).Admissible) :
    ∀ (left i : ℕ) (m : Mem), i + left = n →
      ∃ m', gdtLoop gdt structuredGdt left i m = some m' ∧
        (∀ j, i ≤ j → j < n →
          gdtDescriptor m' (off gdt (8 * j)) = gdtBytes (structuredGdt j)) ∧
        ∀ x, ¬ InRange (off gdt (8 * i)) (8 * left) x → m' x = m x
  | 0, i, m, hi => ⟨m, rfl, fun j hj hjn => by omega, fun x _ => rfl⟩
  | left + 1, i, m, hi => by
      obtain ⟨m₁, henc, hdesc, hold⟩ :=
        encodeGdtEntry_spec (hadm i (by omega)) (off gdt (8 * i)) m
      obtain ⟨m', hloop, hdescs, hold'⟩ := gdtLoop_spec gdt hn hadm left (i + 1) m₁ (by omega)
      refine ⟨m', ?_, fun j hj hjn => ?_, fun x hx => ?_⟩
      · rw [gdtLoop, henc, Option.bind_some, hloop]
      · rcases Nat.lt_or_ge i j with hlt | hge
        · exact hdescs j hlt hjn
        · obtain rfl : j = i := by omega
          rw [← hdesc]
          funext k
          -- the later entries lie behind this one
          refine hold' _ fun hin => ?_
          obtain ⟨l, hl, heq⟩ := hin.exists_off
          rw [off_off, off_off] at heq
          have := off_inj (by omega) (by omega) heq
          omega
      · have houter : ∀ l < 8 * (left + 1), x ≠ off gdt (8 * i + l) := by
          intro l hl e
          refine hx ?_
          rw [e, ← off_off]
          exact inRange_off hl
        rw [hold' x fun hin => ?_, hold x fun hin => ?_]
        · obtain ⟨l, hl, heq⟩ := hin.exists_off
          rw [off_off] at heq
          exact houter l (by omega) heq
        · obtain ⟨l, hl, heq⟩ := hin.exists_off
          rw [off_off, show 8 * (i + 1) + l = 8 * i + (8 + l) by omega] at heq
          exact houter (8 + l) (by omega) heq

/-- **Encode and decode.**  For any number of admissible segments, `gdt_structured_to_gdt`
stores as many descriptors, the processor reads each one as the segment it was made from, and
different segments have different descriptors. -/
theorem gdtStructuredToGdt_roundTrip (gdt : UInt32) {structuredGdt : ℕ → GdtStructured} {n : ℕ}
    (hn : 8 * n ≤ 4294967296) (hadm : ∀ i < n, (structuredGdt i).Admissible) (m : Mem) :
    ∃ m', gdtStructuredToGdt gdt structuredGdt n m = some m' ∧
      (∀ i < n, (gdtDescriptor m' (off gdt (8 * i))).decode = structuredGdt i) ∧
      (∀ i < n, ∀ j < n, structuredGdt i ≠ structuredGdt j →
        gdtDescriptor m' (off gdt (8 * i)) ≠ gdtDescriptor m' (off gdt (8 * j))) ∧
      ∀ x, ¬ InRange gdt (8 * n) x → m' x = m x := by
  obtain ⟨m', hloop, hdesc, hold⟩ := gdtLoop_spec gdt hn hadm n 0 m (by omega)
  have hdecode : ∀ i < n, (gdtDescriptor m' (off gdt (8 * i))).decode = structuredGdt i := by
    intro i hi
    rw [hdesc i (Nat.zero_le i) hi]
    exact decode_gdtBytes (hadm i hi)
  refine ⟨m', hloop, hdecode, fun i hi j hj hne heq => hne ?_, by simpa using hold⟩
  rw [← hdecode i hi, ← hdecode j hj, heq]

/-- The segments that `kernel_main` encodes; the last one holds the address of `tss`. -/
def kernelSegments (tss : UInt32) : ℕ → GdtStructured
  | 1 => ⟨0, 0xffffffff, 0x9a⟩
  | 2 => ⟨0, 0xffffffff, 0x92⟩
  | 3 => ⟨0, 0xffffffff, 0xf8⟩
  | 4 => ⟨0, 0xffffffff, 0xf2⟩
  | 5 => ⟨tss, 100, 0xe9⟩
  | _ => ⟨0, 0, 0⟩

theorem gdtStructuredToGdt_kernelSegments :
    ∃ m', gdtStructuredToGdt 0x9000 (kernelSegments 0x8000) 6 (fun _ => 0) = some m' ∧
      (gdtDescriptor m' (off 0x9000 (8 * 5))).decode = ⟨0x8000, 100, 0xe9⟩ := by
  obtain ⟨m', hrun, hdecode, -⟩ := @gdtStructuredToGdt_roundTrip 0x9000
    (kernelSegments 0x8000) 6 (by norm_num) (fun i hi => by interval_cases i <;> decide) fun _ => 0
  exact ⟨m', hrun, hdecode 5 (by norm_num)⟩

end PeachOS
