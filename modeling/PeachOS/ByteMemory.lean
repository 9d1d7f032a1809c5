import Mathlib

/-! # A byte-addressed 32-bit memory

A total memory `Mem := UInt32 → UInt8`: every 32-bit address holds a byte and address
arithmetic wraps at `2 ^ 32`, as on a machine with 32-bit pointers.

* **Ranges.**  `InRange p n x` says that `x` is one of the `n` addresses from `p` on,
  counted cyclically, so that no side condition about wrapping is needed.
* **Bytes.**  `Mem.write` stores one byte; `Mem.fill` is the byte loop behind `memset`.
* **Words.**  `Mem.read32` and `Mem.write32` are little endian.  `read32_write32` and
  `read32_write32_of_aligned` are the two equations a proof about words needs.
* **Frames.**  `SameOn S m m'` says that two memories agree on a set of addresses.
* **Integers.**  `i32` is the two's complement reading of a machine word as a C `int`. -/

namespace ByteMemory

/-- Memory: one byte for each 32-bit address. -/
abbrev Mem := UInt32 → UInt8

/-! ### Machine integers -/

/-- The value of an integer once it is stored in a 32-bit two's complement `int`. -/
def i32 (x : ℤ) : ℤ :=
  -- the sign is tested on naturals: an integer test would not reduce on an open term
  let r := (x % 4294967296).toNat
  if r < 2147483648 then r else (r : ℤ) - 4294967296

theorem i32_of_range {x : ℤ} (h₁ : -2147483648 ≤ x) (h₂ : x < 2147483648) : i32 x = x := by
  unfold i32
  dsimp only
  split_ifs <;> omega

theorem i32_range (x : ℤ) : -2147483648 ≤ i32 x ∧ i32 x < 2147483648 := by
  unfold i32
  dsimp only
  split_ifs <;> omega

theorem i32_congr {x y : ℤ} (h : x % 4294967296 = y % 4294967296) : i32 x = i32 y := by
  unfold i32
  rw [h]

/-- Storing in an `int` changes a value by a multiple of `2 ^ 32`. -/
theorem i32_emod (x : ℤ) : i32 x % 4294967296 = x % 4294967296 := by
  unfold i32
  dsimp only
  split_ifs <;> omega

/-- An overflow on the way does not change the result modulo `2 ^ 32`. -/
theorem i32_add_i32 (x y : ℤ) : i32 (i32 x + y) = i32 (x + y) := by
  apply i32_congr
  rw [Int.add_emod, i32_emod, ← Int.add_emod]

theorem toNat_ofInt (x : ℤ) : ((UInt32.ofInt x).toNat : ℤ) = x % 4294967296 := by
  unfold UInt32.ofInt
  rw [UInt32.toNat_ofNat']
  omega

theorem ofInt_natCast (n : ℕ) : UInt32.ofInt (n : ℤ) = UInt32.ofNat n := by
  apply UInt32.toNat.inj
  have h := toNat_ofInt (n : ℤ)
  rw [UInt32.toNat_ofNat']
  omega

theorem ofInt_i32 (x : ℤ) : UInt32.ofInt (i32 x) = UInt32.ofInt x := by
  apply UInt32.toNat.inj
  have h₁ := toNat_ofInt (i32 x)
  have h₂ := toNat_ofInt x
  rw [i32_emod] at h₁
  omega

theorem toNat_lt (x : UInt32) : x.toNat < 4294967296 := x.toNat_lt

/-! ### Ranges of addresses -/

/-- `x` is one of the `n` addresses `p, p + 1, …`, counted cyclically. -/
def InRange (p : UInt32) (n : ℕ) (x : UInt32) : Prop := (x - p).toNat < n

instance (p : UInt32) (n : ℕ) (x : UInt32) : Decidable (InRange p n x) := by
  unfold InRange; infer_instance

/-- The address `k` bytes after `p`. -/
def off (p : UInt32) (k : ℕ) : UInt32 := p + UInt32.ofNat k

theorem toNat_off (p : UInt32) (k : ℕ) : (off p k).toNat = (p.toNat + k) % 4294967296 := by
  unfold off
  rw [UInt32.toNat_add, UInt32.toNat_ofNat']
  omega

theorem toNat_off_of_lt {p : UInt32} {k : ℕ} (h : p.toNat + k < 4294967296) :
    (off p k).toNat = p.toNat + k := by
  rw [toNat_off]; omega

@[simp] theorem off_zero (p : UInt32) : off p 0 = p := by simp [off]

theorem off_off (p : UInt32) (j k : ℕ) : off (off p j) k = off p (j + k) := by
  apply UInt32.toNat.inj
  simp only [toNat_off]
  omega

theorem off_inj {p : UInt32} {j k : ℕ} (hj : j < 4294967296) (hk : k < 4294967296)
    (h : off p j = off p k) : j = k := by
  have h' := congrArg UInt32.toNat h
  have := toNat_lt p
  simp only [toNat_off] at h'
  omega

theorem toNat_sub' (x p : UInt32) :
    (x - p).toNat = (x.toNat + (4294967296 - p.toNat)) % 4294967296 := by
  rw [UInt32.toNat_sub]
  have := toNat_lt p
  congr 1
  omega

theorem inRange_off {p : UInt32} {n k : ℕ} (hk : k < n) : InRange p n (off p k) := by
  unfold InRange
  have := toNat_lt p
  rw [toNat_sub', toNat_off]
  omega

theorem InRange.exists_off {p x : UInt32} {n : ℕ} (h : InRange p n x) :
    ∃ k < n, x = off p k := by
  refine ⟨(x - p).toNat, h, UInt32.toNat.inj ?_⟩
  have := toNat_lt p
  have := toNat_lt x
  rw [toNat_off, toNat_sub']
  omega

/-- A range that does not wrap is an interval of numbers. -/
theorem inRange_iff {p x : UInt32} {n : ℕ} (h : p.toNat + n ≤ 4294967296) :
    InRange p n x ↔ p.toNat ≤ x.toNat ∧ x.toNat < p.toNat + n := by
  unfold InRange
  have := toNat_lt p
  have := toNat_lt x
  rw [toNat_sub']
  omega

/-! ### Bytes -/

/-- Store the byte `v` at `a`. -/
def Mem.write (m : Mem) (a : UInt32) (v : UInt8) : Mem := fun x => if x = a then v else m x

@[simp] theorem Mem.write_same (m : Mem) (a : UInt32) (v : UInt8) : m.write a v a = v := by
  simp [Mem.write]

theorem Mem.write_ne (m : Mem) {a x : UInt32} (v : UInt8) (h : x ≠ a) :
    m.write a v x = m x := by
  simp [Mem.write, h]

/-- Writing back the byte that is there changes nothing. -/
theorem Mem.write_eq_self_iff (m : Mem) (a : UInt32) (v : UInt8) : m.write a v = m ↔ m a = v := by
  constructor
  · intro h
    rw [← h, Mem.write_same]
  · rintro rfl
    funext x
    unfold Mem.write
    split_ifs with hx <;> simp [hx]

/-- Store `c` at the `n` addresses from `p` on, in increasing order. -/
def Mem.fill (m : Mem) (p : UInt32) (c : UInt8) : ℕ → Mem
  | 0 => m
  | k + 1 => (m.fill p c k).write (off p k) c

/-- What the fill loop leaves behind: `c` in the range, the old bytes elsewhere. -/
theorem Mem.fill_apply (m : Mem) (p : UInt32) (c : UInt8) (x : UInt32) :
    ∀ n, m.fill p c n x = if InRange p n x then c else m x
  | 0 => by simp [Mem.fill, InRange]
  | n + 1 => by
      simp only [Mem.fill, Mem.write]
      rw [Mem.fill_apply m p c x n]
      by_cases hx : x = off p n
      · subst hx
        simp [inRange_off (Nat.lt_succ_self n)]
      · have hiff : InRange p (n + 1) x ↔ InRange p n x := by
          refine ⟨fun h => ?_, fun h => Nat.lt_succ_of_lt h⟩
          obtain ⟨k, hk, rfl⟩ := h.exists_off
          rcases Nat.lt_succ_iff_lt_or_eq.mp hk with hlt | rfl
          · exact inRange_off hlt
          · exact absurd rfl hx
        simp [hx, hiff]

/-- Store the `n` bytes of `data` from `p` on, in increasing order. -/
def writeBytes (m : Mem) (p : UInt32) (data : ℕ → UInt8) : ℕ → Mem
  | 0 => m
  | n + 1 => (writeBytes m p data n).write (off p n) (data n)

/-- The copy is in the range, the old bytes elsewhere. -/
theorem writeBytes_apply (m : Mem) (p : UInt32) (data : ℕ → UInt8) (x : UInt32) :
    ∀ n ≤ 4294967296, writeBytes m p data n x =
      if InRange p n x then data (x - p).toNat else m x
  | 0, _ => by simp [writeBytes, InRange]
  | n + 1, hn => by
      unfold writeBytes Mem.write
      rw [writeBytes_apply m p data x n (by omega)]
      have hin : ∀ k, InRange p k x ↔ (x - p).toNat < k := fun _ => Iff.rfl
      have hx : x = off p n ↔ (x - p).toNat = n := by
        constructor
        · rintro rfl
          have := toNat_lt p
          rw [toNat_sub', toNat_off]
          omega
        · intro h
          apply UInt32.toNat.inj
          have := toNat_lt p
          have := toNat_lt x
          rw [toNat_sub'] at h
          rw [toNat_off]
          omega
      rcases Nat.lt_trichotomy (x - p).toNat n with h | h | h
      · rw [if_neg (by rw [hx]; omega), if_pos ((hin n).mpr h), if_pos ((hin _).mpr (by omega))]
      · rw [if_pos (hx.mpr h), if_pos ((hin _).mpr (by omega)), h]
      · rw [if_neg (by rw [hx]; omega), if_neg (by rw [hin]; omega), if_neg (by rw [hin]; omega)]

theorem writeBytes_congr (m : Mem) (p : UInt32) {f g : ℕ → UInt8} :
    ∀ {n : ℕ}, (∀ i < n, f i = g i) → writeBytes m p f n = writeBytes m p g n
  | 0, _ => rfl
  | n + 1, h => by
      unfold writeBytes
      rw [writeBytes_congr m p fun i hi => h i (by omega), h n (by omega)]

/-- Two copies, one behind the other. -/
theorem writeBytes_append (m : Mem) (p : UInt32) (f : ℕ → UInt8) (a : ℕ) : ∀ b : ℕ,
    writeBytes (writeBytes m p f a) (off p a) (fun i => f (a + i)) b = writeBytes m p f (a + b)
  | 0 => rfl
  | b + 1 => by
      rw [← Nat.add_assoc]
      unfold writeBytes
      rw [writeBytes_append m p f a b, off_off]

/-! ### Words -/

/-- Byte `k` of a word, counted from the low end. -/
def byteOf (v : UInt32) (k : ℕ) : UInt8 := UInt8.ofNat (v.toNat / 256 ^ k % 256)

/-- The little-endian word at `a`. -/
def Mem.read32 (m : Mem) (a : UInt32) : UInt32 :=
  UInt32.ofNat ((m a).toNat + 256 * (m (off a 1)).toNat + 65536 * (m (off a 2)).toNat +
    16777216 * (m (off a 3)).toNat)

/-- Store the word `v` at `a`, little endian. -/
def Mem.write32 (m : Mem) (a v : UInt32) : Mem :=
  (((m.write a (byteOf v 0)).write (off a 1) (byteOf v 1)).write (off a 2) (byteOf v 2)).write
    (off a 3) (byteOf v 3)

theorem off_ne {a : UInt32} {j k : ℕ} (hj : j < 4) (hk : k < 4) (h : j ≠ k) : off a j ≠ off a k :=
  fun e => h (off_inj (by omega) (by omega) e)

/-- A byte outside the four bytes of the word is not changed by a word store. -/
theorem Mem.write32_apply_of_not_inRange (m : Mem) {a x : UInt32} (v : UInt32)
    (h : ¬ InRange a 4 x) : m.write32 a v x = m x := by
  have hne : ∀ k < 4, x ≠ off a k := fun k hk e => h (e ▸ inRange_off hk)
  have h0 : x ≠ a := by simpa using hne 0 (by omega)
  unfold Mem.write32
  rw [Mem.write_ne _ _ (hne 3 (by omega)), Mem.write_ne _ _ (hne 2 (by omega)),
    Mem.write_ne _ _ (hne 1 (by omega)), Mem.write_ne _ _ h0]

/-- `read32` depends only on the four bytes it reads. -/
theorem Mem.read32_congr {m m' : Mem} {a : UInt32} (h : ∀ x, InRange a 4 x → m' x = m x) :
    m'.read32 a = m.read32 a := by
  have h0 : m' a = m a := h a (by simp [InRange])
  unfold Mem.read32
  rw [h0, h _ (inRange_off (k := 1) (by omega)), h _ (inRange_off (k := 2) (by omega)),
    h _ (inRange_off (k := 3) (by omega))]

/-- A word store is read back. -/
theorem Mem.read32_write32 (m : Mem) (a v : UInt32) : (m.write32 a v).read32 a = v := by
  have e0 : a ≠ off a 1 := by simpa using off_ne (a := a) (j := 0) (k := 1) (by omega) (by omega)
  have e1 : a ≠ off a 2 := by simpa using off_ne (a := a) (j := 0) (k := 2) (by omega) (by omega)
  have e2 : a ≠ off a 3 := by simpa using off_ne (a := a) (j := 0) (k := 3) (by omega) (by omega)
  have e3 : off a 1 ≠ off a 2 := off_ne (by omega) (by omega) (by omega)
  have e4 : off a 1 ≠ off a 3 := off_ne (by omega) (by omega) (by omega)
  have e5 : off a 2 ≠ off a 3 := off_ne (by omega) (by omega) (by omega)
  apply UInt32.toNat.inj
  have hv := toNat_lt v
  simp only [Mem.read32, Mem.write32, Mem.write, byteOf, e0, e1, e2, e3, e4, e5, if_true, if_false,
    UInt32.toNat_ofNat', UInt8.toNat_ofNat']
  omega

/-- Two different word-aligned addresses have disjoint words. -/
theorem not_inRange_of_aligned {a b x : UInt32} (ha : a.toNat % 4 = 0) (hb : b.toNat % 4 = 0)
    (h : a ≠ b) (hx : InRange a 4 x) : ¬ InRange b 4 x := by
  have hne : a.toNat ≠ b.toNat := fun e => h (UInt32.toNat.inj e)
  have := toNat_lt a
  have := toNat_lt b
  have := toNat_lt x
  unfold InRange at *
  rw [toNat_sub'] at *
  omega

/-- A word store at another aligned address is not seen. -/
theorem Mem.read32_write32_of_aligned (m : Mem) {a b : UInt32} (v : UInt32)
    (ha : a.toNat % 4 = 0) (hb : b.toNat % 4 = 0) (h : a ≠ b) :
    (m.write32 b v).read32 a = m.read32 a :=
  Mem.read32_congr fun _ hx =>
    Mem.write32_apply_of_not_inRange m v (not_inRange_of_aligned ha hb h hx)

/-! ### Frames -/

/-- `m` and `m'` hold the same bytes at the addresses of `S`. -/
def SameOn (S : UInt32 → Prop) (m m' : Mem) : Prop := ∀ x, S x → m' x = m x

theorem SameOn.refl (S : UInt32 → Prop) (m : Mem) : SameOn S m m := fun _ _ => rfl

theorem SameOn.trans {S : UInt32 → Prop} {m₁ m₂ m₃ : Mem} (h₁ : SameOn S m₁ m₂)
    (h₂ : SameOn S m₂ m₃) : SameOn S m₁ m₃ := fun x hx => (h₂ x hx).trans (h₁ x hx)

theorem SameOn.mono {S T : UInt32 → Prop} {m m' : Mem} (h : SameOn S m m')
    (hT : ∀ x, T x → S x) : SameOn T m m' := fun x hx => h x (hT x hx)

end ByteMemory
