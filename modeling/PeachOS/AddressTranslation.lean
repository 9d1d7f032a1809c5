import PeachOS.ByteMemory

/-! # Address translation

The two-level page tables of the 32-bit x86 machine.  `cr3` gives a directory of 1024 words, each
of them a table of 1024 words, each of them the entry of one page; the low bits of an entry say
who may use it.

* **Walks.**  `walk a cr3 v m` is the physical address behind the linear address `v`, or `none`
  where the access `a` faults.  The processor's own stores to the entries, the bits for accessed
  and dirty pages, are left out.
* **Accesses.**  `loadByte`, `loadWord` and `storeByte` go through a walk.
* **Views.**  `Shows a cr3 S m π` says that the tables lie in the addresses `S` and translate by
  the map `π`; they do so in every memory that agrees with `m` on `S`. -/

namespace X86

open ByteMemory

/-! ### Walks -/

/-- The accesses.  Write protection does not bind the supervisor (`CR0.WP` is clear). -/
inductive Access
  | supervisor | userRead | userWrite
  deriving DecidableEq

/-- The flags an entry needs: present is 1, writable is 2, user is 4. -/
def Access.needs : Access → UInt32
  | supervisor => 1
  | userRead => 5
  | userWrite => 7

/-- The entry lets the access pass. -/
def Access.Passes (a : Access) (entry : UInt32) : Prop := entry &&& a.needs = a.needs

instance (a : Access) (entry : UInt32) : Decidable (a.Passes entry) := by
  unfold Access.Passes; infer_instance

/-- The address of the directory entry of `v`. -/
def directorySlot (cr3 v : UInt32) : UInt32 := off (cr3 &&& 0xfffff000) (4 * (v.toNat / 4194304))

/-- The address of the table entry of `v`. -/
def tableSlot (pde v : UInt32) : UInt32 := off (pde &&& 0xfffff000) (4 * (v.toNat % 4194304 / 4096))

/-- The address in the frame of a table entry. -/
def frameAddress (pte v : UInt32) : UInt32 := off (pte &&& 0xfffff000) (v.toNat % 4096)

/-- The physical address behind `v`; `none` is a page fault. -/
def walk (a : Access) (cr3 v : UInt32) (m : Mem) : Option UInt32 :=
  let pde := m.read32 (directorySlot cr3 v)
  if a.Passes pde then
    let pte := m.read32 (tableSlot pde v)
    if a.Passes pte then some (frameAddress pte v) else none
  else none

/-- Address bits beside the flags do not matter. -/
theorem Access.Passes.or {a : Access} {g : UInt32} (h : a.Passes g) (x : UInt32) :
    a.Passes (x ||| g) := by
  unfold Access.Passes at *
  rw [← h]
  apply UInt32.toBitVec_inj.mp
  ext i hi
  simp only [UInt32.toBitVec_and, UInt32.toBitVec_or, BitVec.getElem_and, BitVec.getElem_or]
  cases x.toBitVec[i] <;> simp

/-- The three flags let every access pass. -/
theorem passes_seven (a : Access) : a.Passes 7 := by cases a <;> decide

/-! ### Accesses -/

/-- Load a byte. -/
def loadByte (a : Access) (cr3 v : UInt32) (m : Mem) : Option UInt8 := (walk a cr3 v m).map m

/-- Store a byte. -/
def storeByte (a : Access) (cr3 v : UInt32) (c : UInt8) (m : Mem) : Option Mem :=
  (walk a cr3 v m).map fun x => m.write x c

/-- Load a word; its four bytes may lie in two pages. -/
def loadWord (a : Access) (cr3 v : UInt32) (m : Mem) : Option UInt32 := do
  let b₀ ← loadByte a cr3 v m
  let b₁ ← loadByte a cr3 (off v 1) m
  let b₂ ← loadByte a cr3 (off v 2) m
  let b₃ ← loadByte a cr3 (off v 3) m
  some (UInt32.ofNat (b₀.toNat + 256 * b₁.toNat + 65536 * b₂.toNat + 16777216 * b₃.toNat))

/-! ### Views -/

/-- The tables lie in `S`, and they translate by `π`. -/
def Shows (a : Access) (cr3 : UInt32) (S : UInt32 → Prop) (m : Mem) (π : UInt32 → Option UInt32) :
    Prop :=
  ∀ m', SameOn S m m' → ∀ v, walk a cr3 v m' = π v

variable {a : Access} {cr3 v x : UInt32} {S : UInt32 → Prop} {m m' : Mem}
  {π : UInt32 → Option UInt32}

theorem Shows.walk (h : Shows a cr3 S m π) (v : UInt32) : X86.walk a cr3 v m = π v :=
  h m (SameOn.refl S m) v

theorem Shows.congr (h : Shows a cr3 S m π) (hsame : SameOn S m m') : Shows a cr3 S m' π :=
  fun _ hm => h _ (hsame.trans hm)

/-- A store outside the tables. -/
theorem Shows.write (h : Shows a cr3 S m π) (hx : ¬ S x) (c : UInt8) :
    Shows a cr3 S (m.write x c) π :=
  h.congr fun _ hy => Mem.write_ne m c fun e => hx (e ▸ hy)

theorem Shows.loadByte (h : Shows a cr3 S m π) (hv : π v = some x) :
    X86.loadByte a cr3 v m = some (m x) := by
  unfold X86.loadByte
  rw [h.walk, hv]
  rfl

theorem Shows.storeByte (h : Shows a cr3 S m π) (hv : π v = some x) (c : UInt8) :
    X86.storeByte a cr3 v c m = some (m.write x c) := by
  unfold X86.storeByte
  rw [h.walk, hv]
  rfl

/-- A store that does not fault goes to the place that the view gives. -/
theorem Shows.of_storeByte (h : Shows a cr3 S m π) {c : UInt8}
    (hstore : X86.storeByte a cr3 v c m = some m') : ∃ x, π v = some x ∧ m' = m.write x c := by
  unfold X86.storeByte at hstore
  obtain ⟨x, hx, rfl⟩ := Option.map_eq_some_iff.mp hstore
  exact ⟨x, (h.walk v).symm.trans hx, rfl⟩

/-- A word in one piece of memory. -/
theorem Shows.loadWord (h : Shows a cr3 S m π) (hv : ∀ i < 4, π (off v i) = some (off x i)) :
    X86.loadWord a cr3 v m = some (m.read32 x) := by
  have hfirst : π v = some x := by
    have h0 := hv 0 (by decide)
    rwa [off_zero, off_zero] at h0
  unfold X86.loadWord
  rw [h.loadByte hfirst, h.loadByte (hv 1 (by decide)), h.loadByte (hv 2 (by decide)),
    h.loadByte (hv 3 (by decide))]
  rfl

end X86
