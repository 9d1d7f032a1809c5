import PeachOS.ByteMemory

/-! # A fragment of the 32-bit x86 machine

Registers, segment selectors, flags and a flat memory, with the instructions that entry code
into user mode is written with.

* **Instructions.**  `Op` are those that fall through to the next instruction; their effect
  is a function on the state `Cpu` without the instruction pointer.  `Instr` adds `call`,
  `ret` and `iretd`.  Faults are not modelled: every access and every selector load succeeds.
* **Code.**  `Code` gives the instruction at an address and the address behind it, so that no
  encoding is fixed; `Located` says that a list of instructions stands at an address.
* **Runs.**  `ReachesUser code s s'` says that `s'` is the first state of privilege level 3
  on the run from `s`.
* **Stack.**  `Stack b n m c l` describes a stack of at most `n` words above `b` that holds
  the words `l`, top first, in a memory that otherwise is `m`. -/

namespace X86

open ByteMemory

/-- The general registers. -/
inductive Reg
  | eax | ebx | ecx | edx | esi | edi | ebp | esp
  deriving DecidableEq

/-- The segment registers. -/
inductive Seg
  | cs | ds | es | fs | gs | ss
  deriving DecidableEq

/-- The state without the instruction pointer. -/
structure Cpu where
  reg : Reg → UInt32
  seg : Seg → UInt16
  eflags : UInt32
  mem : Mem

/-! ### Instructions -/

/-- Instructions that fall through; `disp` is the displacement of a memory operand. -/
inductive Op
  | mov (dst src : Reg)
  | load (dst base : Reg) (disp : ℕ)
  | load16 (dst base : Reg) (disp : ℕ)
  | movSeg (dst : Seg) (src : Reg)
  | pushMem (base : Reg) (disp : ℕ)
  | push (src : Reg)
  | pop (dst : Reg)
  | pushf
  | or (dst : Reg) (imm : UInt32)
  | add (dst : Reg) (imm : UInt32)

/-- All instructions. -/
inductive Instr
  | op (o : Op)
  | call (target : UInt32)
  | ret
  | iretd

/-- Store a register. -/
def Cpu.setReg (c : Cpu) (r : Reg) (v : UInt32) : Cpu := { c with reg := Function.update c.reg r v }

@[simp] theorem Cpu.setReg_reg (c : Cpu) (r r' : Reg) (v : UInt32) :
    (c.setReg r v).reg r' = if r' = r then v else c.reg r' := Function.update_apply ..

@[simp] theorem Cpu.setReg_mem (c : Cpu) (r : Reg) (v : UInt32) : (c.setReg r v).mem = c.mem := rfl

@[simp] theorem Cpu.setReg_seg (c : Cpu) (r : Reg) (v : UInt32) : (c.setReg r v).seg = c.seg := rfl

/-- Push a word. -/
def Cpu.push (c : Cpu) (v : UInt32) : Cpu :=
  let esp := c.reg .esp - 4
  { c.setReg .esp esp with mem := c.mem.write32 esp v }

/-- The word at the top of the stack. -/
def Cpu.top (c : Cpu) : UInt32 := c.mem.read32 (c.reg .esp)

/-- Drop the word at the top of the stack. -/
def Cpu.drop (c : Cpu) : Cpu := c.setReg .esp (c.reg .esp + 4)

/-- The half word at `a`. -/
def read16 (m : Mem) (a : UInt32) : UInt16 := UInt16.ofNat ((m a).toNat + 256 * (m (off a 1)).toNat)

/-- The status flags: carry, parity, adjust, zero, sign and overflow. -/
def statusFlags : UInt32 := 0x8d5

/-- Parity, zero and sign of a result. -/
def resultFlags (v : UInt32) : UInt32 :=
  let ones := ((List.range 8).map fun i => v.toNat / 2 ^ i % 2).sum
  (if ones % 2 = 0 then 0x4 else 0) ||| (if v = 0 then 0x40 else 0) |||
    (if 0x80000000 ≤ v then 0x80 else 0)

/-- The flags after `or`: carry and overflow are cleared, adjust is undefined and kept. -/
def orFlags (flags v : UInt32) : UInt32 :=
  (flags &&& (0xffffffff - statusFlags ||| 0x10)) ||| resultFlags v

/-- The flags after `add`. -/
def addFlags (flags x y : UInt32) : UInt32 :=
  let carry : UInt32 := if x + y < x then 0x1 else 0
  let adjust : UInt32 := if 16 ≤ x.toNat % 16 + y.toNat % 16 then 0x10 else 0
  let overflow : UInt32 :=
    if (x < 0x80000000) = (y < 0x80000000) ∧ (x < 0x80000000) ≠ (x + y < 0x80000000) then 0x800
    else 0
  (flags &&& (0xffffffff - statusFlags)) ||| resultFlags (x + y) ||| carry ||| adjust ||| overflow

/-- The instruction loads the code segment. -/
def Op.writesCs : Op → Bool
  | movSeg .cs _ => true
  | _ => false

/-- The effect of an instruction that falls through. -/
def Op.exec (c : Cpu) : Op → Cpu
  | mov dst src => c.setReg dst (c.reg src)
  | load dst base disp => c.setReg dst (c.mem.read32 (off (c.reg base) disp))
  | load16 dst base disp =>
      c.setReg dst ((c.reg dst &&& 0xffff0000) ||| (read16 c.mem (off (c.reg base) disp)).toUInt32)
  | movSeg dst src => { c with seg := Function.update c.seg dst (c.reg src).toUInt16 }
  | pushMem base disp => c.push (c.mem.read32 (off (c.reg base) disp))
  | push src => c.push (c.reg src)
  | pop dst => c.drop.setReg dst c.top
  -- the flags VM and RF are pushed as zero
  | pushf => c.push (c.eflags &&& 0x00fcffff)
  | or dst imm =>
      { c.setReg dst (c.reg dst ||| imm) with eflags := orFlags c.eflags (c.reg dst ||| imm) }
  | add dst imm =>
      { c.setReg dst (c.reg dst + imm) with eflags := addFlags c.eflags (c.reg dst) imm }

/-- The effect of a list of instructions that fall through. -/
def execAll (os : List Op) (c : Cpu) : Cpu := os.foldl Op.exec c

theorem execAll_cons (o : Op) (os : List Op) (c : Cpu) :
    execAll (o :: os) c = execAll os (o.exec c) := rfl

theorem execAll_append (os os' : List Op) (c : Cpu) :
    execAll (os ++ os') c = execAll os' (execAll os c) := List.foldl_append

/-- The whole state. -/
structure State where
  cpu : Cpu
  eip : UInt32

/-- The current privilege level. -/
def State.cpl (s : State) : UInt16 := s.cpu.seg .cs &&& 3

/-- `iretd`: a return to an outer level also pops the stack pointer and its segment. -/
def iretd (c : Cpu) : State :=
  let eip := c.top
  let c₁ := c.drop
  let cs := c₁.top.toUInt16
  let c₂ := c₁.drop
  let eflags := c₂.top
  let c₃ := c₂.drop
  let c₄ := { c₃ with seg := Function.update c₃.seg .cs cs, eflags := eflags }
  if c.seg .cs &&& 3 < cs &&& 3 then
    let esp := c₃.top
    let ss := c₃.drop.top.toUInt16
    ⟨{ c₄.setReg .esp esp with seg := Function.update c₄.seg .ss ss }, eip⟩
  else ⟨c₄, eip⟩

/-- The state after an instruction that `next` is the address behind. -/
def Instr.exec (c : Cpu) (next : UInt32) : Instr → State
  | op o => ⟨o.exec c, next⟩
  | call target => ⟨c.push next, target⟩
  | ret => ⟨c.drop, c.top⟩
  | iretd => X86.iretd c

/-! ### Code and runs -/

/-- The instruction at an address and the address behind it. -/
abbrev Code := UInt32 → Option (Instr × UInt32)

/-- The instructions `is` stand at `a`, and `b` is the address behind them. -/
def Located (code : Code) : UInt32 → List Instr → UInt32 → Prop
  | a, [], b => a = b
  | a, i :: is, b => ∃ next, code a = some (i, next) ∧ Located code next is b

/-- One step. -/
def step (code : Code) (s : State) : Option State :=
  (code s.eip).map fun i => i.1.exec s.cpu i.2

/-- `s'` is the first state of privilege level 3 on the run from `s`. -/
inductive ReachesUser (code : Code) : State → State → Prop
  | here {s : State} (hs : s.cpl = 3) : ReachesUser code s s
  | step {s s₁ s' : State} (hs : s.cpl ≠ 3) (h : step code s = some s₁)
      (hr : ReachesUser code s₁ s') : ReachesUser code s s'

/-- The state reached is determined. -/
theorem ReachesUser.unique {code : Code} {s s' s'' : State} (h : ReachesUser code s s')
    (h' : ReachesUser code s s'') : s' = s'' := by
  induction h with
  | here hs =>
      cases h' with
      | here _ => rfl
      | step hs' _ _ => exact absurd hs hs'
  | step hs hstep _ ih =>
      cases h' with
      | here hs' => exact absurd hs' hs
      | step _ hstep' hr' =>
          rw [hstep] at hstep'
          exact ih (Option.some.inj hstep' ▸ hr')

theorem Located.append {code : Code} {js : List Instr} {b : UInt32} :
    ∀ {is : List Instr} {a : UInt32}, Located code a (is ++ js) b →
      ∃ a', Located code a is a' ∧ Located code a' js b
  | [], a, h => ⟨a, rfl, h⟩
  | _ :: _, _, ⟨next, hcode, h⟩ => by
      obtain ⟨a', h₁, h₂⟩ := Located.append h
      exact ⟨a', ⟨next, hcode, h₁⟩, h₂⟩

/-- One instruction executed in kernel mode. -/
theorem ReachesUser.instr {code : Code} {a next : UInt32} {i : Instr} {c : Cpu} {s' : State}
    (hcode : code a = some (i, next)) (hcpl : c.seg .cs &&& 3 ≠ 3)
    (hr : ReachesUser code (i.exec c next) s') : ReachesUser code ⟨c, a⟩ s' := by
  refine .step hcpl ?_ hr
  unfold X86.step
  rw [hcode]
  rfl

/-- Instructions that fall through run in kernel mode up to the address behind them. -/
theorem ReachesUser.ops {code : Code} {s' : State} {a' : UInt32} :
    ∀ {os : List Op} {a : UInt32} {c : Cpu}, Located code a (os.map Instr.op) a' →
      c.seg .cs &&& 3 ≠ 3 → (∀ o ∈ os, o.writesCs = false) →
      ReachesUser code ⟨execAll os c, a'⟩ s' → ReachesUser code ⟨c, a⟩ s'
  | [], _, _, rfl, _, _, hr => hr
  | o :: os, a, c, ⟨next, hcode, hloc⟩, hcpl, hseg, hr => by
      have hsame : (o.exec c).seg .cs = c.seg .cs := by
        cases o with
        | movSeg dst src =>
            have hne : Seg.cs ≠ dst := fun e => by
              have hcs := hseg _ List.mem_cons_self
              rw [← e] at hcs
              cases hcs
            exact Function.update_of_ne hne _ _
        | _ => rfl
      refine .instr hcode hcpl (ReachesUser.ops hloc (by rwa [hsame])
        (fun o' ho' => hseg o' (List.mem_cons_of_mem o ho')) hr)

/-! ### The stack -/

/-- A stack of at most `n` words above `b` that holds `l`, in a memory that is `m` elsewhere. -/
structure Stack (b : UInt32) (n : ℕ) (m : Mem) (c : Cpu) (l : List UInt32) : Prop where
  fits : l.length ≤ n
  small : n ≤ 268435456
  esp : c.reg .esp = off b (4 * (n - l.length))
  words : ∀ i < l.length, c.mem.read32 (off b (4 * (n - l.length + i))) = l.getD i 0
  frame : ∀ x, ¬ InRange b (4 * n) x → c.mem x = m x

/-- Different words of a stack are apart. -/
theorem not_inRange_word {b x : UInt32} {i j : ℕ} (hi : i < 268435456) (hj : j < 268435456)
    (h : i ≠ j) (hx : InRange (off b (4 * i)) 4 x) : ¬ InRange (off b (4 * j)) 4 x := by
  intro hx'
  obtain ⟨k, hk, rfl⟩ := hx.exists_off
  obtain ⟨l, hl, e⟩ := hx'.exists_off
  rw [off_off, off_off] at e
  have := off_inj (by omega) (by omega) e
  omega

theorem inRange_word {b x : UInt32} {n i : ℕ} (hi : i < n)
    (hx : InRange (off b (4 * i)) 4 x) : InRange b (4 * n) x := by
  obtain ⟨k, hk, rfl⟩ := hx.exists_off
  rw [off_off]
  exact inRange_off (by omega)

/-- A word above the stack is apart from it. -/
theorem not_inRange_above {b x : UInt32} {n j : ℕ} (hn : n ≤ j) (hj : j < 268435456)
    (hx : InRange (off b (4 * j)) 4 x) : ¬ InRange b (4 * n) x := by
  intro hx'
  obtain ⟨k, hk, rfl⟩ := hx.exists_off
  obtain ⟨l, hl, e⟩ := hx'.exists_off
  rw [off_off] at e
  have := off_inj (by omega) (by omega) e
  omega

variable {b : UInt32} {n : ℕ} {m : Mem} {c : Cpu} {l : List UInt32} {v : UInt32}

theorem Stack.empty (hn : n ≤ 268435456) (hesp : c.reg .esp = off b (4 * n)) :
    Stack b n c.mem c [] :=
  ⟨Nat.zero_le n, hn, hesp, fun _ h => absurd h (Nat.not_lt_zero _), fun _ _ => rfl⟩

theorem Stack.push (h : Stack b n m c l) (hroom : l.length < n) (v : UInt32) :
    Stack b n m (c.push v) (v :: l) := by
  have hsmall := h.small
  have hesp : c.reg .esp - 4 = off b (4 * (n - (v :: l).length)) := by
    rw [h.esp, List.length_cons]
    apply UInt32.toNat.inj
    have hb := toNat_lt b
    rw [UInt32.toNat_sub, toNat_off, toNat_off, show (4 : UInt32).toNat = 4 from rfl]
    omega
  have hmem : (c.push v).mem = c.mem.write32 (off b (4 * (n - (v :: l).length))) v := by
    rw [← hesp]
    rfl
  rw [List.length_cons] at hmem hesp
  refine ⟨hroom, h.small, ?_, fun i hi => ?_, fun x hx => ?_⟩
  · rw [List.length_cons, ← hesp]
    exact Function.update_self Reg.esp _ c.reg
  · rw [hmem, List.length_cons]
    cases i with
    | zero =>
        exact Mem.read32_write32 _ _ _
    | succ i =>
        rw [List.length_cons] at hi
        have hword := h.words i (by omega)
        rw [show n - (l.length + 1) + (i + 1) = n - l.length + i by omega, List.getD_cons_succ,
          ← hword]
        exact Mem.read32_congr fun x hx => Mem.write32_apply_of_not_inRange _ _
          (not_inRange_word (by omega) (by omega) (by omega) hx)
  · rw [hmem, Mem.write32_apply_of_not_inRange, h.frame x hx]
    exact fun hw => hx (inRange_word (by omega) hw)

theorem Stack.top (h : Stack b n m c (v :: l)) : c.top = v := by
  have hword := h.words 0 (by rw [List.length_cons]; omega)
  unfold Cpu.top
  rw [h.esp]
  exact hword

theorem Stack.drop (h : Stack b n m c (v :: l)) : Stack b n m c.drop l := by
  have hfits := h.fits
  have hsmall := h.small
  rw [List.length_cons] at hfits
  refine ⟨by omega, h.small, ?_, fun i hi => ?_, h.frame⟩
  · change Function.update c.reg .esp (c.reg .esp + 4) .esp = _
    rw [Function.update_self, h.esp, List.length_cons]
    apply UInt32.toNat.inj
    have hb := toNat_lt b
    rw [UInt32.toNat_add, toNat_off, toNat_off, show (4 : UInt32).toNat = 4 from rfl]
    omega
  · have hword := h.words (i + 1) (by rw [List.length_cons]; omega)
    rw [List.length_cons, List.getD_cons_succ,
      show n - (l.length + 1) + (i + 1) = n - l.length + i by omega] at hword
    exact hword

/-- Instructions that change neither the stack pointer nor the memory keep the stack. -/
theorem Stack.congr {c' : Cpu} (h : Stack b n m c l) (hesp : c'.reg .esp = c.reg .esp)
    (hmem : c'.mem = c.mem) : Stack b n m c' l :=
  ⟨h.fits, h.small, hesp.trans h.esp, by rw [hmem]; exact h.words, by rw [hmem]; exact h.frame⟩

/-- A word outside the stack. -/
theorem Stack.read32 (h : Stack b n m c l) {a : UInt32}
    (ha : ∀ x, InRange a 4 x → ¬ InRange b (4 * n) x) : c.mem.read32 a = m.read32 a :=
  Mem.read32_congr fun x hx => h.frame x (ha x hx)

end X86
