import PeachOS.CString
import PeachOS.KernelHeap

/-! # The path parser

`pparser.c`.  A path is read through a cursor, the characters that are left of it; the root
and the parts are built in memory that `kzalloc` gives. -/

namespace PeachOS

open ByteMemory

/-! ### The code -/

/-- `EBADPATH`. -/
def EBADPATH : ℤ := 4

/-- `pathparser_path_valid_format`: the `memcmp` is of the two characters `:/`. -/
def pathparserPathValidFormat (filename : List UInt8) : Bool :=
  let len := strnlen filename peachosMaxPath
  3 ≤ len && isdigit (filename.headD 0) && (filename.drop 1).take 2 == [58, 47]

/-- `pathparser_get_drive_by_path`: the drive or an error, and the cursor afterwards. -/
def pathparserGetDriveByPath (path : List UInt8) : ℤ × List UInt8 :=
  if pathparserPathValidFormat path then (tonumericdigit (path.headD 0), path.drop 3)
  else (-EBADPATH, path)

/-- `pathparser_create_root`; `struct path_root` is `drive_no` and `first`. -/
def pathparserCreateRoot (driveNumber : ℤ) (k : Kernel) : UInt32 × Kernel :=
  let r := kzalloc 8 k
  let m := r.2.mem.write32 (off r.1 0) (UInt32.ofInt driveNumber)
  (r.1, { r.2 with mem := m.write32 (off r.1 4) 0 })

/-- The loop of `pathparser_get_path_part` from index `i` on: the final index, the cursor
and the memory. -/
def pathPartLoop (resultPathPart : UInt32) : ℕ → List UInt8 → Mem → ℕ × List UInt8 × Mem
  | i, [], m => (i, [], m)
  | i, c :: path, m =>
      if c ≠ 47 ∧ c ≠ 0 then
        pathPartLoop resultPathPart (i + 1) path (m.write (off resultPathPart i) c)
      else (i, c :: path, m)

/-- `pathparser_get_path_part`: the part, null for none, and the cursor and kernel
afterwards. -/
def pathparserGetPathPart (path : List UInt8) (k : Kernel) : UInt32 × List UInt8 × Kernel :=
  let r := kzalloc 108 k
  let l := pathPartLoop r.1 0 path r.2.mem
  let path := if l.2.1.headD 0 = 47 then l.2.1.drop 1 else l.2.1
  let k := { r.2 with mem := l.2.2 }
  if l.1 = 0 then (0, path, kfree r.1 k) else (r.1, path, k)

/-- `pathparser_parse_path_part`; `struct path_part` is `part` and `next`. -/
def pathparserParsePathPart (lastPart : UInt32) (path : List UInt8) (k : Kernel) :
    UInt32 × List UInt8 × Kernel :=
  let s := pathparserGetPathPart path k
  if s.1 = 0 then (0, s.2)
  else
    let r := kzalloc 8 s.2.2
    let m := (r.2.mem.write32 (off r.1 0) s.1).write32 (off r.1 4) 0
    let m := if lastPart ≠ 0 then m.write32 (off lastPart 4) r.1 else m
    (r.1, s.2.1, { r.2 with mem := m })

/-- The loop keeps count of the characters it takes. -/
theorem pathPartLoop_count (buf : UInt32) : ∀ (i : ℕ) (path : List UInt8) (m : Mem),
    (pathPartLoop buf i path m).1 + (pathPartLoop buf i path m).2.1.length = i + path.length
  | _, [], _ => rfl
  | i, c :: path, m => by
      unfold pathPartLoop
      split_ifs
      · rw [pathPartLoop_count buf (i + 1) path, List.length_cons, Nat.add_right_comm i 1,
          Nat.add_assoc]
      · rfl

theorem pathparserGetPathPart_length {path : List UInt8} {k : Kernel}
    (h : (pathparserGetPathPart path k).1 ≠ 0) :
    (pathparserGetPathPart path k).2.1.length < path.length := by
  have hcount := pathPartLoop_count (kzalloc 108 k).1 0 path (kzalloc 108 k).2.mem
  revert h
  unfold pathparserGetPathPart
  dsimp only
  split_ifs with h0 hc hc
  · exact fun h => absurd rfl h
  · exact fun h => absurd rfl h
  · intro _
    rw [List.length_drop]
    omega
  · intro _
    dsimp only
    omega

theorem pathparserParsePathPart_length {lastPart : UInt32} {path : List UInt8} {k : Kernel}
    (h : (pathparserParsePathPart lastPart path k).1 ≠ 0) :
    (pathparserParsePathPart lastPart path k).2.1.length < path.length := by
  rcases eq_or_ne (pathparserGetPathPart path k).1 0 with h0 | h0
  · exact absurd (by unfold pathparserParsePathPart; dsimp only; rw [if_pos h0]) h
  · unfold pathparserParsePathPart
    dsimp only
    rw [if_neg h0]
    exact pathparserGetPathPart_length h0

/-- The `while` loop of `pathparser_parse` with the part parsed last: the kernel afterwards. -/
def parsePartsLoop (part : UInt32) (path : List UInt8) (k : Kernel) : Kernel :=
  let s := pathparserParsePathPart part path k
  if s.1 = 0 then s.2.2 else parsePartsLoop s.1 s.2.1 s.2.2
termination_by path.length
decreasing_by exact pathparserParsePathPart_length ‹_›

/-- `pathparser_parse`: the root, null for none, and the kernel afterwards. -/
def pathparserParse (path : List UInt8) (k : Kernel) : UInt32 × Kernel :=
  if peachosMaxPath < strlen path then (0, k)
  else
    let d := pathparserGetDriveByPath path
    if d.1 < 0 then (0, k)
    else
      let root := pathparserCreateRoot d.1 k
      if root.1 = 0 then (0, root.2)
      else
        let first := pathparserParsePathPart 0 d.2 root.2
        if first.1 = 0 then (root.1, first.2.2)
        else
          let k := { first.2.2 with mem := first.2.2.mem.write32 (off root.1 4) first.1 }
          (root.1, parsePartsLoop first.1 first.2.1 k)

/-! ### Failed allocations -/

theorem pathparserGetPathPart_oom (path : List UInt8) (k : Kernel) :
    (pathparserGetPathPart path k).2.2.oom = (kzalloc 108 k).2.oom := by
  unfold pathparserGetPathPart
  dsimp only
  split_ifs <;> rfl

theorem pathparserParsePathPart_oom_false {lastPart : UInt32} {path : List UInt8} {k : Kernel}
    (h : (pathparserParsePathPart lastPart path k).2.2.oom = false) :
    (pathparserGetPathPart path k).2.2.oom = false := by
  unfold pathparserParsePathPart at h
  dsimp only at h
  rcases eq_or_ne (pathparserGetPathPart path k).1 0 with h0 | h0
  · rwa [if_pos h0] at h
  · rw [if_neg h0] at h
    exact kzalloc_oom_false h

theorem pathparserParsePathPart_oom_start {lastPart : UInt32} {path : List UInt8} {k : Kernel}
    (h : (pathparserParsePathPart lastPart path k).2.2.oom = false) : k.oom = false :=
  kzalloc_oom_false (pathparserGetPathPart_oom path k ▸ pathparserParsePathPart_oom_false h)

theorem parsePartsLoop_oom_false {part : UInt32} {path : List UInt8} {k : Kernel}
    (h : (parsePartsLoop part path k).oom = false) :
    (pathparserParsePathPart part path k).2.2.oom = false := by
  induction part, path, k using parsePartsLoop.induct with
  | case1 part path k s h0 =>
      unfold parsePartsLoop at h
      rwa [if_pos h0] at h
  | case2 part path k s h0 ih =>
      unfold parsePartsLoop at h
      rw [if_neg h0] at h
      exact pathparserParsePathPart_oom_start (ih h)

/-! ### Parts in memory -/

/-- The 108 bytes at `buf` are the string `c` and zeros behind it. -/
def HoldsString (m : Mem) (buf : UInt32) (c : List UInt8) : Prop :=
  c.length < peachosMaxPath ∧ ∀ i < peachosMaxPath, m (off buf i) = c.getD i 0

/-- Block `b` of the pool is taken. -/
def TakenBlock (k : Kernel) (b : ℕ) : Prop := b < 25600 ∧ ¬ EntryFree kernelHeap k.mem b

/-- The structure in block `p` is a part with the string `c`, which is in block `b`. -/
structure PartAt (k : Kernel) (p b : ℕ) (c : List UInt8) : Prop where
  struct : TakenBlock k p
  buffer : TakenBlock k b
  apart : b ≠ p
  part : k.mem.read32 (wordAddr p 0) = blockAddr b
  string : HoldsString k.mem (blockAddr b) c

/-- The list of parts that starts at `a` has the strings `cs`. -/
def PartList (k : Kernel) : UInt32 → List (List UInt8) → Prop
  | a, [] => a = 0
  | a, c :: cs => ∃ p b, a = blockAddr p ∧ PartAt k p b c ∧
      PartList k (k.mem.read32 (wordAddr p 1)) cs

/-- The bytes of `next` of the part in block `p`. -/
def InNext (p : ℕ) (x : UInt32) : Prop := InRange (wordAddr p 1) 4 x

theorem InNext.inBlock {p : ℕ} (hp : p < 25600) {x : UInt32} (h : InNext p x) : InBlock p x :=
  inBlock_of_inRange_wordAddr hp (by omega) h

/-- The first two words of a block are apart. -/
theorem InNext.not_first {p : ℕ} (hp : p < 25600) {x : UInt32} (h : InNext p x) :
    ¬ InRange (wordAddr p 0) 4 x := by
  have h0 := toNat_wordAddr hp (j := 0) (by omega)
  have h1 := toNat_wordAddr hp (j := 1) (by omega)
  refine not_inRange_of_aligned (by omega) (by omega) (fun e => ?_) h
  have := congrArg UInt32.toNat e
  omega

theorem TakenBlock.keeps {k k' : Kernel} {W : UInt32 → Prop} {b : ℕ} (h : TakenBlock k b)
    (hk : Keeps k k' W) : TakenBlock k' b := ⟨h.1, hk.taken b h.1 h.2⟩

theorem HoldsString.congr {m m' : Mem} {b : ℕ} {c : List UInt8}
    (h : HoldsString m (blockAddr b) c) (hm : ∀ x, InBlock b x → m' x = m x) :
    HoldsString m' (blockAddr b) c := by
  refine ⟨h.1, fun i hi => ?_⟩
  rw [hm _ (inRange_off (Nat.lt_trans hi (by decide)))]
  exact h.2 i hi

/-- A part is kept if neither its word `part` nor its buffer is written. -/
theorem PartAt.keeps {k k' : Kernel} {W : UInt32 → Prop} {p b : ℕ} {c : List UInt8}
    (h : PartAt k p b c) (hk : Keeps k k' W) (hW : ∀ x, W x → ¬ InRange (wordAddr p 0) 4 x)
    (hb : ∀ x, W x → ¬ InBlock b x) : PartAt k' p b c where
  struct := h.struct.keeps hk
  buffer := h.buffer.keeps hk
  apart := h.apart
  part := by
    rw [← h.part]
    exact Mem.read32_congr fun x hx => hk.same p h.struct.1 h.struct.2 x
      (inBlock_of_inRange_wordAddr h.struct.1 (by omega) hx) fun hw => hW x hw hx
  string := h.string.congr fun x hx =>
    hk.same b h.buffer.1 h.buffer.2 x hx fun hw => hb x hw hx

/-- A part does not depend on its word `next`. -/
theorem PartAt.keeps_next {k k' : Kernel} {p b : ℕ} {c : List UInt8} (h : PartAt k p b c)
    (hk : Keeps k k' (InNext p)) : PartAt k' p b c :=
  h.keeps hk (fun _ hx => hx.not_first h.struct.1) fun _ hx hxb =>
    h.apart (InBlock.unique h.buffer.1 h.struct.1 hxb (hx.inBlock h.struct.1))

/-- A part does not depend on the word `next` of a part in another block. -/
theorem PartAt.keeps_other {k k' : Kernel} {p b q : ℕ} {c : List UInt8} (h : PartAt k p b c)
    (hq : q < 25600) (hqp : q ≠ p) (hqb : q ≠ b) (hk : Keeps k k' (InNext q)) :
    PartAt k' p b c :=
  h.keeps hk
    (fun _ hx hxp => hqp (InBlock.unique hq h.struct.1 (hx.inBlock hq)
      (inBlock_of_inRange_wordAddr h.struct.1 (by omega) hxp)))
    fun _ hx hxb => hqb (InBlock.unique hq h.buffer.1 (hx.inBlock hq) hxb)

/-! ### One part -/

/-- The characters that end a part. -/
def EndsPart (path : List UInt8) : Prop := path.headD 0 = 47 ∨ path.headD 0 = 0

/-- A component of a path: no slash and no NUL. -/
def IsComponent (c : List UInt8) : Prop := c ≠ [] ∧ ∀ x ∈ c, x ≠ 47 ∧ x ≠ 0

instance (c : List UInt8) : Decidable (IsComponent c) :=
  inferInstanceAs (Decidable (c ≠ [] ∧ ∀ x ∈ c, x ≠ 47 ∧ x ≠ 0))

theorem pathPartLoop_end (buf : UInt32) (i : ℕ) (m : Mem) :
    ∀ {rest : List UInt8}, EndsPart rest → pathPartLoop buf i rest m = (i, rest, m)
  | [], _ => rfl
  | c :: rest, h => by
      unfold pathPartLoop
      refine if_neg fun hc => ?_
      exact h.elim hc.1 hc.2

/-- The loop copies the characters up to the end of the part. -/
theorem pathPartLoop_append (buf : UInt32) {rest : List UInt8} (hrest : EndsPart rest) :
    ∀ (c : List UInt8) (i : ℕ) (m : Mem), (∀ x ∈ c, x ≠ 47 ∧ x ≠ 0) → i + c.length ≤ 4096 →
      ∃ m', pathPartLoop buf i (c ++ rest) m = (i + c.length, rest, m') ∧
        (∀ j < c.length, m' (off buf (i + j)) = c.getD j 0) ∧
        ∀ x, (∀ j < c.length, x ≠ off buf (i + j)) → m' x = m x
  | [], i, m, _, _ => ⟨m, pathPartLoop_end buf i m hrest, fun _ hj => absurd hj (Nat.not_lt_zero _),
      fun _ _ => rfl⟩
  | d :: c, i, m, hc, hlen => by
      rw [List.length_cons] at hlen
      obtain ⟨m', hloop, hnew, hold⟩ := pathPartLoop_append buf hrest c (i + 1)
        (m.write (off buf i) d) (fun x hx => hc x (List.mem_cons_of_mem d hx)) (by omega)
      refine ⟨m', ?_, fun j hj => ?_, fun x hx => ?_⟩
      · rw [List.cons_append, List.length_cons]
        unfold pathPartLoop
        rw [if_pos (hc d List.mem_cons_self), hloop, Nat.add_right_comm i 1, Nat.add_assoc]
      · cases j with
        | zero =>
            rw [hold _ fun j hj e => ?_, Nat.add_zero, Mem.write_same]
            · rfl
            · have := off_inj (by omega) (by omega) e
              omega
        | succ j =>
            rw [List.length_cons] at hj
            rw [show i + (j + 1) = i + 1 + j by ring, hnew j (by omega)]
            rfl
      · rw [List.length_cons] at hx
        rw [hold x fun j hj => ?_, Mem.write_ne _ _ ?_]
        · simpa using hx 0 (by omega)
        · rw [show i + 1 + j = i + (j + 1) by ring]
          exact hx (j + 1) (by omega)

/-- `pathparser_get_path_part` of a component, when its buffer is the block `b`. -/
theorem pathparserGetPathPart_take {c rest : List UInt8} (hc : IsComponent c)
    (hlen : c.length < peachosMaxPath) (hrest : EndsPart rest) {k : Kernel} {b : ℕ}
    (hb : (kzalloc 108 k).1 = blockAddr b) (htake : Takes k (kzalloc 108 k).2 {b})
    (hzero : ∀ x, InRange (blockAddr b) 108 x → (kzalloc 108 k).2.mem x = 0) :
    ∃ k', pathparserGetPathPart (c ++ rest) k =
        (blockAddr b, (if rest.headD 0 = 47 then rest.drop 1 else rest), k') ∧
      k'.oom = (kzalloc 108 k).2.oom ∧ Takes k k' {b} ∧ HoldsString k'.mem (blockAddr b) c := by
  have hlt : b < 25600 := htake.lt b rfl
  have hpath : c.length < 108 := hlen
  obtain ⟨m', hloop, hnew, hold⟩ := pathPartLoop_append (blockAddr b) hrest c 0
    (kzalloc 108 k).2.mem hc.2 (by omega)
  rw [Nat.zero_add] at hloop
  have hne : c.length ≠ 0 := fun h => hc.1 (List.length_eq_zero_iff.mp h)
  refine ⟨⟨m', (kzalloc 108 k).2.oom⟩, ?_, rfl, htake.write fun x hx => ?_, hlen,
    fun i hi => ?_⟩
  · unfold pathparserGetPathPart
    dsimp only
    rw [hb, hloop]
    dsimp only
    rw [if_neg hne]
  · refine hold x fun j hj e => hx b rfl ?_
    rw [e, Nat.zero_add]
    exact inRange_off (by omega)
  · rcases Nat.lt_or_ge i c.length with hic | hic
    · rw [← hnew i hic, Nat.zero_add]
    · have hi : i < 108 := hi
      change m' _ = _
      rw [hold _ fun j hj e => ?_, hzero _ (inRange_off hi), List.getD_eq_default _ _ hic]
      rw [Nat.zero_add] at e
      have := off_inj (by omega) (by omega) e
      omega

/-- `pathparser_get_path_part` of a component. -/
theorem pathparserGetPathPart_component {c rest : List UInt8} (hc : IsComponent c)
    (hlen : c.length < peachosMaxPath) (hrest : EndsPart rest) {k : Kernel}
    (hok : (kzalloc 108 k).2.oom = false) :
    ∃ b k', pathparserGetPathPart (c ++ rest) k =
        (blockAddr b, (if rest.headD 0 = 47 then rest.drop 1 else rest), k') ∧
      k'.oom = false ∧ Takes k k' {b} ∧ HoldsString k'.mem (blockAddr b) c := by
  obtain ⟨b, hb, htake, hzero⟩ := kzalloc_block_of_ok (by decide) (by decide) hok
  obtain ⟨k', hget, hoom, htake', hstr⟩ :=
    pathparserGetPathPart_take hc hlen hrest hb htake hzero
  exact ⟨b, k', hget, hoom.trans hok, htake', hstr⟩

/-- `pathparser_get_path_part` of an empty component gives its buffer back. -/
theorem pathparserGetPathPart_empty {path : List UInt8} (hpath : EndsPart path) (k : Kernel) :
    pathparserGetPathPart path k = (0, (if path.headD 0 = 47 then path.drop 1 else path),
      kfree (kzalloc 108 k).1 (kzalloc 108 k).2) := by
  unfold pathparserGetPathPart
  dsimp only
  rw [pathPartLoop_end _ _ _ hpath, if_pos rfl]

theorem pathparserGetPathPart_nil {k : Kernel} (hok : (kzalloc 108 k).2.oom = false) :
    ∃ k', pathparserGetPathPart [] k = (0, [], k') ∧ k'.oom = false ∧
      Keeps k k' fun _ => False := by
  obtain ⟨b, hb, htake, -⟩ := kzalloc_block_of_ok (by decide) (by decide) hok
  refine ⟨kfree (blockAddr b) (kzalloc 108 k).2, ?_, hok, htake.keeps_kfree _⟩
  rw [pathparserGetPathPart_empty (Or.inr rfl), hb]
  rfl

/-- A new part that is not linked yet, when its string is in the block `b` and its structure
in the block `p`. -/
theorem pathparserParsePathPart_take {path rest c : List UInt8} {k k₁ : Kernel} {b p : ℕ}
    (hget : pathparserGetPathPart path k = (blockAddr b, rest, k₁)) (htake₁ : Takes k k₁ {b})
    (hstr : HoldsString k₁.mem (blockAddr b) c) (hp : (kzalloc 8 k₁).1 = blockAddr p)
    (htake₂ : Takes k₁ (kzalloc 8 k₁).2 {p}) :
    ∃ k', pathparserParsePathPart 0 path k = (blockAddr p, rest, k') ∧
      Takes k k' ({b} ∪ {p}) ∧ PartAt k' p b c ∧ k'.mem.read32 (wordAddr p 1) = 0 := by
  have hb : b < 25600 := htake₁.lt b rfl
  have hlt : p < 25600 := htake₂.lt p rfl
  have hbp : b ≠ p := fun e => htake₁.taken rfl (e ▸ htake₂.free p rfl)
  unfold pathparserParsePathPart
  dsimp only
  rw [hget, if_neg (blockAddr_ne_zero hb)]
  dsimp only
  rw [hp, if_neg (not_not.mpr rfl)]
  have htake₃ : Takes k₁ ⟨((kzalloc 8 k₁).2.mem.write32 (wordAddr p 0) (blockAddr b)).write32
      (wordAddr p 1) 0, (kzalloc 8 k₁).2.oom⟩ {p} := by
    refine htake₂.write fun x hx => ?_
    dsimp only
    rw [write32_wordAddr_apply hlt (by omega) _ _ (hx p rfl),
      write32_wordAddr_apply hlt (by omega) _ _ (hx p rfl)]
  have htake := htake₁.trans htake₃
  refine ⟨_, rfl, htake,
    ⟨⟨hlt, htake.taken (Or.inr rfl)⟩, ⟨hb, htake.taken (Or.inl rfl)⟩, hbp, ?_,
      hstr.congr fun x hx => ?_⟩, Mem.read32_write32 _ _ _⟩
  · change Mem.read32 (Mem.write32 _ (wordAddr p 1) 0) (wordAddr p 0) = blockAddr b
    rw [read32_write32_wordAddr hlt (by omega) hlt (by omega) (by omega)]
    exact Mem.read32_write32 _ _ _
  · exact htake₃.same hb (htake₁.taken rfl) hx

/-- A new part, if no allocation fails. -/
theorem pathparserParsePathPart_component {c rest : List UInt8} (hc : IsComponent c)
    (hlen : c.length < peachosMaxPath) (hrest : EndsPart rest) {k : Kernel}
    (hok : (pathparserParsePathPart 0 (c ++ rest) k).2.2.oom = false) :
    ∃ p b k', pathparserParsePathPart 0 (c ++ rest) k =
        (blockAddr p, (if rest.headD 0 = 47 then rest.drop 1 else rest), k') ∧
      Takes k k' ({b} ∪ {p}) ∧ PartAt k' p b c ∧ k'.mem.read32 (wordAddr p 1) = 0 := by
  have hok₁ := pathparserParsePathPart_oom_false hok
  rw [pathparserGetPathPart_oom] at hok₁
  obtain ⟨b, k₁, hget, -, htake₁, hstr⟩ := pathparserGetPathPart_component hc hlen hrest hok₁
  have hok₂ : (kzalloc 8 k₁).2.oom = false := by
    unfold pathparserParsePathPart at hok
    dsimp only at hok
    rwa [hget, if_neg (blockAddr_ne_zero (htake₁.lt b rfl))] at hok
  obtain ⟨p, hp, htake₂, -⟩ := kzalloc_block_of_ok (by decide) (by decide) hok₂
  obtain ⟨k', hparse, htake, hpart, hnext⟩ :=
    pathparserParsePathPart_take hget htake₁ hstr hp htake₂
  exact ⟨p, b, k', hparse, htake, hpart, hnext⟩

/-- With a part parsed before, the new part is linked to it. -/
theorem pathparserParsePathPart_link {lastPart : UInt32} (hlast : lastPart ≠ 0)
    {path : List UInt8} {k : Kernel} {s : UInt32 × List UInt8 × Kernel}
    (hs : pathparserParsePathPart 0 path k = s) (hne : s.1 ≠ 0) :
    pathparserParsePathPart lastPart path k =
      (s.1, s.2.1, { s.2.2 with mem := s.2.2.mem.write32 (off lastPart 4) s.1 }) := by
  subst hs
  rcases eq_or_ne (pathparserGetPathPart path k).1 0 with h0 | h0
  · exact absurd (by unfold pathparserParsePathPart; dsimp only; rw [if_pos h0]) hne
  · unfold pathparserParsePathPart
    dsimp only
    rw [if_neg h0, if_neg h0, if_pos hlast, if_neg (not_not.mpr rfl)]

theorem pathparserParsePathPart_oom_link (lastPart : UInt32) (path : List UInt8) (k : Kernel) :
    (pathparserParsePathPart lastPart path k).2.2.oom =
      (pathparserParsePathPart 0 path k).2.2.oom := by
  unfold pathparserParsePathPart
  dsimp only
  split_ifs <;> rfl

theorem pathparserParsePathPart_nil {lastPart : UInt32} {k : Kernel}
    (hok : (pathparserParsePathPart lastPart [] k).2.2.oom = false) :
    ∃ k', pathparserParsePathPart lastPart [] k = (0, [], k') ∧ Keeps k k' fun _ => False := by
  have hok₁ := pathparserParsePathPart_oom_false hok
  rw [pathparserGetPathPart_oom] at hok₁
  obtain ⟨k', hget, -, hkeeps⟩ := pathparserGetPathPart_nil hok₁
  refine ⟨k', ?_, hkeeps⟩
  unfold pathparserParsePathPart
  dsimp only
  rw [hget, if_pos rfl]

/-! ### The whole path -/

/-- The components of a path with slashes between them, and one at the end if `slash`. -/
def joinPath (slash : Bool) : List (List UInt8) → List UInt8
  | [] => []
  | [c] => c ++ if slash then [47] else []
  | c :: d :: cs => c ++ 47 :: joinPath slash (d :: cs)

/-- What follows the first component. -/
def afterFirst (slash : Bool) : List (List UInt8) → List UInt8
  | [] => if slash then [47] else []
  | c :: cs => 47 :: joinPath slash (c :: cs)

theorem joinPath_cons (slash : Bool) (c : List UInt8) (cs : List (List UInt8)) :
    joinPath slash (c :: cs) = c ++ afterFirst slash cs := by
  cases cs <;> rfl

theorem endsPart_afterFirst (slash : Bool) (cs : List (List UInt8)) :
    EndsPart (afterFirst slash cs) := by
  cases cs with
  | nil =>
      cases slash with
      | false => exact Or.inr rfl
      | true => exact Or.inl rfl
  | cons c cs => exact Or.inl rfl

/-- The cursor behind the first component. -/
theorem afterFirst_next (slash : Bool) (cs : List (List UInt8)) :
    (if (afterFirst slash cs).headD 0 = 47 then (afterFirst slash cs).drop 1
      else afterFirst slash cs) = joinPath slash cs := by
  cases cs with
  | nil => cases slash <;> rfl
  | cons c cs => rfl

theorem Keeps.read32_wordAddr {k k' : Kernel} {W : UInt32 → Prop} {b j : ℕ} (hk : Keeps k k' W)
    (hb : TakenBlock k b) (hj : j < 1024) (hW : ∀ x, W x → ¬ InBlock b x) :
    k'.mem.read32 (wordAddr b j) = k.mem.read32 (wordAddr b j) :=
  read32_wordAddr_congr hb.1 hj fun x hx => hk.same b hb.1 hb.2 x hx fun hw => hW x hw hx

/-- The new part in block `q` is linked to the structure in block `p`, whose word 1 is the
link: what holds before the parts behind the new one are parsed. -/
theorem PartAt.link {k k₁ k₂ : Kernel} {p q b : ℕ} {c : List UInt8} (hp : TakenBlock k p)
    (htake : Takes k k₁ ({b} ∪ {q})) (hpart : PartAt k₁ q b c)
    (hnext : k₁.mem.read32 (wordAddr q 1) = 0)
    (hk₂ : k₂ = { k₁ with mem := k₁.mem.write32 (wordAddr p 1) (blockAddr q) }) :
    Keeps k k₂ (InNext p) ∧ PartAt k₂ q b c ∧ k₂.mem.read32 (wordAddr q 1) = 0 ∧
      k₂.mem.read32 (wordAddr p 1) = blockAddr q := by
  have hqp : p ≠ q := fun e => hp.2 (e ▸ htake.free q (Or.inr rfl))
  have hbp : p ≠ b := fun e => hp.2 (e ▸ htake.free b (Or.inl rfl))
  have hwrite : Keeps k₁ k₂ (InNext p) := by
    refine Keeps.of_write (fun x hx => (hx.inBlock hp.1).not_inTable hp.1) fun x hx => ?_
    rw [hk₂]
    exact Mem.write32_apply_of_not_inRange _ _ hx
  refine ⟨(htake.keeps _).trans hwrite fun b hb ht x hx hw => hw,
    hpart.keeps_other hp.1 hqp hbp hwrite, ?_, ?_⟩
  · rw [← hnext]
    exact hwrite.read32_wordAddr hpart.struct (by omega) fun x hx hxq =>
      hqp (InBlock.unique hp.1 hpart.struct.1 (hx.inBlock hp.1) hxq)
  · rw [hk₂]
    exact Mem.read32_write32 _ _ _

/-- What is done behind the new part in block `q` leaves its link, in the structure in block
`p`. -/
theorem Keeps.link {k k₂ k₃ : Kernel} {p q : ℕ} (hp : TakenBlock k p) (hqlt : q < 25600)
    (hq : EntryFree kernelHeap k.mem q) (hkeeps : Keeps k k₂ (InNext p))
    (hlink : k₂.mem.read32 (wordAddr p 1) = blockAddr q) (hkeeps₃ : Keeps k₂ k₃ (InNext q)) :
    Keeps k k₃ (InNext p) ∧ k₃.mem.read32 (wordAddr p 1) = blockAddr q := by
  have hout : ∀ b < 25600, ¬ EntryFree kernelHeap k.mem b → ∀ x, InNext q x → ¬ InBlock b x :=
    fun b hb ht x hx hxb => ht (InBlock.unique hb hqlt hxb (hx.inBlock hqlt) ▸ hq)
  refine ⟨hkeeps.trans hkeeps₃ fun b hb ht x hx hw => absurd hx (hout b hb ht x hw), ?_⟩
  rw [← hlink]
  exact hkeeps₃.read32_wordAddr (hp.keeps hkeeps) (by omega) (hout p hp.1 hp.2)

/-- The new part and the parts behind it make up the list behind the structure in block `p`. -/
theorem PartList.link {k k₂ k₃ : Kernel} {p q b : ℕ} {c : List UInt8} {cs : List (List UInt8)}
    (hp : TakenBlock k p) (hq : EntryFree kernelHeap k.mem q) (hkeeps : Keeps k k₂ (InNext p))
    (hpart : PartAt k₂ q b c) (hlink : k₂.mem.read32 (wordAddr p 1) = blockAddr q)
    (hkeeps₃ : Keeps k₂ k₃ (InNext q)) (hlist : PartList k₃ (k₃.mem.read32 (wordAddr q 1)) cs) :
    Keeps k k₃ (InNext p) ∧ PartList k₃ (k₃.mem.read32 (wordAddr p 1)) (c :: cs) := by
  obtain ⟨hkeep, hlast⟩ := Keeps.link hp hpart.struct.1 hq hkeeps hlink hkeeps₃
  exact ⟨hkeep, q, b, hlast, hpart.keeps_next hkeeps₃, hlist⟩

/-- The loop links the remaining components to the part parsed last. -/
theorem parsePartsLoop_spec (slash : Bool) : ∀ {cs : List (List UInt8)} {p : ℕ} {k k' : Kernel},
    (∀ c ∈ cs, IsComponent c ∧ c.length < peachosMaxPath) → TakenBlock k p →
    k.mem.read32 (wordAddr p 1) = 0 →
    k' = parsePartsLoop (blockAddr p) (joinPath slash cs) k → k'.oom = false →
    Keeps k k' (InNext p) ∧ PartList k' (k'.mem.read32 (wordAddr p 1)) cs
  | [], p, k, k', _, hp, hnext, hk', hok => by
      subst hk'
      obtain ⟨k', hparse, hkeeps⟩ := pathparserParsePathPart_nil (parsePartsLoop_oom_false hok)
      have hloop : parsePartsLoop (blockAddr p) (joinPath slash []) k = k' := by
        unfold parsePartsLoop joinPath
        rw [hparse, if_pos rfl]
      rw [hloop]
      refine ⟨hkeeps.mono fun x hx => hx.elim, ?_⟩
      change k'.mem.read32 (wordAddr p 1) = 0
      rw [hkeeps.read32_wordAddr hp (by omega) fun x hx => hx.elim, hnext]
  | c :: cs, p, k, k', hcs, hp, hnext, hk', hok => by
      have hok₁ := parsePartsLoop_oom_false (hk' ▸ hok)
      rw [pathparserParsePathPart_oom_link, joinPath_cons] at hok₁
      obtain ⟨q, b, k₁, hparse, htake, hpart, hnext₁⟩ :=
        pathparserParsePathPart_component (hcs c List.mem_cons_self).1
          (hcs c List.mem_cons_self).2 (endsPart_afterFirst slash cs) hok₁
      have hlast := pathparserParsePathPart_link (blockAddr_ne_zero hp.1) hparse
        (blockAddr_ne_zero hpart.struct.1)
      rw [afterFirst_next, ← joinPath_cons] at hlast
      obtain ⟨k₂, hk₂⟩ : ∃ k₂ : Kernel,
        k₂ = { k₁ with mem := k₁.mem.write32 (wordAddr p 1) (blockAddr q) } := ⟨_, rfl⟩
      have hloop : k' = parsePartsLoop (blockAddr q) (joinPath slash cs) k₂ := by
        rw [hk', parsePartsLoop, hlast, if_neg (blockAddr_ne_zero hpart.struct.1), hk₂]
        rfl
      obtain ⟨hkeeps₂, hpart₂, hnext₂, hlink⟩ := hpart.link hp htake hnext₁ hk₂
      obtain ⟨hkeeps₃, hlist⟩ := parsePartsLoop_spec slash
        (fun d hd => hcs d (List.mem_cons_of_mem c hd)) hpart₂.struct hnext₂ hloop hok
      exact PartList.link hp (htake.free q (Or.inr rfl)) hkeeps₂ hpart₂ hlink hkeeps₃ hlist

/-- The path `d:/c₁/…/cₙ`, with a slash at the end if `slash`. -/
def pathString (d : Fin 10) (slash : Bool) (cs : List (List UInt8)) : List UInt8 :=
  digitChar d :: 58 :: 47 :: joinPath slash cs

theorem zero_notMem_joinPath (slash : Bool) : ∀ {cs : List (List UInt8)},
    (∀ c ∈ cs, IsComponent c) → 0 ∉ joinPath slash cs
  | [], _ => List.not_mem_nil
  | c :: cs, h => by
      have hc : 0 ∉ c := fun h0 => ((h c List.mem_cons_self).2 0 h0).2 rfl
      have ih := zero_notMem_joinPath slash fun d hd => h d (List.mem_cons_of_mem c hd)
      rw [joinPath_cons, List.mem_append, not_or]
      refine ⟨hc, ?_⟩
      cases cs with
      | nil => cases slash <;> simp [afterFirst]
      | cons d cs =>
          rw [afterFirst, List.mem_cons, not_or]
          exact ⟨by decide, ih⟩

theorem zero_notMem_pathString (d : Fin 10) (slash : Bool) {cs : List (List UInt8)}
    (hcs : ∀ e ∈ cs, IsComponent e) : 0 ∉ pathString d slash cs := by
  have hdigit : digitChar d ≠ 0 := by revert d; decide
  unfold pathString
  simp only [List.mem_cons, not_or]
  exact ⟨hdigit.symm, by decide, by decide, zero_notMem_joinPath slash hcs⟩

theorem length_le_joinPath (slash : Bool) {c : List UInt8} : ∀ {cs : List (List UInt8)}, c ∈ cs →
    c.length ≤ (joinPath slash cs).length
  | d :: cs, h => by
      rw [joinPath_cons, List.length_append]
      rcases List.mem_cons.mp h with rfl | h
      · exact Nat.le_add_right _ _
      · have ih := length_le_joinPath slash h
        cases cs with
        | nil => exact absurd h List.not_mem_nil
        | cons e cs =>
            rw [afterFirst, List.length_cons]
            omega

/-- The drive of a path with at least one component, and the cursor behind it. -/
theorem pathparserGetDriveByPath_pathString (d : Fin 10) (slash : Bool) {c : List UInt8}
    {cs : List (List UInt8)} (hcs : ∀ e ∈ c :: cs, IsComponent e) :
    pathparserGetDriveByPath (pathString d slash (c :: cs)) =
      (((d : ℕ) : ℤ), joinPath slash (c :: cs)) := by
  have hzero := zero_notMem_pathString d slash hcs
  have hvalid : pathparserPathValidFormat (pathString d slash (c :: cs)) = true := by
    unfold pathparserPathValidFormat
    dsimp only
    rw [strnlen_eq _ hzero, Bool.and_eq_true, Bool.and_eq_true]
    refine ⟨⟨?_, isdigit_digitChar d⟩, rfl⟩
    unfold pathString peachosMaxPath
    simp only [List.length_cons, decide_eq_true_eq]
    omega
  unfold pathparserGetDriveByPath
  rw [if_pos hvalid]
  exact Prod.ext (tonumericdigit_digitChar d) rfl

/-- The root structure. -/
theorem pathparserCreateRoot_spec (driveNumber : ℤ) {k : Kernel}
    (hok : (pathparserCreateRoot driveNumber k).2.oom = false) :
    ∃ r k', pathparserCreateRoot driveNumber k = (blockAddr r, k') ∧ TakenBlock k' r ∧
      k'.mem.read32 (wordAddr r 0) = UInt32.ofInt driveNumber := by
  obtain ⟨r, hr, htake, -⟩ := kzalloc_block_of_ok (by decide) (by decide) hok
  have hlt : r < 25600 := htake.lt r rfl
  unfold pathparserCreateRoot
  dsimp only
  rw [hr]
  refine ⟨r, _, rfl, ⟨hlt, (htake.write fun x hx => ?_).taken rfl⟩, ?_⟩
  · change Mem.write32 (Mem.write32 _ (wordAddr r 0) _) (wordAddr r 1) 0 x = _
    rw [write32_wordAddr_apply hlt (by omega) _ _ (hx r rfl),
      write32_wordAddr_apply hlt (by omega) _ _ (hx r rfl)]
  · change Mem.read32 (Mem.write32 (Mem.write32 _ (wordAddr r 0) _) (wordAddr r 1) 0) _ = _
    rw [read32_write32_wordAddr hlt (by omega) hlt (by omega) (by omega)]
    exact Mem.read32_write32 _ _ _

theorem parsePartsLoop_oom_start {part : UInt32} {path : List UInt8} {k : Kernel}
    (h : (parsePartsLoop part path k).oom = false) : k.oom = false :=
  pathparserParsePathPart_oom_start (parsePartsLoop_oom_false h)

/-- `r` is a root structure with the drive `d` and the parts `cs`. -/
def IsRoot (k : Kernel) (r : UInt32) (d : ℕ) (cs : List (List UInt8)) : Prop :=
  r ≠ 0 ∧ k.mem.read32 (off r 0) = UInt32.ofNat d ∧ PartList k (k.mem.read32 (off r 4)) cs

/-- The parts of a valid path, parsed into a root that is already there. -/
theorem pathparserParse_parts {d : ℕ} (slash : Bool) {c : List UInt8} {cs : List (List UInt8)}
    (hcs : ∀ e ∈ c :: cs, IsComponent e ∧ e.length < peachosMaxPath) {k k₁ k₂ : Kernel} {r : ℕ}
    {s : UInt32 × List UInt8 × Kernel} (hr : TakenBlock k r)
    (hdrive : k.mem.read32 (wordAddr r 0) = UInt32.ofNat d)
    (hs : pathparserParsePathPart 0 (joinPath slash (c :: cs)) k = s)
    (hk₁ : k₁ = { s.2.2 with mem := s.2.2.mem.write32 (off (blockAddr r) 4) s.1 })
    (hk₂ : k₂ = parsePartsLoop s.1 s.2.1 k₁) (hok : k₂.oom = false) :
    IsRoot k₂ (blockAddr r) d (c :: cs) := by
  have hok₁ : s.2.2.oom = false := by
    have hok₁ := parsePartsLoop_oom_start (hk₂ ▸ hok)
    rwa [hk₁] at hok₁
  rw [← hs, joinPath_cons] at hok₁
  obtain ⟨q, b, k₀, hparse, htake, hpart, hnext⟩ :=
    pathparserParsePathPart_component (hcs c List.mem_cons_self).1
      (hcs c List.mem_cons_self).2 (endsPart_afterFirst slash cs) hok₁
  rw [← joinPath_cons, hs, afterFirst_next] at hparse
  have hk₁ : k₁ = { k₀ with mem := k₀.mem.write32 (wordAddr r 1) (blockAddr q) } := by
    rw [hk₁, hparse]
    rfl
  have hk₂ : k₂ = parsePartsLoop (blockAddr q) (joinPath slash cs) k₁ := by
    rw [hk₂, hparse]
  obtain ⟨hkeeps₁, hpart₁, hnext₁, hlink⟩ := hpart.link hr htake hnext hk₁
  obtain ⟨hkeeps₂, hlist⟩ := parsePartsLoop_spec slash
    (fun e he => hcs e (List.mem_cons_of_mem c he)) hpart₁.struct hnext₁ hk₂ hok
  obtain ⟨hroot, hlist⟩ :=
    PartList.link hr (htake.free q (Or.inr rfl)) hkeeps₁ hpart₁ hlink hkeeps₂ hlist
  have hfirst : k₂.mem.read32 (wordAddr r 0) = k.mem.read32 (wordAddr r 0) :=
    Mem.read32_congr fun x hx => hroot.same r hr.1 hr.2 x
      (inBlock_of_inRange_wordAddr hr.1 (by omega) hx) fun hw => hw.not_first hr.1 hx
  exact ⟨blockAddr_ne_zero hr.1, hfirst.trans hdrive, hlist⟩

/-- `pathparser_parse` behind its checks. -/
theorem pathparserParse_of_drive {path t : List UInt8} {d : ℕ} (hlen : strlen path ≤ peachosMaxPath)
    (hdrive : pathparserGetDriveByPath path = ((d : ℤ), t)) {k : Kernel} :
    pathparserParse path k =
      if (pathparserCreateRoot d k).1 = 0 then (0, (pathparserCreateRoot d k).2)
      else
        let s := pathparserParsePathPart 0 t (pathparserCreateRoot d k).2
        if s.1 = 0 then ((pathparserCreateRoot d k).1, s.2.2)
        else ((pathparserCreateRoot d k).1, parsePartsLoop s.1 s.2.1
          { s.2.2 with mem := s.2.2.mem.write32 (off (pathparserCreateRoot d k).1 4) s.1 }) := by
  unfold pathparserParse
  rw [if_neg (Nat.not_lt.mpr hlen), hdrive]
  dsimp only
  rw [if_neg (by omega)]

theorem pathparserParse_eq (d : Fin 10) (slash : Bool) {c : List UInt8} {cs : List (List UInt8)}
    (hcs : ∀ e ∈ c :: cs, IsComponent e)
    (hlen : (pathString d slash (c :: cs)).length ≤ peachosMaxPath) {k : Kernel} :
    pathparserParse (pathString d slash (c :: cs)) k =
      if (pathparserCreateRoot d k).1 = 0 then (0, (pathparserCreateRoot d k).2)
      else
        let s := pathparserParsePathPart 0 (joinPath slash (c :: cs)) (pathparserCreateRoot d k).2
        if s.1 = 0 then ((pathparserCreateRoot d k).1, s.2.2)
        else ((pathparserCreateRoot d k).1, parsePartsLoop s.1 s.2.1
          { s.2.2 with mem := s.2.2.mem.write32 (off (pathparserCreateRoot d k).1 4) s.1 }) :=
  pathparserParse_of_drive
    (by rwa [strlen_eq_length (zero_notMem_pathString d slash hcs)])
    (pathparserGetDriveByPath_pathString d slash hcs)

/-- Each component fits in its buffer. -/
theorem isComponent_short (d : Fin 10) (slash : Bool) {cs : List (List UInt8)}
    (hcs : ∀ c ∈ cs, IsComponent c) (hlen : (pathString d slash cs).length ≤ peachosMaxPath) :
    ∀ c ∈ cs, IsComponent c ∧ c.length < peachosMaxPath := by
  intro c hc
  have hle := length_le_joinPath slash hc
  unfold pathString at hlen
  rw [List.length_cons, List.length_cons, List.length_cons] at hlen
  exact ⟨hcs c hc, by omega⟩

/-- **Parsing a path gives back what it was written from.**  If no allocation fails, the root
has the drive `d` and its parts are the components in order, each with its terminator inside
its buffer of 108 bytes. -/
theorem pathparserParse_pathString (d : Fin 10) (slash : Bool) {cs : List (List UInt8)}
    (hne : cs ≠ []) (hcs : ∀ c ∈ cs, IsComponent c)
    (hlen : (pathString d slash cs).length ≤ peachosMaxPath) {k : Kernel}
    (hok : (pathparserParse (pathString d slash cs) k).2.oom = false) :
    IsRoot (pathparserParse (pathString d slash cs) k).2
      (pathparserParse (pathString d slash cs) k).1 d cs := by
  obtain ⟨c, cs, rfl⟩ := List.exists_cons_of_ne_nil hne
  have hshort := isComponent_short d slash hcs hlen
  rw [pathparserParse_eq d slash hcs hlen] at hok ⊢
  rcases eq_or_ne (pathparserCreateRoot d k).1 0 with h0 | h0
  · rw [if_pos h0] at hok
    obtain ⟨r, k₁, hroot, hr, -⟩ := pathparserCreateRoot_spec d hok
    rw [hroot] at h0
    exact absurd h0 (blockAddr_ne_zero hr.1)
  rw [if_neg h0] at hok ⊢
  generalize hs : pathparserParsePathPart 0 (joinPath slash (c :: cs))
    (pathparserCreateRoot d k).2 = s at hok ⊢
  have hoks : s.2.2.oom = false := by
    rcases eq_or_ne s.1 0 with h1 | h1
    · rwa [if_pos h1] at hok
    · rw [if_neg h1] at hok
      exact (parsePartsLoop_oom_start hok :)
  have hokr : (pathparserCreateRoot d k).2.oom = false :=
    pathparserParsePathPart_oom_start (hs ▸ hoks)
  obtain ⟨r, k₁, hroot, hr, hdrive⟩ := pathparserCreateRoot_spec d hokr
  rw [hroot] at hs hok ⊢
  have hne : s.1 ≠ 0 := by
    rw [← hs, joinPath_cons] at hoks ⊢
    obtain ⟨q, b, k₂, hparse, -, hpart, -⟩ :=
      pathparserParsePathPart_component (hshort c List.mem_cons_self).1
        (hshort c List.mem_cons_self).2 (endsPart_afterFirst slash cs) hoks
    rw [hparse]
    exact blockAddr_ne_zero hpart.struct.1
  rw [if_neg hne] at hok ⊢
  exact pathparserParse_parts slash hshort hr (by rw [hdrive, ofInt_natCast]) hs rfl rfl hok

/-! ### Enough memory -/

/-- A part needs two blocks. -/
theorem pathparserParsePathPart_ok {c rest : List UInt8} (hc : IsComponent c)
    (hlen : c.length < peachosMaxPath) (hrest : EndsPart rest) {k : Kernel} (hk : k.oom = false)
    {n : ℕ} (hn : n + 2 ≤ (freeBlocks k).card) :
    (pathparserParsePathPart 0 (c ++ rest) k).2.2.oom = false ∧
      n ≤ (freeBlocks (pathparserParsePathPart 0 (c ++ rest) k).2.2).card := by
  obtain ⟨hok₁, -⟩ := kzalloc_block_ok 108 (by decide) (by decide) hk (c := n + 1) (by omega)
  obtain ⟨b, k₁, hget, hk₁, htake₁, -⟩ := pathparserGetPathPart_component hc hlen hrest hok₁
  have hcard₁ := htake₁.card_le {b} fun c hc => Finset.mem_singleton.mpr hc
  rw [Finset.card_singleton] at hcard₁
  have hok : (pathparserParsePathPart 0 (c ++ rest) k).2.2.oom = false := by
    unfold pathparserParsePathPart
    dsimp only
    rw [hget, if_neg (blockAddr_ne_zero (htake₁.lt b rfl))]
    exact (kzalloc_block_ok 8 (by decide) (by decide) hk₁ (c := n) (by omega)).1
  obtain ⟨p, b', k', hparse, htake, -, -⟩ :=
    pathparserParsePathPart_component hc hlen hrest hok
  have hcard := htake.card_le {b', p} fun c hc => by
    rcases hc with hc | hc
    · exact Finset.mem_insert.mpr (Or.inl hc)
    · exact Finset.mem_insert_of_mem (Finset.mem_singleton.mpr hc)
  have htwo : ({b', p} : Finset ℕ).card ≤ 2 := Finset.card_le_two
  refine ⟨hok, ?_⟩
  rw [hparse]
  dsimp only
  omega

theorem pathparserParsePathPart_nil_ok (lastPart : UInt32) {k : Kernel} (hk : k.oom = false)
    (hn : 1 ≤ (freeBlocks k).card) : (pathparserParsePathPart lastPart [] k).2.2.oom = false ∧
      freeBlocks (pathparserParsePathPart lastPart [] k).2.2 = freeBlocks k := by
  obtain ⟨hok, -⟩ := kzalloc_block_ok 108 (by decide) (by decide) hk (c := 0) (by omega)
  obtain ⟨b, hb, htake, -⟩ := kzalloc_block_of_ok (by decide) (by decide) hok
  have hget : pathparserGetPathPart [] k = (0, [], kfree (blockAddr b) (kzalloc 108 k).2) := by
    unfold pathparserGetPathPart
    dsimp only
    rw [hb]
    rfl
  unfold pathparserParsePathPart
  dsimp only
  rw [hget, if_pos rfl]
  exact ⟨hok, htake.freeBlocks_kfree⟩

theorem parsePartsLoop_ok (slash : Bool) {n : ℕ} : ∀ {cs : List (List UInt8)} {p : ℕ}
    {k : Kernel}, (∀ c ∈ cs, IsComponent c ∧ c.length < peachosMaxPath) → p < 25600 →
    k.oom = false → 2 * cs.length + 1 + n ≤ (freeBlocks k).card →
    (parsePartsLoop (blockAddr p) (joinPath slash cs) k).oom = false ∧
      n ≤ (freeBlocks (parsePartsLoop (blockAddr p) (joinPath slash cs) k)).card
  | [], p, k, _, _, hk, hn => by
      rw [List.length_nil] at hn
      obtain ⟨hok, hfree⟩ := pathparserParsePathPart_nil_ok (blockAddr p) hk (by omega)
      obtain ⟨k', hparse, -⟩ := pathparserParsePathPart_nil hok
      unfold parsePartsLoop joinPath
      rw [hparse] at hok hfree ⊢
      rw [if_pos rfl]
      refine ⟨hok, ?_⟩
      dsimp only at hfree ⊢
      rw [hfree]
      omega
  | c :: cs, p, k, hcs, hp, hk, hn => by
      rw [List.length_cons] at hn
      have hc := hcs c List.mem_cons_self
      obtain ⟨hok, hcard⟩ := pathparserParsePathPart_ok (n := 2 * cs.length + 1 + n) hc.1 hc.2
        (endsPart_afterFirst slash cs) hk (by omega)
      obtain ⟨q, b, k₁, hparse, -, hpart, -⟩ :=
        pathparserParsePathPart_component hc.1 hc.2 (endsPart_afterFirst slash cs) hok
      have hlast := pathparserParsePathPart_link (blockAddr_ne_zero hp) hparse
        (blockAddr_ne_zero hpart.struct.1)
      rw [hparse] at hok hcard
      rw [afterFirst_next, ← joinPath_cons] at hlast
      obtain ⟨k₂, hk₂⟩ : ∃ k₂ : Kernel,
        k₂ = { k₁ with mem := k₁.mem.write32 (wordAddr p 1) (blockAddr q) } := ⟨_, rfl⟩
      have hloop : parsePartsLoop (blockAddr p) (joinPath slash (c :: cs)) k =
          parsePartsLoop (blockAddr q) (joinPath slash cs) k₂ := by
        rw [parsePartsLoop, hlast, if_neg (blockAddr_ne_zero hpart.struct.1), hk₂]
        rfl
      have hfree : freeBlocks k₂ = freeBlocks k₁ := by
        refine freeBlocks_congr fun x hx => ?_
        rw [hk₂]
        exact write32_wordAddr_apply hp (by omega) _ _ fun hxp => hxp.not_inTable hp hx
      have hk₂ok : k₂.oom = false := by
        rw [hk₂]
        exact hok
      rw [hloop]
      exact parsePartsLoop_ok slash (fun d hd => hcs d (List.mem_cons_of_mem c hd))
        hpart.struct.1 hk₂ok (by rw [hfree]; exact hcard)

theorem pathparserCreateRoot_ok (driveNumber : ℤ) {k : Kernel} (hk : k.oom = false) {n : ℕ}
    (hn : n + 1 ≤ (freeBlocks k).card) :
    (pathparserCreateRoot driveNumber k).2.oom = false ∧
      n ≤ (freeBlocks (pathparserCreateRoot driveNumber k).2).card := by
  obtain ⟨hok, hcard⟩ := kzalloc_block_ok 8 (by decide) (by decide) hk hn
  obtain ⟨r, hr, htake, -⟩ := kzalloc_block_of_ok (by decide) (by decide) hok
  have hlt : r < 25600 := htake.lt r rfl
  refine ⟨hok, ?_⟩
  rw [freeBlocks_congr (k := (kzalloc 8 k).2) fun x hx => ?_]
  · exact hcard
  · have hxr : ¬ InBlock r x := fun h => h.not_inTable hlt hx
    unfold pathparserCreateRoot
    dsimp only
    rw [hr]
    change Mem.write32 (Mem.write32 _ (wordAddr r 0) _) (wordAddr r 1) 0 x = _
    rw [write32_wordAddr_apply hlt (by omega) _ _ hxr,
      write32_wordAddr_apply hlt (by omega) _ _ hxr]

/-- The parser asks for two blocks for each part, one for the root and one more that it gives
back at the end. -/
theorem pathparserParse_ok (d : Fin 10) (slash : Bool) {cs : List (List UInt8)}
    (hne : cs ≠ []) (hcs : ∀ c ∈ cs, IsComponent c)
    (hlen : (pathString d slash cs).length ≤ peachosMaxPath) {k : Kernel} (hk : k.oom = false)
    {n : ℕ} (hfree : 2 * cs.length + 2 + n ≤ (freeBlocks k).card) :
    (pathparserParse (pathString d slash cs) k).2.oom = false ∧
      n ≤ (freeBlocks (pathparserParse (pathString d slash cs) k).2).card := by
  obtain ⟨c, cs, rfl⟩ := List.exists_cons_of_ne_nil hne
  have hshort := isComponent_short d slash hcs hlen
  have hc := hshort c List.mem_cons_self
  rw [List.length_cons] at hfree
  obtain ⟨hokr, hcardr⟩ := pathparserCreateRoot_ok d hk (n := 2 * cs.length + 3 + n) (by omega)
  obtain ⟨r, k₁, hroot, hr, -⟩ := pathparserCreateRoot_spec d hokr
  rw [hroot] at hokr hcardr
  obtain ⟨hok, hcard⟩ := pathparserParsePathPart_ok (n := 2 * cs.length + 1 + n) hc.1 hc.2
    (endsPart_afterFirst slash cs) hokr (le_trans (by omega) hcardr)
  obtain ⟨q, b, k₂, hparse, -, hpart, -⟩ :=
    pathparserParsePathPart_component hc.1 hc.2 (endsPart_afterFirst slash cs) hok
  rw [hparse] at hok hcard
  rw [afterFirst_next, ← joinPath_cons] at hparse
  rw [pathparserParse_eq d slash hcs hlen, hroot, if_neg (blockAddr_ne_zero hr.1)]
  dsimp only
  rw [hparse, if_neg (blockAddr_ne_zero hpart.struct.1)]
  obtain ⟨k₃, hk₃⟩ : ∃ k₃ : Kernel,
    k₃ = { k₂ with mem := k₂.mem.write32 (wordAddr r 1) (blockAddr q) } := ⟨_, rfl⟩
  have hfree₃ : freeBlocks k₃ = freeBlocks k₂ := by
    refine freeBlocks_congr fun x hx => ?_
    rw [hk₃]
    exact write32_wordAddr_apply hr.1 (by omega) _ _ fun hxr => hxr.not_inTable hr.1 hx
  have hok₃ : k₃.oom = false := by
    rw [hk₃]
    exact hok
  have hloop := parsePartsLoop_ok slash (fun e he => hshort e (List.mem_cons_of_mem c he))
    hpart.struct.1 hok₃ (by rw [hfree₃]; exact hcard)
  rw [hk₃] at hloop
  exact hloop

/-- The path `3:/bin/sh/` in a kernel with an empty heap. -/
theorem pathparserParse_pathString_two :
    IsRoot (pathparserParse (pathString 3 true [[98, 105, 110], [115, 104]]) freshKernel).2
      (pathparserParse (pathString 3 true [[98, 105, 110], [115, 104]]) freshKernel).1 3
      [[98, 105, 110], [115, 104]] := by
  have hcs : ∀ c ∈ [[98, 105, 110], [115, 104]], IsComponent c := by
    decide +kernel
  refine pathparserParse_pathString 3 true (by decide) hcs (by decide)
    (pathparserParse_ok 3 true (by decide) hcs (by decide) rfl (n := 0) ?_).1
  have hcard := freshKernel_topFree.card_le
  rw [List.length_cons, List.length_singleton]
  omega

end PeachOS
