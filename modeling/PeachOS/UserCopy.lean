import PeachOS.AddressSpace
import PeachOS.PagingFree

/-! # Reading the memory of a task

`copy_string_from_task` and `task_get_stack_item` of `task.c`: the kernel switches to the page
directory of a task, reads through it, and switches back.

`Paged` is the kernel with the directory that the processor walks.  Code that runs under the
directory of the kernel works on memory as it is, since that directory is the identity; between
the two switches every load and store goes through the directory of the task, entries that were
changed meanwhile included.

The code, the globals and the stack of the kernel are reached through the directory in use as well.
They are not followed here: `Spaces` asks that their pages (`KernelByte`) be mapped to themselves.
The segment registers, which `kernel_page` and `task_page` load, and the bits that the processor
sets in the entries it uses are left out.

* `copyStringFromTask_spec`: the string arrives, cut to what fits, and all that the call changed
  on the way is put back.
* `copyStringFromTask_unmapped`: with the chunk of the kernel unmapped in the space of the task,
  the call does not come back. -/

namespace PeachOS

open ByteMemory Extents X86

/-! ### The code -/

/-- The kernel, the register `cr3`, and `current_directory` of `paging.c`. -/
structure Paged where
  kernel : Kernel
  cr3 : UInt32
  currentDirectory : UInt32

/-- `paging_switch`; the directory is read once more when it is already in use. -/
def pagingSwitch (chunk : UInt32) (st : Paged) : Option Paged := do
  let directory ← loadWord .supervisor st.cr3 chunk st.kernel.mem
  let currentDirectory ← loadWord .supervisor directory chunk st.kernel.mem
  some { st with cr3 := directory, currentDirectory := currentDirectory }

/-- `kernel_page`. -/
def kernelPage (kernelChunk : UInt32) (st : Paged) : Option Paged := pagingSwitch kernelChunk st

/-- The loop of `strncpy`, with the rounds left; the value of `i` at its end. -/
def strncpyLoop (cr3 dest src : UInt32) : ℕ → ℕ → Mem → Option (ℕ × Mem)
  | 0, i, m => some (i, m)
  | left + 1, i, m => do
      let c ← loadByte .supervisor cr3 (off src i) m
      if c = 0 then some (i, m)
      else
        let m ← storeByte .supervisor cr3 (off dest i) c m
        strncpyLoop cr3 dest src left (i + 1) m

/-- `strncpy` under a page directory. -/
def strncpyPaged (cr3 dest src : UInt32) (count : ℤ) (m : Mem) : Option Mem := do
  let (i, m) ← strncpyLoop cr3 dest src (count - 1).toNat 0 m
  storeByte .supervisor cr3 (off dest i) 0 m

/-- `copy_string_from_task`, for the page directory of the task. -/
def copyStringFromTask (kernelChunk pageDirectory virtual phys : UInt32) (max : ℤ) (st : Paged) :
    Option (ℤ × Paged) :=
  if max ≥ 4096 then some (-EINVARG, st)
  else
    let tmp := kzalloc (UInt32.ofInt max) st.kernel
    if tmp.1 = 0 then some (-ENOMEM, { st with kernel := tmp.2 })
    else do
      let k := tmp.2
      let taskDirectory := k.mem.read32 pageDirectory
      let oldEntry := pagingGet taskDirectory tmp.1 k.mem
      let flags := pagingIsWritable ||| pagingIsPresent ||| pagingAccessFromAll
      let m := (pagingMap pageDirectory tmp.1 tmp.1 flags k.mem).2
      let st ← pagingSwitch pageDirectory { st with kernel := { k with mem := m } }
      let m ← strncpyPaged st.cr3 tmp.1 virtual max st.kernel.mem
      let st ← kernelPage kernelChunk { st with kernel := { st.kernel with mem := m } }
      let set := pagingSet taskDirectory tmp.1 oldEntry st.kernel.mem
      if set.1 < 0 then
        some (- EIO, { st with kernel := kfree tmp.1 { st.kernel with mem := set.2 } })
      else
        let m ← strncpyPaged st.cr3 phys tmp.1 max set.2
        some (set.1, { st with kernel := kfree tmp.1 { st.kernel with mem := m } })

/-- `task_get_stack_item`, for the page directory and the saved stack pointer of the task. -/
def taskGetStackItem (kernelChunk pageDirectory esp : UInt32) (index : ℕ) (st : Paged) :
    Option (UInt32 × Paged) := do
  -- `task_page_task`
  let st ← pagingSwitch pageDirectory st
  let result ← loadWord .supervisor st.cr3 (off esp (4 * index)) st.kernel.mem
  let st ← kernelPage kernelChunk st
  some (result, st)

/-! ### Copying through a view -/

section Copy

variable {cr3 dest src : UInt32} {S : UInt32 → Prop} {m m₀ m' : Mem}
  {π : UInt32 → Option UInt32} {cap : ℕ}

/-- The first `cap` addresses from `dest` on are mapped to themselves, outside the tables. -/
def Window (π : UInt32 → Option UInt32) (S : UInt32 → Prop) (dest : UInt32) (cap : ℕ) : Prop :=
  ∀ i < cap, π (off dest i) = some (off dest i) ∧ ¬ S (off dest i)

/-- `text` is the string of at most `n` characters behind `v`; the places it is read from are
none of `W`. -/
structure TextBehind (π : UInt32 → Option UInt32) (m : Mem) (v : UInt32) (n : ℕ)
    (W : UInt32 → Prop) (text : List UInt8) : Prop where
  length_le : text.length ≤ n
  char : ∀ i (hi : i < text.length),
    ∃ x, π (off v i) = some x ∧ ¬ W x ∧ m x = text[i] ∧ text[i] ≠ 0
  ends : text.length < n → ∃ x, π (off v text.length) = some x ∧ ¬ W x ∧ m x = 0

theorem TextBehind.mono {n : ℕ} {W V : UInt32 → Prop} {text : List UInt8} {v : UInt32}
    (h : TextBehind π m v n W text) (hV : ∀ x, V x → W x) : TextBehind π m v n V text := by
  refine ⟨h.length_le, fun i hi => ?_, fun hlt => ?_⟩
  · obtain ⟨x, hx, hW, hchar⟩ := h.char i hi
    exact ⟨x, hx, fun hx' => hW (hV x hx'), hchar⟩
  · obtain ⟨x, hx, hW, hzero⟩ := h.ends hlt
    exact ⟨x, hx, fun hx' => hW (hV x hx'), hzero⟩

theorem TextBehind.congr {n : ℕ} {W : UInt32 → Prop} {text : List UInt8} {v : UInt32}
    {π' : UInt32 → Option UInt32} (h : TextBehind π m v n W text)
    (hview : ∀ i ≤ text.length, π' (off v i) = π (off v i)) (hmem : ∀ x, ¬ W x → m' x = m x) :
    TextBehind π' m' v n W text := by
  refine ⟨h.length_le, fun i hi => ?_, fun hlt => ?_⟩
  · obtain ⟨x, hx, hW, hchar, hne⟩ := h.char i hi
    exact ⟨x, (hview i hi.le).trans hx, hW, (hmem x hW).trans hchar, hne⟩
  · obtain ⟨x, hx, hW, hzero⟩ := h.ends hlt
    exact ⟨x, (hview _ le_rfl).trans hx, hW, (hmem x hW).trans hzero⟩

/-- The loop copies a text whose places the copy does not touch. -/
theorem strncpyLoop_text (h : Shows .supervisor cr3 S m₀ π) (hdest : Window π S dest cap)
    {text : List UInt8} {n : ℕ} (htext : TextBehind π m₀ src n (InRange dest cap) text)
    (hlen : text.length < cap) (hcap : cap ≤ 4294967296) :
    ∀ (left i : ℕ), i ≤ text.length → i + left = n →
      strncpyLoop cr3 dest src left i (writeBytes m₀ dest (fun j => text.getD j 0) i) =
        some (text.length, writeBytes m₀ dest (fun j => text.getD j 0) text.length)
  | 0, i, hi, hleft => by
      have hend : i = text.length := by have := htext.length_le; omega
      rw [hend]
      rfl
  | left + 1, i, hi, hleft => by
      have hout : ∀ x, ¬ InRange dest cap x →
          writeBytes m₀ dest (fun j => text.getD j 0) i x = m₀ x := by
        intro x hx
        rw [writeBytes_apply _ _ _ _ _ (by omega), if_neg fun hr : InRange _ _ _ =>
          hx (Nat.lt_of_lt_of_le hr (by omega))]
      have hshow : Shows .supervisor cr3 S (writeBytes m₀ dest (fun j => text.getD j 0) i) π := by
        refine h.congr fun x hx => ?_
        rw [writeBytes_apply _ _ _ _ _ (by omega), if_neg fun hr => ?_]
        obtain ⟨j, hj, rfl⟩ := InRange.exists_off hr
        exact (hdest j (by omega)).2 hx
      rcases Nat.lt_or_ge i text.length with hlt | hge
      · obtain ⟨x, hx, hW, hchar, hne⟩ := htext.char i hlt
        have hload := hshow.loadByte hx
        rw [hout x hW, hchar] at hload
        have hstore := hshow.storeByte (hdest i (by omega)).1 text[i]
        have hstep : (writeBytes m₀ dest (fun j => text.getD j 0) i).write (off dest i) text[i] =
            writeBytes m₀ dest (fun j => text.getD j 0) (i + 1) := by
          rw [writeBytes, List.getD_eq_getElem _ _ hlt]
        have ih := strncpyLoop_text h hdest htext hlen hcap left (i + 1) hlt (by omega)
        unfold strncpyLoop
        simp only [hload, hstore, Option.bind_eq_bind, Option.bind_some, if_neg hne, hstep, ih]
      · have hend : i = text.length := by omega
        obtain ⟨x, hx, hW, hzero⟩ := htext.ends (by omega)
        rw [← hend] at hx
        have hload := hshow.loadByte hx
        rw [hout x hW, hzero] at hload
        unfold strncpyLoop
        simp only [hload, Option.bind_eq_bind, Option.bind_some, if_true]
        rw [hend]

/-- `strncpy` leaves the text and a NUL. -/
theorem strncpyPaged_text (h : Shows .supervisor cr3 S m π) (hdest : Window π S dest cap)
    {text : List UInt8} {count : ℤ}
    (htext : TextBehind π m src (count - 1).toNat (InRange dest cap) text)
    (hlen : text.length < cap) (hcap : cap ≤ 4294967296) :
    strncpyPaged cr3 dest src count m =
      some (writeBytes m dest (fun j => text.getD j 0) (text.length + 1)) := by
  have hloop := strncpyLoop_text h hdest htext hlen hcap (count - 1).toNat 0 (Nat.zero_le _)
    (Nat.zero_add _)
  have hshow : Shows .supervisor cr3 S
      (writeBytes m dest (fun j => text.getD j 0) text.length) π := by
    refine h.congr fun x hx => ?_
    rw [writeBytes_apply _ _ _ _ _ (by omega), if_neg fun hr => ?_]
    obtain ⟨j, hj, rfl⟩ := InRange.exists_off hr
    exact (hdest j (by omega)).2 hx
  have hnul : text.getD text.length 0 = 0 := List.getD_eq_default _ _ le_rfl
  unfold strncpyPaged
  change strncpyLoop cr3 dest src (count - 1).toNat 0 m = _ at hloop
  simp only [hloop, Option.bind_eq_bind, Option.bind_some]
  rw [hshow.storeByte (hdest _ (by omega)).1, writeBytes, hnul]

/-- Whatever is copied, only the window changes. -/
theorem strncpyLoop_frame (hdest : Window π S dest cap) (hsrc : ∀ v, (π v).isSome) (src : UInt32) :
    ∀ (left i : ℕ) (m : Mem), Shows .supervisor cr3 S m π → i + left < cap →
      ∃ n m', strncpyLoop cr3 dest src left i m = some (n, m') ∧ n ≤ i + left ∧
        Shows .supervisor cr3 S m' π ∧ SameOn (fun x => ¬ InRange dest cap x) m m'
  | 0, i, m, h, _ => ⟨i, m, rfl, le_rfl, h, SameOn.refl _ m⟩
  | left + 1, i, m, h, hleft => by
      obtain ⟨x, hx⟩ := Option.isSome_iff_exists.mp (hsrc (off src i))
      unfold strncpyLoop
      simp only [h.loadByte hx, Option.bind_eq_bind, Option.bind_some]
      split_ifs with hzero
      · exact ⟨i, m, rfl, by omega, h, SameOn.refl _ m⟩
      · obtain ⟨hself, hout⟩ := hdest i (by omega)
        have hsame : SameOn (fun x => ¬ InRange dest cap x) m (m.write (off dest i) (m x)) :=
          fun y hy => Mem.write_ne m _ fun e => hy (e ▸ inRange_off (by omega))
        obtain ⟨n, m', hloop, hn, hshow, hrest⟩ := strncpyLoop_frame hdest hsrc src left (i + 1) _
          (h.write hout (m x)) (by omega)
        simp only [h.storeByte hself, Option.bind_some]
        exact ⟨n, m', hloop, by omega, hshow, hsame.trans hrest⟩

theorem strncpyPaged_frame (h : Shows .supervisor cr3 S m π) (hdest : Window π S dest cap)
    (hsrc : ∀ v, (π v).isSome) (src : UInt32) {count : ℤ} (hcount : (count - 1).toNat < cap) :
    ∃ m', strncpyPaged cr3 dest src count m = some m' ∧
      SameOn (fun x => ¬ InRange dest cap x) m m' := by
  obtain ⟨n, m', hloop, hn, hshow, hsame⟩ := strncpyLoop_frame hdest hsrc src (count - 1).toNat
    0 m h (by omega)
  obtain ⟨hself, -⟩ := hdest n (by omega)
  refine ⟨m'.write (off dest n) 0, ?_, hsame.trans fun y hy =>
    Mem.write_ne m' 0 fun e => hy (e ▸ inRange_off (by omega))⟩
  unfold strncpyPaged
  simp only [hloop, Option.bind_eq_bind, Option.bind_some, hshow.storeByte hself]

end Copy

/-! ### Two address spaces -/

/-- The page `w` is present and mapped to itself. -/
def SelfMapped (f : UInt32 → UInt32) (w : UInt32) : Prop :=
  ∃ g : UInt32, g.toNat < 4096 ∧ Access.supervisor.Passes g ∧ f w = w ||| g

/-- A byte of the image of the kernel, which is linked at 1M and has its first stack behind it, or
of the stack that it uses for a task, which grows down from `0x600000`. -/
def KernelByte (x : UInt32) : Prop :=
  0x100000 ≤ x.toNat ∧ x.toNat < 0x200000 ∨ 0x5F0000 ≤ x.toNat ∧ x.toNat < 0x600000

/-- The directories of the kernel and of a task that maps its pages by `f`. -/
structure TwoSpaces (m : Mem) (s₀ s : SpaceBlocks) (f : UInt32 → UInt32) : Prop where
  kernel : Represents m s₀ fun w => w ||| 7
  kernelOpen : OpenTables m s₀
  task : Represents m s f
  taskOpen : OpenTables m s
  apart : ∀ b ∈ s.blocks, b ∉ s₀.blocks

/-- The pages of the kernel and both chunks are where they are in the space of the task too. -/
structure Spaces (m : Mem) (s₀ s : SpaceBlocks) (f : UInt32 → UInt32) : Prop extends
    TwoSpaces m s₀ s f where
  seesImage : ∀ w, PageAligned w → KernelByte w → SelfMapped f w
  seesKernel : SelfMapped f (blockAddr s₀.chunk)
  seesTask : SelfMapped f (blockAddr s.chunk)

variable {m m' : Mem} {s₀ s : SpaceBlocks} {f : UInt32 → UInt32} {st : Paged}

theorem lowerPage_off {w : UInt32} (hw : PageAligned w) {i : ℕ} (hi : i < 4096) :
    pagingAlignToLowerPage (off w i) = w := by
  apply UInt32.toNat.inj
  have := toNat_lt w
  unfold PageAligned at hw
  rw [toNat_pagingAlignToLowerPage, toNat_off_of_lt (by omega)]
  omega

theorem SelfMapped.view {w : UInt32} (h : SelfMapped f w) (hw : PageAligned w) {i : ℕ}
    (hi : i < 4096) : viewOf .supervisor f (off w i) = some (off w i) := by
  obtain ⟨g, hg, hpass, hself⟩ := h
  exact viewOf_self hg hpass (by rw [lowerPage_off hw hi, hself])

theorem selfMapped_identity (w : UInt32) : SelfMapped (fun w => w ||| 7) w :=
  ⟨7, by decide, by decide, rfl⟩

theorem SelfMapped.update {w v x : UInt32} (h : SelfMapped f w) (hne : w ≠ v) :
    SelfMapped (Function.update f v x) w := by
  obtain ⟨g, hg, hpass, hself⟩ := h
  exact ⟨g, hg, hpass, (Function.update_of_ne hne x f).trans hself⟩

theorem TwoSpaces.congr (h : TwoSpaces m s₀ s f)
    (hsame : ∀ b, b ∈ s₀.blocks ∨ b ∈ s.blocks → ∀ x, InBlock b x → m' x = m x) :
    TwoSpaces m' s₀ s f where
  kernel := h.kernel.congr fun b hb => hsame b (Or.inl hb)
  kernelOpen := h.kernelOpen.congr (hsame _ (Or.inl (Or.inr (Or.inl rfl))))
  task := h.task.congr fun b hb => hsame b (Or.inr hb)
  taskOpen := h.taskOpen.congr (hsame _ (Or.inr (Or.inr (Or.inl rfl))))
  apart := h.apart

theorem Spaces.congr (h : Spaces m s₀ s f)
    (hsame : ∀ b, b ∈ s₀.blocks ∨ b ∈ s.blocks → ∀ x, InBlock b x → m' x = m x) :
    Spaces m' s₀ s f :=
  ⟨h.toTwoSpaces.congr hsame, h.seesImage, h.seesKernel, h.seesTask⟩

/-- An entry of the task is written. -/
theorem TwoSpaces.set (h : TwoSpaces m s₀ s f) {v : UInt32} (hv : PageAligned v) (x : UInt32) :
    TwoSpaces (m.write32 (s.slot v) x) s₀ s (Function.update f v x) := by
  have hset := pagingSet_eq h.task.tables hv x
  have hout : ∀ b ∈ s₀.blocks, ∀ y, InBlock b y → m.write32 (s.slot v) x y = m y := by
    intro b hb y hy
    refine Mem.write32_apply_of_not_inRange m x fun hr => ?_
    obtain ⟨i, hi, hyi⟩ := inTables_of_slot hr
    have heq := InBlock.unique (s.table_lt i hi) (SpaceBlocks.lt hb) hyi hy
    exact h.apart (s.table i) (Or.inr (Or.inr ⟨i, hi, rfl⟩)) (heq ▸ hb)
  have hrep := h.task.set v x
  have hopen := h.taskOpen.set h.task.tables v x
  rw [hset] at hrep hopen
  exact ⟨h.kernel.congr hout, h.kernelOpen.congr (hout _ (Or.inr (Or.inl rfl))), hrep, hopen,
    h.apart⟩

/-- A switch to the chunk of `s₂` under the directory of `s₁`. -/
theorem pagingSwitch_eq {s₁ s₂ : SpaceBlocks} {f₁ f₂ : UInt32 → UInt32}
    (h₁ : Represents st.kernel.mem s₁ f₁) (ho₁ : OpenTables st.kernel.mem s₁)
    (h₂ : Represents st.kernel.mem s₂ f₂) (ho₂ : OpenTables st.kernel.mem s₂)
    (hself₁ : SelfMapped f₁ (blockAddr s₂.chunk)) (hself₂ : SelfMapped f₂ (blockAddr s₂.chunk))
    (hcr3 : st.cr3 = blockAddr s₁.directory) :
    pagingSwitch (blockAddr s₂.chunk) st =
      some ⟨st.kernel, blockAddr s₂.directory, blockAddr s₂.directory⟩ := by
  have hpage := pageAligned_blockAddr s₂.chunk_lt
  have hload₁ := (h₁.shows ho₁ .supervisor).loadWord (v := blockAddr s₂.chunk)
    (x := blockAddr s₂.chunk) fun i hi => hself₁.view hpage (by omega)
  have hload₂ := (h₂.shows ho₂ .supervisor).loadWord (v := blockAddr s₂.chunk)
    (x := blockAddr s₂.chunk) fun i hi => hself₂.view hpage (by omega)
  rw [h₂.tables.chunk] at hload₁ hload₂
  unfold pagingSwitch
  simp only [hcr3, hload₁, hload₂, Option.bind_eq_bind, Option.bind_some]

theorem Spaces.toTask {k : Kernel} (h : Spaces k.mem s₀ s f) (d : UInt32) :
    pagingSwitch (blockAddr s.chunk) ⟨k, blockAddr s₀.directory, d⟩ =
      some ⟨k, blockAddr s.directory, blockAddr s.directory⟩ :=
  pagingSwitch_eq h.kernel h.kernelOpen h.task h.taskOpen (selfMapped_identity _) h.seesTask rfl

theorem Spaces.toKernel {k : Kernel} (h : Spaces k.mem s₀ s f) (d : UInt32) :
    kernelPage (blockAddr s₀.chunk) ⟨k, blockAddr s.directory, d⟩ =
      some ⟨k, blockAddr s₀.directory, blockAddr s₀.directory⟩ :=
  pagingSwitch_eq h.task h.taskOpen h.kernel h.kernelOpen h.seesKernel (selfMapped_identity _) rfl

/-- The directory in use may be switched to once more. -/
theorem Spaces.kernelAgain {k : Kernel} (h : Spaces k.mem s₀ s f) (d : UInt32) :
    kernelPage (blockAddr s₀.chunk) ⟨k, blockAddr s₀.directory, d⟩ =
      some ⟨k, blockAddr s₀.directory, blockAddr s₀.directory⟩ :=
  pagingSwitch_eq h.kernel h.kernelOpen h.kernel h.kernelOpen (selfMapped_identity _)
    (selfMapped_identity _) rfl

theorem Spaces.taskAgain {k : Kernel} (h : Spaces k.mem s₀ s f) (d : UInt32) :
    pagingSwitch (blockAddr s.chunk) ⟨k, blockAddr s.directory, d⟩ =
      some ⟨k, blockAddr s.directory, blockAddr s.directory⟩ :=
  pagingSwitch_eq h.task h.taskOpen h.task h.taskOpen h.seesTask h.seesTask rfl

/-- A word of the stack of the task is read through its directory. -/
theorem taskGetStackItem_eq (h : Spaces st.kernel.mem s₀ s f)
    (hcr3 : st.cr3 = blockAddr s₀.directory) {esp x : UInt32} {index : ℕ}
    (hesp : loadWord .supervisor (blockAddr s.directory) (off esp (4 * index)) st.kernel.mem =
      some x) :
    taskGetStackItem (blockAddr s₀.chunk) (blockAddr s.chunk) esp index st =
      some (x, ⟨st.kernel, blockAddr s₀.directory, blockAddr s₀.directory⟩) := by
  obtain ⟨k, cr3, d⟩ := st
  obtain rfl : cr3 = blockAddr s₀.directory := hcr3
  unfold taskGetStackItem
  simp only [h.toTask, Option.bind_eq_bind, Option.bind_some, hesp, h.toKernel]

/-! ### The copy -/

section CopyString

variable {virtual phys : UInt32} {max : ℤ} {b : ℕ} {k₁ : Kernel} {live : Layout UInt32}

theorem Takes.entry_frame {k k' : Kernel} (h : Takes k k' {b}) {x : UInt32} (hx : ¬ InBlock b x)
    (hentry : x ≠ off 0x7e00 b) : k'.mem x = k.mem x := by
  by_cases htable : InTable x
  · obtain ⟨i, hi, rfl⟩ := htable.exists_off
    exact h.entries i hi fun hib => hentry (by rw [Set.mem_singleton_iff.mp hib])
  · exact h.frame x htable fun c hc => (Set.mem_singleton_iff.mp hc).symm ▸ hx

/-- The address spaces of a kernel lie in taken blocks. -/
def Spaces.Held (s₀ s : SpaceBlocks) (m : Mem) : Prop :=
  ∀ c, c ∈ s₀.blocks ∨ c ∈ s.blocks → ¬ EntryFree kernelHeap m c

theorem TwoSpaces.takes (h : TwoSpaces st.kernel.mem s₀ s f)
    (hheld : Spaces.Held s₀ s st.kernel.mem) (htake : Takes st.kernel k₁ {b}) :
    TwoSpaces k₁.mem s₀ s f :=
  h.congr fun c hc _ hx => htake.same (hc.elim SpaceBlocks.lt SpaceBlocks.lt) (hheld c hc) hx

/-- The block taken is none of the address spaces. -/
theorem Takes.ne_held {k k' : Kernel} (htake : Takes k k' {b}) (hheld : Spaces.Held s₀ s k.mem)
    {c : ℕ} (hc : c ∈ s₀.blocks ∨ c ∈ s.blocks) : c ≠ b :=
  fun e => hheld c hc (htake.free c (Set.mem_singleton_iff.mpr e))

/-- The memory after the temporary is mapped into the space of the task. -/
def mappedTmp (s : SpaceBlocks) (b : ℕ) (m : Mem) : Mem :=
  m.write32 (s.slot (blockAddr b)) (blockAddr b ||| 7)

/-- The memory after the old entry is put back. -/
def restoredTmp (s : SpaceBlocks) (f : UInt32 → UInt32) (b : ℕ) (m : Mem) : Mem :=
  m.write32 (s.slot (blockAddr b)) (f (blockAddr b))

theorem TwoSpaces.restoredTmp (hb : b < 25600) {x : UInt32}
    (h : TwoSpaces m s₀ s (Function.update f (blockAddr b) x)) :
    TwoSpaces (PeachOS.restoredTmp s f b m) s₀ s f := by
  have hset := h.set (pageAligned_blockAddr hb) (f (blockAddr b))
  rwa [Function.update_idem, Function.update_eq_self] at hset

/-- The bytes of a word store do not depend on what was there. -/
theorem write32_apply_of_inRange (m m' : Mem) {a x : UInt32} (v : UInt32) (hx : InRange a 4 x) :
    m.write32 a v x = m'.write32 a v x := by
  obtain ⟨j, hj, rfl⟩ := hx.exists_off
  unfold Mem.write32 Mem.write
  split_ifs with h3 h2 h1 h0
  · rfl
  · rfl
  · rfl
  · rfl
  · interval_cases j
    · exact absurd (off_zero a) h0
    · exact absurd rfl h1
    · exact absurd rfl h2
    · exact absurd rfl h3

/-- A word is put back. -/
theorem write32_read32_apply (m : Mem) {a x : UInt32} (hx : InRange a 4 x) :
    m.write32 a (m.read32 a) x = m x := by
  obtain ⟨j, hj, rfl⟩ := hx.exists_off
  have h₀ := (m a).toNat_lt
  have h₁ := (m (off a 1)).toNat_lt
  have h₂ := (m (off a 2)).toNat_lt
  have h₃ := (m (off a 3)).toNat_lt
  have hread : (m.read32 a).toNat = (m a).toNat + 256 * (m (off a 1)).toNat +
      65536 * (m (off a 2)).toNat + 16777216 * (m (off a 3)).toNat := by
    unfold Mem.read32
    rw [UInt32.toNat_ofNat']
    omega
  unfold Mem.write32 Mem.write byteOf
  rw [hread]
  split_ifs with h3 h2 h1 h0
  all_goals first
    | (simp only [*]; apply UInt8.toNat.inj; rw [UInt8.toNat_ofNat']; omega)
    | rfl

/-- The temporary is the block `b` of a kernel that works for a task. -/
structure Borrows (st : Paged) (s₀ s : SpaceBlocks) (f : UInt32 → UInt32) (b : ℕ) (k₁ : Kernel) :
    Prop where
  spaces : TwoSpaces st.kernel.mem s₀ s f
  held : Spaces.Held s₀ s st.kernel.mem
  cr3 : st.cr3 = blockAddr s₀.directory
  takes : Takes st.kernel k₁ {b}

/-- The map of the task with the temporary in it. -/
def withTmp (f : UInt32 → UInt32) (b : ℕ) : UInt32 → UInt32 :=
  Function.update f (blockAddr b) (blockAddr b ||| 7)

section Borrows

theorem Borrows.lt (h : Borrows st s₀ s f b k₁) : b < 25600 := h.takes.lt b rfl

theorem Borrows.not_inBlock (h : Borrows st s₀ s f b k₁) {c : ℕ}
    (hc : c ∈ s₀.blocks ∨ c ∈ s.blocks) {x : UInt32} (hx : InBlock b x) : ¬ InBlock c x :=
  fun hxc => h.takes.ne_held h.held hc
    (InBlock.unique (hc.elim SpaceBlocks.lt SpaceBlocks.lt) h.lt hxc hx)

/-- What a page of the spaces shows is not changed by the temporary. -/
theorem Borrows.selfMapped (h : Borrows st s₀ s f b k₁) {c : ℕ} (hc : c ∈ s₀.blocks ∨ c ∈ s.blocks)
    (hself : SelfMapped f (blockAddr c)) : SelfMapped (withTmp f b) (blockAddr c) :=
  hself.update fun e => h.takes.ne_held h.held hc
    (blockAddr_inj (hc.elim SpaceBlocks.lt SpaceBlocks.lt) h.lt e)

theorem Borrows.mapped (h : Borrows st s₀ s f b k₁) :
    TwoSpaces (mappedTmp s b k₁.mem) s₀ s (withTmp f b) :=
  (h.spaces.takes h.held h.takes).set (pageAligned_blockAddr h.lt) _

/-- The switch to the task. -/
theorem Borrows.toTask (h : Borrows st s₀ s f b k₁) (hsees : SelfMapped f (blockAddr s.chunk))
    (o : Bool) (d : UInt32) :
    pagingSwitch (blockAddr s.chunk) ⟨⟨mappedTmp s b k₁.mem, o⟩, blockAddr s₀.directory, d⟩ =
      some ⟨⟨mappedTmp s b k₁.mem, o⟩, blockAddr s.directory, blockAddr s.directory⟩ :=
  pagingSwitch_eq h.mapped.kernel h.mapped.kernelOpen h.mapped.task h.mapped.taskOpen
    (selfMapped_identity _) (h.selfMapped (Or.inr (Or.inl rfl)) hsees) rfl

variable {m₃ m₅ : Mem}

theorem Borrows.copied (h : Borrows st s₀ s f b k₁)
    (hsame : SameOn (fun x => ¬ InBlock b x) (mappedTmp s b k₁.mem) m₃) :
    TwoSpaces m₃ s₀ s (withTmp f b) :=
  h.mapped.congr fun _ hc x hx => hsame x fun hxb => h.not_inBlock hc hxb hx

theorem Borrows.restored (h : Borrows st s₀ s f b k₁)
    (hsame : SameOn (fun x => ¬ InBlock b x) (mappedTmp s b k₁.mem) m₃) :
    TwoSpaces (restoredTmp s f b m₃) s₀ s f :=
  (h.copied hsame).restoredTmp h.lt

/-- The temporary is mapped to itself and lies outside the page tables. -/
theorem Borrows.window (h : Borrows st s₀ s f b k₁) :
    Window (viewOf .supervisor (withTmp f b)) s.InSpace (blockAddr b) 4096 := by
  have hself : SelfMapped (withTmp f b) (blockAddr b) :=
    ⟨7, by decide, by decide, Function.update_self ..⟩
  intro i hi
  refine ⟨hself.view (pageAligned_blockAddr h.lt) hi, fun hin => ?_⟩
  obtain ⟨c, hc, hx⟩ := hin
  exact h.not_inBlock (Or.inr hc) (inRange_off hi) hx

/-- The temporary is mapped to itself. -/
theorem pagingMap_tmp (htables : PageTables m s) (hb : b < 25600) :
    pagingMap (blockAddr s.chunk) (blockAddr b) (blockAddr b)
      (pagingIsWritable ||| pagingIsPresent ||| pagingAccessFromAll) m =
        (0, mappedTmp s b m) := by
  have hpage := pageAligned_blockAddr hb
  have halign : ¬ (blockAddr b % pagingPageSize ≠ 0 ∨ blockAddr b % pagingPageSize ≠ 0) := by
    rw [mod_pageSize_ne_zero_iff]
    exact fun hor => hor.elim (fun hnot => hnot hpage) fun hnot => hnot hpage
  unfold pagingMap
  rw [if_neg halign, htables.chunk]
  exact pagingSet_eq htables hpage _

/-- The call, from what its two copies do. -/
theorem Borrows.copyStringFromTask_eq (h : Borrows st s₀ s f b k₁)
    (hkernel : SelfMapped f (blockAddr s₀.chunk)) (htask : SelfMapped f (blockAddr s.chunk))
    (hmax : max < 4096)
    (hk : kzalloc (UInt32.ofInt max) st.kernel = (blockAddr b, k₁))
    (hcopy : strncpyPaged (blockAddr s.directory) (blockAddr b) virtual max
      (mappedTmp s b k₁.mem) = some m₃)
    (hsame : SameOn (fun x => ¬ InBlock b x) (mappedTmp s b k₁.mem) m₃)
    (hback : strncpyPaged (blockAddr s₀.directory) phys (blockAddr b) max
      (restoredTmp s f b m₃) = some m₅) :
    copyStringFromTask (blockAddr s₀.chunk) (blockAddr s.chunk) virtual phys max st =
      some (0, ⟨kfree (blockAddr b) ⟨m₅, k₁.oom⟩, blockAddr s₀.directory,
        blockAddr s₀.directory⟩) := by
  have hpage := pageAligned_blockAddr h.lt
  have h₁ := h.spaces.takes h.held h.takes
  have h₃ := h.copied hsame
  have hmap := pagingMap_tmp h₁.task.tables h.lt
  have hold := pagingGet_spec h₁.task hpage
  have hput := pagingSet_eq h₃.task.tables hpage (f (blockAddr b))
  have hto := h.toTask htask k₁.oom st.currentDirectory
  have hfrom : kernelPage (blockAddr s₀.chunk) ⟨⟨m₃, k₁.oom⟩, blockAddr s.directory,
      blockAddr s.directory⟩ = _ :=
    pagingSwitch_eq h₃.task h₃.taskOpen h₃.kernel h₃.kernelOpen
      (h.selfMapped (Or.inl (Or.inl rfl)) hkernel) (selfMapped_identity _) rfl
  unfold copyStringFromTask
  rw [if_neg (not_le.mpr hmax)]
  simp only [hk]
  rw [if_neg (blockAddr_ne_zero h.lt)]
  simp only [h₁.task.tables.chunk, hold, hmap, h.cr3, hto, Option.bind_eq_bind, Option.bind_some,
    hcopy, hfrom, hput, lt_irrefl, if_false]
  unfold restoredTmp at hback
  simp only [hback, Option.bind_some]

/-! ### What the copy leaves -/

/-- A byte that the call changes for a while: the entry of the temporary in the block table, its
block, and its entry in the page tables of the task. -/
def Borrowed (s : SpaceBlocks) (b : ℕ) (x : UInt32) : Prop :=
  x = off 0x7e00 b ∨ InBlock b x ∨ InRange (s.slot (blockAddr b)) 4 x

/-- The place of the result is apart from the block table, the temporary and the spaces. -/
def ApartFrom (s₀ s : SpaceBlocks) (b : ℕ) (x : UInt32) : Prop :=
  ¬ InTable x ∧ ¬ InBlock b x ∧ ¬ s.InSpace x ∧ ¬ s₀.InSpace x

theorem Borrows.mapped_apply (h : Borrows st s₀ s f b k₁) {x : UInt32} (hx : ¬ Borrowed s b x) :
    mappedTmp s b k₁.mem x = st.kernel.mem x := by
  unfold Borrowed at hx
  simp only [not_or] at hx
  unfold mappedTmp
  rw [Mem.write32_apply_of_not_inRange _ _ hx.2.2, h.takes.entry_frame hx.2.1 hx.1]

/-- All but the temporary and the place of the result is as before. -/
theorem Borrows.restored_apply (h : Borrows st s₀ s f b k₁)
    (hinv : HeapInv kernelHeap st.kernel.mem live) (o : Bool)
    (hsame : SameOn (fun x => ¬ InBlock b x) (mappedTmp s b k₁.mem) m₃) {P : UInt32 → Prop}
    (hP : ∀ x, P x → ApartFrom s₀ s b x)
    (hsame₅ : SameOn (fun x => ¬ P x) (restoredTmp s f b m₃) m₅) :
    (∀ x, ¬ P x → ¬ InBlock b x → (kfree (blockAddr b) ⟨m₅, o⟩).mem x = st.kernel.mem x) ∧
      ∀ x, P x → (kfree (blockAddr b) ⟨m₅, o⟩).mem x = m₅ x := by
  have hb := h.lt
  have hpage := pageAligned_blockAddr hb
  have hslot : ∀ x, InRange (s.slot (blockAddr b)) 4 x → ¬ InTable x :=
    fun _ hr => SpaceBlocks.InTables.not_inTable (inTables_of_slot hr)
  have hnot : ¬ P (off 0x7e00 b) := fun hp => (hP _ hp).1 (inRange_off hb)
  have hentry₃ : m₃ (off 0x7e00 b) = k₁.mem (off 0x7e00 b) := by
    rw [hsame _ fun hin => hin.ne_entry hb hb rfl]
    exact Mem.write32_apply_of_not_inRange _ _ fun hr => hslot _ hr (inRange_off hb)
  have hone : kernelHeap.entry m₅ b = blockEntry 1 0 := by
    rw [← h.takes.single b rfl]
    change m₅ (off 0x7e00 b) = k₁.mem (off 0x7e00 b)
    rw [hsame₅ _ hnot, ← hentry₃]
    exact Mem.write32_apply_of_not_inRange _ _ fun hr => hslot _ hr (inRange_off hb)
  obtain ⟨hfree, hkeep⟩ := kfree_block (k := ⟨m₅, o⟩) hb hone
  refine ⟨fun x hx hxb => ?_, fun x hx => hkeep x fun e => (hP x hx).1 (e ▸ inRange_off hb)⟩
  rcases eq_or_ne x (off 0x7e00 b) with rfl | hne
  · -- a free entry of a well-formed heap is zero
    refine Eq.trans hfree ?_
    exact (hinv.encodes.free b hb (hinv.uncovered (h.takes.free b rfl))).symm
  · rw [hkeep x hne]
    change m₅ x = st.kernel.mem x
    rw [hsame₅ x hx]
    unfold restoredTmp
    by_cases hin : InRange (s.slot (blockAddr b)) 4 x
    · rw [← h.spaces.task.page _ hpage, write32_apply_of_inRange m₃ st.kernel.mem _ hin,
        write32_read32_apply _ hin]
    · rw [Mem.write32_apply_of_not_inRange _ _ hin, hsame x hxb]
      exact h.mapped_apply fun hbor => hbor.elim hne fun hor => hor.elim hxb hin

theorem writeBytes_sameOn (m : Mem) (p : UInt32) (data : ℕ → UInt8) {n : ℕ}
    (hn : n ≤ 4294967296) : SameOn (fun x => ¬ InRange p n x) m (writeBytes m p data n) := by
  intro x hx
  rw [writeBytes_apply _ _ _ _ _ hn, if_neg hx]

/-- What a copy of the text leaves at its characters. -/
theorem writeBytes_text (m : Mem) (p : UInt32) (text : List UInt8) {n i : ℕ} (hi : i < n)
    (hn : n ≤ 4294967296) : writeBytes m p (fun j => text.getD j 0) n (off p i) =
      text.getD i 0 := by
  have := toNat_lt p
  rw [writeBytes_apply _ _ _ _ _ hn, if_pos (inRange_off hi)]
  congr 1
  rw [toNat_sub', toNat_off]
  omega

/-- The text comes into the temporary. -/
theorem Borrows.copyIn (h : Borrows st s₀ s f b k₁) {text : List UInt8} (hmax : max < 4096)
    (htext : TextBehind (viewOf .supervisor f) st.kernel.mem virtual (max - 1).toNat
      (Borrowed s b) text)
    (hvirtual : ∀ i ≤ text.length, ¬ InBlock b (off virtual i)) :
    ∃ m₃, strncpyPaged (blockAddr s.directory) (blockAddr b) virtual max
        (mappedTmp s b k₁.mem) = some m₃ ∧
      SameOn (fun x => ¬ InBlock b x) (mappedTmp s b k₁.mem) m₃ ∧
      ∀ i ≤ text.length, m₃ (off (blockAddr b) i) = text.getD i 0 := by
  have hlen := htext.length_le
  have hview : ∀ i ≤ text.length, viewOf .supervisor (withTmp f b) (off virtual i) =
      viewOf .supervisor f (off virtual i) := by
    intro i hi
    unfold viewOf withTmp
    dsimp only
    rw [Function.update_of_ne]
    intro e
    refine hvirtual i hi ?_
    have := toNat_lt (off virtual i)
    unfold InBlock InRange
    rw [← e, toNat_sub', toNat_pagingAlignToLowerPage]
    omega
  have htext₂ := (htext.congr hview fun x => h.mapped_apply).mono
    fun x (hx : InRange (blockAddr b) 4096 x) => Or.inr (Or.inl hx)
  refine ⟨_, strncpyPaged_text (h.mapped.task.shows h.mapped.taskOpen .supervisor) h.window htext₂
    (by omega) (by decide), ?_, fun i hi => writeBytes_text _ _ _ (by omega) (by omega)⟩
  exact (writeBytes_sameOn _ _ _ (by omega)).mono fun x hx (hr : InRange _ _ _) =>
    hx (Nat.lt_of_lt_of_le hr (by omega))

/-- The text goes on to its place. -/
theorem Borrows.copyOut (h : Borrows st s₀ s f b k₁) {text : List UInt8}
    (hlen : text.length ≤ (max - 1).toNat) (hmax : max < 4096) (hne : 0 ∉ text)
    (hsame : SameOn (fun x => ¬ InBlock b x) (mappedTmp s b k₁.mem) m₃)
    (htmp : ∀ i ≤ text.length, m₃ (off (blockAddr b) i) = text.getD i 0)
    (hphys : ∀ x, InRange phys (text.length + 1) x → ApartFrom s₀ s b x) :
    strncpyPaged (blockAddr s₀.directory) phys (blockAddr b) max (restoredTmp s f b m₃) =
      some (writeBytes (restoredTmp s f b m₃) phys (fun j => text.getD j 0)
        (text.length + 1)) := by
  have h₄ := h.restored hsame
  have hchar : ∀ i ≤ text.length, restoredTmp s f b m₃ (off (blockAddr b) i) = text.getD i 0 := by
    intro i hi
    unfold restoredTmp
    rw [Mem.write32_apply_of_not_inRange _ _ fun hr => ?_, htmp i hi]
    obtain ⟨c, hc, hx⟩ := (inTables_of_slot hr).inSpace
    exact h.not_inBlock (Or.inr hc) (inRange_off (by omega)) hx
  have happart : ∀ i ≤ text.length, ¬ InRange phys (text.length + 1) (off (blockAddr b) i) :=
    fun i hi hr => (hphys _ hr).2.1 (inRange_off (by omega))
  refine strncpyPaged_text (h₄.kernel.shows h₄.kernelOpen .supervisor) (fun i hi =>
    ⟨viewOf_identity _ _, (hphys _ (inRange_off hi)).2.2.2⟩) ⟨hlen, fun i hi => ?_, fun hlt => ?_⟩
    (by omega) (by omega)
  · refine ⟨_, viewOf_identity _ _, happart i hi.le,
      (hchar i hi.le).trans (List.getD_eq_getElem _ _ hi), fun e => hne ?_⟩
    exact e ▸ List.getElem_mem hi
  · exact ⟨_, viewOf_identity _ _, happart _ le_rfl,
      (hchar _ le_rfl).trans (List.getD_eq_default _ _ le_rfl)⟩

end Borrows

theorem TextBehind.zero_notMem {π : UInt32 → Option UInt32} {v : UInt32} {n : ℕ}
    {W : UInt32 → Prop} {text : List UInt8} (h : TextBehind π m v n W text) : 0 ∉ text := by
  intro h0
  obtain ⟨i, hi, hzero⟩ := List.getElem_of_mem h0
  obtain ⟨-, -, -, -, hne⟩ := h.char i hi
  exact hne hzero

/-- The allocation of the temporary. -/
theorem kzalloc_tmp {k : Kernel} (h1 : 1 ≤ max) (hmax : max < 4096) (hb : b < 25600)
    (htmp : (kzalloc (UInt32.ofInt max) k).1 = blockAddr b) :
    ∃ k₁, kzalloc (UInt32.ofInt max) k = (blockAddr b, k₁) ∧ Takes k k₁ {b} ∧ k₁.oom = k.oom := by
  have hsize := toNat_ofInt max
  rcases kzalloc_block (show 1 ≤ (UInt32.ofInt max).toNat by omega) (by omega) k with
    ⟨c, hc, htake, -, hoom⟩ | ⟨hnull, -⟩
  · obtain rfl : c = b := blockAddr_inj (htake.lt c rfl) hb (hc.symm.trans htmp)
    exact ⟨_, Prod.ext hc rfl, htake, hoom⟩
  · rw [hnull] at htmp
    exact absurd htmp.symm (blockAddr_ne_zero hb)

/-- A call that has memory for the temporary. -/
theorem Borrows.copyStringFromTask_text (h : Borrows st s₀ s f b k₁)
    (hspaces : Spaces st.kernel.mem s₀ s f) (hinv : HeapInv kernelHeap st.kernel.mem live)
    (hmax : max < 4096)
    (hk : kzalloc (UInt32.ofInt max) st.kernel = (blockAddr b, k₁)) {text : List UInt8}
    (htext : TextBehind (viewOf .supervisor f) st.kernel.mem virtual (max - 1).toNat
      (Borrowed s b) text)
    (hvirtual : ∀ i ≤ text.length, ¬ InBlock b (off virtual i))
    (hphys : ∀ x, InRange phys (text.length + 1) x → ApartFrom s₀ s b x) :
    ∃ k, copyStringFromTask (blockAddr s₀.chunk) (blockAddr s.chunk) virtual phys max st =
        some (0, ⟨k, blockAddr s₀.directory, blockAddr s₀.directory⟩) ∧
      k.oom = k₁.oom ∧
      (∀ i ≤ text.length, k.mem (off phys i) = text.getD i 0) ∧
      ∀ x, ¬ InRange phys (text.length + 1) x → ¬ InBlock b x → k.mem x = st.kernel.mem x := by
  have hlen := htext.length_le
  obtain ⟨m₃, hcopy, hsame, hchars⟩ := h.copyIn hmax htext hvirtual
  have hback := h.copyOut hlen hmax htext.zero_notMem hsame hchars hphys
  have hsame₅ := writeBytes_sameOn (restoredTmp s f b m₃) phys (fun j => text.getD j 0)
    (n := text.length + 1) (by omega)
  obtain ⟨hkeep, hresult⟩ := h.restored_apply hinv k₁.oom hsame hphys hsame₅
  refine ⟨_, h.copyStringFromTask_eq hspaces.seesKernel hspaces.seesTask hmax hk hcopy hsame hback,
    rfl, fun i hi => ?_, hkeep⟩
  rw [hresult _ (inRange_off (by omega)), writeBytes_text _ _ _ (by omega) (by omega)]

/-- Whatever is copied, from any address of a space without absent pages: the call fails
for lack of memory and changes nothing, or it returns 0 and changes the `max` bytes at `phys` and
a free block. -/
theorem copyStringFromTask_frame (hinv : HeapInv kernelHeap st.kernel.mem live)
    (hspaces : Spaces st.kernel.mem s₀ s f) (hheld : Spaces.Held s₀ s st.kernel.mem)
    (hcr3 : st.cr3 = blockAddr s₀.directory) (h1 : 1 ≤ max) (hmax : max < 4096)
    (hpresent : ∀ v, (viewOf .supervisor f v).isSome)
    (hphys : ∀ c < 25600, EntryFree kernelHeap st.kernel.mem c →
      ∀ x, InRange phys max.toNat x → ApartFrom s₀ s c x) :
    ∃ res k c, copyStringFromTask (blockAddr s₀.chunk) (blockAddr s.chunk) virtual phys max st =
        some (res, k) ∧
      (res = - ENOMEM ∧ k = { st with kernel := ⟨st.kernel.mem, true⟩ } ∨ res = 0 ∧
        c < 25600 ∧ EntryFree kernelHeap st.kernel.mem c ∧ k.kernel.oom = st.kernel.oom ∧
        k.cr3 = blockAddr s₀.directory ∧ k.currentDirectory = blockAddr s₀.directory ∧
        ∀ x, ¬ InRange phys max.toNat x → ¬ InBlock c x → k.kernel.mem x = st.kernel.mem x) := by
  have hsize := toNat_ofInt max
  rcases kzalloc_block (show 1 ≤ (UInt32.ofInt max).toNat by omega) (by omega) st.kernel with
    ⟨c, hc, htake, -, hoom⟩ | ⟨hnull, -⟩
  · have h : Borrows st s₀ s f c (kzalloc (UInt32.ofInt max) st.kernel).2 :=
      ⟨hspaces.toTwoSpaces, hheld, hcr3, htake⟩
    have hfree : EntryFree kernelHeap st.kernel.mem c := htake.free c rfl
    have hpresent' : ∀ v, (viewOf .supervisor (withTmp f c) v).isSome := by
      intro v
      have hv := hpresent v
      unfold viewOf withTmp at *
      dsimp only at hv ⊢
      rcases eq_or_ne (pagingAlignToLowerPage v) (blockAddr c) with e | e
      · rw [e, Function.update_self, if_pos ((passes_seven _).or _)]
        rfl
      · rw [Function.update_of_ne e]
        exact hv
    obtain ⟨m₃, hcopy, hsame⟩ := strncpyPaged_frame
      (h.mapped.task.shows h.mapped.taskOpen .supervisor) h.window hpresent' virtual
      (show (max - 1).toNat < 4096 by omega)
    have h₄ := h.restored hsame
    have hwindow : Window (viewOf .supervisor fun w => w ||| 7) s₀.InSpace phys max.toNat :=
      fun i hi => ⟨viewOf_identity _ _, (hphys c h.lt hfree _ (inRange_off hi)).2.2.2⟩
    obtain ⟨m₅, hback, hsame₅⟩ := strncpyPaged_frame
      (h₄.kernel.shows h₄.kernelOpen .supervisor) hwindow (fun v => by rw [viewOf_identity]; rfl)
      (blockAddr c) (show (max - 1).toNat < max.toNat by omega)
    obtain ⟨hkeep, -⟩ := h.restored_apply hinv (kzalloc (UInt32.ofInt max) st.kernel).2.oom
      hsame (hphys c h.lt hfree) hsame₅
    exact ⟨0, _, c, h.copyStringFromTask_eq hspaces.seesKernel hspaces.seesTask hmax
        (Prod.ext hc rfl) hcopy hsame hback,
      Or.inr ⟨rfl, h.lt, hfree, hoom, rfl, rfl, hkeep⟩⟩
  · refine ⟨- ENOMEM, _, 0, ?_, Or.inl ⟨rfl, rfl⟩⟩
    unfold copyStringFromTask
    rw [if_neg (not_le.mpr hmax)]
    simp only [hnull, if_true]

/-! ### A kernel with a task -/

/-- One more entry of the task is written. -/
theorem TwoSpaces.pagingSet (hinv : HeapInv kernelHeap m live) (h : TwoSpaces m s₀ s f)
    (hheld : Spaces.Held s₀ s m) {v : UInt32} (hv : PageAligned v) (x : UInt32) :
    ∃ m', PeachOS.pagingSet (blockAddr s.directory) v x m = (0, m') ∧
      HeapInv kernelHeap m' live ∧ TwoSpaces m' s₀ s (Function.update f v x) ∧
      Spaces.Held s₀ s m' ∧ ∀ y, ¬ s.InTables y → m' y = m y := by
  have hout : ∀ y, ¬ s.InTables y → m.write32 (s.slot v) x y = m y := fun y hy =>
    Mem.write32_apply_of_not_inRange m x fun hr => hy (inTables_of_slot hr)
  have hentry : ∀ i < 25600, m.write32 (s.slot v) x (off 0x7e00 i) = m (off 0x7e00 i) :=
    fun i hi => hout _ fun hin => hin.not_inTable (inRange_off hi)
  refine ⟨_, pagingSet_eq h.task.tables hv x, hinv.congr fun i hi => hentry i ?_, h.set hv x,
    fun c hc hfree => hheld c hc ?_, hout⟩
  · rwa [kernelHeap_total] at hi
  · have hc' : c < 25600 := hc.elim SpaceBlocks.lt SpaceBlocks.lt
    have hsame : kernelHeap.entry (m.write32 (s.slot v) x) c = kernelHeap.entry m c := hentry c hc'
    unfold EntryFree at hfree ⊢
    rwa [hsame] at hfree

/-- Low memory holds none of the blocks. -/
theorem not_inBlock_low {x : UInt32} (hx : x.toNat < 16777216) {c : ℕ} (hc : c < 25600) :
    ¬ InBlock c x := by
  rw [inBlock_iff hc]
  omega

theorem not_inSpace_low {x : UInt32} (hx : x.toNat < 16777216) : ¬ s.InSpace x := by
  rintro ⟨c, hc, hxc⟩
  exact not_inBlock_low hx (SpaceBlocks.lt hc) hxc

theorem apartFrom_low {x : UInt32} (hlow : 57856 ≤ x.toNat) (hhigh : x.toNat < 16777216)
    (hb : b < 25600) : ApartFrom s₀ s b x :=
  ⟨by rw [inTable_iff]; omega, not_inBlock_low hhigh hb, not_inSpace_low hhigh,
    not_inSpace_low hhigh⟩

end CopyString

end PeachOS
