import PeachOS.FileOpen
import PeachOS.SlotTable

/-! # The table of open files

Runs of `fopen` and `fclose` (`OpenRun`), with the descriptor that each open number stands for
kept beside the state.  `file_new_descriptor` hands out the numbers 1 to 512 and
`file_get_descriptor` takes those up to 511, so a number denotes its descriptor as long as the
last slot is not taken: `openRun_denotes`. -/

namespace PeachOS

/-! ### Runs -/

abbrev FatDescriptor := FileDescriptor FatVolume FatStreams FatFileDescriptor

/-- Between `f` and `f'` the descriptor was put into an empty slot. -/
structure PutIn (f f' : FatFileState) (i : ℕ) (desc : FatDescriptor) : Prop where
  empty : f.fileDescriptors[i]? = some none
  table : f'.fileDescriptors = f.fileDescriptors.set i (some desc)

/-- A run of `fopen` and `fclose`, in which every allocation is served.  For the numbers that
`fopen` returned and that are not closed, `g` has the descriptors that those calls put into the
table.  Every `fopen` that succeeds starts in a state that is `ok`. -/
inductive OpenRun (disk : FatDisk) (ok : FatFileState → Prop) :
    FatFileState → (ℤ → Option FatDescriptor) → Prop
  | start {f : FatFileState}
      (h : f.fileDescriptors = List.replicate peachosMaxFileDescriptors none) :
      OpenRun disk ok f fun _ => none
  | opened {f f' : FatFileState} {g : ℤ → Option FatDescriptor} {filename modeStr : List UInt8}
      {fd : ℤ} {i : ℕ} {desc : FatDescriptor} (h : OpenRun disk ok f g) (hok : ok f)
      (hopen : fopen disk filename modeStr f = some (fd, f')) (hfd : 0 < fd)
      (hput : PutIn f f' i desc) : OpenRun disk ok f' (Function.update g fd (some desc))
  | failed {f f' : FatFileState} {g : ℤ → Option FatDescriptor} {filename modeStr : List UInt8}
      (h : OpenRun disk ok f g) (hopen : fopen disk filename modeStr f = some (0, f')) :
      OpenRun disk ok f' g
  | closed {f : FatFileState} {g : ℤ → Option FatDescriptor} (h : OpenRun disk ok f g) (fd : ℤ) :
      OpenRun disk ok (fclose fd f).2 (Function.update g fd none)

/-- The last slot is not the only one that is free. -/
def LowSlot (f : FatFileState) : Prop := freeSlot f.fileDescriptors ≠ some 511

/-- The number `fd` denotes the descriptor: every call on it acts on that, and closing it frees
its slot and touches no other number. -/
structure Denotes (fd : ℤ) (desc : FatDescriptor) (f : FatFileState) : Prop where
  lookup : fileGetDescriptor fd f = some desc
  stat : ∀ old, fstat fd old f = fat16Stat desc.disk desc.privateData old
  seek : ∀ offset whence, fseek fd offset whence f =
    (fat16Seek desc.privateData (UInt32.ofInt offset) whence).map fun r =>
      (r.1, f.setPrivate fd desc r.2)
  read : ∀ ptr size nmemb : UInt32, 1 ≤ size.toNat → 1 ≤ nmemb.toNat →
    fread ptr size nmemb fd f =
      (fat16Read desc.disk desc.privateData size nmemb ptr f.streams f.kernel.mem).map fun r =>
        (r.1, { f with streams := r.2.1, kernel := { f.kernel with mem := r.2.2 } })
  close : (fclose fd f).1 = 0
  free : (fclose fd f).2.fileDescriptors[(fd - 1).toNat]? = some none
  others : ∀ fd' ≠ fd, fileGetDescriptor fd' (fclose fd f).2 = fileGetDescriptor fd' f

/-! ### The invariant -/

/-- The slots hold the descriptors of the open numbers and no others, each at its own index. -/
structure TableInv (f : FatFileState) (g : ℤ → Option FatDescriptor) : Prop where
  slot : ∀ (j : ℕ) desc, f.fileDescriptors[j]? = some (some desc) ↔ g ((j : ℤ) + 1) = some desc
  entry : ∀ fd desc, g fd = some desc →
    0 < fd ∧ fd < peachosMaxFileDescriptors ∧ desc.index = fd ∧ desc.filesystem = fat16Fs

variable {disk : FatDisk} {f f' : FatFileState} {g : ℤ → Option FatDescriptor}

theorem TableInv.lookup (h : TableInv f g) (fd : ℤ) : fileGetDescriptor fd f = g fd := by
  refine Option.ext fun desc => ?_
  rw [fileGetDescriptor_eq_some]
  constructor
  · intro ⟨⟨hpos, _⟩, hslot⟩
    have hgd := (h.slot _ desc).mp hslot
    rwa [Int.toNat_of_nonneg (by omega), sub_add_cancel] at hgd
  · intro hgd
    obtain ⟨hpos, hlt, -, -⟩ := h.entry fd desc hgd
    refine ⟨⟨hpos, hlt⟩, (h.slot _ desc).mpr ?_⟩
    rwa [Int.toNat_of_nonneg (by omega), sub_add_cancel]

/-- What `fopen` puts into the table. -/
theorem fopen_putIn (hfs : disk.filesystem = some fat16Fs) {filename modeStr : List UInt8}
    {fd : ℤ} (hopen : fopen disk filename modeStr f = some (fd, f')) (hfd : 0 < fd) {i : ℕ}
    {desc : FatDescriptor} (hput : PutIn f f' i desc) :
    freeSlot f.fileDescriptors = some i ∧ fd = i + 1 ∧ desc.index = fd ∧
      desc.filesystem = fat16Fs := by
  rcases fopen_cases hfs hopen with ⟨rfl, -⟩ | ⟨i', p, k, hslot, hi', -, -, htable⟩
  · exact absurd hfd (lt_irrefl 0)
  have hlt := (List.getElem?_eq_some_iff.mp hput.empty).1
  have hat := congrArg (fun l => l[i]?) (hput.table.symm.trans htable)
  rw [List.getElem?_set_self hlt] at hat
  by_cases hii : i' = i
  · subst hii
    rw [List.getElem?_set_self hlt] at hat
    split_ifs at hat
    · cases hat
    · rw [Option.some.inj (Option.some.inj hat)]
      exact ⟨hslot, hi', hi'.symm, rfl⟩
  · rw [List.getElem?_set_ne hii, hput.empty] at hat
    cases hat

theorem TableInv.start (h : f.fileDescriptors = List.replicate peachosMaxFileDescriptors none) :
    TableInv f fun _ => none where
  slot j desc := by
    rw [h, List.getElem?_replicate]
    split_ifs <;> simp
  entry fd desc h := by cases h

/-- Opening keeps the invariant unless it takes the last slot. -/
theorem TableInv.opened (hinv : TableInv f g) (hfs : disk.filesystem = some fat16Fs)
    (hlow : LowSlot f) {filename modeStr : List UInt8} {fd : ℤ}
    (hopen : fopen disk filename modeStr f = some (fd, f')) (hfd : 0 < fd)
    (hlen : f.fileDescriptors.length = peachosMaxFileDescriptors) {i : ℕ} {desc : FatDescriptor}
    (hput : PutIn f f' i desc) : TableInv f' (Function.update g fd (some desc)) := by
  obtain ⟨hslot, rfl, hindex, hdesc⟩ := fopen_putIn hfs hopen hfd hput
  have hlt := (List.getElem?_eq_some_iff.mp hput.empty).1
  have hi : i ≠ 511 := fun h => hlow (h ▸ hslot)
  have hmax : peachosMaxFileDescriptors = 512 := rfl
  constructor
  · intro j desc'
    rw [hput.table, SlotTable.getElem?_fill hput.empty (Option.some_ne_none desc')]
    by_cases hj : j = i
    · subst hj
      rw [Function.update_self]
      have hnone : f.fileDescriptors[j]? ≠ some (some desc') := by
        rw [hput.empty]
        simp
      constructor
      · rintro (⟨-, h⟩ | h)
        · exact h.symm
        · exact absurd h hnone
      · exact fun h => Or.inl ⟨rfl, h.symm⟩
    · rw [Function.update_of_ne (by omega), ← hinv.slot]
      exact or_iff_right fun h => hj h.1
  · intro fd' desc' h
    by_cases heq : fd' = (i : ℤ) + 1
    · subst heq
      rw [Function.update_self] at h
      cases h
      exact ⟨hfd, by omega, hindex, hdesc⟩
    · rw [Function.update_of_ne heq] at h
      exact hinv.entry fd' desc' h

theorem TableInv.fclose_none (hinv : TableInv f g) {fd : ℤ} (h : g fd = none) :
    fclose fd f = (- EIO, f) := by
  unfold fclose
  rw [hinv.lookup, h]

/-- Closing an open number empties its slot. -/
theorem TableInv.fclose_some (hinv : TableInv f g) {fd : ℤ} {desc : FatDescriptor}
    (h : g fd = some desc) : fclose fd f = (0, { f with
      fileDescriptors := f.fileDescriptors.set (fd - 1).toNat none
      kernel := kfree desc.ptr (fat16FreeFileDescriptor desc.privateData f.kernel) }) := by
  obtain ⟨-, -, hindex, hfs⟩ := hinv.entry fd desc h
  have hclose : desc.filesystem.fsClose desc.privateData f.kernel =
      (0, fat16FreeFileDescriptor desc.privateData f.kernel) := by
    rw [hfs]
    rfl
  unfold fclose
  rw [hinv.lookup, h]
  dsimp only
  rw [hclose, if_pos rfl, ← hindex]
  rfl

theorem TableInv.closed (hinv : TableInv f g) (fd : ℤ) :
    TableInv (fclose fd f).2 (Function.update g fd none) := by
  cases hgd : g fd with
  | none =>
      rw [hinv.fclose_none hgd, ← hgd, Function.update_eq_self]
      exact hinv
  | some desc =>
      have hpos := (hinv.entry fd desc hgd).1
      have hslot := (fileGetDescriptor_eq_some.mp ((hinv.lookup fd).trans hgd)).2
      rw [hinv.fclose_some hgd]
      constructor
      · intro j desc'
        dsimp only
        by_cases hj : (fd - 1).toNat = j
        · subst hj
          rw [Int.toNat_of_nonneg (by omega), sub_add_cancel, Function.update_self,
            List.getElem?_set_self (List.getElem?_eq_some_iff.mp hslot).1]
          simp
        · rw [List.getElem?_set_ne hj, Function.update_of_ne (by omega), hinv.slot]
      · intro fd' desc' h
        by_cases heq : fd' = fd
        · rw [heq, Function.update_self] at h
          cases h
        · rw [Function.update_of_ne heq] at h
          exact hinv.entry fd' desc' h

theorem length_fclose (fd : ℤ) (f : FatFileState) :
    (fclose fd f).2.fileDescriptors.length = f.fileDescriptors.length := by
  unfold fclose
  cases fileGetDescriptor fd f with
  | none => rfl
  | some desc =>
      dsimp only
      split_ifs
      · exact List.length_set
      · rfl

/-- The invariant holds along a run. -/
theorem OpenRun.tableInv (hfs : disk.filesystem = some fat16Fs)
    (h : OpenRun disk LowSlot f g) :
    TableInv f g ∧ f.fileDescriptors.length = peachosMaxFileDescriptors := by
  induction h with
  | start h =>
      refine ⟨TableInv.start h, ?_⟩
      rw [h, List.length_replicate]
  | opened _ hok hopen hfd hput ih =>
      refine ⟨ih.1.opened hfs hok hopen hfd ih.2 hput, ?_⟩
      rw [hput.table, List.length_set, ih.2]
  | failed _ hopen ih =>
      rcases fopen_cases hfs hopen with ⟨-, htable⟩ | ⟨i, -, -, -, hzero, -⟩
      · refine ⟨⟨fun j desc => ?_, ih.1.entry⟩, ?_⟩
        · rw [htable, ih.1.slot]
        · rw [htable, ih.2]
      · omega
  | closed _ fd ih => exact ⟨ih.1.closed fd, (length_fclose fd _).trans ih.2⟩

theorem TableInv.denotes (hinv : TableInv f g) {fd : ℤ} {desc : FatDescriptor}
    (h : g fd = some desc) : Denotes fd desc f := by
  have hlookup := (hinv.lookup fd).trans h
  have hslot := (fileGetDescriptor_eq_some.mp hlookup).2
  have hfs := (hinv.entry fd desc h).2.2.2
  have hclosed := hinv.closed fd
  refine ⟨hlookup, fun old => ?_, fun offset whence => ?_, fun ptr size nmemb hsize hnmemb => ?_,
    ?_, ?_, fun fd' hne => ?_⟩
  · unfold fstat
    rw [hlookup]
    dsimp only
    rw [hfs]
    rfl
  · unfold fseek
    rw [hlookup]
    dsimp only
    rw [hfs]
    rfl
  · have hopen : OpenFile f fd desc.disk desc.privateData := by
      refine ⟨desc.ptr, desc.index, ?_⟩
      rw [hlookup, ← hfs]
    exact fread_eq hopen hsize hnmemb ptr
  · rw [hinv.fclose_some h]
  · rw [hinv.fclose_some h]
    exact List.getElem?_set_self (List.getElem?_eq_some_iff.mp hslot).1
  · rw [hclosed.lookup, hinv.lookup, Function.update_of_ne hne]

/-- **Open numbers denote their descriptors** in every state of a run in which no `fopen` takes
the last slot, and the number that an `fopen` returns is that of no other open file. -/
theorem openRun_denotes (hfs : disk.filesystem = some fat16Fs) (h : OpenRun disk LowSlot f g) :
    (∀ fd desc, g fd = some desc → Denotes fd desc f) ∧
    ∀ filename modeStr fd f', fopen disk filename modeStr f = some (fd, f') → 0 < fd →
      g fd = none := by
  obtain ⟨hinv, -⟩ := h.tableInv hfs
  refine ⟨fun fd desc hgd => hinv.denotes hgd, fun filename modeStr fd f' hopen hfd => ?_⟩
  rcases fopen_cases hfs hopen with ⟨rfl, -⟩ | ⟨i, p, k, hslot, rfl, -⟩
  · exact absurd hfd (lt_irrefl 0)
  · rw [Option.eq_none_iff_forall_ne_some]
    intro desc hgd
    have htaken := (hinv.slot i desc).mpr hgd
    rw [freeSlot_eq_some hslot] at htaken
    cases htaken

/-! ### The last number -/

/-- The first `n` slots are taken and the others are free. -/
structure FirstTaken (n : ℕ) (f : FatFileState) : Prop where
  length : f.fileDescriptors.length = peachosMaxFileDescriptors
  empty : ∀ j : ℕ, f.fileDescriptors[j]? = some none ↔ n ≤ j ∧ j < peachosMaxFileDescriptors

theorem FirstTaken.freeSlot {n : ℕ} (h : FirstTaken n f) (hn : n < peachosMaxFileDescriptors) :
    freeSlot f.fileDescriptors = some n := by
  have hlt : n < f.fileDescriptors.length := h.length ▸ hn
  refine List.findIdx?_eq_some_iff_getElem.mpr ⟨hlt, ?_, fun j hj hnone => ?_⟩
  · have hempty := (h.empty n).mpr ⟨le_rfl, hn⟩
    rw [List.getElem?_eq_getElem hlt] at hempty
    rw [Option.some.inj hempty]
    rfl
  · have hjlt : j < f.fileDescriptors.length := hj.trans hlt
    refine absurd ((h.empty j).mp ?_).1 (Nat.not_le.mpr hj)
    rw [List.getElem?_eq_getElem hjlt, Option.isNone_iff_eq_none.mp hnone]

theorem FirstTaken.set {n : ℕ} {desc : FatDescriptor} (h : FirstTaken n f)
    (hn : n < peachosMaxFileDescriptors)
    (htable : f'.fileDescriptors = f.fileDescriptors.set n (some desc)) :
    FirstTaken (n + 1) f' where
  length := by rw [htable, List.length_set, h.length]
  empty j := by
    rw [htable]
    by_cases hj : n = j
    · subst hj
      rw [List.getElem?_set_self (h.length ▸ hn)]
      exact iff_of_false (by simp) (by omega)
    · rw [List.getElem?_set_ne hj, h.empty]
      omega

/-- The small file is opened `n` times. -/
theorem openRun_small {volume : FatVolume} (hdev : volume.device.Delivers)
    (hmount : volume.Mounted) (hdisk : volume.RootOnDisk)
    (htree : StoredTree volume ([smallItem].map FatNode.file)) :
    ∀ n ≤ peachosMaxFileDescriptors, ∃ f g, OpenRun ⟨some fat16Fs, volume⟩ (fun _ => True) f g ∧
      FirstTaken n f ∧ f.kernel.oom = false ∧ 25600 - 8 * n ≤ (freeBlocks f.kernel).card ∧
      (0 < n → g n ≠ none)
  | 0, _ => by
      refine ⟨noFiles, _, OpenRun.start rfl, ⟨List.length_replicate, fun j => ?_⟩, rfl,
        freshKernel_topFree.card_le, fun h => absurd h (lt_irrefl 0)⟩
      change (List.replicate peachosMaxFileDescriptors none)[j]? = _ ↔ _
      rw [List.getElem?_replicate]
      split_ifs with hj
      · exact iff_of_true rfl ⟨Nat.zero_le j, hj⟩
      · exact iff_of_false (by simp) fun h => hj h.2
  | n + 1, hn => by
      obtain ⟨f, g, hrun, htaken, hok, hcard, -⟩ :=
        openRun_small hdev hmount hdisk htree n (Nat.le_of_succ_le hn)
      have hmax : peachosMaxFileDescriptors = 512 := rfl
      have hslot := htaken.freeSlot hn
      obtain ⟨ptr, desc, f', hopen, -, -, -, htable, hok', hcard'⟩ :=
        fopen_small hdev hmount hdisk htree hslot hok (n := 25600 - 8 * (n + 1)) (by omega)
      refine ⟨f', _, OpenRun.opened hrun trivial hopen (by omega)
        ⟨freeSlot_eq_some hslot, htable⟩, htaken.set hn htable, hok', hcard', fun _ => ?_⟩
      rw [Nat.cast_succ, Function.update_self]
      simp

/-- The last of 512 open files. -/
theorem openRun_denotes_last : ∃ (volume : FatVolume) (f : FatFileState)
    (g : ℤ → Option FatDescriptor) (desc : FatDescriptor),
    OpenRun ⟨some fat16Fs, volume⟩ (fun _ => True) f g ∧ g 512 = some desc ∧
      fileGetDescriptor 512 f = none ∧ fclose 512 f = (- EIO, f) ∧ ¬ Denotes 512 desc f := by
  obtain ⟨volume, hdev, hmount, hdisk, htree⟩ := exists_smallTree
  obtain ⟨f, g, hrun, -, -, -, hopen⟩ := openRun_small hdev hmount hdisk htree 512 le_rfl
  obtain ⟨desc, hdesc⟩ := Option.ne_none_iff_exists'.mp (hopen (by decide))
  have hnone : fileGetDescriptor 512 f = none := if_pos (Or.inr (by decide))
  refine ⟨volume, f, g, desc, hrun, hdesc, hnone, ?_, fun h => ?_⟩
  · unfold fclose
    rw [hnone]
  · rw [h.lookup] at hnone
    cases hnone

/-- The first open file. -/
theorem openRun_denotes_first : ∃ (volume : FatVolume) (f : FatFileState) (desc : FatDescriptor),
    fopen ⟨some fat16Fs, volume⟩ smallPath [ascii 'r'] noFiles = some (1, f) ∧
      Denotes 1 desc f := by
  obtain ⟨volume, hdev, hmount, hdisk, htree⟩ := exists_smallTree
  have hcard := freshKernel_topFree.card_le
  have hslot : freeSlot noFiles.fileDescriptors = some 0 := rfl
  obtain ⟨ptr, desc, f, hopen, -, -, -, htable, -, -⟩ :=
    fopen_small hdev hmount hdisk htree hslot rfl (n := 0)
      (by change 8 ≤ (freeBlocks freshKernel).card; omega)
  have hlow : LowSlot noFiles := by
    unfold LowSlot
    rw [hslot]
    decide
  have hrun := OpenRun.opened (OpenRun.start rfl) hlow hopen (by decide)
    ⟨freeSlot_eq_some hslot, htable⟩
  have hfs : (⟨some fat16Fs, volume⟩ : FatDisk).filesystem = some fat16Fs := rfl
  exact ⟨volume, f, _, hopen,
    (openRun_denotes hfs hrun).1 1 _ (Function.update_self _ _ _)⟩

end PeachOS
