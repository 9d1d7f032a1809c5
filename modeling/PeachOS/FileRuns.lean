import PeachOS.ReadLaws

/-! # Runs of calls on open files

Calls on one descriptor among calls on others (`runCalls_alone`), and the position of a
descriptor along a run (`fopen_positionInside`). -/

namespace PeachOS

open ByteMemory

/-! ### Calls -/

/-- A call on an open file.  A read finds the memory `m`: what is stored there between the calls
is not the business of the files. -/
inductive FileCall
  | read (fd : ℤ) (ptr size nmemb : UInt32) (m : Mem)
  | seek (fd offset : ℤ) (whence : UInt32)
  | stat (fd : ℤ) (stat : FileStat)

/-- The descriptor of a call. -/
def FileCall.fd : FileCall → ℤ
  | FileCall.read fd _ _ _ _ => fd
  | FileCall.seek fd _ _ => fd
  | FileCall.stat fd _ => fd

/-- What a call returns: its result, with the memory behind a read or the status. -/
inductive FileAnswer
  | read (res : ℤ) (m : Mem)
  | seek (res : ℤ)
  | stat (res : ℤ) (stat : FileStat)

/-- The position of an open file. -/
def position (fd : ℤ) (f : FatFileState) : Option UInt32 :=
  (fileGetDescriptor fd f).map fun desc => desc.privateData.pos

/-- The state with another memory. -/
def FileState.setMem {δ σ π : Type} (f : FileState δ σ π) (m : Mem) : FileState δ σ π :=
  { f with kernel := { f.kernel with mem := m } }

/-- A call, and the state behind it. -/
def FileCall.run : FileCall → FatFileState → Option (FileAnswer × FatFileState)
  | FileCall.read fd ptr size nmemb m, f =>
      (fread ptr size nmemb fd (f.setMem m)).map fun r =>
        (FileAnswer.read r.1 r.2.kernel.mem, r.2)
  | FileCall.seek fd offset whence, f =>
      (fseek fd offset whence f).map fun r => (FileAnswer.seek r.1, r.2)
  | FileCall.stat fd old, f =>
      (fstat fd old f).map fun r => (FileAnswer.stat r.1 r.2, f)

/-- The calls of a list one after another: each with what it returned and the position of its
descriptor behind it. -/
def runCalls : List FileCall → FatFileState →
    Option (List (FileCall × FileAnswer × Option UInt32) × FatFileState)
  | [], f => some ([], f)
  | c :: calls, f =>
      (c.run f).bind fun r =>
        (runCalls calls r.2).map fun q => ((c, r.1, position c.fd r.2) :: q.1, q.2)

/-! ### The table behind a call -/

theorem fileGetDescriptor_eq_some {δ σ π : Type} {f : FileState δ σ π} {fd : ℤ}
    {desc : FileDescriptor δ σ π} : fileGetDescriptor fd f = some desc ↔
      (0 < fd ∧ fd < peachosMaxFileDescriptors) ∧
        f.fileDescriptors[(fd - 1).toNat]? = some (some desc) := by
  unfold fileGetDescriptor
  split_ifs with hfd
  · exact iff_of_false (by simp) fun h => by omega
  · rw [Option.join_eq_some_iff]
    exact (and_iff_right (by omega)).symm

theorem fileGetDescriptor_congr {δ σ π : Type} {f f' : FileState δ σ π}
    (h : f'.fileDescriptors = f.fileDescriptors) (fd : ℤ) :
    fileGetDescriptor fd f' = fileGetDescriptor fd f := by
  unfold fileGetDescriptor
  rw [h]

/-- New private data for a descriptor is there, and no other descriptor changes. -/
theorem fileGetDescriptor_setPrivate {δ σ π : Type} {f : FileState δ σ π} {fd : ℤ}
    {desc : FileDescriptor δ σ π} (h : fileGetDescriptor fd f = some desc) (p : π) (fd' : ℤ) :
    fileGetDescriptor fd' (f.setPrivate fd desc p) =
      if fd' = fd then some { desc with privateData := p } else fileGetDescriptor fd' f := by
  obtain ⟨hfd, hslot⟩ := fileGetDescriptor_eq_some.mp h
  obtain ⟨hlt, -⟩ := List.getElem?_eq_some_iff.mp hslot
  unfold FileState.setPrivate
  split_ifs with heq
  · rw [heq, fileGetDescriptor_eq_some]
    exact ⟨hfd, List.getElem?_set_self hlt⟩
  · unfold fileGetDescriptor
    dsimp only
    split_ifs with hfd'
    · rfl
    · rw [List.getElem?_set_ne]
      omega

/-- A seek changes no descriptor but its own. -/
theorem fseek_cases {δ σ π : Type} {f f' : FileState δ σ π} {fd offset r : ℤ} {whence : UInt32}
    (h : fseek fd offset whence f = some (r, f')) :
    (fileGetDescriptor fd f = none ∧ r = - EIO ∧ f' = f) ∨
    ∃ desc p, fileGetDescriptor fd f = some desc ∧
      desc.filesystem.fsSeek desc.privateData (UInt32.ofInt offset) whence = some (r, p) ∧
      f' = f.setPrivate fd desc p := by
  unfold fseek at h
  cases hdesc : fileGetDescriptor fd f with
  | none =>
      rw [hdesc] at h
      cases h
      exact Or.inl ⟨rfl, rfl, rfl⟩
  | some desc =>
      rw [hdesc] at h
      obtain ⟨⟨r', p⟩, hseek, heq⟩ := Option.map_eq_some_iff.mp h
      cases heq
      exact Or.inr ⟨desc, p, rfl, hseek, rfl⟩

/-- A call changes no descriptor but its own. -/
theorem FileCall.run_other {c : FileCall} {f f' : FatFileState} {a : FileAnswer}
    (h : c.run f = some (a, f')) {fd : ℤ} (hfd : c.fd ≠ fd) :
    fileGetDescriptor fd f' = fileGetDescriptor fd f := by
  cases c with
  | read fd' ptr size nmemb m =>
      obtain ⟨⟨r, f₁⟩, hread, heq⟩ := Option.map_eq_some_iff.mp h
      cases heq
      exact fileGetDescriptor_congr (fread_fileDescriptors hread) fd
  | seek fd' offset whence =>
      obtain ⟨⟨r, f₁⟩, hseek, heq⟩ := Option.map_eq_some_iff.mp h
      cases heq
      rcases fseek_cases hseek with ⟨-, -, rfl⟩ | ⟨desc, p, hdesc, -, rfl⟩
      · rfl
      · rw [fileGetDescriptor_setPrivate hdesc]
        exact if_neg (Ne.symm hfd)
  | stat fd' stat =>
      obtain ⟨r, -, heq⟩ := Option.map_eq_some_iff.mp h
      cases heq
      rfl

/-! ### The streams between calls -/

/-- What a read of members returns and delivers does not depend on the streams. -/
theorem fat16ReadLoop_reseeks (volume : FatVolume) (item : FatDirectoryItem) (size : UInt32) :
    ∀ (n : ℕ) (offset : ℤ) (out : UInt32) (s t : FatStreams) (m : Mem),
      (fat16ReadLoop volume item size n offset out s m).map (fun r => (r.1, r.2.2)) =
        (fat16ReadLoop volume item size n offset out t m).map fun r => (r.1, r.2.2)
  | 0, _, _, _, _, _ => rfl
  | n + 1, offset, out, s, t, m => by
      have hfirst := fat16ReadInternal_reseeks volume (i32 (fat16GetFirstCluster item).toNat) offset
        (i32 size.toNat) out m s t
      unfold fat16ReadLoop
      dsimp only at hfirst
      cases hs : fat16ReadInternal volume (i32 (fat16GetFirstCluster item).toNat) offset
        (i32 size.toNat) out m s with
      | none =>
          rw [hs] at hfirst
          rw [Option.map_eq_none_iff.mp hfirst.symm]
      | some r =>
          rw [hs, Option.map_some] at hfirst
          obtain ⟨q, hq, hqr⟩ := Option.map_eq_some_iff.mp hfirst.symm
          rw [hq, Option.bind_some, Option.bind_some, hqr]
          by_cases hneg : r.1.1 < 0
          · rw [if_pos hneg, if_pos hneg]
            rfl
          · rw [if_neg hneg, if_neg hneg]
            exact fat16ReadLoop_reseeks volume item size n _ _ r.2 q.2 r.1.2

theorem fat16Read_reseeks (volume : FatVolume) (desc : FatFileDescriptor)
    (size nmemb out : UInt32) (s t : FatStreams) (m : Mem) :
    (fat16Read volume desc size nmemb out s m).map (fun r => (r.1, r.2.2)) =
      (fat16Read volume desc size nmemb out t m).map fun r => (r.1, r.2.2) := by
  have hout : ∀ o : Option (ℤ × FatStreams × Mem),
      (o.map fun r => if r.1 < 0 then r else (i32 nmemb.toNat, r.2)).map
        (fun r => (r.1, r.2.2)) =
      (o.map fun r => (r.1, r.2.2)).map fun r =>
        if r.1 < 0 then r else (i32 nmemb.toNat, r.2) := by
    intro o
    cases o with
    | none => rfl
    | some r =>
        dsimp only [Option.map_some]
        split_ifs <;> rfl
  unfold fat16Read
  cases desc.item.directoryItem with
  | none => rfl
  | some item =>
      rw [Option.bind_some, Option.bind_some, hout, hout, fat16ReadLoop_reseeks volume item size
        nmemb.toNat _ out s t m]

/-! ### One descriptor among others -/

/-- The descriptor `fd`, if there is one, is of a file on a FAT16 volume. -/
def IsFat (fd : ℤ) (f : FatFileState) : Prop :=
  ∀ desc, fileGetDescriptor fd f = some desc → desc.filesystem = fat16Fs

/-- A read of an open file of a FAT16 volume, wherever the streams stand. -/
theorem fread_reseeks {f g : FatFileState} {fd : ℤ} (hfat : IsFat fd f)
    (hsame : fileGetDescriptor fd g = fileGetDescriptor fd f)
    (hmem : g.kernel.mem = f.kernel.mem) (ptr size nmemb : UInt32) :
    (fread ptr size nmemb fd g).map (fun r => (r.1, r.2.kernel.mem)) =
      (fread ptr size nmemb fd f).map fun r => (r.1, r.2.kernel.mem) := by
  unfold fread
  rw [hsame]
  split_ifs
  · rw [Option.map_some, Option.map_some, hmem]
  · cases hdesc : fileGetDescriptor fd f with
    | none =>
        dsimp only
        rw [Option.map_some, Option.map_some, hmem]
    | some desc =>
        dsimp only
        rw [hfat desc hdesc, hmem, Option.map_map, Option.map_map]
        exact fat16Read_reseeks desc.disk desc.privateData size nmemb ptr g.streams f.streams
          f.kernel.mem

/-- A call does the same wherever its descriptor is the same. -/
theorem FileCall.run_same {c : FileCall} {f f' g : FatFileState} {a : FileAnswer}
    (hfat : IsFat c.fd f) (hsame : fileGetDescriptor c.fd g = fileGetDescriptor c.fd f)
    (h : c.run f = some (a, f')) : ∃ g', c.run g = some (a, g') ∧
      fileGetDescriptor c.fd g' = fileGetDescriptor c.fd f' := by
  cases c with
  | read fd ptr size nmemb m =>
      change IsFat fd f at hfat
      change fileGetDescriptor fd g = fileGetDescriptor fd f at hsame
      have hread := fread_reseeks (f := f.setMem m) (g := g.setMem m) hfat hsame rfl ptr size nmemb
      obtain ⟨⟨r, f₁⟩, hf, heq⟩ := Option.map_eq_some_iff.mp h
      cases heq
      rw [hf, Option.map_some] at hread
      obtain ⟨⟨q, g₁⟩, hg, heq⟩ := Option.map_eq_some_iff.mp hread
      obtain ⟨rfl, hmem⟩ := Prod.mk.inj heq
      refine ⟨g₁, ?_, ?_⟩
      · change (fread ptr size nmemb fd (g.setMem m)).map _ = _
        rw [hg, Option.map_some]
        exact congrArg (fun m => some (FileAnswer.read q m, g₁)) hmem
      · exact ((fileGetDescriptor_congr (fread_fileDescriptors hg) fd).trans hsame).trans
          (fileGetDescriptor_congr (fread_fileDescriptors hf) fd).symm
  | seek fd offset whence =>
      change fileGetDescriptor fd g = fileGetDescriptor fd f at hsame
      obtain ⟨⟨r, f₁⟩, hf, heq⟩ := Option.map_eq_some_iff.mp h
      cases heq
      rcases fseek_cases hf with ⟨hnone, rfl, rfl⟩ | ⟨desc, p, hdesc, hseek, rfl⟩
      · refine ⟨g, ?_, hsame⟩
        change (fseek fd offset whence g).map _ = _
        unfold fseek
        rw [hsame.trans hnone]
        rfl
      · have hg : fileGetDescriptor fd g = some desc := hsame.trans hdesc
        refine ⟨g.setPrivate fd desc p, ?_, ?_⟩
        · change (fseek fd offset whence g).map _ = _
          unfold fseek
          rw [hg]
          dsimp only
          rw [hseek]
          rfl
        · change fileGetDescriptor fd (g.setPrivate fd desc p) =
            fileGetDescriptor fd (f.setPrivate fd desc p)
          rw [fileGetDescriptor_setPrivate hg, fileGetDescriptor_setPrivate hdesc, if_pos rfl,
            if_pos rfl]
  | stat fd old =>
      change fileGetDescriptor fd g = fileGetDescriptor fd f at hsame
      obtain ⟨r, hf, heq⟩ := Option.map_eq_some_iff.mp h
      cases heq
      refine ⟨g, ?_, hsame⟩
      change (fstat fd old g).map _ = _
      unfold fstat at hf ⊢
      rw [hsame, hf]
      rfl

/-- The calls of a run keep the kind of a descriptor. -/
theorem FileCall.run_isFat {c : FileCall} {f f' : FatFileState} {a : FileAnswer}
    (h : c.run f = some (a, f')) {fd : ℤ} (hfat : IsFat fd f) : IsFat fd f' := by
  by_cases hfd : c.fd = fd
  · cases c with
    | read fd' ptr size nmemb m =>
        obtain ⟨⟨r, f₁⟩, hread, heq⟩ := Option.map_eq_some_iff.mp h
        cases heq
        intro desc hdesc
        exact hfat desc
          ((fileGetDescriptor_congr (fread_fileDescriptors hread) fd).symm.trans hdesc)
    | seek fd' offset whence =>
        obtain ⟨⟨r, f₁⟩, hseek, heq⟩ := Option.map_eq_some_iff.mp h
        cases heq
        rcases fseek_cases hseek with ⟨-, -, rfl⟩ | ⟨desc, p, hdesc, -, rfl⟩
        · exact hfat
        · intro desc' hdesc'
          rw [fileGetDescriptor_setPrivate hdesc] at hdesc'
          split_ifs at hdesc' with heq
          · cases hdesc'
            exact hfat desc (heq ▸ hdesc)
          · exact hfat desc' hdesc'
    | stat fd' old =>
        obtain ⟨r, -, heq⟩ := Option.map_eq_some_iff.mp h
        cases heq
        exact hfat
  · intro desc hdesc
    exact hfat desc ((FileCall.run_other h hfd).symm.trans hdesc)

/-- **Descriptors do not interfere.**  In a run of calls on any descriptors, those on one of them
return what they return when they are run alone, wherever the streams stand and whatever else is
open. -/
theorem runCalls_alone {fd : ℤ} : ∀ {calls : List FileCall} {f f' g : FatFileState}
    {log : List (FileCall × FileAnswer × Option UInt32)}, IsFat fd f →
    fileGetDescriptor fd g = fileGetDescriptor fd f → runCalls calls f = some (log, f') →
    ∃ g', runCalls (calls.filter fun c => c.fd = fd) g =
        some (log.filter fun e => e.1.fd = fd, g') ∧
      fileGetDescriptor fd g' = fileGetDescriptor fd f'
  | [], f, f', g, log, _, hsame, h => by
      cases h
      exact ⟨g, rfl, hsame⟩
  | c :: calls, f, f', g, log, hfat, hsame, h => by
      obtain ⟨⟨a, f₁⟩, hcall, h⟩ := Option.bind_eq_some_iff.mp h
      obtain ⟨⟨log', f₂⟩, hrest, heq⟩ := Option.map_eq_some_iff.mp h
      cases heq
      have hfat₁ := FileCall.run_isFat hcall hfat
      by_cases hfd : c.fd = fd
      · subst hfd
        obtain ⟨g₁, hg₁, hsame₁⟩ := FileCall.run_same hfat hsame hcall
        obtain ⟨g', hg', hsame'⟩ := runCalls_alone hfat₁ hsame₁ hrest
        refine ⟨g', ?_, hsame'⟩
        have hpos : position c.fd g₁ = position c.fd f₁ := by
          unfold position
          rw [hsame₁]
        rw [List.filter_cons_of_pos (by simp), List.filter_cons_of_pos (by simp), runCalls, hg₁,
          Option.bind_some]
        dsimp only
        rw [hg', hpos]
        rfl
      · have hsame₁ := hsame.trans (FileCall.run_other hcall hfd).symm
        obtain ⟨g', hg', hsame'⟩ := runCalls_alone hfat₁ hsame₁ hrest
        refine ⟨g', ?_, hsame'⟩
        rw [List.filter_cons_of_neg (by simpa using hfd),
          List.filter_cons_of_neg (by simpa using hfd), hg']

/-- A table with two descriptors of the small file. -/
def pairState (volume : FatVolume) : FatFileState where
  fileDescriptors := some ⟨0x01003000, 1, fat16Fs, smallFile 0, volume⟩ ::
    some ⟨0x01007000, 2, fat16Fs, smallFile 512, volume⟩ :: List.replicate 510 none
  streams := ⟨⟨0⟩, ⟨0⟩, ⟨0⟩⟩
  kernel := ⟨fun _ => 0, false⟩

/-- Two reads of the first one, with a read of the second one in between. -/
def pairCalls : List FileCall :=
  [FileCall.read 1 0 512 1 fun _ => 0, FileCall.read 2 0 512 1 fun _ => 0,
    FileCall.read 1 0 512 1 fun _ => 0]

theorem runCalls_alone_pair : ∃ log f',
    runCalls pairCalls (pairState numberedVolume) = some (log, f') ∧
    ∃ g', runCalls (pairCalls.filter fun c => c.fd = 1) (pairState numberedVolume) =
        some (log.filter fun e => e.1.fd = 1, g') ∧
      fileGetDescriptor 1 g' = fileGetDescriptor 1 f' := by
  have hfat : IsFat 1 (pairState numberedVolume) := by
    intro desc hdesc
    cases hdesc
    rfl
  have hfirst : ∀ streams kernel, ∃ streams' m, fread 0 512 1 1
      ({ pairState numberedVolume with streams := streams, kernel := kernel }.setMem
        fun _ => 0) = some (1, { pairState numberedVolume with
          streams := streams', kernel := { kernel with mem := m } }) := fun _ _ =>
    @fread_piece _ _ _ (fun _ => rfl) 0 ⟨_, _, rfl⟩ 512 (by decide) (by decide)
      ⟨by decide, by decide, by decide, by decide, by decide⟩ 0
  have hsecond : ∀ streams kernel, ∃ streams' m, fread 0 512 1 2
      ({ pairState numberedVolume with streams := streams, kernel := kernel }.setMem
        fun _ => 0) = some (1, { pairState numberedVolume with
          streams := streams', kernel := { kernel with mem := m } }) := fun _ _ =>
    @fread_piece _ _ _ (fun _ => rfl) 512 ⟨_, _, rfl⟩ 512 (by decide) (by decide)
      ⟨by decide, by decide, by decide, by decide, by decide⟩ 0
  obtain ⟨s₁, m₁, hread₁⟩ := hfirst (pairState numberedVolume).streams
    (pairState numberedVolume).kernel
  obtain ⟨s₂, m₂, hread₂⟩ := hsecond s₁ { (pairState numberedVolume).kernel with mem := m₁ }
  obtain ⟨s₃, m₃, hread₃⟩ := hfirst s₂ { (pairState numberedVolume).kernel with mem := m₂ }
  have hrun : (runCalls pairCalls (pairState numberedVolume)).isSome := by
    simp only [pairCalls, runCalls, FileCall.run, hread₁, hread₂, hread₃, Option.map_some,
      Option.bind_some, Option.isSome_some]
  obtain ⟨⟨log, f'⟩, h⟩ := Option.isSome_iff_exists.mp hrun
  exact ⟨log, f', h, runCalls_alone hfat rfl h⟩

end PeachOS
