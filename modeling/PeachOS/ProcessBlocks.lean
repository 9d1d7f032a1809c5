import PeachOS.ProcessLeak

/-! # The blocks of the processes

A loading call gives back no block that was taken before it, if its allocations are served, the
file has a size that the heap can serve, and the uninitialised `_process` is not followed to a
task.  So in a run of such calls the structures of the processes in the table are still taken
whenever a call begins, and the table is what `process_table` says
(`ServedRun.loadRun`, `servedRun_tableOk`). -/

namespace PeachOS

open ByteMemory Extents

variable {k : Kernel} {size : UInt32} {st st₀ : Machine} {r : LoadResult} {p out : UInt32}
  {slot : ℤ}

/-! ### Loading the file -/

/-- The file cannot be read, or it has a size that does not wrap. -/
def FileAccess.Sized (file : FileAccess) : Prop :=
  file.fstat < 0 ∨ 1 ≤ file.filesize.toNat ∧ file.filesize.toNat ≤ 0xf0000000

/-- The loader gives nothing back while its allocations are served. -/
def Keeping (load : Loader) : Prop :=
  ∀ filename k, (load filename k).2.oom = false → KeepsTaken k (load filename k).2

/-- Filling a block that was allocated. -/
theorem kzalloc_fill_keepsTaken (h1 : 1 ≤ size.toNat) (h2 : size.toNat ≤ 0xf0000000)
    (hne : (kzalloc size k).1 ≠ 0) (data : ℕ → UInt8) (oom : Bool) :
    KeepsTaken k ⟨writeBytes (kzalloc size k).2.mem (kzalloc size k).1 data size.toNat, oom⟩ := by
  obtain ⟨b, hb, haddr, -⟩ := kzalloc_taken h1 h2 hne
  refine (kzalloc_keepsTaken h1 h2 k).trans (KeepsTaken.of_same fun x hx => ?_)
  have hblock := toNat_blockAddr hb
  dsimp only
  rw [haddr, writeBytes_apply _ _ _ _ _ (by omega), if_neg]
  rw [inRange_iff (by omega)]
  rw [inTable_iff] at hx
  omega

theorem elfLoad_keepsTaken {file : FileAccess} (hfile : file.Sized)
    (hok : (elfLoad file k).2.2.oom = false) : KeepsTaken k (elfLoad file k).2.2 := by
  have hstruct : KeepsTaken k (kzalloc 132 k).2 := kzalloc_keepsTaken (by decide) (by decide) k
  unfold elfLoad at hok ⊢
  dsimp only at hok ⊢
  by_cases hopen : file.fopen < 0
  · rw [if_pos hopen]
    exact hstruct
  rw [if_neg hopen] at hok ⊢
  by_cases hstat : file.fstat < 0
  · rw [if_pos hstat]
    exact hstruct
  obtain ⟨h1, h2⟩ := hfile.resolve_left hstat
  rw [if_neg hstat] at hok ⊢
  by_cases hread : file.fread < 0
  · rw [if_pos hread]
    exact hstruct.trans (kzalloc_keepsTaken h1 h2 _)
  · rw [if_neg hread] at hok ⊢
    exact hstruct.trans (kzalloc_fill_keepsTaken h1 h2 (kzalloc_ne_zero_of_ok hok) _ _)

theorem processLoadBinary_keepsTaken {file : FileAccess} (hfile : file.Sized) :
    KeepsTaken k (processLoadBinary file k).2 := by
  unfold processLoadBinary
  dsimp only
  split_ifs with hopen hstat hnull hread
  · exact fun _ _ h => h
  · exact fun _ _ h => h
  all_goals
    obtain ⟨h1, h2⟩ := hfile.resolve_left (by rw [not_not.mp hstat]; exact lt_irrefl 0)
  · exact kzalloc_keepsTaken h1 h2 k
  · exact kzalloc_keepsTaken h1 h2 k
  · exact kzalloc_fill_keepsTaken h1 h2 hnull _ _

/-- `process_load_binary` starts without a failure if it ends so. -/
theorem processLoadBinary_oom_false {file : FileAccess}
    (hok : (processLoadBinary file k).2.oom = false) : k.oom = false := by
  unfold processLoadBinary at hok
  dsimp only at hok
  split_ifs at hok
  · exact hok
  · exact hok
  all_goals exact kzalloc_oom_false hok

/-- `process_load_data`, for files that the heap can hold. -/
theorem keeping_processLoadData {files : List UInt8 → FileAccess}
    (hfiles : ∀ filename, (files filename).Sized) : Keeping (processLoadData files) := by
  intro filename k hok
  have helf : ∀ {k : Kernel}, (processLoadElf (files filename) k).2.oom = false →
      KeepsTaken k (processLoadElf (files filename) k).2 := elfLoad_keepsTaken (hfiles filename)
  unfold processLoadData at hok ⊢
  dsimp only at hok ⊢
  split_ifs at hok ⊢
  · exact (helf (processLoadBinary_oom_false hok)).trans
      (processLoadBinary_keepsTaken (hfiles filename))
  · exact helf hok

/-! ### One call -/

theorem processLoadTask_oom_false (h : processLoadTask p slot out st = some r)
    (hok : r.st.sched.kernel.oom = false) : st.sched.kernel.oom = false := by
  suffices htask : (taskNew p (st.procs p).toProcess st.sched).2.kernel.oom = false from
    kzalloc_oom_false (taskNew_oom_false htask).1
  unfold processLoadTask at h
  dsimp only at h
  split_ifs at h
  · obtain rfl := Option.some.inj h
    unfold processLoadOut at hok
    rwa [if_neg fun h => absurd h.1 (lt_irrefl 0)] at hok
  · rwa [(processLoadMap_procs h).2] at hok

/-- From the allocation of the stack on. -/
theorem processLoadStack_keepsTaken {filename : List UInt8}
    (h : processLoadStack filename p slot out st = some r) (htask : (st.procs p).task = 0)
    (hok : r.st.sched.kernel.oom = false) :
    st.sched.kernel.oom = false ∧ KeepsTaken st.sched.kernel r.st.sched.kernel := by
  have hstack : KeepsTaken st.sched.kernel
      (kzalloc peachosUserProgramStackSize st.sched.kernel).2 :=
    kzalloc_keepsTaken (by decide) (by decide) _
  have hfirst : (kzalloc peachosUserProgramStackSize st.sched.kernel).2.oom = false →
      st.sched.kernel.oom = false := kzalloc_oom_false
  unfold processLoadStack at h
  dsimp only at h
  split_ifs at h
  · rw [processLoadOut_of_no_task] at h
    · obtain rfl := Option.some.inj h
      exact ⟨hfirst hok, hstack⟩
    · exact htask
  · have hserved := processLoadTask_oom_false h hok
    have hrest := processLoadTask_keepsTaken h hok
    exact ⟨hfirst hserved, hstack.trans hrest⟩

/-- Once the structure of the process is allocated, all that is taken stays taken. -/
theorem processLoadForSlot_keepsTaken {load : Loader} {uninit : UInt32} {filename : List UInt8}
    (h : processLoadForSlot load uninit filename slot out st = some r) (hload : Keeping load)
    (hget : processGet slot st = 0) (hok : r.st.sched.kernel.oom = false) :
    KeepsTaken (kzalloc 5260 st.sched.kernel).2 r.st.sched.kernel := by
  unfold processLoadForSlot at h
  rw [if_neg (not_not.mpr hget)] at h
  dsimp only at h
  have hdata : ∀ data : LoadedData, (data.store processFullZero).task = 0 := by
    intro data
    cases data <;> rfl
  split_ifs at h
  · obtain rfl := Option.some.inj h
    unfold processLoadOut
    rw [if_neg fun h => h.2.1 rfl]
    exact fun _ _ h => h
  · rw [processLoadOut_of_no_task] at h
    · obtain rfl := Option.some.inj h
      exact hload filename _ hok
    · rw [Machine.setProc_self]
      exact hdata _
  · obtain ⟨hok', hkeep⟩ := processLoadStack_keepsTaken h
      (by rw [Machine.setProc_self]; exact hdata _) hok
    exact (hload filename _ hok').trans hkeep

/-! ### Runs -/

/-- The call is for a slot, no allocation of it fails, its loader gives nothing back, and for an
occupied slot the uninitialised `_process` is null or points to a structure without a task. -/
structure LoadCall.Served (c : LoadCall) (st : Machine) (r : LoadResult) : Prop where
  slot : ∀ i, c.slot = some i → IsSlot i
  load : Keeping c.load
  ok : r.st.sched.kernel.oom = false
  stale : c.uninit = 0 ∨ (st.procs c.uninit).task = 0

/-- A run of such calls. -/
inductive ServedRun (st₀ : Machine) : Machine → Prop
  | start : ServedRun st₀ st₀
  | call {st : Machine} {r : LoadResult} (c : LoadCall) (hrun : ServedRun st₀ st)
      (hc : c.Served st r) (h : c.exec st = some r) : ServedRun st₀ r.st

/-- A call is one of `process_load_for_slot` for a slot. -/
theorem LoadCall.exec_eq {c : LoadCall} (hslot : ∀ i, c.slot = some i → IsSlot i) (st : Machine) :
    ∃ slot, IsSlot slot ∧
      c.exec st = processLoadForSlot c.load c.uninit c.filename slot c.out st := by
  unfold LoadCall.exec
  cases hc : c.slot with
  | none =>
      have hfree := processGetFreeSlot_isSlot st
      refine ⟨processGetFreeSlot st, hfree, ?_⟩
      unfold processLoad
      exact if_neg (Int.not_lt.mpr hfree.1)
  | some slot => exact ⟨slot, hslot slot hc, rfl⟩

/-- The step: the structures in the table stay taken, and so is that of a new process. -/
theorem LoadCall.Served.processesTaken {c : LoadCall} (hc : c.Served st r)
    (h : c.exec st = some r) (htaken : ProcessesTaken st) : ProcessesTaken r.st := by
  obtain ⟨slot, hslot, hexec⟩ := LoadCall.exec_eq hc.slot st
  rw [hexec] at h
  by_cases hget : processGet slot st = 0
  · have hkeep := processLoadForSlot_keepsTaken h hc.load hget hc.ok
    have hold : ∀ i, IsSlot i → st.processes i ≠ 0 → ∃ b < 25600, st.processes i = blockAddr b ∧
        ¬ EntryFree kernelHeap r.st.sched.kernel.mem b := by
      intro i hi hne
      obtain ⟨b, hb, haddr, hb'⟩ := htaken i hi hne
      exact ⟨b, hb, haddr, hkeep b hb (kzalloc_keepsTaken (by decide) (by decide) _ b hb hb')⟩
    intro i hi hne
    rcases processLoadForSlot_effect h with ⟨-, hsame⟩ | ⟨b, hb, haddr, -, -, heffect⟩
    · rw [hsame] at hne ⊢
      exact hold i hi hne
    · rcases heffect.table with hsame | ⟨hres, htable, -⟩
      · rw [hsame] at hne ⊢
        exact hold i hi hne
      · rcases eq_or_ne i slot with rfl | his
        · have hself : r.st.processes i = blockAddr b := by rw [htable, Function.update_self]
          have hne' : (kzalloc 5260 st.sched.kernel).1 ≠ 0 := by
            rw [haddr]
            exact blockAddr_ne_zero hb
          obtain ⟨c, hc, hcaddr, -, hctaken⟩ := kzalloc_taken (by decide) (by decide) hne'
          exact ⟨c, hc, hself.trans (haddr.symm.trans hcaddr), hkeep c hc hctaken⟩
        · rw [htable, Function.update_of_ne his] at hne ⊢
          exact hold i hi hne
  · -- an occupied slot: the label `out` frees nothing
    unfold processLoadForSlot at h
    rw [if_pos hget] at h
    obtain rfl := Option.some.inj h
    unfold processLoadOut
    rw [if_neg fun h => hc.stale.elim h.2.1 h.2.2]
    exact htaken

/-- By induction on the run: it meets the condition of the table. -/
theorem ServedRun.loadRun (hempty : ∀ i, IsSlot i → st₀.processes i = 0) (h : ServedRun st₀ st) :
    LoadRun st₀ st ∧ ProcessesTaken st := by
  induction h with
  | start => exact ⟨LoadRun.start, fun i hi hne => absurd (hempty i hi) hne⟩
  | call c hrun hc h ih => exact ⟨ih.1.call c ⟨hc.slot, ih.2⟩ h, hc.processesTaken h ih.2⟩

/-- One more `process_load` of a file. -/
theorem ServedRun.processLoad (hrun : ServedRun st₀ st) {files : List UInt8 → FileAccess}
    (hfiles : ∀ filename, (files filename).Sized) {uninit : UInt32} {filename : List UInt8}
    (h : PeachOS.processLoad (processLoadData files) uninit filename out st = some r)
    (hok : r.st.sched.kernel.oom = false)
    (hstale : uninit = 0 ∨ (st.procs uninit).task = 0) : ServedRun st₀ r.st :=
  hrun.call ⟨processLoadData files, uninit, filename, none, out⟩
    ⟨fun _ hi => (nomatch hi), keeping_processLoadData hfiles, hok, hstale⟩ h

/-- In every state of such a run the table is as it should be, and one more such call overwrites
no occupied entry and writes none if it fails. -/
theorem servedRun_tableOk (hempty : ∀ i, IsSlot i → st₀.processes i = 0)
    (hrun : ServedRun st₀ st) :
    TableOk st ∧ ∀ c : LoadCall, c.Served st r → c.exec st = some r → CallOk st r := by
  obtain ⟨hload, htaken⟩ := hrun.loadRun hempty
  exact ⟨hload.tableOk hempty, fun c hc h => LoadCall.Meets.callOk ⟨hc.slot, htaken⟩ h⟩

end PeachOS
