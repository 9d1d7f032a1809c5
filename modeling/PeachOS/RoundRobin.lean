import PeachOS.CurrentProcess
import PeachOS.ProcessLeak

/-! # The order of the tasks

`task_get_next` walks over the list that `task_new` builds and wraps at its end.

* `creationRun_roundRobin`: from any current task it visits all tasks in the order they were
  made, each once, before it is back.

A `task_new` counts as successful if it does not return an error, even where an allocation
failed inside `paging_new_4gb`. -/

namespace PeachOS

open ByteMemory LinkedList

/-! ### The blocks of the new task -/

variable {k k' : Kernel}

/-- What the heap returns: null or the address of a block. -/
theorem kzalloc_cases (size : UInt32) (h1 : 1 ≤ size.toNat) (h2 : size.toNat ≤ 0xf0000000)
    (k : Kernel) : (kzalloc size k).1 = 0 ∨ ∃ b < 25600, (kzalloc size k).1 = blockAddr b := by
  by_cases hnull : (kzalloc size k).1 = 0
  · exact Or.inl hnull
  · obtain ⟨b, hb, haddr, -⟩ := kzalloc_taken h1 h2 hnull
    exact Or.inr ⟨b, hb, haddr⟩

/-- A store to a word of a block, or through null, is not to the block table. -/
theorem write32_table {a : UInt32} (ha : a = 0 ∨ ∃ b < 25600, a = blockAddr b) {i : ℕ}
    (hi : i < 1024) (m : Mem) (v : UInt32) {x : UInt32} (hx : InTable x) :
    m.write32 (off a (4 * i)) v x = m x := by
  rcases ha with rfl | ⟨b, hb, rfl⟩
  · refine Mem.write32_apply_of_not_inRange m v fun h => ?_
    have haddr : (off 0 (4 * i)).toNat = 4 * i := by
      rw [toNat_off_of_lt (by rw [UInt32.toNat_zero]; omega), UInt32.toNat_zero, zero_add]
    rw [inTable_iff] at hx
    rw [inRange_iff (by omega), haddr] at h
    omega
  · exact write32_wordAddr_apply hb hi m v fun h => h.not_inTable hb hx

theorem pagingFillTable_table {a : UInt32} (ha : a = 0 ∨ ∃ b < 25600, a = blockAddr b)
    (offset : ℤ) (flags : UInt8) (m : Mem) {x : UInt32} (hx : InTable x) :
    ∀ n ≤ 1024, pagingFillTable a offset flags n m x = m x
  | 0, _ => rfl
  | n + 1, hn =>
      (write32_table ha (by omega) _ _ hx).trans
        (pagingFillTable_table ha offset flags m hx n (by omega))

/-- The rounds of `paging_new_4gb` take no block away, wherever their tables are. -/
theorem pagingNewTables_keepsTaken {directory : UInt32}
    (hdir : directory = 0 ∨ ∃ b < 25600, directory = blockAddr b) (flags : UInt8) (k : Kernel) :
    ∀ i ≤ 1024, KeepsTaken k (pagingNewTables directory flags i k).2
  | 0, _ => fun _ _ h => h
  | i + 1, hi => by
      have ih := pagingNewTables_keepsTaken hdir flags k i (by omega)
      obtain ⟨r, hr⟩ : ∃ r, r = pagingNewTables directory flags i k := ⟨_, rfl⟩
      rw [← hr] at ih
      have hentry := kzalloc_cases 4096 (by decide) (by decide) r.2
      have hkeep : KeepsTaken k (kzalloc 4096 r.2).2 :=
        ih.trans (kzalloc_keepsTaken (by decide) (by decide) r.2)
      unfold pagingNewTables
      dsimp only
      rw [← hr]
      refine hkeep.trans (KeepsTaken.of_same fun x hx => ?_)
      exact (write32_table hdir (by omega) _ _ hx).trans
        (pagingFillTable_table hentry _ _ _ hx 1024 le_rfl)

theorem pagingNew4gb_keepsTaken (flags : UInt8) (k : Kernel) :
    KeepsTaken k (pagingNew4gb flags k).2 := by
  have hdir := kzalloc_cases 4096 (by decide) (by decide) k
  have hkeep : KeepsTaken k (kzalloc 4096 k).2 := kzalloc_keepsTaken (by decide) (by decide) k
  generalize hr : kzalloc 4096 k = r at hdir hkeep
  obtain ⟨n, hn⟩ : ∃ n, n = 1024 := ⟨_, rfl⟩
  have htables := pagingNewTables_keepsTaken hdir flags r.2 n hn.le
  unfold pagingNew4gb
  rw [← hn, hr]
  dsimp only
  generalize pagingNewTables r.1 flags n r.2 = s at htables
  have hchunk := kzalloc_cases 4 (by decide) (by decide) s.2
  have hlast : KeepsTaken s.2 (kzalloc 4 s.2).2 := kzalloc_keepsTaken (by decide) (by decide) s.2
  refine ((hkeep.trans htables).trans hlast).trans (KeepsTaken.of_same fun x hx => ?_)
  have hword := write32_table hchunk (show 0 < 1024 by decide) (kzalloc 4 s.2).2.mem r.1 hx
  rwa [off_zero] at hword

/-! ### A task is made -/

/-- The macro `ISERR`. -/
def isErr (value : UInt32) : Bool := i32 value.toNat < 0

theorem isErr_blockAddr {b : ℕ} (hb : b < 25600) : isErr (blockAddr b) = false := by
  have haddr := toNat_blockAddr hb
  unfold isErr
  rw [decide_eq_false_iff_not, i32_of_range (by omega) (by omega)]
  omega

/-- What a `task_new` that returns no error has done: a block that was free is taken, and the
task in it, with null links, joins the list. -/
structure MadeTask (st : TaskState) (r : UInt32 × TaskState) (b : ℕ) : Prop where
  lt : b < 25600
  addr : r.1 = blockAddr b
  free : EntryFree kernelHeap st.kernel.mem b
  taken : ¬ EntryFree kernelHeap r.2.kernel.mem b
  keeps : KeepsTaken st.kernel r.2.kernel
  joins : ∃ k t, t.next = 0 ∧ t.prev = 0 ∧ r.2 = taskAppend (blockAddr b)
    { st with kernel := k, tasks := Function.update st.tasks (blockAddr b) t }

variable {p : UInt32} {process : Process} {st : TaskState}

theorem taskInitRegisters_links {chunk : UInt32} {m : Mem} :
    (taskInitRegisters p process chunk m).2.next = 0 ∧
      (taskInitRegisters p process chunk m).2.prev = 0 := by
  unfold taskInitRegisters
  split_ifs <;> exact ⟨rfl, rfl⟩

/-- The result of `task_init` is an error or 0. -/
theorem taskInitRegisters_res {chunk : UInt32} {m : Mem} :
    (taskInitRegisters p process chunk m).1 = 0 ∨
      (taskInitRegisters p process chunk m).1 = - EIO := by
  rcases eq_or_ne chunk 0 with hnull | hne
  · unfold taskInitRegisters
    rw [if_pos hnull]
    exact Or.inr rfl
  · exact Or.inl (taskInitRegisters_of_ne p process m hne).1

theorem taskNew_of_not_err (hok : isErr (taskNew p process st).1 = false) :
    ∃ b, MadeTask st (taskNew p process st) b := by
  rcases hk : kzalloc 64 st.kernel with ⟨a, k₁⟩
  rcases eq_or_ne a 0 with rfl | ha
  · rw [taskNew_of_null hk] at hok
    exact absurd hok (show ¬ isErr (UInt32.ofInt (-ENOMEM)) = false by decide)
  · have ha' : (kzalloc 64 st.kernel).1 ≠ 0 := by rwa [hk]
    obtain ⟨b, hb, haddr, hfree, htaken⟩ := kzalloc_taken (by decide) (by decide) ha'
    have hkeep : KeepsTaken st.kernel (kzalloc 64 st.kernel).2 :=
      kzalloc_keepsTaken (by decide) (by decide) st.kernel
    rw [hk] at haddr htaken hkeep
    dsimp only at haddr htaken hkeep
    have hspace := pagingNew4gb_keepsTaken (1 ||| 4) k₁
    rcases hnew : pagingNew4gb (1 ||| 4) k₁ with ⟨chunk, k₂⟩
    rw [hnew] at hspace
    dsimp only at hspace
    rw [taskNew_of_ne hk ha (taskInit_eq hnew)] at hok ⊢
    rcases @taskInitRegisters_res p process chunk k₂.mem with hres | hres
    · rw [if_neg (not_not.mpr hres)]
      subst haddr
      refine ⟨b, hb, rfl, hfree, ?_, ?_, k₂, _, taskInitRegisters_links.1,
        taskInitRegisters_links.2, rfl⟩
      · dsimp only
        rw [taskAppend_kernel]
        exact hspace b hb htaken
      · dsimp only
        rw [taskAppend_kernel]
        exact hkeep.trans hspace
    · rw [if_pos (by rw [hres]; decide), hres] at hok
      exact absurd hok (show ¬ isErr (UInt32.ofInt (- EIO)) = false by decide)

/-! ### Runs -/

/-- A run of `n` successful calls of `task_new`, and of `task_switch` to the tasks made, with
these tasks in the order they were made. -/
inductive CreationRun : ℕ → Machine → List UInt32 → Prop
  | start (st : Machine) (hhead : st.sched.taskHead = 0) (htail : st.sched.taskTail = 0)
      (hcurrent : st.sched.currentTask = 0) : CreationRun 0 st []
  | new {n : ℕ} {st : Machine} {tasks : List UInt32} (h : CreationRun n st tasks) (p : UInt32)
      (process : Process) (hok : isErr (taskNew p process st.sched).1 = false) :
      CreationRun (n + 1) { st with sched := (taskNew p process st.sched).2 }
        (tasks ++ [(taskNew p process st.sched).1])
  | switch {n : ℕ} {st : Machine} {tasks : List UInt32} {task : UInt32}
      (h : CreationRun n st tasks) (htask : task ∈ tasks) :
      CreationRun n (taskSwitch task st) tasks

/-- The tasks made are linked in order, and each lies in a block that is taken. -/
structure TasksMade (st : TaskState) (tasks : List UInt32) : Prop where
  linked : TasksLinked st tasks
  taken : ∀ a ∈ tasks, ∃ b < 25600, a = blockAddr b ∧ ¬ EntryFree kernelHeap st.kernel.mem b

/-- A new task is none of those made before. -/
theorem TasksMade.new {tasks : List UInt32} (h : TasksMade st tasks) {r : UInt32 × TaskState}
    {b : ℕ} (hmade : MadeTask st r b) : TasksMade r.2 (tasks ++ [r.1]) := by
  have hmem : blockAddr b ∉ tasks := fun hmem => by
    obtain ⟨c, hc, hbc, htaken⟩ := h.taken _ hmem
    obtain rfl := blockAddr_inj hmade.lt hc hbc
    exact htaken hmade.free
  rw [hmade.addr]
  constructor
  · obtain ⟨k, t, hnext, hprev, heq⟩ := hmade.joins
    rw [heq]
    exact h.linked.new hnext hprev (blockAddr_ne_zero hmade.lt) hmem
  · intro a ha
    rcases List.mem_append.mp ha with ha | ha
    · obtain ⟨c, hc, haddr, htaken⟩ := h.taken a ha
      exact ⟨c, hc, haddr, hmade.keeps c hc htaken⟩
    · exact ⟨b, hmade.lt, List.mem_singleton.mp ha, hmade.taken⟩

variable {n : ℕ} {mach : Machine} {tasks : List UInt32}

/-- By induction on the run. -/
theorem CreationRun.made (h : CreationRun n mach tasks) :
    TasksMade mach.sched tasks ∧ tasks.length = n := by
  induction h with
  | start st hhead htail hcurrent =>
      refine ⟨⟨⟨⟨hhead, htail, List.nodup_nil, List.not_mem_nil⟩, Or.inr ⟨rfl, hcurrent⟩⟩, ?_⟩, rfl⟩
      exact fun a ha => absurd ha List.not_mem_nil
  | new _ p process hok ih =>
      obtain ⟨b, hmade⟩ := taskNew_of_not_err hok
      refine ⟨ih.1.new hmade, ?_⟩
      rw [List.length_append, List.length_singleton, ih.2]
  | switch _ htask ih => exact ⟨⟨⟨ih.1.linked.1, Or.inl htask⟩, ih.1.taken⟩, ih.2⟩

/-! ### Around the list -/

/-- `current_task` becomes `task_get_next()`. -/
def taskAdvance (st : Machine) : Machine := taskSwitch (taskGetNext st.sched) st

/-- The links stay, and the current task moves around the list. -/
theorem taskAdvance_iterate (st : Machine) (k : ℕ) :
    (taskAdvance^[k] st).sched = { st.sched with
      currentTask := (cyclicNext 0 st.sched.taskHead fun a => (st.sched.tasks a).next)^[k]
        st.sched.currentTask } := by
  induction k with
  | zero => rfl
  | succ k ih =>
      rw [Function.iterate_succ_apply', Function.iterate_succ_apply']
      unfold taskAdvance taskSwitch taskGetNext cyclicNext at ih ⊢
      rw [ih]

/-- **Round robin.**  After `n` successful calls of `task_new` and any switches between the
tasks made, iterating `task_get_next` from the current task visits the `n` tasks in the order
they were made, cyclically from the current one on, each once, and is back after `n` steps and
not before. -/
theorem creationRun_roundRobin (h : CreationRun n mach tasks) (hn : 1 ≤ n) :
    tasks.length = n ∧ tasks.Nodup ∧
      (∃ i < n, (List.range n).map (fun k => (taskAdvance^[k] mach).sched.currentTask) =
        tasks.rotate i) ∧
      (taskAdvance^[n] mach).sched.currentTask = mach.sched.currentTask ∧
      ∀ k, 0 < k → k < n →
        (taskAdvance^[k] mach).sched.currentTask ≠ mach.sched.currentTask := by
  obtain ⟨⟨⟨hlink, hcurrent⟩, -⟩, rfl⟩ := h.made
  have hmem := hcurrent.resolve_right fun h => by simp [h.1] at hn
  obtain ⟨i, hi, hget⟩ := List.mem_iff_getElem.mp hmem
  have hget : tasks[i]? = some mach.sched.currentTask := by rw [List.getElem?_eq_getElem hi, hget]
  have hvisit : ∀ k, tasks[(i + k) % tasks.length]? =
      some (taskAdvance^[k] mach).sched.currentTask := fun k => by
    rw [taskAdvance_iterate]
    exact hlink.cyclicNext_iterate hget k
  refine ⟨rfl, hlink.nodup, ⟨i, hi, ?_⟩, ?_, fun k hk hkn heq => ?_⟩
  · refine List.ext_getElem? fun k => ?_
    rcases Nat.lt_or_ge k tasks.length with hk | hk
    · rw [List.getElem?_rotate hk, Nat.add_comm, hvisit, List.getElem?_map,
        List.getElem?_range hk, Option.map_some]
    · rw [List.getElem?_eq_none (by simpa using hk), List.getElem?_eq_none (by simpa using hk)]
  · have hback := hvisit tasks.length
    rw [Nat.add_mod_right, Nat.mod_eq_of_lt hi, hget, Option.some.injEq] at hback
    exact hback.symm
  · have hk' := hvisit k
    rw [heq, ← hget] at hk'
    have hidx : (i + k) % tasks.length = i :=
      (List.getElem?_inj (Nat.mod_lt _ hn) hlink.nodup).mp hk'
    rcases Nat.lt_or_ge (i + k) tasks.length with hlt | hge
    · rw [Nat.mod_eq_of_lt hlt] at hidx
      omega
    · rw [Nat.mod_eq_sub_mod hge, Nat.mod_eq_of_lt (by omega)] at hidx
      omega

/-- Two tasks are made in a fresh kernel, and the second one is switched to. -/
theorem exists_creationRun_two : ∃ mach t₁ t₂, CreationRun 2 mach [t₁, t₂] ∧
    mach.sched.currentTask = t₂ := by
  obtain ⟨mach, hmach⟩ : ∃ mach : Machine, mach.sched = ⟨freshKernel, fun _ => taskZero, 0, 0, 0⟩ :=
    ⟨⟨⟨freshKernel, fun _ => taskZero, 0, 0, 0⟩, fun _ => processFullZero, 0, fun _ => 0⟩, rfl⟩
  have htop : TopFree mach.sched.kernel Extents.empty 0 := by
    rw [hmach]
    exact freshKernel_topFree
  have hmade : ∀ {st : TaskState}, (taskNew 0 processInit st).2.kernel.oom = false →
      isErr (taskNew 0 processInit st).1 = false := by
    intro st hok
    obtain ⟨b, s, t, k, hnew, -, heq⟩ := taskNew_ok hok
    rw [heq]
    exact isErr_blockAddr hnew.lt
  obtain ⟨live₁, htop₁, -⟩ := htop.taskNew (by decide) 0 processInit
  obtain ⟨live₂, htop₂, -⟩ := htop₁.taskNew (by decide) 0 processInit
  have hstart : CreationRun 0 mach [] := by
    refine CreationRun.start mach ?_ ?_ ?_ <;> rw [hmach]
  have hone := hstart.new 0 processInit (hmade htop₁.ok)
  have htwo := hone.new 0 processInit (hmade htop₂.ok)
  exact ⟨_, _, _, htwo.switch (by simp), rfl⟩

/-- From the second of two tasks the first one is next, and then the second one again. -/
theorem creationRun_roundRobin_two : ∃ mach t₁ t₂, CreationRun 2 mach [t₁, t₂] ∧ t₁ ≠ t₂ ∧
    mach.sched.currentTask = t₂ ∧ (taskAdvance mach).sched.currentTask = t₁ ∧
      (taskAdvance^[2] mach).sched.currentTask = t₂ := by
  obtain ⟨mach, t₁, t₂, hrun, hcurrent⟩ := exists_creationRun_two
  obtain ⟨-, hnodup, ⟨i, hi, hvisit⟩, hback, -⟩ := creationRun_roundRobin hrun (by decide)
  have hne : t₁ ≠ t₂ := fun h => (List.nodup_cons.mp hnodup).1 (List.mem_singleton.mpr h)
  have hfirst : mach.sched.currentTask = ([t₁, t₂].rotate i).head?.getD 0 := by
    rw [← hvisit]
    rfl
  have hi1 : i = 1 := by
    rcases (by omega : i = 0 ∨ i = 1) with rfl | rfl
    · exact absurd (hfirst.symm.trans hcurrent) hne
    · rfl
  subst hi1
  exact ⟨mach, t₁, t₂, hrun, hne, hcurrent, (List.cons.inj (List.cons.inj hvisit).2).1,
    hback.trans hcurrent⟩

end PeachOS
