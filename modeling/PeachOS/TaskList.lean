import PeachOS.LinkedList
import PeachOS.PagingFree
import PeachOS.Task

/-! # The list of tasks

Runs of `task_new` and `task_free` (`TaskRun`), with the live tasks in the order they were made.
The tasks are linked in that order, and the globals of `task.c` point to them
(`TasksLinked`), as long as only the last task of the list is freed: `taskRun_linked`.

That a new task is none of the live ones is a matter of the heap: each live task owns its block
and those of its address space (`HoldsTask`), and `task_free` frees exactly those. -/

namespace PeachOS

open ByteMemory LinkedList

/-! ### The links -/

/-- The live tasks are linked in order from `task_head` to `task_tail` and back, and
`current_task` is one of them; it is null when there is none. -/
def TasksLinked (st : TaskState) (live : List UInt32) : Prop :=
  Linked 0 (fun a => (st.tasks a).next) (fun a => (st.tasks a).prev) st.taskHead st.taskTail live ∧
    (st.currentTask ∈ live ∨ live = [] ∧ st.currentTask = 0)

variable {st : TaskState} {live : List UInt32} {task : UInt32}

/-- A task with null links joins the list at its end. -/
theorem TasksLinked.append (h : TasksLinked st live) (htask : task ≠ 0) (hmem : task ∉ live)
    (hnext : (st.tasks task).next = 0) (hprev : (st.tasks task).prev = 0) :
    TasksLinked (taskAppend task st) (live ++ [task]) := by
  obtain ⟨hlink, hcurrent⟩ := h
  unfold taskAppend
  by_cases hhead : st.taskHead = 0
  · obtain rfl := hlink.head_eq_null.mp hhead
    rw [if_pos hhead]
    exact ⟨Linked.single hnext hprev htask, Or.inl (List.mem_singleton_self task)⟩
  · have hne : live ≠ [] := mt hlink.head_eq_null.mpr hhead
    have htail : task ≠ st.taskTail := fun e => hmem (e ▸ hlink.tail_mem hne)
    rw [if_neg hhead]
    refine ⟨?_, Or.inl (List.mem_append_left _ (hcurrent.resolve_right fun h => hne h.1))⟩
    have hlinked := hlink.concat hne htask hmem hnext
    convert hlinked using 1
    · funext a
      simp only [Function.update_apply]
      split_ifs <;> simp_all
    · funext a
      simp only [Function.update_apply]
      split_ifs <;> simp_all

/-- The last task leaves the list. -/
theorem TasksLinked.remove_last (h : TasksLinked st (live ++ [task])) :
    TasksLinked (taskListRemove task st) live := by
  obtain ⟨hlink, hcurrent⟩ := h
  have hnext : (st.tasks task).next = 0 := (path_concat.mp hlink.forward).2
  have htail := hlink.tail_eq
  have hcurrent : st.currentTask ∈ live ∨ st.currentTask = task := by
    rcases hcurrent with h | h
    · exact (List.mem_append.mp h).imp_right List.mem_singleton.mp
    · exact absurd h.1 (by simp)
  rcases eq_or_ne live [] with rfl | hne
  · have hhead : st.taskHead = task := hlink.forward.1
    have hprev : (st.tasks task).prev = 0 := hlink.backward.2
    have hcur : st.currentTask = task := hcurrent.resolve_left List.not_mem_nil
    unfold taskListRemove taskGetNext
    simp only [hprev, hhead, htail, hcur, hnext, ne_eq, not_true_eq_false, if_false, if_true]
    exact ⟨⟨rfl, rfl, List.nodup_nil, List.not_mem_nil⟩, Or.inr ⟨rfl, rfl⟩⟩
  · obtain ⟨hprev, hlinked⟩ := hlink.dropLast hne
    have hmem : task ∉ live := fun hm =>
      (List.nodup_append.mp hlink.nodup).2.2 task hm task (List.mem_singleton_self task) rfl
    have hhead : task ≠ st.taskHead := fun e => hmem (e ▸ hlinked.head_mem hne)
    have hself : task ≠ (st.tasks task).prev := fun e => hmem (e ▸ hlinked.tail_mem hne)
    have hlinks : Linked 0
        (fun a => (Function.update st.tasks (st.tasks task).prev
          { st.tasks (st.tasks task).prev with next := 0 } a).next)
        (fun a => (Function.update st.tasks (st.tasks task).prev
          { st.tasks (st.tasks task).prev with next := 0 } a).prev)
        st.taskHead (st.tasks task).prev live := by
      convert hlinked using 1
      · funext a
        simp only [Function.update_apply]
        split_ifs <;> rfl
      · funext a
        simp only [Function.update_apply]
        split_ifs with ha
        · rw [ha]
        · rfl
    unfold taskListRemove taskGetNext
    simp only [hnext, ne_eq, hprev, not_false_eq_true, if_true, if_neg hhead, htail,
      Function.update_of_ne hself]
    split_ifs with hcur h0
    · exact ⟨hlinks, Or.inl (hlinked.head_mem hne)⟩
    · rw [← hcur, Function.update_of_ne hself] at h0
      exact absurd hnext h0
    · exact ⟨hlinks, Or.inl (hcurrent.resolve_right (Ne.symm hcur))⟩

/-! ### The blocks of a task -/

/-- The block of a task and those of its address space. -/
structure TaskBlocks where
  block : ℕ
  space : SpaceBlocks
  block_lt : block < 25600
  block_notMem : block ∉ space.blocks

def TaskBlocks.blocks (s : TaskBlocks) : Set ℕ := insert s.block s.space.blocks

theorem TaskBlocks.lt (s : TaskBlocks) {b : ℕ} (h : b ∈ s.blocks) : b < 25600 := by
  rcases h with rfl | rfl | rfl | ⟨i, hi, rfl⟩
  · exact s.block_lt
  · exact s.space.chunk_lt
  · exact s.space.directory_lt
  · exact s.space.table_lt i hi

theorem TaskBlocks.nonempty : Nonempty TaskBlocks := by
  have hspace : ∃ s : SpaceBlocks, ∀ b ∈ s.blocks, 0 < b := by
    refine ⟨⟨1, 2, fun i => 3 + i % 1024, by decide, by decide, fun i _ => by omega, by decide,
      fun i _ => by omega, fun i _ => by omega, fun i hi j hj h => by omega⟩, ?_⟩
    rintro b (rfl | rfl | ⟨i, -, rfl⟩) <;> dsimp only <;> omega
  obtain ⟨s, hs⟩ := hspace
  exact ⟨⟨0, s, by decide, fun h => absurd (hs 0 h) (lt_irrefl 0)⟩⟩

/-- The task at `a` lies in the blocks `s`, each an allocation of its own. -/
structure HoldsTask (k : Kernel) (t : Task) (a : UInt32) (s : TaskBlocks) : Prop where
  addr : a = blockAddr s.block
  pageDirectory : t.pageDirectory = blockAddr s.space.chunk
  tables : PageTables k.mem s.space
  single : ∀ c ∈ s.blocks, kernelHeap.entry k.mem c = blockEntry 1 0

theorem HoldsTask.congr {k k' : Kernel} {t t' : Task} {a : UInt32} {s : TaskBlocks}
    (h : HoldsTask k t a s) (ht : t'.pageDirectory = t.pageDirectory)
    (hmem : ∀ c ∈ s.blocks, ∀ x, InBlock c x → k'.mem x = k.mem x)
    (hentry : ∀ c ∈ s.blocks, kernelHeap.entry k'.mem c = kernelHeap.entry k.mem c) :
    HoldsTask k' t' a s where
  addr := h.addr
  pageDirectory := ht.trans h.pageDirectory
  tables := h.tables.congr (hmem _ (Set.mem_insert_of_mem _ (Or.inl rfl)))
    (hmem _ (Set.mem_insert_of_mem _ (Or.inr (Or.inl rfl))))
  single c hc := (hentry c hc).trans (h.single c hc)

theorem HoldsTask.taken {k : Kernel} {t : Task} {a : UInt32} {s : TaskBlocks}
    (h : HoldsTask k t a s) {c : ℕ} (hc : c ∈ s.blocks) : ¬ EntryFree kernelHeap k.mem c := by
  unfold EntryFree
  rw [h.single c hc]
  exact blockEntry_type 1 0

/-- Every live task lies in blocks of its own. -/
structure TasksHeld (st : TaskState) (live : List UInt32) (own : UInt32 → TaskBlocks) : Prop where
  holds : ∀ a ∈ live, HoldsTask st.kernel (st.tasks a) a (own a)
  apart : ∀ a ∈ live, ∀ a' ∈ live, a ≠ a' → ∀ c ∈ (own a).blocks, c ∉ (own a').blocks

/-- `task_free` clears the entries of the blocks of the task and nothing else. -/
theorem taskFree_apply {s : TaskBlocks} (h : HoldsTask st.kernel (st.tasks task) task s)
    {x : UInt32} (hx : ∀ c ∈ s.blocks, x ≠ off 0x7e00 c) :
    (taskFree task st).kernel.mem x = st.kernel.mem x := by
  have hspace : ∀ c ∈ s.space.blocks, c ∈ s.blocks := fun c hc => Set.mem_insert_of_mem _ hc
  have hself : s.block ∈ s.blocks := Set.mem_insert _ _
  have hfree := fun x hx => pagingFree4gb_apply (x := x) h.tables
    (fun c hc => h.single c (hspace c hc)) hx
  have hone : kernelHeap.entry (pagingFree4gb (blockAddr s.space.chunk) st.kernel).mem s.block =
      blockEntry 1 0 := by
    rw [← h.single _ hself]
    refine hfree _ fun c hc e => s.block_notMem ?_
    have hlt := s.lt (hspace c hc)
    have hblock := s.block_lt
    rwa [off_inj (by omega) (by omega) e]
  unfold taskFree
  dsimp only
  rw [taskListRemove_kernel, h.pageDirectory, h.addr,
    (kfree_block s.block_lt hone).2 x (hx _ hself)]
  exact hfree x fun c hc => hx c (hspace c hc)

theorem taskListRemove_pageDirectory (task : UInt32) (st : TaskState) (x : UInt32) :
    ((taskListRemove task st).tasks x).pageDirectory = (st.tasks x).pageDirectory := by
  have hsame := (sameTask_update st.tasks (st.tasks task).prev
    (t := { st.tasks (st.tasks task).prev with next := (st.tasks task).next }) ⟨rfl, rfl, rfl⟩ x).1
  unfold taskListRemove
  dsimp only
  split_ifs
  all_goals first
    | rfl
    | exact hsame

/-- Freeing a live task keeps the others. -/
theorem TasksHeld.free {own : UInt32 → TaskBlocks} (h : TasksHeld st live own)
    (hnodup : live.Nodup) (hmem : task ∈ live) :
    TasksHeld (taskFree task st) (live.erase task) own := by
  have hrest : ∀ a ∈ live.erase task, a ∈ live ∧ a ≠ task := fun a ha =>
    ((List.Nodup.mem_erase_iff hnodup).mp ha).symm
  refine ⟨fun a ha => ?_, fun a ha a' ha' => h.apart a (hrest a ha).1 a' (hrest a' ha').1⟩
  obtain ⟨hlive, hne⟩ := hrest a ha
  have hapart := h.apart a hlive task hmem hne
  refine (h.holds a hlive).congr (taskListRemove_pageDirectory _ _ a) (fun c hc x hx => ?_)
    fun c hc => ?_
  · exact taskFree_apply (h.holds task hmem) fun d hd =>
      hx.ne_entry ((own a).lt hc) ((own task).lt hd)
  · refine taskFree_apply (h.holds task hmem) fun d hd e => hapart c hc ?_
    have hcl := (own a).lt hc
    have hdl := (own task).lt hd
    rwa [off_inj (by omega) (by omega) e]

/-- A new task lies in blocks that no live task owns. -/
theorem TasksHeld.new {own : UInt32 → TaskBlocks} (h : TasksHeld st live own) {p : UInt32}
    {k : Kernel} {b : ℕ} {s : SpaceBlocks} {t : Task} (hnew : NewTask p st.kernel k b s t) :
    blockAddr b ∉ live ∧ ∃ own', TasksHeld (taskAppend (blockAddr b)
      { st with kernel := k, tasks := Function.update st.tasks (blockAddr b) t })
      (live ++ [blockAddr b]) own' := by
  have hnot : ∀ a ∈ live, ∀ c ∈ (own a).blocks, c ∉ insert b s.blocks := fun a ha c hc =>
    hnew.takes.not_mem ((h.holds a ha).taken hc)
  have hmem : blockAddr b ∉ live := by
    intro hlive
    have haddr := (h.holds _ hlive).addr
    have hb := blockAddr_inj hnew.lt (own (blockAddr b)).block_lt haddr
    exact hnot _ hlive _ (Set.mem_insert _ _) (Set.mem_insert_iff.mpr (Or.inl hb.symm))
  refine ⟨hmem, Function.update own (blockAddr b) ⟨b, s, hnew.lt, hnew.not_mem⟩, ?_⟩
  have hown : ∀ a ∈ live, Function.update own (blockAddr b) ⟨b, s, hnew.lt, hnew.not_mem⟩ a =
      own a := fun a ha => Function.update_of_ne (fun e : a = blockAddr b => hmem (e ▸ ha)) _ _
  refine ⟨fun a ha => ?_, fun a ha a' ha' hne c hc => ?_⟩
  · have hsame := (taskAppend_sameTask (blockAddr b)
      { st with kernel := k, tasks := Function.update st.tasks (blockAddr b) t } a).1
    rw [taskAppend_kernel]
    dsimp only at hsame ⊢
    rcases List.mem_append.mp ha with ha | ha
    · have hne : a ≠ blockAddr b := fun e => hmem (e ▸ ha)
      rw [Function.update_of_ne hne] at hsame
      rw [hown a ha]
      have hold := h.holds a ha
      refine hold.congr hsame (fun c hc x hx => ?_) fun c hc => ?_
      · exact hnew.takes.same ((own a).lt hc) (hold.taken hc) hx
      · exact hnew.takes.entries c ((own a).lt hc) (hnot a ha c hc)
    · obtain rfl := List.mem_singleton.mp ha
      rw [Function.update_self] at hsame ⊢
      exact ⟨rfl, hsame.trans hnew.pageDirectory, hnew.space.tables, hnew.takes.single⟩
  · rcases List.mem_append.mp ha with ha | ha <;> rcases List.mem_append.mp ha' with ha' | ha'
    · rw [hown a ha] at hc
      rw [hown a' ha']
      exact h.apart a ha a' ha' hne c hc
    · rw [hown a ha] at hc
      rw [List.mem_singleton.mp ha', Function.update_self]
      exact hnot a ha c hc
    · rw [List.mem_singleton.mp ha, Function.update_self] at hc
      rw [hown a' ha']
      exact fun hc' => hnot a' ha' c hc' hc
    · exact absurd ((List.mem_singleton.mp ha).trans (List.mem_singleton.mp ha').symm) hne

/-! ### Runs -/

/-- A run of `task_new` that succeeds and of `task_free` on live tasks, with the live tasks in
the order they were made.  Every `task_free` is `ok` where it is called. -/
inductive TaskRun (ok : TaskState → UInt32 → Prop) : TaskState → List UInt32 → Prop
  | start (k : Kernel) (tasks : UInt32 → Task) : TaskRun ok ⟨k, tasks, 0, 0, 0⟩ []
  | new {st : TaskState} {live : List UInt32} (h : TaskRun ok st live) (p : UInt32)
      (process : Process) (hok : (taskNew p process st).2.kernel.oom = false) :
      TaskRun ok (taskNew p process st).2 (live ++ [(taskNew p process st).1])
  | free {st : TaskState} {live : List UInt32} {task : UInt32} (h : TaskRun ok st live)
      (hlive : task ∈ live) (hok : ok st task) : TaskRun ok (taskFree task st) (live.erase task)

/-- The links behind `task_new`, whatever it did to the kernel. -/
theorem TasksLinked.new (h : TasksLinked st live) {k : Kernel} {t : Task} (hnext : t.next = 0)
    (hprev : t.prev = 0) (htask : task ≠ 0) (hmem : task ∉ live) : TasksLinked (taskAppend task
      { st with kernel := k, tasks := Function.update st.tasks task t }) (live ++ [task]) := by
  have hsame : ∀ a ∈ live, Function.update st.tasks task t a = st.tasks a :=
    fun a ha => Function.update_of_ne (fun e : a = task => hmem (e ▸ ha)) _ _
  refine TasksLinked.append ⟨?_, h.2⟩ htask hmem ?_ ?_
  · exact h.1.congr (fun a ha => congrArg Task.next (hsame a ha))
      fun a ha => congrArg Task.prev (hsame a ha)
  · dsimp only
    rw [Function.update_self]
    exact hnext
  · dsimp only
    rw [Function.update_self]
    exact hprev

/-- Freeing the last task keeps the links. -/
theorem TasksLinked.free_last (h : TasksLinked st live) (hmem : task ∈ live)
    (hlast : task = st.taskTail) : TasksLinked (taskFree task st) (live.erase task) := by
  obtain ⟨l, x, rfl⟩ := (List.eq_nil_or_concat' live).resolve_left (List.ne_nil_of_mem hmem)
  obtain rfl : x = task := h.1.tail_eq.symm.trans hlast.symm
  have hx : x ∉ l := fun hx =>
    (List.nodup_append.mp h.1.nodup).2.2 x hx x (List.mem_singleton_self x) rfl
  rw [List.erase_append_right _ hx, List.erase_cons_head, List.append_nil]
  have hfreed : TasksLinked { st with
      kernel := pagingFree4gb (st.tasks x).pageDirectory st.kernel } (l ++ [x]) := h
  exact hfreed.remove_last

/-- No store of `task_free` is to a field `prev`. -/
theorem taskFree_prev (task : UInt32) (st : TaskState) (x : UInt32) :
    ((taskFree task st).tasks x).prev = (st.tasks x).prev := by
  have hsame : (Function.update st.tasks (st.tasks task).prev
      { st.tasks (st.tasks task).prev with next := (st.tasks task).next } x).prev =
        (st.tasks x).prev := by
    rcases eq_or_ne x (st.tasks task).prev with rfl | hx
    · rw [Function.update_self]
    · rw [Function.update_of_ne hx]
  unfold taskFree taskListRemove
  dsimp only
  split_ifs
  all_goals first
    | rfl
    | exact hsame

/-- Freeing a live task keeps the links if and only if it is the last one: `prev` of the task
behind it is not set. -/
theorem TasksLinked.free_iff (h : TasksLinked st live) (hmem : task ∈ live) :
    TasksLinked (taskFree task st) (live.erase task) ↔ task = st.taskTail := by
  refine ⟨fun hfree => ?_, h.free_last hmem⟩
  by_contra hne
  obtain ⟨y, hy, hprev⟩ := h.1.exists_prev hmem hne
  have htask : task ≠ 0 := fun h0 => h.1.notMem (h0 ▸ hmem)
  have hyt : y ≠ task := by
    rintro rfl
    exact absurd hprev (h.1.prev_ne hy)
  have hye : y ∈ live.erase task := (List.mem_erase_of_ne hyt).mpr hy
  have hin := hfree.1.prev_mem hye
  rw [taskFree_prev, hprev] at hin
  rcases hin with h0 | hin
  · exact htask h0
  · exact ((List.Nodup.mem_erase_iff h.1.nodup).mp hin).1 rfl

/-- The task is the last of the list. -/
def IsLast (st : TaskState) (task : UInt32) : Prop := task = st.taskTail

theorem TaskRun.held_linked (h : TaskRun IsLast st live) :
    (∃ own, TasksHeld st live own) ∧ TasksLinked st live := by
  induction h with
  | start k tasks =>
      obtain ⟨s⟩ := TaskBlocks.nonempty
      refine ⟨⟨fun _ => s, ⟨?_, ?_⟩⟩, ⟨rfl, rfl, List.nodup_nil, List.not_mem_nil⟩,
        Or.inr ⟨rfl, rfl⟩⟩
      · exact fun a ha => absurd ha List.not_mem_nil
      · exact fun a ha => absurd ha List.not_mem_nil
  | new _ p process hok ih =>
      obtain ⟨⟨own, hheld⟩, hlinked⟩ := ih
      obtain ⟨b, s, t, k, hnew, -, heq⟩ := taskNew_ok hok
      obtain ⟨hmem, hheld'⟩ := hheld.new hnew
      rw [heq]
      exact ⟨hheld', hlinked.new hnew.next hnew.prev (blockAddr_ne_zero hnew.lt) hmem⟩
  | free _ hlive hok ih =>
      obtain ⟨⟨own, hheld⟩, hlinked⟩ := ih
      exact ⟨⟨own, hheld.free hlinked.1.nodup hlive⟩, hlinked.free_last hlive hok⟩

/-- The tasks that the globals of `task.c` lead to along both links. -/
inductive TaskReached (st : TaskState) : UInt32 → Prop
  | head : TaskReached st st.taskHead
  | tail : TaskReached st st.taskTail
  | current : TaskReached st st.currentTask
  | next {a : UInt32} (h : TaskReached st a) (ha : a ≠ 0) : TaskReached st (st.tasks a).next
  | prev {a : UInt32} (h : TaskReached st a) (ha : a ≠ 0) : TaskReached st (st.tasks a).prev

/-- No freed task is reached. -/
theorem TasksLinked.reached (h : TasksLinked st live) {a : UInt32} (ha : TaskReached st a) :
    a = 0 ∨ a ∈ live := by
  induction ha with
  | head => exact h.1.forward.start_mem
  | tail => exact h.1.backward.start_mem.imp_right List.mem_reverse.mp
  | current => exact h.2.symm.imp_left And.right
  | next _ ha ih => exact h.1.forward.step_mem (ih.resolve_left ha)
  | prev _ ha ih => exact h.1.prev_mem (ih.resolve_left ha)

/-- **The list of tasks stays whole** in every run in which only the last task of the list is
freed: the links, the globals and what is reached from them are those of the live tasks.  The
first `task_free` of another task breaks it. -/
theorem taskRun_linked (h : TaskRun IsLast st live) :
    TasksLinked st live ∧ (∀ a, TaskReached st a → a = 0 ∨ a ∈ live) ∧
      ∀ task ∈ live, TasksLinked (taskFree task st) (live.erase task) ↔ IsLast st task := by
  obtain ⟨-, hlinked⟩ := h.held_linked
  exact ⟨hlinked, fun _ ha => hlinked.reached ha, fun _ hmem => hlinked.free_iff hmem⟩

/-! ### Two tasks -/

theorem exists_twoTasks (ok : TaskState → UInt32 → Prop) :
    ∃ st a b, TaskRun ok st [a, b] ∧ TaskRun IsLast st [a, b] := by
  obtain ⟨st₀, hst₀⟩ : ∃ st₀ : TaskState, st₀ = ⟨freshKernel, fun _ => taskZero, 0, 0, 0⟩ :=
    ⟨_, rfl⟩
  have htop₀ : TopFree st₀.kernel Extents.empty 0 := by
    rw [hst₀]
    exact freshKernel_topFree
  have hstart : ∀ ok, TaskRun ok st₀ [] := fun ok => hst₀ ▸ TaskRun.start freshKernel _
  obtain ⟨live₁, htop₁, -⟩ := htop₀.taskNew (by decide) 0 processInit
  obtain ⟨live₂, htop₂, -⟩ := htop₁.taskNew (by decide) 0 processInit
  have hrun := fun ok => ((hstart ok).new 0 processInit htop₁.ok).new 0 processInit htop₂.ok
  exact ⟨_, _, _, hrun ok, hrun IsLast⟩

/-- The first of two tasks is freed. -/
theorem taskRun_linked_first : ∃ st a b, TaskRun (fun _ _ => True) st [a, b] ∧
    TaskRun (fun _ _ => True) (taskFree a st) [b] ∧ ((taskFree a st).tasks b).prev = a ∧ a ≠ 0 ∧
      ¬ TasksLinked (taskFree a st) [b] := by
  obtain ⟨st, a, b, hrun, hlast⟩ := exists_twoTasks fun _ _ => True
  obtain ⟨-, hlinked⟩ := hlast.held_linked
  have hmem : a ∈ [a, b] := List.mem_cons_self
  have herase : [a, b].erase a = [b] := List.erase_cons_head a [b]
  have hne : a ≠ b := fun e => (List.nodup_cons.mp hlinked.1.nodup).1 (e ▸ List.mem_cons_self)
  obtain ⟨htail, hprev, -⟩ := hlinked.1.backward
  have hfree := hrun.free hmem trivial
  have hiff := hlinked.free_iff hmem
  rw [herase] at hfree hiff
  refine ⟨st, a, b, hrun, hfree, ?_, fun h0 => hlinked.1.notMem (h0 ▸ hmem), fun h => ?_⟩
  · rw [taskFree_prev]
    exact hprev
  · exact hne ((hiff.mp h).trans htail)

theorem taskRun_linked_two : ∃ st a b, TaskRun IsLast st [a, b] ∧ TasksLinked st [a, b] ∧
    TasksLinked (taskFree b st) [a] := by
  obtain ⟨st, a, b, -, hrun⟩ := exists_twoTasks IsLast
  obtain ⟨hlinked, -, hiff⟩ := taskRun_linked hrun
  have hmem : b ∈ [a, b] := List.mem_cons_of_mem a List.mem_cons_self
  have hne : a ≠ b := fun e => (List.nodup_cons.mp hlinked.1.nodup).1 (e ▸ List.mem_cons_self)
  have herase : [a, b].erase b = [a] := by
    rw [List.erase_cons_tail (by simpa using hne), List.erase_cons_head]
  have hfree := (hiff b hmem).mpr hlinked.1.backward.1.symm
  rw [herase] at hfree
  exact ⟨st, a, b, hrun, hlinked, hfree⟩

end PeachOS
