import PeachOS.Machine
import PeachOS.RingBuffer

/-! # The keyboard ring

`keyboard_push` and `keyboard_pop` of `keyboard.c`.  A push writes behind the last character
without looking whether the ring is full; a pop takes the slot at `head` and reports nothing
if that slot is zero.

`KeyLog` is the state together with the characters pushed and the non-zero results of the
pops; `KeyRun` is any interleaving of the two calls on one process.  While a push never meets
1024 unread characters, the pops deliver the pushed characters in order (`keyboard_fifo`,
`keyboard_order`).  A push that does overwrites the oldest one with the newest, which is then
delivered out of order. -/

namespace PeachOS

open ByteMemory RingBuffer

/-! ### The code -/

/-- `keyboard_get_tail_index`: `sizeof` makes the remainder unsigned. -/
def keyboardGetTailIndex (kb : KeyboardBuffer) : ℕ := kb.tail.toNat % peachosKeyboardBufferSize

/-- `keyboard_push` on the buffer of the current process. -/
def KeyboardBuffer.push (kb : KeyboardBuffer) (c : UInt8) : KeyboardBuffer :=
  if c = 0 then kb
  else { kb.setSlot (keyboardGetTailIndex kb) c with tail := kb.tail + 1 }

/-- `keyboard_pop` on the buffer of the process of the current task. -/
def KeyboardBuffer.pop (kb : KeyboardBuffer) : UInt8 × KeyboardBuffer :=
  let realIndex := kb.head.toNat % peachosKeyboardBufferSize
  let c := kb.buffer.getD realIndex 0
  if c = 0 then (0, kb) else (c, { kb.setSlot realIndex 0 with head := kb.head + 1 })

/-- `keyboard_push`. -/
def keyboardPush (c : UInt8) (st : Machine) : Machine :=
  let p := processCurrent st
  if p = 0 then st
  else st.setProc p { st.procs p with keyboard := (st.procs p).keyboard.push c }

/-- `keyboard_pop`. -/
def keyboardPop (st : Machine) : UInt8 × Machine :=
  if taskCurrent st = 0 then (0, st)
  else
    let p := (st.sched.tasks (taskCurrent st)).process
    let popped := (st.procs p).keyboard.pop
    (popped.1, st.setProc p { st.procs p with keyboard := popped.2 })

/-! ### The ring of a buffer -/

/-- The buffer holds the unread characters `u`, of which `n` were read before. -/
structure KeyboardBuffer.Queue (kb : KeyboardBuffer) (n : ℕ) (u : List UInt8) : Prop where
  holds : Holds kb.buffer 0 n u
  head : kb.head = UInt32.ofNat n
  tail : kb.tail = UInt32.ofNat (n + u.length)
  nonzero : ∀ c ∈ u, c ≠ 0

variable {kb : KeyboardBuffer} {n : ℕ} {u : List UInt8} {c : UInt8}

theorem keyboardBufferZero_queue : keyboardBufferZero.Queue 0 [] :=
  ⟨holds_empty 0 (by decide) 0, rfl, rfl, fun c hc => absurd hc List.not_mem_nil⟩

/-- Counters that wrap at `2 ^ 32` address the slots like numbers that do not. -/
theorem toNat_ofNat_mod (n : ℕ) :
    (UInt32.ofNat n).toNat % peachosKeyboardBufferSize = n % peachosKeyboardBufferSize := by
  rw [UInt32.toNat_ofNat']
  unfold peachosKeyboardBufferSize
  omega

theorem ofNat_add_one (n : ℕ) : UInt32.ofNat n + 1 = UInt32.ofNat (n + 1) := by
  apply UInt32.toNat.inj
  rw [UInt32.toNat_add, UInt32.toNat_ofNat', UInt32.toNat_ofNat', UInt32.toNat_one]
  omega

theorem KeyboardBuffer.push_zero (kb : KeyboardBuffer) : kb.push 0 = kb := if_pos rfl

/-- A push with room appends to the queue. -/
theorem KeyboardBuffer.Queue.push (h : kb.Queue n u) (hroom : u.length < peachosKeyboardBufferSize)
    (hc : c ≠ 0) : (kb.push c).Queue n (u ++ [c]) := by
  have hpush := h.holds.push (by rw [kb.length_buffer]; exact hroom) c
  unfold KeyboardBuffer.push keyboardGetTailIndex
  rw [if_neg hc]
  rw [kb.length_buffer, ← toNat_ofNat_mod, ← h.tail] at hpush
  refine ⟨hpush, h.head, ?_, fun d hd => ?_⟩
  · rw [List.length_append, List.length_singleton, ← Nat.add_assoc, ← ofNat_add_one, ← h.tail]
  · rcases List.mem_append.mp hd with hd | hd
    · exact h.nonzero d hd
    · rw [List.mem_singleton.mp hd]
      exact hc

/-- What a pop finds at the head. -/
theorem KeyboardBuffer.getD_head (kb : KeyboardBuffer) (h : Holds kb.buffer 0 n u)
    (hhead : kb.head = UInt32.ofNat n) :
    kb.buffer.getD (kb.head.toNat % peachosKeyboardBufferSize) 0 = u.head?.getD 0 := by
  have hfront := h.front
  rw [kb.length_buffer, ← toNat_ofNat_mod, ← hhead] at hfront
  rw [List.getD_eq_getElem?_getD, hfront]
  rfl

theorem KeyboardBuffer.Queue.pop_nil (h : kb.Queue n []) : kb.pop = (0, kb) := by
  have hfront : kb.buffer.getD (kb.head.toNat % peachosKeyboardBufferSize) 0 = 0 :=
    kb.getD_head h.holds h.head
  unfold KeyboardBuffer.pop
  dsimp only
  rw [hfront, if_pos rfl]

/-- A pop that finds a character delivers it and clears its slot. -/
theorem KeyboardBuffer.pop_of_holds (h : Holds kb.buffer 0 n (c :: u))
    (hhead : kb.head = UInt32.ofNat n) (hc : c ≠ 0) :
    kb.pop.1 = c ∧ Holds kb.pop.2.buffer 0 (n + 1) u ∧ kb.pop.2.head = UInt32.ofNat (n + 1) ∧
      kb.pop.2.tail = kb.tail := by
  have hfront : kb.buffer.getD (kb.head.toNat % peachosKeyboardBufferSize) 0 = c :=
    kb.getD_head h hhead
  have hpop := h.pop
  rw [kb.length_buffer, ← toNat_ofNat_mod, ← hhead] at hpop
  unfold KeyboardBuffer.pop
  dsimp only
  rw [hfront, if_neg hc]
  refine ⟨rfl, hpop, ?_, rfl⟩
  dsimp only
  rw [hhead, ofNat_add_one]

/-- A pop of a non-empty queue delivers its first character. -/
theorem KeyboardBuffer.Queue.pop_cons (h : kb.Queue n (c :: u)) :
    kb.pop.1 = c ∧ kb.pop.2.Queue (n + 1) u := by
  obtain ⟨hchar, hholds, hhead, htail⟩ :=
    KeyboardBuffer.pop_of_holds h.holds h.head (h.nonzero c List.mem_cons_self)
  refine ⟨hchar, hholds, hhead, ?_, fun d hd => h.nonzero d (List.mem_cons_of_mem c hd)⟩
  rw [htail, h.tail, List.length_cons, Nat.add_right_comm n 1, Nat.add_assoc]

/-- A push onto a full ring replaces its first character. -/
theorem KeyboardBuffer.Queue.push_full {d : UInt8} (h : kb.Queue n (d :: u))
    (hfull : (d :: u).length = peachosKeyboardBufferSize) (hc : c ≠ 0) :
    Holds (kb.push c).buffer 0 n (c :: u) ∧ (kb.push c).head = kb.head := by
  have hover := h.holds.overwrite c
  have hindex : keyboardGetTailIndex kb = n % peachosKeyboardBufferSize := by
    unfold keyboardGetTailIndex
    rw [h.tail, hfull, toNat_ofNat_mod, Nat.add_mod_right]
  rw [kb.length_buffer, ← hindex] at hover
  unfold KeyboardBuffer.push
  rw [if_neg hc]
  exact ⟨hover, rfl⟩

/-- The words `head` and `tail` tell how many characters are unread. -/
theorem KeyboardBuffer.Queue.toNat_sub (h : kb.Queue n u) :
    (kb.tail - kb.head).toNat = u.length := by
  have hfits := h.holds.fits
  rw [kb.length_buffer] at hfits
  unfold peachosKeyboardBufferSize at hfits
  rw [h.tail, h.head, UInt32.toNat_sub, UInt32.toNat_ofNat', UInt32.toNat_ofNat']
  omega

/-! ### Runs -/

/-- `p` is the process that a push stores into and that a pop reads from. -/
structure Reads (st : Machine) (p : UInt32) : Prop where
  nonzero : p ≠ 0
  current : processCurrent st = p
  task : taskCurrent st ≠ 0
  process : (st.sched.tasks (taskCurrent st)).process = p

theorem Reads.setProc {st : Machine} {p : UInt32} (h : Reads st p) (process : ProcessFull) :
    Reads (st.setProc p process) p := ⟨h.nonzero, h.current, h.task, h.process⟩

theorem Reads.push {st : Machine} {p : UInt32} (h : Reads st p) (c : UInt8) :
    keyboardPush c st =
      st.setProc p { st.procs p with keyboard := (st.procs p).keyboard.push c } := by
  unfold keyboardPush
  rw [h.current]
  exact if_neg h.nonzero

theorem Reads.pop {st : Machine} {p : UInt32} (h : Reads st p) :
    keyboardPop st = ((st.procs p).keyboard.pop.1,
      st.setProc p { st.procs p with keyboard := (st.procs p).keyboard.pop.2 }) := by
  unfold keyboardPop
  rw [if_neg h.task, h.process]

/-- The state, the non-zero characters pushed, the non-zero results of pops, and whether a
character was pushed after the last pop. -/
structure KeyLog where
  st : Machine
  pushed : List UInt8
  popped : List UInt8
  fresh : Bool

/-- Before any call. -/
def KeyLog.start (st : Machine) : KeyLog := ⟨st, [], [], false⟩

/-- `keyboard_push(c)`. -/
def KeyLog.push (l : KeyLog) (c : UInt8) : KeyLog where
  st := keyboardPush c l.st
  pushed := if c = 0 then l.pushed else l.pushed ++ [c]
  popped := l.popped
  fresh := if c = 0 then l.fresh else true

/-- `keyboard_pop()`. -/
def KeyLog.pop (l : KeyLog) : KeyLog where
  st := (keyboardPop l.st).2
  pushed := l.pushed
  popped := if (keyboardPop l.st).1 = 0 then l.popped else l.popped ++ [(keyboardPop l.st).1]
  fresh := false

theorem Reads.log_push {l : KeyLog} {p : UInt32} (h : Reads l.st p) (c : UInt8) :
    Reads (l.push c).st p ∧
      ((l.push c).st.procs p).keyboard = (l.st.procs p).keyboard.push c := by
  have hst : (l.push c).st = _ := h.push c
  rw [hst, Machine.setProc_self]
  exact ⟨h.setProc _, rfl⟩

theorem Reads.log_pop {l : KeyLog} {p : UInt32} (h : Reads l.st p) :
    Reads l.pop.st p ∧ (l.pop.st.procs p).keyboard = (l.st.procs p).keyboard.pop.2 ∧
      l.pop.popped = if (l.st.procs p).keyboard.pop.1 = 0 then l.popped
        else l.popped ++ [(l.st.procs p).keyboard.pop.1] := by
  unfold KeyLog.pop
  dsimp only
  rw [h.pop]
  dsimp only
  rw [Machine.setProc_self]
  exact ⟨h.setProc _, rfl, rfl⟩

/-- The interleavings of pushes and pops from `st` in which every push of a character finds
`room`. -/
inductive KeyRun (room : KeyLog → Prop) (st : Machine) : KeyLog → Prop
  | start : KeyRun room st (KeyLog.start st)
  | push {l : KeyLog} (c : UInt8) (hl : KeyRun room st l) (hroom : c ≠ 0 → room l) :
      KeyRun room st (l.push c)
  | pop {l : KeyLog} (hl : KeyRun room st l) : KeyRun room st l.pop

/-- What was popped and what is unread make up what was pushed. -/
structure InOrder (p : UInt32) (l : KeyLog) (unread : List UInt8) : Prop where
  reads : Reads l.st p
  queue : (l.st.procs p).keyboard.Queue l.popped.length unread
  pushed : l.pushed = l.popped ++ unread
  fresh : l.fresh = true → unread ≠ []

variable {p : UInt32} {l : KeyLog} {st : Machine}

theorem inOrder_start (hreads : Reads st p) (hzero : (st.procs p).keyboard = keyboardBufferZero) :
    InOrder p (KeyLog.start st) [] := by
  refine ⟨hreads, ?_, rfl, fun h => nomatch h⟩
  change (st.procs p).keyboard.Queue 0 []
  rw [hzero]
  exact keyboardBufferZero_queue

theorem InOrder.push_zero (h : InOrder p l u) : InOrder p (l.push 0) u := by
  refine ⟨(h.reads.log_push 0).1, ?_, h.pushed, h.fresh⟩
  rw [(h.reads.log_push 0).2, KeyboardBuffer.push_zero]
  exact h.queue

theorem InOrder.push (h : InOrder p l u) (hc : c ≠ 0)
    (hroom : u.length < peachosKeyboardBufferSize) : InOrder p (l.push c) (u ++ [c]) := by
  refine ⟨(h.reads.log_push c).1, ?_, ?_, fun _ => by simp⟩
  · rw [(h.reads.log_push c).2]
    exact h.queue.push hroom hc
  · change (if c = 0 then l.pushed else l.pushed ++ [c]) = l.popped ++ (u ++ [c])
    rw [if_neg hc, h.pushed, List.append_assoc]

/-- The next pop reports nothing exactly if nothing is unread. -/
theorem InOrder.pop_eq_zero_iff (h : InOrder p l u) : (keyboardPop l.st).1 = 0 ↔ u = [] := by
  rw [h.reads.pop]
  cases u with
  | nil => simp [h.queue.pop_nil]
  | cons c u =>
      dsimp only
      rw [h.queue.pop_cons.1]
      exact iff_of_false (h.queue.nonzero c List.mem_cons_self) (List.cons_ne_nil c u)

/-- A pop takes the first unread character, if there is one. -/
theorem InOrder.pop (h : InOrder p l u) : InOrder p l.pop u.tail := by
  obtain ⟨hreads, hkeyboard, hpopped⟩ := h.reads.log_pop
  cases u with
  | nil =>
      rw [h.queue.pop_nil] at hkeyboard hpopped
      rw [if_pos rfl] at hpopped
      refine ⟨hreads, ?_, ?_, fun hf => nomatch hf⟩
      · rw [hkeyboard, hpopped]
        exact h.queue
      · rw [hpopped]
        exact h.pushed
  | cons c u =>
      have hc : c ≠ 0 := h.queue.nonzero c List.mem_cons_self
      rw [h.queue.pop_cons.1, if_neg hc] at hpopped
      refine ⟨hreads, ?_, ?_, fun hf => nomatch hf⟩
      · rw [hkeyboard, hpopped, List.length_append, List.length_singleton]
        exact h.queue.pop_cons.2
      · rw [hpopped, List.append_assoc]
        exact h.pushed

/-- If `room` keeps the ring from overflowing, a run delivers its characters in order. -/
theorem KeyRun.inOrder {room : KeyLog → Prop} (hreads : Reads st p)
    (hzero : (st.procs p).keyboard = keyboardBufferZero)
    (hroom : ∀ l u, InOrder p l u → room l → u.length < peachosKeyboardBufferSize)
    (hrun : KeyRun room st l) : ∃ u, InOrder p l u := by
  induction hrun with
  | start => exact ⟨[], inOrder_start hreads hzero⟩
  | @push l c _ hc ih =>
      obtain ⟨u, hu⟩ := ih
      rcases eq_or_ne c 0 with rfl | hne
      · exact ⟨u, hu.push_zero⟩
      · exact ⟨u ++ [c], hu.push hne (hroom l u hu (hc hne))⟩
  | pop _ ih =>
      obtain ⟨u, hu⟩ := ih
      exact ⟨u.tail, hu.pop⟩

/-- Less than 1024 characters are unread. -/
def UnreadBelow (l : KeyLog) : Prop := l.pushed.length < l.popped.length + peachosKeyboardBufferSize

instance (l : KeyLog) : Decidable (UnreadBelow l) := inferInstanceAs (Decidable (_ < _))

/-- **The ring is a queue.**  In every run in which at most 1024 characters are unread at any
time, the results of the pops are the first characters pushed, in their order; and the next
pop reports nothing exactly if all of them have been read. -/
theorem keyboard_fifo (hreads : Reads st p) (hzero : (st.procs p).keyboard = keyboardBufferZero)
    (hrun : KeyRun UnreadBelow st l) :
    l.popped <+: l.pushed ∧
      ((keyboardPop l.st).1 = 0 ↔ l.popped.length = l.pushed.length) := by
  obtain ⟨u, hu⟩ := hrun.inOrder hreads hzero fun l u h hroom => by
    have hlen : l.pushed.length = l.popped.length + u.length := by
      rw [h.pushed, List.length_append]
    unfold UnreadBelow at hroom
    omega
  refine ⟨⟨u, hu.pushed.symm⟩, ?_⟩
  rw [hu.pop_eq_zero_iff, hu.pushed, List.length_append, ← List.length_eq_zero_iff]
  omega

/-- The counters of the process's ring are less than 1024 apart. -/
def TailBehind (p : UInt32) (l : KeyLog) : Prop :=
  ((l.st.procs p).keyboard.tail - (l.st.procs p).keyboard.head).toNat < peachosKeyboardBufferSize

instance (p : UInt32) (l : KeyLog) : Decidable (TailBehind p l) :=
  inferInstanceAs (Decidable (_ < _))

/-- In every run whose pushes find the counters less than 1024 apart, the results of the pops
are a subsequence of the characters pushed, and a pop after a push, or while characters are
unread, reports a character. -/
theorem keyboard_order (hreads : Reads st p) (hzero : (st.procs p).keyboard = keyboardBufferZero)
    (hrun : KeyRun (TailBehind p) st l) :
    l.popped.Sublist l.pushed ∧ (l.fresh = true → (keyboardPop l.st).1 ≠ 0) ∧
      (l.popped.length < l.pushed.length → (keyboardPop l.st).1 ≠ 0) := by
  obtain ⟨u, hu⟩ := hrun.inOrder hreads hzero fun l u h hroom => by
    unfold TailBehind at hroom
    rwa [h.queue.toNat_sub] at hroom
  refine ⟨?_, fun hf h0 => hu.fresh hf (hu.pop_eq_zero_iff.mp h0), fun hlt h0 => ?_⟩
  · rw [hu.pushed]
    exact List.sublist_append_left _ _
  · rw [hu.pushed, hu.pop_eq_zero_iff.mp h0, List.append_nil] at hlt
    exact lt_irrefl _ hlt

/-! ### One process and its task -/

/-- A process at `0x1000` with a zeroed buffer, whose task is the current one. -/
def oneProcess : Machine where
  sched :=
    { kernel := freshKernel
      tasks := fun _ => { taskZero with process := 0x1000 }
      currentTask := 0x2000
      taskTail := 0x2000
      taskHead := 0x2000 }
  procs := fun _ => processFullZero
  currentProcess := 0x1000
  processes := fun _ => 0

theorem oneProcess_reads : Reads oneProcess 0x1000 := ⟨by decide, rfl, by decide, rfl⟩

/-- Two characters pushed, one read. -/
theorem keyboard_fifo_two :
    (((KeyLog.start oneProcess).push 97).push 98).pop.popped <+:
        (((KeyLog.start oneProcess).push 97).push 98).pop.pushed ∧
      ((keyboardPop (((KeyLog.start oneProcess).push 97).push 98).pop.st).1 = 0 ↔
        (((KeyLog.start oneProcess).push 97).push 98).pop.popped.length =
          (((KeyLog.start oneProcess).push 97).push 98).pop.pushed.length) :=
  keyboard_fifo oneProcess_reads rfl
    (((KeyRun.start.push 97 fun _ => by decide).push 98 fun _ => by decide).pop)

/-- Two characters pushed, one read: the reader is not stuck. -/
theorem keyboard_order_two :
    (((KeyLog.start oneProcess).push 97).push 98).popped.Sublist
        (((KeyLog.start oneProcess).push 97).push 98).pushed ∧
      ((((KeyLog.start oneProcess).push 97).push 98).fresh = true →
        (keyboardPop (((KeyLog.start oneProcess).push 97).push 98).st).1 ≠ 0) ∧
      ((((KeyLog.start oneProcess).push 97).push 98).popped.length <
          (((KeyLog.start oneProcess).push 97).push 98).pushed.length →
        (keyboardPop (((KeyLog.start oneProcess).push 97).push 98).st).1 ≠ 0) :=
  keyboard_order oneProcess_reads rfl
    ((KeyRun.start.push 97 fun _ => by decide).push 98 fun _ => by decide)

/-! ### Overflow -/

/-- `n` pushes of the character `a`. -/
def pushes (a : UInt8) : ℕ → KeyLog → KeyLog
  | 0, l => l
  | n + 1, l => (pushes a n l).push a

theorem KeyRun.pushes {a : UInt8} (hl : KeyRun (fun _ => True) st l) :
    ∀ n, KeyRun (fun _ => True) st (pushes a n l)
  | 0 => hl
  | n + 1 => (hl.pushes n).push a fun _ => trivial

theorem pushes_popped (a : UInt8) : ∀ n l, (pushes a n l).popped = l.popped
  | 0, _ => rfl
  | n + 1, l => pushes_popped a n l

theorem inOrder_pushes {a : UInt8} (ha : a ≠ 0) (h : InOrder p l []) :
    ∀ n ≤ peachosKeyboardBufferSize, InOrder p (pushes a n l) (List.replicate n a)
  | 0, _ => h
  | n + 1, hn => by
      rw [List.replicate_succ']
      exact (inOrder_pushes ha h n (by omega)).push ha (by rw [List.length_replicate]; exact hn)

/-- After a push onto a full ring the newest character is read first, and next the oldest that
is left. -/
theorem InOrder.pop_pop_of_full {a d : UInt8} (h : InOrder p l (d :: a :: u)) (hc : c ≠ 0)
    (hfull : (d :: a :: u).length = peachosKeyboardBufferSize) :
    (l.push c).pop.pop.popped = l.popped ++ [c] ++ [a] := by
  have ha : a ≠ 0 := h.queue.nonzero a (List.mem_cons_of_mem d List.mem_cons_self)
  obtain ⟨hreads, hkeyboard⟩ := h.reads.log_push c
  obtain ⟨hholds, hhead⟩ := h.queue.push_full hfull hc
  rw [← hkeyboard] at hholds hhead
  obtain ⟨hreads₁, hkeyboard₁, hpopped₁⟩ := hreads.log_pop
  obtain ⟨hchar₁, hholds₁, hhead₁, -⟩ :=
    KeyboardBuffer.pop_of_holds hholds (hhead.trans h.queue.head) hc
  rw [hchar₁, if_neg hc] at hpopped₁
  rw [← hkeyboard₁] at hholds₁ hhead₁
  obtain ⟨-, -, hpopped₂⟩ := hreads₁.log_pop
  rw [(KeyboardBuffer.pop_of_holds hholds₁ hhead₁ ha).1, if_neg ha, hpopped₁] at hpopped₂
  exact hpopped₂

/-- A ring full of one character, and another character pushed: the pops deliver the new
character before an older one. -/
theorem InOrder.not_sublist_of_full {a : UInt8}
    (h : InOrder p l (List.replicate peachosKeyboardBufferSize a)) (hc : c ≠ 0) (hca : c ≠ a)
    (hnone : l.popped = []) :
    ¬ (l.push c).pop.pop.popped.Sublist (l.push c).pop.pop.pushed := by
  have hpopped := InOrder.pop_pop_of_full (u := List.replicate 1022 a) h hc
    (List.length_replicate (n := peachosKeyboardBufferSize) (a := a))
  have hpushed : (l.push c).pop.pop.pushed = List.replicate peachosKeyboardBufferSize a ++ [c] := by
    change (if c = 0 then l.pushed else l.pushed ++ [c]) = _
    rw [if_neg hc, h.pushed, hnone, List.nil_append]
  have hreverse : (List.replicate peachosKeyboardBufferSize a ++ [c]).reverse =
      c :: List.replicate peachosKeyboardBufferSize a := by
    rw [List.reverse_append, List.reverse_replicate]
    rfl
  rw [hpopped, hpushed, hnone, ← List.reverse_sublist, hreverse]
  intro (hsub : [a, c].Sublist (c :: List.replicate peachosKeyboardBufferSize a))
  rcases List.sublist_cons_iff.mp hsub with hsub | ⟨r, hr, -⟩
  · exact hca (List.eq_of_mem_replicate (hsub.subset (by simp)))
  · exact hca (List.cons.inj hr).1.symm

/-- After 1025 pushes without a pop the second pop delivers a character pushed before the one
that the first pop delivered. -/
theorem keyboard_push_reorders :
    ∃ l, KeyRun (fun _ => True) oneProcess l ∧ ¬ l.popped.Sublist l.pushed := by
  have hrun : KeyRun (fun _ => True) oneProcess (pushes 97 1024 (KeyLog.start oneProcess)) :=
    KeyRun.start.pushes 1024
  have hfull := inOrder_pushes (a := 97) (by decide)
    (inOrder_start oneProcess_reads rfl) 1024 le_rfl
  have hnone := pushes_popped 97 1024 (KeyLog.start oneProcess)
  exact ⟨_, (hrun.push 98 fun _ => trivial).pop.pop,
    hfull.not_sublist_of_full (by decide) (by decide) hnone⟩

end PeachOS
