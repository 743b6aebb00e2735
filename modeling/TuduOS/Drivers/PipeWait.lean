import Mathlib.Data.List.Nodup
import TuduOS.Drivers.PipeStream

/-!
# The waiting readers of a pipe

A wake-up of `reader_queue` resumes one reader. It takes what it asked for, and does not wake the
next one; and a waiting thread that runs again clears the flag for all.

* `Owes`: the thread will wake a reader, or was woken up and will look at the fifo again.
* `NoStranded`: where there is something to read, somebody owes the waiting readers.
* `no_stranded_reader`: so it is in every run in which a woken reader leaves something behind only
  where no other reader waits (`KeepsUp`).
-/

namespace Tudu.Pipe

open Lts RingBuffer

/-! ## The property and the condition -/

/-- A read has something to return: bytes, or the end of the file. -/
def Ready (s : PipeSys) : Prop := bytes s.pipe.fifo ≠ [] ∨ s.pipe.writers = 0

/-- In `rt_wqueue_wait` on `reader_queue`. -/
def Pc.readSleeps : Pc → Prop
  | .readSleep _ => True
  | _ => False

/-- In `rt_wqueue_wait` on `writer_queue`. -/
def Pc.writeSleeps : Pc → Prop
  | .writeSleep _ _ => True
  | _ => False

/-- Between the look at the fifo and `rt_wqueue_wait`. -/
def Pc.between : Pc → Prop
  | .readUnlock _ | .readKick _ | .readWait _ => True
  | _ => False

/-- Going to call `rt_wqueue_wakeup` on `reader_queue`. -/
def Pc.willWake (x : RtPipe) : Pc → Prop
  | .writeUnlock _ _ | .writeKick _ _ => True
  | .writeOut _ wakeup | .writeWake _ wakeup => wakeup = true
  | .closeWakeReader => x.writers = 0
  | _ => False

/-- A woken reader that is going to look at the fifo again. -/
def Pc.rechecks : Pc → Prop
  | .readSleep _ => True
  | .readTake _ again | .readBody _ again => again = true
  | _ => False

def Suspended (s : PipeSys) (u : Nat) : Prop :=
  (s.kern.thread u).stat = .suspend ∧ (s.pc u).readSleeps

/-- The thread runs, and will wake a reader or look at the fifo again. -/
def Owes (s : PipeSys) (v : Nat) : Prop :=
  (s.kern.thread v).stat = .ready ∧ ((s.pc v).willWake s.pipe ∨ (s.pc v).rechecks)

/-- No reader is left behind: none that is suspended, and none that a wake-up has missed on its
way to `rt_wqueue_wait`. -/
structure NoStranded (s : PipeSys) : Prop where
  suspended : Ready s → ∀ u, Suspended s u → ∃ v, v ≠ u ∧ Owes s v
  between : Ready s → ∀ u, (s.pc u).between →
    s.pipe.readerQueue.flag = true ∨ ∃ v, v ≠ u ∧ Owes s v

/-- `reader_queue` is empty, and a reader on its way to it will find the flag. -/
def NobodyWaits (s : PipeSys) : Prop :=
  s.pipe.readerQueue.waitingList = [] ∧
    ∀ u, (s.pc u).between → s.pipe.readerQueue.flag = true

/-- The read ends in this step, and leaves bytes or the end of the file behind. -/
def LeavesOver (s : PipeSys) (c : Call) : Prop :=
  s.pipe.writers = 0 ∨ 0 < c.count.toUInt16.toNat ∧
    c.count.toUInt16.toNat < (bytes s.pipe.fifo).length

/-- A woken reader leaves something behind only if no other reader waits; no read asks for a
multiple of 65536 bytes when there are some; and `writers` does not wrap. -/
def Pc.keepsUp (s : PipeSys) : Pc → Prop
  | .readBody c again =>
    (again = true → LeavesOver s c → NobodyWaits s) ∧
      (c.count.toUInt16 = 0 → s.pipe.writers ≠ 0 → bytes s.pipe.fifo = [])
  | .openBody m _ => m.writes = true → s.pipe.writers ≠ 255
  | _ => True

def KeepsUp (s : PipeSys) : PipeAct → Prop
  | .goOn => (s.pc s.kern.current).keepsUp s
  | _ => True

/-! ## The invariant -/

/-- Between the take and the release of the mutex. -/
def Pc.holds : Pc → Prop
  | .openBody _ _ | .openOut _ | .closeBody _ | .closeWakeReader | .closeWakeWriter | .closeFifo
  | .closeOut | .readBody _ _ | .readUnlock _ | .readWake _ | .readOut _ | .writeBody _ _ _
  | .writeUnlock _ _ | .writeOut _ _ => True
  | _ => False

/-- The suspended threads are those on the two lists. -/
structure Queued (s : PipeSys) : Prop where
  readers : ∀ u, u ∈ s.pipe.readerQueue.waitingList ↔ Suspended s u
  writers : ∀ u, u ∈ s.pipe.writerQueue.waitingList ↔
    (s.kern.thread u).stat = .suspend ∧ (s.pc u).writeSleeps
  nodupReaders : s.pipe.readerQueue.waitingList.Nodup
  nodupWriters : s.pipe.writerQueue.waitingList.Nodup
  susp : ∀ u, (s.kern.thread u).stat = .suspend → (s.pc u).readSleeps ∨ (s.pc u).writeSleeps

/-- The threads and the wait queues are the same. -/
structure Alike (s b : PipeSys) : Prop where
  kern : b.kern = s.kern
  pc : b.pc = s.pc
  readerQueue : b.pipe.readerQueue = s.pipe.readerQueue
  writerQueue : b.pipe.writerQueue = s.pipe.writerQueue

structure WaitInv (s : PipeSys) : Prop where
  queued : Queued s
  excl : ∀ u, (s.pc u).holds → s.pipe.lock = some u
  noStranded : NoStranded s

variable {s s' : PipeSys} {act : PipeAct} {p : Pc} {c : Call} {t u v : Nat}

theorem Pc.not_both (hr : p.readSleeps) (hw : p.writeSleeps) : False := by
  cases p <;> first | exact hr | exact hw

/-- A thread that owes is not between the look at the fifo and the wait. -/
theorem Owes.not_between (h : Owes s v) : ¬ (s.pc v).between := by
  obtain ⟨-, h⟩ := h
  intro hb
  generalize s.pc v = p at h hb
  cases p <;> simp_all [Pc.between, Pc.willWake, Pc.rechecks]

theorem Owes.not_suspended (h : Owes s v) : ¬ Suspended s v := fun hs => by
  have := h.1.symm.trans hs.1
  cases this

/-- A thread owes the same after a step that leaves it where it is. -/
theorem Owes.keep (h : Owes s v) (hpc : s'.pc v = s.pc v) (hst : (s'.kern.thread v).stat = .ready)
    (hw : (s.pc v).holds → s'.pipe.writers = s.pipe.writers) : Owes s' v := by
  obtain ⟨-, h⟩ := h
  refine ⟨hst, ?_⟩
  rw [hpc]
  generalize s.pc v = p at h hw
  cases p with
  | closeWakeReader =>
    refine h.imp (fun h => ?_) id
    show s'.pipe.writers = 0
    rw [hw trivial]
    exact h
  | _ => exact h

namespace NoStranded

/-- The thread that makes the step owes then. -/
theorem of_owes (h : Owes s v) : NoStranded s :=
  ⟨fun _ _ hu => ⟨v, fun he => h.not_suspended (he ▸ hu), h⟩,
    fun _ _ hu => .inr ⟨v, fun he => h.not_between (he ▸ hu), h⟩⟩

theorem of_not_ready (h : ¬ Ready s) : NoStranded s :=
  ⟨fun hr => absurd hr h, fun hr => absurd hr h⟩

theorem goto_owes {b : PipeSys} (ht : (b.kern.thread b.kern.current).stat = .ready)
    (hp : p.willWake b.pipe ∨ p.rechecks) : NoStranded (b.goto p) := by
  refine of_owes (v := b.kern.current) ⟨ht, ?_⟩
  have hself : (b.goto p).pc b.kern.current = p := Function.update_self ..
  rw [hself]
  exact hp

/-- Nothing comes that could be read, and nobody starts to wait. -/
theorem quiet (h : NoStranded s) (hr : Ready s' → Ready s)
    (hf : s.pipe.readerQueue.flag = true → s'.pipe.readerQueue.flag = true)
    (hs : ∀ u, Suspended s' u → Suspended s u) (hb : ∀ u, (s'.pc u).between → (s.pc u).between)
    (ho : ∀ v, Owes s v → Owes s' v) : NoStranded s' :=
  ⟨fun hready u hu => (h.suspended (hr hready) u (hs u hu)).imp fun v hv => ⟨hv.1, ho v hv.2⟩,
    fun hready u hu => (h.between (hr hready) u (hb u hu)).imp hf fun ⟨v, hv⟩ =>
      ⟨v, hv.1, ho v hv.2⟩⟩

end NoStranded

/-! ## The lists -/

theorem readWait_of_flag (hf : s.pipe.readerQueue.flag = true) : readWait s c =
    (s.setPipe { s.pipe with readerQueue := { s.pipe.readerQueue with flag := false } }).goto
      (.readTake c true) := by
  simp only [readWait, RtWqueue.wait, hf, if_true]
  rfl

theorem readWait_of_clear (hf : s.pipe.readerQueue.flag = false) : readWait s c =
    { s.setPipe { s.pipe with readerQueue := { s.pipe.readerQueue with
        waitingList := s.pipe.readerQueue.waitingList ++ [s.kern.current] } } with
      kern := s.kern.rtThreadSuspend s.kern.current
      pc := Function.update s.pc s.kern.current (.readSleep c) } := by
  simp only [readWait, RtWqueue.wait, hf, Bool.false_eq_true, if_false, PipeSys.goto,
    Kern.rtThreadSuspend_current]
  rfl

theorem writeWait_of_flag {ret : UInt32} (hf : s.pipe.writerQueue.flag = true) :
    writeWait s c ret =
      (s.setPipe { s.pipe with writerQueue := { s.pipe.writerQueue with flag := false } }).goto
        (.writeTake c ret true) := by
  simp only [writeWait, RtWqueue.wait, hf, if_true]
  rfl

theorem writeWait_of_clear {ret : UInt32} (hf : s.pipe.writerQueue.flag = false) :
    writeWait s c ret =
      { s.setPipe { s.pipe with writerQueue := { s.pipe.writerQueue with
          waitingList := s.pipe.writerQueue.waitingList ++ [s.kern.current] } } with
        kern := s.kern.rtThreadSuspend s.kern.current
        pc := Function.update s.pc s.kern.current (.writeSleep c ret) } := by
  simp only [writeWait, RtWqueue.wait, hf, Bool.false_eq_true, if_false, PipeSys.goto,
    Kern.rtThreadSuspend_current]
  rfl

/-- In `rt_wqueue_wait` on one of the queues. -/
def Pc.sleeps (p : Pc) : Prop := p.readSleeps ∨ p.writeSleeps

namespace Queued

theorem ready (h : Queued s) (hp : ¬ (s.pc t).sleeps) : (s.kern.thread t).stat = .ready := by
  cases hs : (s.kern.thread t).stat with
  | ready => rfl
  | suspend => exact absurd (h.susp t hs) hp

theorem of_lists {b : PipeSys} (h : Queued s) (hk : b.kern = s.kern) (hpc : b.pc = s.pc)
    (hr : b.pipe.readerQueue.waitingList = s.pipe.readerQueue.waitingList)
    (hw : b.pipe.writerQueue.waitingList = s.pipe.writerQueue.waitingList) : Queued b := by
  obtain ⟨h1, h2, h3, h4, h5⟩ := h
  unfold Suspended at h1
  constructor
  · unfold Suspended
    rw [hk, hpc, hr]
    exact h1
  · rw [hk, hpc, hw]
    exact h2
  · rw [hr]
    exact h3
  · rw [hw]
    exact h4
  · rw [hk, hpc]
    exact h5

theorem congr {b : PipeSys} (h : Queued s) (ha : Alike s b) : Queued b :=
  h.of_lists ha.kern ha.pc (congrArg RtWqueue.waitingList ha.readerQueue)
    (congrArg RtWqueue.waitingList ha.writerQueue)

/-- A ready thread goes to another place. -/
theorem goto (h : Queued s) (hready : (s.kern.thread s.kern.current).stat = .ready) :
    Queued (s.goto p) := by
  have hpc : ∀ u, (s.kern.thread u).stat = .suspend → (s.goto p).pc u = s.pc u := fun u hu =>
    Function.update_of_ne (fun he => by rw [he, hready] at hu; cases hu) ..
  have hiff : ∀ (P : Pc → Prop) u, (s.kern.thread u).stat = .suspend ∧ P (s.pc u) ↔
      (s.kern.thread u).stat = .suspend ∧ P ((s.goto p).pc u) := fun P u =>
    and_congr_right fun hu => by rw [hpc u hu]
  refine ⟨fun u => (h.readers u).trans (hiff _ u), fun u => (h.writers u).trans (hiff _ u),
    h.nodupReaders, h.nodupWriters, fun u hu => ?_⟩
  rw [hpc u hu]
  exact h.susp u hu

theorem wakeReaders_stat (h : Queued s) : (s.wakeReaders.kern.thread v).stat =
    if s.pipe.readerQueue.waitingList.head? = some v then .ready else (s.kern.thread v).stat :=
  RtWqueue.wakeup_stat fun u hu => ((h.readers u).mp hu).1

theorem wakeWriters_stat (h : Queued s) : (s.wakeWriters.kern.thread v).stat =
    if s.pipe.writerQueue.waitingList.head? = some v then .ready else (s.kern.thread v).stat :=
  RtWqueue.wakeup_stat fun u hu => ((h.writers u).mp hu).1

/-- A wake-up of a queue makes its first thread ready. -/
theorem woken_iff {q : RtWqueue} {b : PipeSys} {P : Nat → Prop}
    (hq : ∀ u, u ∈ q.waitingList ↔ (s.kern.thread u).stat = .suspend ∧ P u)
    (hn : q.waitingList.Nodup) (hst : ∀ u, (b.kern.thread u).stat =
      if q.waitingList.head? = some u then .ready else (s.kern.thread u).stat) (u : Nat) :
    ((b.kern.thread u).stat = .suspend ↔
        (s.kern.thread u).stat = .suspend ∧ q.waitingList.head? ≠ some u) ∧
      (u ∈ q.waitingList.tail ↔ (b.kern.thread u).stat = .suspend ∧ P u) := by
  have hstat : (b.kern.thread u).stat = .suspend ↔
      (s.kern.thread u).stat = .suspend ∧ q.waitingList.head? ≠ some u := by
    rw [hst]
    split
    · next hh => simp [hh]
    · next hh => simp [hh]
  refine ⟨hstat, ?_⟩
  rw [RtWqueue.mem_tail_iff hn, hq u, hstat]
  exact and_right_comm

theorem wakeReaders (h : Queued s) : Queued s.wakeReaders := by
  have hfst : s.wakeReaders.pipe.readerQueue = ⟨true, s.pipe.readerQueue.waitingList.tail⟩ :=
    RtWqueue.wakeup_fst
  have hiff := woken_iff h.readers h.nodupReaders fun u => h.wakeReaders_stat
  refine ⟨fun u => ?_, fun u => ?_, ?_, h.nodupWriters, fun u hu => h.susp u ((hiff u).1.mp hu).1⟩
  · rw [hfst]
    exact (hiff u).2
  · show u ∈ s.pipe.writerQueue.waitingList ↔ _
    rw [h.writers u, (hiff u).1]
    refine ⟨fun hu => ⟨⟨hu.1, fun hh => ?_⟩, hu.2⟩, fun hu => ⟨hu.1.1, hu.2⟩⟩
    exact Pc.not_both ((h.readers u).mp (List.mem_of_mem_head? hh)).2 hu.2
  · rw [hfst]
    exact h.nodupReaders.sublist (List.tail_sublist _)

theorem wakeWriters (h : Queued s) : Queued s.wakeWriters := by
  have hfst : s.wakeWriters.pipe.writerQueue = ⟨true, s.pipe.writerQueue.waitingList.tail⟩ :=
    RtWqueue.wakeup_fst
  have hiff := woken_iff h.writers h.nodupWriters fun u => h.wakeWriters_stat
  refine ⟨fun u => ?_, fun u => ?_, h.nodupReaders, ?_, fun u hu => h.susp u ((hiff u).1.mp hu).1⟩
  · show u ∈ s.pipe.readerQueue.waitingList ↔ _
    rw [h.readers u, Suspended, Suspended, (hiff u).1]
    refine ⟨fun hu => ⟨⟨hu.1, fun hh => ?_⟩, hu.2⟩, fun hu => ⟨hu.1.1, hu.2⟩⟩
    exact Pc.not_both hu.2 ((h.writers u).mp (List.mem_of_mem_head? hh)).2
  · rw [hfst]
    exact (hiff u).2
  · rw [hfst]
    exact h.nodupWriters.sublist (List.tail_sublist _)

/-- A thread is suspended on the list of its new place. -/
theorem suspend (h : Queued s) (ht : (s.kern.thread t).stat = .ready) (hp : p.sleeps)
    (hk : s'.kern = s.kern.rtThreadSuspend t) (hpc : s'.pc = Function.update s.pc t p)
    (hr : ∀ u, u ∈ s'.pipe.readerQueue.waitingList ↔ u ∈ s.pipe.readerQueue.waitingList ∨ u = t ∧ p.readSleeps)
    (hw : ∀ u, u ∈ s'.pipe.writerQueue.waitingList ↔ u ∈ s.pipe.writerQueue.waitingList ∨ u = t ∧ p.writeSleeps)
    (hnr : s'.pipe.readerQueue.waitingList.Nodup) (hnw : s'.pipe.writerQueue.waitingList.Nodup) :
    Queued s' := by
  have hst : ∀ u, (s'.kern.thread u).stat = if u = t then .suspend else (s.kern.thread u).stat := by
    intro u
    rw [hk, Kern.rtThreadSuspend_thread]
    simp only [ht, and_true]
    split <;> rfl
  have hself : s'.pc t = p ∧ (s'.kern.thread t).stat = .suspend := by
    rw [hpc, hst, if_pos rfl]
    exact ⟨Function.update_self .., rfl⟩
  have hother : ∀ u, u ≠ t → s'.pc u = s.pc u ∧
      (s'.kern.thread u).stat = (s.kern.thread u).stat := fun u hu => by
    rw [hpc, hst, if_neg hu]
    exact ⟨Function.update_of_ne hu .., rfl⟩
  refine ⟨fun u => ?_, fun u => ?_, hnr, hnw, fun u hu => ?_⟩
  · rw [hr u, h.readers u, Suspended, Suspended]
    by_cases hu : u = t
    · subst hu
      rw [hself.1, hself.2, ht]
      simp
    · rw [(hother u hu).1, (hother u hu).2]
      simp [hu]
  · rw [hw u, h.writers u]
    by_cases hu : u = t
    · subst hu
      rw [hself.1, hself.2, ht]
      simp
    · rw [(hother u hu).1, (hother u hu).2]
      simp [hu]
  · by_cases hut : u = t
    · rw [hut, hself.1]
      exact hp
    · rw [(hother u hut).2] at hu
      rw [(hother u hut).1]
      exact h.susp u hu

theorem not_mem (h : Queued s) (ht : (s.kern.thread t).stat = .ready) :
    t ∉ s.pipe.readerQueue.waitingList ∧ t ∉ s.pipe.writerQueue.waitingList := by
  have hn : ¬ (s.kern.thread t).stat = .suspend := by
    rw [ht]
    decide
  exact ⟨fun hm => hn ((h.readers t).mp hm).1, fun hm => hn ((h.writers t).mp hm).1⟩

theorem readWait (h : Queued s) (ht : (s.kern.thread s.kern.current).stat = .ready) :
    Queued (readWait s c) := by
  cases hf : s.pipe.readerQueue.flag with
  | true =>
    rw [readWait_of_flag hf]
    have hq : Queued (s.setPipe { s.pipe with
      readerQueue := { s.pipe.readerQueue with flag := false } }) := h.of_lists rfl rfl rfl rfl
    exact hq.goto ht
  | false =>
    rw [readWait_of_clear hf]
    refine h.suspend ht (p := .readSleep c) (.inl trivial) rfl rfl (fun u => ?_) (fun u => ?_) ?_
      h.nodupWriters
    · simp [PipeSys.setPipe, Pc.readSleeps]
    · simp [PipeSys.setPipe, Pc.writeSleeps]
    · exact List.concat_eq_append ▸ List.Nodup.concat (h.not_mem ht).1 h.nodupReaders

theorem writeWait {ret : UInt32} (h : Queued s)
    (ht : (s.kern.thread s.kern.current).stat = .ready) : Queued (writeWait s c ret) := by
  cases hf : s.pipe.writerQueue.flag with
  | true =>
    rw [writeWait_of_flag hf]
    have hq : Queued (s.setPipe { s.pipe with
      writerQueue := { s.pipe.writerQueue with flag := false } }) := h.of_lists rfl rfl rfl rfl
    exact hq.goto ht
  | false =>
    rw [writeWait_of_clear hf]
    refine h.suspend ht (p := .writeSleep c ret) (.inr trivial) rfl rfl (fun u => ?_) (fun u => ?_)
      h.nodupReaders ?_
    · simp [PipeSys.setPipe, Pc.readSleeps]
    · simp [PipeSys.setPipe, Pc.writeSleeps]
    · exact List.concat_eq_append ▸ List.Nodup.concat (h.not_mem ht).2 h.nodupWriters

end Queued

/-! ## Who owes then -/

/-- A reader is woken up, or none waits and the flag is set for the next. -/
theorem NoStranded.woken (h : Queued s) (ht : (s.kern.thread s.kern.current).stat = .ready) :
    NoStranded (s.wakeReaders.goto p) := by
  have hcur : s.wakeReaders.kern.current = s.kern.current := RtWqueue.wakeup_current
  have hpc : ∀ u, u ≠ s.kern.current → (s.wakeReaders.goto p).pc u = s.pc u := fun u hu =>
    Function.update_of_ne (fun he => hu (he.trans hcur)) ..
  cases hl : s.pipe.readerQueue.waitingList with
  | nil =>
    have hstat : ∀ v, (s.wakeReaders.kern.thread v).stat = (s.kern.thread v).stat := fun v => by
      rw [h.wakeReaders_stat, hl]
      rfl
    refine ⟨fun _ u hu => ?_, fun _ u _ => .inl ?_⟩
    · have hs : (s.kern.thread u).stat = .suspend := (hstat u).symm.trans hu.1
      have hut : u ≠ s.kern.current := fun he => by
        rw [he, ht] at hs
        cases hs
      have hm := (h.readers u).mpr ⟨hs, hpc u hut ▸ hu.2⟩
      rw [hl] at hm
      exact absurd hm List.not_mem_nil
    · show s.wakeReaders.pipe.readerQueue.flag = true
      exact congrArg RtWqueue.flag RtWqueue.wakeup_fst
  | cons u l =>
    obtain ⟨hs, hp⟩ := (h.readers u).mp (by rw [hl]; exact List.mem_cons_self)
    have hut : u ≠ s.kern.current := fun he => by
      rw [he, ht] at hs
      cases hs
    refine .of_owes (v := u) ⟨?_, .inr ?_⟩
    · show (s.wakeReaders.kern.thread u).stat = .ready
      rw [h.wakeReaders_stat, hl]
      exact if_pos rfl
    · rw [hpc u hut]
      generalize s.pc u = p at hp
      cases p <;> first | exact hp | cases hp

/-- Going from `p` to `p'`, a thread drops nothing that it owes, and does not start to wait. -/
def Pc.Passes (x : RtPipe) (p p' : Pc) : Prop :=
  ¬ (p.willWake x ∨ p.rechecks) ∧ (p'.between → p.between)

/-- The current thread, which does not owe, goes on, and nothing comes that could be read. -/
theorem WaitInv.quiet {b : PipeSys} (h : WaitInv s) (hc : b.kern.current = s.kern.current)
    (hpc : b.pc = s.pc)
    (hst : ∀ u, u ≠ s.kern.current → (b.kern.thread u).stat = .suspend → (s.kern.thread u).stat = .suspend)
    (hf : s.pipe.readerQueue.flag = true → b.pipe.readerQueue.flag = true) (hr : Ready b → Ready s)
    (hw : b.pipe.writers = s.pipe.writers ∨ (s.pc s.kern.current).holds)
    (hm : (s.pc s.kern.current).Passes s.pipe p) (hp : ¬ p.readSleeps) : NoStranded (b.goto p) := by
  obtain ⟨ho, hb⟩ := hm
  have hself : (b.goto p).pc s.kern.current = p := by
    rw [← hc]
    exact Function.update_self ..
  have hother : ∀ u, u ≠ s.kern.current → (b.goto p).pc u = s.pc u := fun u hu => by
    rw [← hpc]
    exact Function.update_of_ne (fun he => hu (he.trans hc)) ..
  refine h.noStranded.quiet hr hf (fun u hu => ?_) (fun u hu => ?_) fun v hv => ?_
  · by_cases hut : u = s.kern.current
    · subst hut
      exact absurd (hself ▸ hu.2) hp
    · exact ⟨hst u hut hu.1, hother u hut ▸ hu.2⟩
  · by_cases hut : u = s.kern.current
    · subst hut
      exact hb (hself ▸ hu)
    · exact hother u hut ▸ hu
  · have hvt : v ≠ s.kern.current := fun he => ho (he ▸ hv.2)
    refine hv.keep (hother v hvt) ?_ fun hh => hw.resolve_right fun ht => hvt ?_
    · cases hs : ((b.goto p).kern.thread v).stat with
      | ready => rfl
      | suspend =>
        have := hst v hvt hs
        rw [hv.1] at this
        cases this
    · exact Option.some.inj ((h.excl v hh).symm.trans (h.excl _ ht))

/-! ## The mutex -/

section Excl

variable {b : PipeSys}

theorem excl_goto (h : WaitInv s) (hc : b.kern.current = s.kern.current) (hpc : b.pc = s.pc)
    (hl : b.pipe.lock = s.pipe.lock) (hh : p.holds → (s.pc s.kern.current).holds) (u : Nat)
    (hu : ((b.goto p).pc u).holds) : (b.goto p).pipe.lock = some u := by
  show b.pipe.lock = some u
  rw [hl]
  by_cases hut : u = b.kern.current
  · subst hut
    have hself : (b.goto p).pc b.kern.current = p := Function.update_self ..
    rw [hself] at hu
    rw [hc]
    exact h.excl _ (hh hu)
  · have hother : (b.goto p).pc u = b.pc u := Function.update_of_ne hut ..
    rw [hother, hpc] at hu
    exact h.excl u hu

theorem excl_release (h : WaitInv s) (ht : (s.pc s.kern.current).holds) (hp : ¬ p.holds) (u : Nat)
    (hu : ((s.release p).pc u).holds) : (s.release p).pipe.lock = some u := by
  by_cases hut : u = s.kern.current
  · subst hut
    have hself : (s.release p).pc s.kern.current = p := Function.update_self ..
    rw [hself] at hu
    exact absurd hu hp
  · have hother : (s.release p).pc u = s.pc u := Function.update_of_ne hut ..
    rw [hother] at hu
    exact absurd (Option.some.inj ((h.excl u hu).symm.trans (h.excl _ ht))) hut

theorem excl_take (h : WaitInv s) (hs : s.take p = some s') :
    s' = (s.setPipe { s.pipe with lock := some s.kern.current }).goto p ∧
      ∀ u, (s'.pc u).holds → s'.pipe.lock = some u := by
  unfold PipeSys.take at hs
  split at hs
  · next hfree =>
    cases hs
    refine ⟨rfl, fun u hu => ?_⟩
    by_cases hut : u = s.kern.current
    · rw [hut]
      rfl
    · have hother : ((s.setPipe { s.pipe with lock := some s.kern.current }).goto p).pc u =
          s.pc u := Function.update_of_ne hut ..
      rw [hother] at hu
      have := hfree.symm.trans (h.excl u hu)
      cases this
  · cases hs

end Excl

/-! ## Steps -/

namespace WaitInv

variable {b : PipeSys}

theorem ready (h : WaitInv s) (hp : s.pc s.kern.current = p) (hn : ¬ p.sleeps) :
    (s.kern.thread s.kern.current).stat = .ready := h.queued.ready (hp ▸ hn)

/-- The current thread goes on, and `b` is what it left. -/
theorem body {p' : Pc} (h : WaitInv s) (hp : s.pc s.kern.current = p) (hn : ¬ p.sleeps)
    (ha : Alike s b) (hl : b.pipe.lock = s.pipe.lock) (hh : p'.holds → p.holds)
    (ho : NoStranded (b.goto p')) : WaitInv (b.goto p') := by
  have ht : (b.kern.thread b.kern.current).stat = .ready := by
    rw [ha.kern]
    exact h.ready hp hn
  subst hp
  exact ⟨(h.queued.congr ha).goto ht, excl_goto h (congrArg Kern.current ha.kern) ha.pc hl hh, ho⟩

/-- The same, where it does not owe, and leaves no more to read. -/
theorem pass {p' : Pc} (h : WaitInv s) (hp : s.pc s.kern.current = p) (hn : ¬ p.sleeps)
    (ha : Alike s b) (hl : b.pipe.lock = s.pipe.lock) (hh : p'.holds → p.holds)
    (hr : Ready b → Ready s) (hw : b.pipe.writers = s.pipe.writers ∨ p.holds)
    (hm : p.Passes s.pipe p') (hs : ¬ p'.readSleeps) : WaitInv (b.goto p') := by
  refine h.body hp hn ha hl hh ?_
  subst hp
  exact h.quiet (congrArg Kern.current ha.kern) ha.pc (fun u _ hu => ha.kern ▸ hu)
    (fun hf => ha.readerQueue ▸ hf) hr hw hm hs

/-- The thread gives the mutex back. -/
theorem release {p' : Pc} (h : WaitInv s) (hp : s.pc s.kern.current = p) (hn : ¬ p.sleeps)
    (hh : p.holds) (hh' : ¬ p'.holds) (ho : NoStranded (s.release p')) : WaitInv (s.release p') :=
  ⟨(h.queued.congr (b := s.setPipe { s.pipe with lock := none }) ⟨rfl, rfl, rfl, rfl⟩).goto
    (h.ready hp hn), excl_release h (hp ▸ hh) hh', ho⟩

theorem release_pass {p' : Pc} (h : WaitInv s) (hp : s.pc s.kern.current = p) (hn : ¬ p.sleeps)
    (hm : p.Passes s.pipe p') (hh : p.holds) (hh' : ¬ p'.holds) (hs : ¬ p'.readSleeps) :
    WaitInv (s.release p') := by
  refine h.release hp hn hh hh' ?_
  subst hp
  exact h.quiet rfl rfl (fun _ _ hu => hu) id id (.inl rfl) hm hs

/-- The thread takes the mutex. -/
theorem take {p' : Pc} (h : WaitInv s) (hx : s.take p' = some s')
    (hp : s.pc s.kern.current = p) (hn : ¬ p.sleeps)
    (ho : NoStranded ((s.setPipe { s.pipe with lock := some s.kern.current }).goto p')) :
    WaitInv s' := by
  obtain ⟨rfl, hexcl⟩ := excl_take h hx
  exact ⟨(h.queued.congr (b := s.setPipe { s.pipe with lock := some s.kern.current })
    ⟨rfl, rfl, rfl, rfl⟩).goto (h.ready hp hn), hexcl, ho⟩

theorem take_pass {p' : Pc} (h : WaitInv s) (hx : s.take p' = some s')
    (hp : s.pc s.kern.current = p) (hn : ¬ p.sleeps) (hm : p.Passes s.pipe p')
    (hs : ¬ p'.readSleeps) : WaitInv s' := by
  refine h.take hx hp hn ?_
  subst hp
  exact h.quiet rfl rfl (fun _ _ hu => hu) id id (.inl rfl) hm hs

/-- The thread wakes up a writer, and goes on. -/
theorem wakeWriters {p' : Pc} (h : WaitInv s) (hp : s.pc s.kern.current = p) (hn : ¬ p.sleeps)
    (hm : p.Passes s.pipe p') (hh : p'.holds → p.holds) (hs : ¬ p'.readSleeps) :
    WaitInv (s.wakeWriters.goto p') := by
  have hcur : s.wakeWriters.kern.current = s.kern.current := RtWqueue.wakeup_current
  have hstat : ∀ u, (s.wakeWriters.kern.thread u).stat = .suspend →
      (s.kern.thread u).stat = .suspend := fun u hu => by
    rw [h.queued.wakeWriters_stat] at hu
    split at hu
    · cases hu
    · exact hu
  have ht : (s.wakeWriters.kern.thread s.wakeWriters.kern.current).stat = .ready := by
    rw [hcur, h.queued.wakeWriters_stat]
    split
    · rfl
    · exact h.ready hp hn
  subst hp
  exact ⟨h.queued.wakeWriters.goto ht, excl_goto h hcur rfl rfl hh,
    h.quiet hcur rfl (fun u _ hu => hstat u hu) id id (.inl rfl) hm hs⟩

/-- The thread wakes up a reader, and goes on. -/
theorem wakeReaders {p' : Pc} (h : WaitInv s) (hp : s.pc s.kern.current = p) (hn : ¬ p.sleeps)
    (hh : p'.holds → p.holds) : WaitInv (s.wakeReaders.goto p') := by
  have hcur : s.wakeReaders.kern.current = s.kern.current := RtWqueue.wakeup_current
  have ht : (s.wakeReaders.kern.thread s.wakeReaders.kern.current).stat = .ready := by
    rw [hcur, h.queued.wakeReaders_stat]
    split
    · rfl
    · exact h.ready hp hn
  have hn' := NoStranded.woken (p := p') h.queued (h.ready hp hn)
  subst hp
  exact ⟨h.queued.wakeReaders.goto ht, excl_goto h hcur rfl rfl hh, hn'⟩

theorem open_step {m : AccMode} {mem : Option (Nat → UInt8)} (h : WaitInv s)
    (hp : s.pc s.kern.current = .openBody m mem) (hk : m.writes = true → s.pipe.writers ≠ 255)
    (hs : pipeFopsOpen s m mem = some s') : WaitInv s' := by
  have hn : ¬ (Pc.openBody m mem).sleeps := fun hsl => hsl.elim id id
  have hm : ∀ rc, (Pc.openBody m mem).Passes s.pipe (.openOut rc) := fun rc =>
    ⟨fun ho => ho.elim id id, id⟩
  -- one more writer is none only behind a wrap
  have hwr : (if m.writes then s.pipe.writers + 1 else s.pipe.writers) = 0 →
      s.pipe.writers = 0 := by
    split
    · next hmw =>
      intro h0
      have h255 : s.pipe.writers = 255 := by grind
      exact absurd h255 (hk hmw)
    · exact id
  have hnew : ∀ f, rtRingbufferCreate s.pipe.bufsz mem = some f → bytes f = [] := fun f hf => by
    cases f with
    | none => rfl
    | some rb => exact bytes_of_holds (rtRingbufferCreate_holds hf)
  unfold pipeFopsOpen at hs
  split at hs
  · obtain ⟨f, hf, rfl⟩ := Option.map_eq_some_iff.mp hs
    have hb := hnew f hf
    simp only
    split
    · exact h.pass (b := s.dropFifo f) hp hn ⟨rfl, rfl, rfl, rfl⟩ rfl (fun _ => trivial)
        (fun hr => .inr (hr.resolve_left fun hn => hn hb)) (.inl rfl) (hm _) id
    · exact h.pass (b := (s.dropFifo f).setPipe ((s.dropFifo f).pipe.addRef m)) hp hn
        ⟨rfl, rfl, rfl, rfl⟩ rfl (fun _ => trivial)
        (fun hr => .inr (hwr (hr.resolve_left fun hn => hn hb))) (.inr trivial) (hm _) id
  · cases hs
    exact h.pass (b := s.setPipe (s.pipe.addRef m)) hp hn ⟨rfl, rfl, rfl, rfl⟩ rfl
      (fun _ => trivial) (fun hr => hr.imp id hwr) (.inr trivial) (hm _) id

theorem closeBody_step {m : AccMode} (h : WaitInv s) (hp : s.pc s.kern.current = .closeBody m) :
    WaitInv ((s.setPipe (s.pipe.delEnd m)).goto .closeWakeReader) := by
  have hn : ¬ (Pc.closeBody m).sleeps := fun hsl => hsl.elim id id
  by_cases hw : (s.pipe.delEnd m).writers = 0
  · exact h.body hp hn ⟨rfl, rfl, rfl, rfl⟩ rfl (fun _ => trivial)
      (.goto_owes (h.ready hp hn) (.inl hw))
  · exact h.pass (b := s.setPipe (s.pipe.delEnd m)) hp hn ⟨rfl, rfl, rfl, rfl⟩ rfl
      (fun _ => trivial) (fun hr => .inl (hr.resolve_right hw)) (.inr trivial)
      ⟨fun ho => ho.elim id id, id⟩ id

/-- A read ends, and leaves something only if no other reader waits for it. -/
theorem leave {again : Bool} {p' : Pc} (h : WaitInv s)
    (hp : s.pc s.kern.current = .readBody c again) (ha : Alike s b)
    (hl : b.pipe.lock = s.pipe.lock) (hw : b.pipe.writers = s.pipe.writers)
    (hb : ¬ p'.between) (hs : ¬ p'.readSleeps) (hr : Ready b → Ready s ∧ LeavesOver s c)
    (hk : again = true → LeavesOver s c → NobodyWaits s) : WaitInv (b.goto p') := by
  have hn : ¬ (Pc.readBody c again).sleeps := fun hsl => hsl.elim id id
  cases again with
  | false =>
    exact h.pass hp hn ha hl (fun _ => trivial) (fun hready => (hr hready).1) (.inl hw)
      ⟨fun ho => ho.elim id fun he => (by cases he), fun hb' => absurd hb' hb⟩ hs
  | true =>
    refine h.body hp hn ha hl (fun _ => trivial) ?_
    by_cases hready : Ready b
    · obtain ⟨hempty, hflag⟩ := hk rfl (hr hready).2
      have hself : (b.goto p').pc s.kern.current = p' := by
        rw [← ha.kern]
        exact Function.update_self ..
      have hother : ∀ u, u ≠ s.kern.current → (b.goto p').pc u = s.pc u := fun u hu => by
        rw [← ha.pc]
        exact Function.update_of_ne (fun he => hu (he.trans (congrArg Kern.current ha.kern))) ..
      refine ⟨fun _ u hu => ?_, fun _ u hu => ?_⟩
      · have hut : u ≠ s.kern.current := fun he => hs (hself ▸ he ▸ hu.2)
        have hmem := (h.queued.readers u).mpr ⟨ha.kern ▸ hu.1, hother u hut ▸ hu.2⟩
        rw [hempty] at hmem
        exact absurd hmem List.not_mem_nil
      · have hut : u ≠ s.kern.current := fun he => hb (hself ▸ he ▸ hu)
        exact .inl (ha.readerQueue ▸ hflag u (hother u hut ▸ hu))
    · exact .of_not_ready hready

theorem readBody_step {again : Bool} (h : WaitInv s) (hx : StreamInv s.stream)
    (hp : s.pc s.kern.current = .readBody c again) (hk : (Pc.readBody c again).keepsUp s)
    (hs : pipeFopsRead s c = some s') : WaitInv s' := by
  have hn : ¬ (Pc.readBody c again).sleeps := fun hsl => hsl.elim id id
  unfold pipeFopsRead at hs
  split at hs
  · next hw =>
    cases hs
    exact h.leave (b := s.endOfFile) hp ⟨rfl, rfl, rfl, rfl⟩ rfl rfl id id
      (fun hr => ⟨hr, .inl hw⟩) hk.1
  · next hw =>
    obtain ⟨rb, hf, rfl⟩ := Option.map_eq_some_iff.mp hs
    have hq : Holds rb (bytes s.pipe.fifo) := hx.holds rb hf
    obtain ⟨hh, -, hlen, -⟩ := hq.get c.buf c.count.toUInt16
    have hb := bytes_of_holds hh
    simp only [hlen]
    split
    · refine h.leave (c := c) hp ⟨rfl, rfl, rfl, rfl⟩ rfl rfl id id (fun hr => ?_) hk.1
      have hdrop := hr.resolve_right hw
      change bytes (some (rb.get c.buf c.count.toUInt16).1) ≠ [] at hdrop
      rw [hb, ne_eq, List.drop_eq_nil_iff, not_le] at hdrop
      refine ⟨.inl fun hnil => ?_, .inr ⟨by omega, by omega⟩⟩
      rw [hnil] at hdrop
      exact absurd hdrop (Nat.not_lt_zero _)
    · next hzero =>
      have hnil : bytes s.pipe.fifo = [] := by
        by_cases hc : c.count.toUInt16 = 0
        · exact hk.2 hc hw
        · have hpos : 0 < c.count.toUInt16.toNat := by
            refine Nat.pos_of_ne_zero fun he => hc ?_
            exact UInt16.toNat_inj.mp he
          exact List.eq_nil_of_length_eq_zero (by omega)
      rw [hnil, List.drop_nil] at hb
      have hnot : ¬ Ready (s.setPipe { s.pipe with
          fifo := some (rb.get c.buf c.count.toUInt16).1 }) :=
        fun hr => hr.elim (fun hn => hn hb) hw
      split
      · exact h.body hp hn ⟨rfl, rfl, rfl, rfl⟩ rfl (fun _ => trivial) (.of_not_ready hnot)
      · exact h.body hp hn ⟨rfl, rfl, rfl, rfl⟩ rfl (fun _ => trivial) (.of_not_ready hnot)

theorem writeBody_step {ret : UInt32} {wakeup : Bool} (h : WaitInv s)
    (hp : s.pc s.kern.current = .writeBody c ret wakeup)
    (hs : pipeFopsWrite s c ret wakeup = some s') : WaitInv s' := by
  have hn : ¬ (Pc.writeBody c ret wakeup).sleeps := fun hsl => hsl.elim id id
  have ht := h.ready hp hn
  unfold pipeFopsWrite at hs
  split at hs
  · cases hs
    cases wakeup with
    | false =>
      exact h.pass hp hn ⟨rfl, rfl, rfl, rfl⟩ rfl (fun _ => trivial) id (.inl rfl)
        ⟨fun ho => ho.elim id id, id⟩ id
    | true =>
      exact h.body hp hn ⟨rfl, rfl, rfl, rfl⟩ rfl (fun _ => trivial) (.goto_owes ht (.inl rfl))
  · obtain ⟨rb, hf, rfl⟩ := Option.map_eq_some_iff.mp hs
    simp only
    split
    · exact h.body hp hn ⟨rfl, rfl, rfl, rfl⟩ rfl (fun _ => trivial) (.goto_owes ht (.inl rfl))
    · split
      · exact h.body hp hn ⟨rfl, rfl, rfl, rfl⟩ rfl (fun _ => trivial) (.goto_owes ht (.inl rfl))
      · exact h.body hp hn ⟨rfl, rfl, rfl, rfl⟩ rfl (fun _ => trivial)
          (.goto_owes ht (.inl trivial))

/-- A reader that finds no flag is suspended only if there is nothing to read, or somebody owes. -/
theorem readWait_step (h : WaitInv s) (hp : s.pc s.kern.current = .readWait c) :
    WaitInv (readWait s c) := by
  have ht := h.ready hp fun hsl => hsl.elim id id
  refine ⟨h.queued.readWait ht, ?_, ?_⟩
  · refine excl_goto h RtWqueue.wait_current rfl rfl fun hh => ?_
    split at hh <;> exact hh.elim
  · cases hf : s.pipe.readerQueue.flag with
    | true =>
      rw [readWait_of_flag hf]
      exact .goto_owes ht (.inr rfl)
    | false =>
      by_cases hr : Ready s
      · obtain ⟨v, hv, ho⟩ := (h.noStranded.between hr s.kern.current
          (by rw [hp]; trivial)).resolve_left (by rw [hf]; decide)
        rw [readWait_of_clear hf]
        refine .of_owes (v := v) (ho.keep (Function.update_of_ne hv ..) ?_ fun _ => rfl)
        show ((s.kern.rtThreadSuspend s.kern.current).thread v).stat = .ready
        rw [Kern.rtThreadSuspend_thread, if_neg fun he => hv he.1]
        exact ho.1
      · exact .of_not_ready hr

theorem writeWait_step {ret : UInt32} (h : WaitInv s)
    (hp : s.pc s.kern.current = .writeWait c ret) : WaitInv (writeWait s c ret) := by
  have ht := h.ready hp fun hsl => hsl.elim id id
  refine ⟨h.queued.writeWait ht, ?_, ?_⟩
  · refine excl_goto h RtWqueue.wait_current rfl rfl fun hh => ?_
    split at hh <;> exact hh.elim
  · refine h.quiet RtWqueue.wait_current rfl (fun u hu hsu => ?_) id id (.inl rfl) ⟨?_, ?_⟩ ?_
    · rw [← RtWqueue.wait_thread hu]
      exact hsu
    · rw [hp]
      exact fun ho => ho.elim id id
    · split <;> exact False.elim
    · split <;> exact id

/-- A woken thread clears the flag of its queue. -/
theorem readSleep_step (h : WaitInv s)
    (ht : (s.kern.thread s.kern.current).stat = .ready) :
    WaitInv ((s.setPipe { s.pipe with
      readerQueue := s.pipe.readerQueue.waitEnd s.kern.current }).goto (.readTake c true)) := by
  rw [RtWqueue.waitEnd_of_not_mem ((h.queued.not_mem ht).1)]
  have hq : Queued (s.setPipe { s.pipe with
    readerQueue := ⟨false, s.pipe.readerQueue.waitingList⟩ }) := h.queued.of_lists rfl rfl rfl rfl
  exact ⟨hq.goto ht, excl_goto h rfl rfl rfl False.elim, .goto_owes ht (.inr rfl)⟩

theorem writeSleep_step {ret : UInt32} (h : WaitInv s)
    (hp : s.pc s.kern.current = .writeSleep c ret)
    (ht : (s.kern.thread s.kern.current).stat = .ready) :
    WaitInv ((s.setPipe { s.pipe with
      writerQueue := s.pipe.writerQueue.waitEnd s.kern.current }).goto
        (.writeTake c ret true)) := by
  rw [RtWqueue.waitEnd_of_not_mem ((h.queued.not_mem ht).2)]
  have hq : Queued (s.setPipe { s.pipe with
    writerQueue := ⟨false, s.pipe.writerQueue.waitingList⟩ }) := h.queued.of_lists rfl rfl rfl rfl
  refine ⟨hq.goto ht, excl_goto h rfl rfl rfl False.elim,
    h.quiet rfl rfl (fun _ _ hu => hu) id id (.inl rfl) ⟨?_, False.elim⟩ id⟩
  rw [hp]
  exact fun ho => ho.elim id id

theorem goOn_step (h : WaitInv s) (hx : StreamInv s.stream) (hk : KeepsUp s .goOn)
    (hs : goOn s = some s') : WaitInv s' := by
  unfold goOn at hs
  unfold KeepsUp at hk
  generalize hp : s.pc s.kern.current = p at hs hk
  have hfree : ∀ {P Q : Prop}, (P → False) → (Q → False) → ¬ (P ∨ Q) := fun hP hQ h =>
    h.elim hP hQ
  cases p with
  | user => cases hs
  | openTake _ _ | closeTake _ | writeTake _ _ _ =>
    exact h.take_pass hs hp (hfree id id) ⟨hfree id id, id⟩ id
  | openBody m mem => exact h.open_step hp hk hs
  | openOut _ | closeOut | readOut _ =>
    cases hs
    exact h.release_pass hp (hfree id id) ⟨hfree id id, id⟩ trivial id id
  | closeBody m =>
    cases hs
    exact h.closeBody_step hp
  | closeWakeReader =>
    cases hs
    split
    · exact h.wakeReaders hp (hfree id id) fun _ => trivial
    · next hw =>
      exact h.pass hp (hfree id id) ⟨rfl, rfl, rfl, rfl⟩ rfl (fun _ => trivial) id (.inl rfl)
        ⟨hfree hw id, id⟩ id
  | closeWakeWriter =>
    cases hs
    split
    · exact h.wakeWriters hp (hfree id id) ⟨hfree id id, id⟩ (fun _ => trivial) id
    · exact h.pass hp (hfree id id) ⟨rfl, rfl, rfl, rfl⟩ rfl (fun _ => trivial) id (.inl rfl)
        ⟨hfree id id, id⟩ id
  | closeFifo =>
    cases hs
    unfold closeFifo
    split
    · exact h.pass hp (hfree id id) ⟨rfl, rfl, rfl, rfl⟩ rfl (fun _ => trivial)
        (fun hr => .inr (hr.resolve_left fun hb => hb rfl)) (.inl rfl) ⟨hfree id id, id⟩ id
    · exact h.pass hp (hfree id id) ⟨rfl, rfl, rfl, rfl⟩ rfl (fun _ => trivial) id (.inl rfl)
        ⟨hfree id id, id⟩ id
  | closeDelete =>
    cases hs
    split
    · exact h.pass (b := rtPipeDelete s) hp (hfree id id) ⟨rfl, rfl, rfl, rfl⟩ rfl False.elim
        (fun hr => .inr (hr.resolve_left fun hb => hb rfl)) (.inl rfl) ⟨hfree id id, id⟩ id
    · exact h.pass hp (hfree id id) ⟨rfl, rfl, rfl, rfl⟩ rfl False.elim id (.inl rfl)
        ⟨hfree id id, id⟩ id
  | readTake c again =>
    cases again with
    | false => exact h.take_pass hs hp (hfree id id) ⟨hfree id (by simp [Pc.rechecks]), id⟩ id
    | true =>
      exact h.take hs hp (hfree id id) (.goto_owes (h.ready hp (hfree id id)) (.inr rfl))
  | readBody c again => exact h.readBody_step hx hp hk hs
  | readUnlock c =>
    cases hs
    exact h.release_pass hp (hfree id id) ⟨hfree id id, fun _ => trivial⟩ trivial id id
  | readKick c =>
    cases hs
    exact h.wakeWriters hp (hfree id id) ⟨hfree id id, fun _ => trivial⟩ False.elim id
  | readWait c =>
    cases hs
    exact h.readWait_step hp
  | readSleep c =>
    simp only at hs
    split at hs
    · next ht =>
      cases hs
      exact h.readSleep_step ht
    · cases hs
  | readWake len =>
    cases hs
    exact h.wakeWriters hp (hfree id id) ⟨hfree id id, id⟩ (fun _ => trivial) id
  | writeBody c ret wakeup => exact h.writeBody_step hp hs
  | writeUnlock c ret =>
    cases hs
    have ht := h.ready hp (hfree id id)
    exact h.release hp (hfree id id) trivial id (.goto_owes ht (.inl trivial))
  | writeKick c ret =>
    cases hs
    exact h.wakeReaders hp (hfree id id) False.elim
  | writeWait c ret =>
    cases hs
    exact h.writeWait_step hp
  | writeSleep c ret =>
    simp only at hs
    split at hs
    · next ht =>
      cases hs
      exact h.writeSleep_step hp ht
    · cases hs
  | writeOut r wakeup =>
    cases hs
    cases wakeup with
    | false =>
      exact h.release_pass hp (hfree id id) ⟨hfree (by simp [Pc.willWake]) id, id⟩ trivial id id
    | true =>
      have ht := h.ready hp (hfree id id)
      exact h.release hp (hfree id id) trivial id (.goto_owes ht (.inl rfl))
  | writeWake r wakeup =>
    cases hs
    cases wakeup with
    | false =>
      exact h.pass hp (hfree id id) ⟨rfl, rfl, rfl, rfl⟩ rfl False.elim id (.inl rfl)
        ⟨hfree (by simp [Pc.willWake]) id, id⟩ id
    | true => exact h.wakeReaders hp (hfree id id) False.elim
  | ret r =>
    cases hs
    exact h.pass hp (hfree id id) ⟨rfl, rfl, rfl, rfl⟩ rfl False.elim id (.inl rfl)
      ⟨hfree id id, id⟩ id

/-- A step outside the calls, or the first test of a call. -/
theorem call_step (h : WaitInv s) (ha : Alike s b) (hl : b.pipe.lock = s.pipe.lock)
    (hr : Ready b → Ready s) (hw : b.pipe.writers = s.pipe.writers) (hp : ¬ p.readSleeps)
    (hb : ¬ p.between) (hh : ¬ p.holds) (hs : call b p = some s') : WaitInv s' := by
  unfold call at hs
  split at hs
  · next hu =>
    cases hs
    rw [ha.pc, ha.kern] at hu
    refine h.pass (p := .user) hu (fun hn => hn.elim id id) ha hl (fun hn => absurd hn hh) hr
      (.inl hw) ⟨fun ho => ho.elim id id, fun hn => absurd hn hb⟩ hp
  · cases hs

theorem step (h : WaitInv s) (hx : StreamInv s.stream) (hk : KeepsUp s act)
    (hs : pipeStep s act = some s') : WaitInv s' := by
  unfold pipeStep at hs
  split at hs
  · cases act with
    | preempt u =>
      simp only at hs
      split at hs <;> cases hs
      exact ⟨⟨h.queued.readers, h.queued.writers, h.queued.nodupReaders, h.queued.nodupWriters,
        h.queued.susp⟩, h.excl, ⟨h.noStranded.suspended, h.noStranded.between⟩⟩
    | opens m mem => exact h.call_step ⟨rfl, rfl, rfl, rfl⟩ rfl id rfl id id id hs
    | closes m => exact h.call_step ⟨rfl, rfl, rfl, rfl⟩ rfl id rfl id id id hs
    | reads c =>
      simp only at hs
      split at hs
      · exact h.call_step (b := s.endOfFile) ⟨rfl, rfl, rfl, rfl⟩ rfl id rfl id id id hs
      · exact h.call_step ⟨rfl, rfl, rfl, rfl⟩ rfl id rfl id id id hs
    | writes c =>
      simp only at hs
      split at hs
      · exact h.call_step ⟨rfl, rfl, rfl, rfl⟩ rfl id rfl id id id hs
      · split at hs <;> exact h.call_step ⟨rfl, rfl, rfl, rfl⟩ rfl id rfl id id id hs
    | goOn => exact h.goOn_step hx hk hs
  · cases hs

theorem init {bufsz : Nat} {isNamed : Bool} {priority : Nat → Nat} :
    WaitInv (rtPipeCreate bufsz isNamed priority) where
  queued := ⟨fun u => ⟨fun hu => absurd hu List.not_mem_nil, fun hu => (by cases hu.1)⟩,
    fun u => ⟨fun hu => absurd hu List.not_mem_nil, fun hu => (by cases hu.1)⟩, List.nodup_nil,
    List.nodup_nil, fun u hu => (by cases hu)⟩
  excl u hu := hu.elim
  noStranded := ⟨fun _ u hu => (by cases hu.1), fun _ u hu => hu.elim⟩

end WaitInv

/-- **No reader is left behind.** In every run of any threads and descriptors whose steps all keep
up: where there is something to read, no reader is suspended, and none has missed its wake-up, but
that another thread runs which will wake a reader, or which was woken and will look again. -/
theorem no_stranded_reader (bufsz : Nat) (isNamed : Bool) (priority : Nat → Nat)
    (acts : List PipeAct) (s : PipeSys)
    (hx : exec pipeStep (rtPipeCreate bufsz isNamed priority) acts = some s)
    (hc : Along pipeStep KeepsUp (rtPipeCreate bufsz isNamed priority) acts) : NoStranded s := by
  have hinv := Along.inv (I := fun s => WaitInv s ∧ StreamInv s.stream)
    (fun s a s' h hk hs => ⟨h.1.step h.2 hk hs, (h.2.step hs).1⟩) hc hx
    ⟨WaitInv.init, StreamInv.init⟩
  exact hinv.1.noStranded

instance : Decidable (LeavesOver s c) := inferInstanceAs (Decidable (_ ∨ _ ∧ _))

/-- No woken reader leaves something behind, no read asks for a multiple of 65536 bytes, and
`writers` is below 255. -/
def Pc.takesAll (s : PipeSys) : Pc → Bool
  | .readBody c again => (!again || !decide (LeavesOver s c)) && c.count.toUInt16 != 0
  | .openBody _ _ => s.pipe.writers != 255
  | _ => true

theorem keepsUp_of_takesAll (h : (s.pc s.kern.current).takesAll s = true) : KeepsUp s act := by
  cases act with
  | goOn =>
    unfold KeepsUp
    generalize s.pc s.kern.current = p at h
    cases p with
    | readBody c again =>
      obtain ⟨hall, hc⟩ := Bool.and_eq_true_iff.mp h
      refine ⟨fun ha hl => ?_, fun he => ?_⟩
      · simp [ha, hl] at hall
      · simp [he] at hc
    | openBody m mem => exact fun _ => bne_iff_ne.mp h
    | _ => trivial
  | _ => trivial

/-- Thread 1 waits for a byte, thread 0 writes one, and thread 1 takes it. -/
def wakeRun : List PipeAct :=
  openRun ++ [.preempt 1, .reads oneByte] ++ goOns 5 ++ [.preempt 0, .writes oneByte] ++ goOns 5 ++
    [.preempt 1] ++ goOns 3

theorem no_stranded_wake : ∃ s, exec pipeStep (rtPipeCreate 64 true fun _ => 0) wakeRun = some s ∧
    s.returned = [7] ∧ NoStranded s := by
  have hx : (exec pipeStep (rtPipeCreate 64 true fun _ => 0) wakeRun).map PipeSys.returned =
      some [7] := by
    decide +kernel
  obtain ⟨s, hs, hr⟩ := Option.map_eq_some_iff.mp hx
  have hc : Along pipeStep (fun s _ => (s.pc s.kern.current).takesAll s = true)
      (rtPipeCreate 64 true fun _ => 0) wakeRun := by decide +kernel
  exact ⟨s, hs, hr, no_stranded_reader 64 true (fun _ => 0) wakeRun s hs
    (hc.mono fun _ _ => keepsUp_of_takesAll)⟩

/-! ## Two readers -/

/-- The threads 1 and 2 wait for a byte. Thread 0 closes the writer, and thread 1 returns 0. -/
def closeRun : List PipeAct :=
  openRun ++ [.preempt 1, .reads oneByte] ++ goOns 5 ++ [.preempt 2, .reads oneByte] ++ goOns 5 ++
    [.preempt 0, .closes .wronly] ++ goOns 8 ++ [.preempt 1] ++ goOns 5

theorem closeRun_stranded : ∃ s, exec pipeStep (rtPipeCreate 64 true fun _ => 0) closeRun = some s ∧
    s.pipe.writers = 0 ∧ Suspended s 2 ∧ ¬ NoStranded s := by
  have hx : ∃ s, exec pipeStep (rtPipeCreate 64 true fun _ => 0) closeRun = some s ∧
      s.pipe.writers = 0 ∧ (s.kern.thread 2).stat = .suspend ∧ s.pc 2 = .readSleep oneByte ∧
      ∀ u, u ≠ 2 → s.pc u = .user := by
    refine ⟨_, rfl, rfl, rfl, rfl, fun u hu => ?_⟩
    match u with
    | 0 => rfl
    | 1 => rfl
    | 2 => exact absurd rfl hu
    | u + 3 => rfl
  obtain ⟨s, hs, hw, hst, hp, hother⟩ := hx
  have hsus : Suspended s 2 := ⟨hst, by rw [hp]; trivial⟩
  refine ⟨s, hs, hw, hsus, fun hn => ?_⟩
  obtain ⟨v, hv, ho⟩ := hn.suspended (.inr hw) 2 hsus
  have howes := ho.2
  rw [hother v hv] at howes
  exact howes.elim id id

end Tudu.Pipe
