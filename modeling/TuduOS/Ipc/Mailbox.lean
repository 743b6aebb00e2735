import Mathlib.Algebra.Group.Nat.Defs
import TuduOS.Kernel.Wait
import TuduOS.Lib.Lts
import TuduOS.Lib.Ring

/-!
# Mailboxes (`rt_mb_send_wait`, `rt_mb_recv` of `ipc.c`)

Any number of threads and mailboxes. A section with interrupts disabled is one step; between two
steps any ready thread may run, a timer may expire and the tick may go on.

* The suspend list of the receivers of the mailbox `m` is the list `2 * m`, that of the senders
  (`suspend_sender_thread`) the list `2 * m + 1`.
* A thread in the loop of `rt_mb_send_wait` is at `sendWait` until `rt_schedule` returns, and at
  `sendAgain` between the test of `error` and the next section; `rt_mb_recv` is alike. `delta` is
  the variable `tick_delta`.
* `rt_mb_send`, and a receive without waiting, may also be called by an interrupt.

The ghosts `sent m` and `received m` are the values of the successful calls, in the order in which
they were stored and fetched.

**The property** (`Fifo`): the received values and the stored ones are the sent ones, in order; and
the offsets and the number of entries fit.
-/

namespace Tudu.Mailbox

open Kern Lts

structure RtMailbox where
  msgPool : Nat → Nat
  /-- `rt_uint16_t`, as are the next three. -/
  size : Nat
  entry : Nat
  inOffset : Nat
  outOffset : Nat
  flag : Nat

inductive Pc where
  | user
  /-- In `rt_schedule` in `rt_mb_send_wait(m, v, timeout)`. -/
  | sendWait (m v : Nat) (timeout : Int) (delta : Nat)
  /-- Resumed without an error, before the next section. -/
  | sendAgain (m v : Nat) (timeout : Int) (delta : Nat)
  /-- In `rt_schedule` in `rt_mb_recv(m, timeout)`. -/
  | recvWait (m : Nat) (timeout : Int) (delta : Nat)
  | recvAgain (m : Nat) (timeout : Int) (delta : Nat)
  /-- The call is about to return `r`. -/
  | done (r : Int)
  deriving DecidableEq

structure MbSys where
  kern : Kern
  mb : Nat → RtMailbox
  pc : Nat → Pc
  /-- `rt_tick` (`rt_uint32_t`) -/
  tick : Nat
  sent : Nat → List Nat
  received : Nat → List Nat

namespace MbSys

def setKern (s : MbSys) (k : Kern) : MbSys := { s with kern := k }

def setMb (s : MbSys) (m : Nat) (x : RtMailbox) : MbSys :=
  { s with mb := Function.update s.mb m x }

def goto (s : MbSys) (t : Nat) (p : Pc) : MbSys := { s with pc := Function.update s.pc t p }

end MbSys

open MbSys

/-- `++ i; if (i >= size) i = 0;` on 16 bits. -/
def nextOffset (i size : Nat) : Nat := if (i + 1) % 2 ^ 16 ≥ size then 0 else (i + 1) % 2 ^ 16

/-- The end of `rt_mb_send_wait`: the value is stored, and a receiver resumed. -/
def store (s : MbSys) (m v : Nat) : MbSys :=
  let x := s.mb m
  { s.setMb m { x with
      msgPool := Function.update x.msgPool x.inOffset v
      inOffset := nextOffset x.inOffset x.size
      entry := (x.entry + 1) % 2 ^ 16 } with
    kern := s.kern.resumeFirst (2 * m)
    sent := Function.update s.sent m (s.sent m ++ [v]) }

/-- The end of `rt_mb_recv`: a value is fetched, and a sender resumed. -/
def fetch (s : MbSys) (m : Nat) : MbSys :=
  let x := s.mb m
  { s.setMb m { x with
      outOffset := nextOffset x.outOffset x.size
      entry := (x.entry + (2 ^ 16 - 1)) % 2 ^ 16 } with
    kern := s.kern.resumeFirst (2 * m + 1)
    received := Function.update s.received m (s.received m ++ [x.msgPool x.outOffset]) }

/-- The thread waits on the list `q`; `p delta` is where it is then. -/
def wait (s : MbSys) (q flag : Nat) (timeout : Int) (delta : Nat) (p : Nat → Pc) : Option MbSys :=
  (s.kern.waitOn q flag timeout).map fun k =>
    (s.setKern k).goto s.kern.current (p (if timeout > 0 then s.tick else delta))

/-- The loop of `rt_mb_send_wait`, from its test on. -/
def sendLoop (s : MbSys) (m v : Nat) (timeout : Int) (delta : Nat) : Option MbSys :=
  let t := s.kern.current
  if (s.mb m).entry = (s.mb m).size then
    if timeout = 0 then some ((s.setKern (s.kern.setError t rtEok)).goto t (.done (-rtEfull)))
    else wait s (2 * m + 1) (s.mb m).flag timeout delta (.sendWait m v timeout)
  else some ((store s m v).goto t (.done rtEok))

/-- The loop of `rt_mb_recv`, from its test on. -/
def recvLoop (s : MbSys) (m : Nat) (timeout : Int) (delta : Nat) : Option MbSys :=
  let t := s.kern.current
  if (s.mb m).entry = 0 then
    if timeout = 0 then
      some ((s.setKern (s.kern.setError t (-rtEtimeout))).goto t (.done (-rtEtimeout)))
    else wait s (2 * m) (s.mb m).flag timeout delta (.recvWait m timeout)
  else some ((fetch s m).goto t (.done rtEok))

/-- `rt_mb_send_wait`, up to its first wait. -/
def rtMbSendWait (s : MbSys) (m v : Nat) (timeout : Int) : Option MbSys :=
  if (s.mb m).entry = (s.mb m).size ∧ timeout = 0 then
    some (s.goto s.kern.current (.done (-rtEfull)))
  else sendLoop s m v timeout 0

/-- `rt_mb_recv`, up to its first wait. -/
def rtMbRecv (s : MbSys) (m : Nat) (timeout : Int) : Option MbSys :=
  if (s.mb m).entry = 0 ∧ timeout = 0 then some (s.goto s.kern.current (.done (-rtEtimeout)))
  else recvLoop s m timeout 0

inductive MbAct where
  /-- An interrupt, or `rt_schedule`, switches to the ready thread `u`. -/
  | preempt (u : Nat)
  /-- The current thread calls `rt_mb_send_wait(m, v, timeout)`. -/
  | send (m v : Nat) (timeout : Int)
  /-- The current thread calls `rt_mb_recv(m, timeout)`. -/
  | recv (m : Nat) (timeout : Int)
  /-- The current thread goes on in its call. -/
  | goOn
  /-- An interrupt calls `rt_mb_send(m, v)`. -/
  | isrSend (m v : Nat)
  /-- An interrupt calls `rt_mb_recv(m, 0)`. -/
  | isrRecv (m : Nat)
  /-- The timer of the thread `u` expires. -/
  | timeout (u : Nat)
  /-- The tick goes on. -/
  | tick
  deriving DecidableEq

/-- Behind `rt_schedule`: the test of `error`. -/
def afterWait (s : MbSys) (p : Pc) : Option MbSys :=
  let t := s.kern.current
  if (s.kern.thread t).stat = .ready then
    if (s.kern.thread t).error ≠ rtEok then some (s.goto t (.done (s.kern.thread t).error))
    else some (s.goto t p)
  else none

def goOn (s : MbSys) : Option MbSys :=
  match s.pc s.kern.current with
  | .user => none
  | .sendWait m v timeout delta => afterWait s (.sendAgain m v timeout delta)
  | .sendAgain m v timeout delta =>
    sendLoop s m v (restTime timeout delta s.tick) (restDelta timeout delta s.tick)
  | .recvWait m timeout delta => afterWait s (.recvAgain m timeout delta)
  | .recvAgain m timeout delta =>
    recvLoop s m (restTime timeout delta s.tick) (restDelta timeout delta s.tick)
  | .done _ => some (s.goto s.kern.current .user)

def mbStep (s : MbSys) : MbAct → Option MbSys
  | .preempt u =>
    if (s.kern.thread u).stat = .ready then some (s.setKern { s.kern with current := u }) else none
  | .send m v timeout =>
    match s.pc s.kern.current with
    | .user => rtMbSendWait s m v timeout
    | _ => none
  | .recv m timeout =>
    match s.pc s.kern.current with
    | .user => rtMbRecv s m timeout
    | _ => none
  | .goOn => goOn s
  | .isrSend m v => if (s.mb m).entry = (s.mb m).size then some s else some (store s m v)
  | .isrRecv m => if (s.mb m).entry = 0 then some s else some (fetch s m)
  | .timeout u => (s.kern.rtThreadTimeout u).map s.setKern
  | .tick => some { s with tick := (s.tick + 1) % 2 ^ 32 }

/-- `rt_mb_init` of every mailbox, with any contents of the buffers. -/
def mbInit (pool : Nat → Nat → Nat) (size flag priority : Nat → Nat) : MbSys where
  kern := ⟨0, fun t => ⟨.ready, rtEok, priority t, false, false, false⟩, fun _ => []⟩
  mb := fun m => ⟨pool m, size m % 2 ^ 16, 0, 0, 0, flag m⟩
  pc := fun _ => .user
  tick := 0
  sent := fun _ => []
  received := fun _ => []

/-! ## The property -/

/-- The stored values, from `out_offset` on. -/
def RtMailbox.stored (x : RtMailbox) : List Nat :=
  Ring.contents x.msgPool x.size x.outOffset x.entry

/-- The property of a mailbox: a queue of at most `size` values. -/
structure Fifo (s : MbSys) (m : Nat) : Prop where
  order : s.received m ++ (s.mb m).stored = s.sent m
  room : (s.mb m).entry ≤ (s.mb m).size
  offset : (s.mb m).inOffset = ((s.mb m).outOffset + (s.mb m).entry) % (s.mb m).size
  inside : (s.mb m).outOffset < (s.mb m).size
  small : (s.mb m).size < 2 ^ 16

/-- What a step does to the mailboxes. -/
inductive Effect (s s' : MbSys) : Prop
  | quiet (hmb : s'.mb = s.mb) (hs : s'.sent = s.sent) (hr : s'.received = s.received)
  | stored (m v : Nat) (hroom : (s.mb m).entry ≠ (s.mb m).size) (hmb : s'.mb = (store s m v).mb)
      (hs : s'.sent = (store s m v).sent) (hr : s'.received = s.received)
  | fetched (m : Nat) (hsome : (s.mb m).entry ≠ 0) (hmb : s'.mb = (fetch s m).mb)
      (hs : s'.sent = s.sent) (hr : s'.received = (fetch s m).received)

variable {s s' : MbSys} {act : MbAct} {m v t u q : Nat} {timeout : Int} {delta : Nat}

/-! ## The steps -/

theorem wait_effect {flag : Nat} {p : Nat → Pc} (h : wait s q flag timeout delta p = some s') :
    Effect s s' := by
  obtain ⟨k, -, rfl⟩ := Option.map_eq_some_iff.mp h
  exact .quiet rfl rfl rfl

theorem sendLoop_effect (h : sendLoop s m v timeout delta = some s') : Effect s s' := by
  simp only [sendLoop] at h
  split at h
  · split at h
    · cases h
      exact .quiet rfl rfl rfl
    · exact wait_effect h
  · next hroom =>
    cases h
    exact .stored m v hroom rfl rfl rfl

theorem recvLoop_effect (h : recvLoop s m timeout delta = some s') : Effect s s' := by
  simp only [recvLoop] at h
  split at h
  · split at h
    · cases h
      exact .quiet rfl rfl rfl
    · exact wait_effect h
  · next hsome =>
    cases h
    exact .fetched m hsome rfl rfl rfl

theorem afterWait_effect {p : Pc} (h : afterWait s p = some s') : Effect s s' := by
  simp only [afterWait] at h
  split at h
  · split at h <;> cases h <;> exact .quiet rfl rfl rfl
  · cases h

theorem goOn_effect (h : goOn s = some s') : Effect s s' := by
  unfold goOn at h
  split at h
  · cases h
  · exact afterWait_effect h
  · exact sendLoop_effect h
  · exact afterWait_effect h
  · exact recvLoop_effect h
  · cases h
    exact .quiet rfl rfl rfl

/-- Every step leaves the mailboxes, or stores one value where there is room, or fetches one. -/
theorem mbStep_effect (h : mbStep s act = some s') : Effect s s' := by
  cases act with
  | preempt u =>
    simp only [mbStep] at h
    split at h <;> cases h
    exact .quiet rfl rfl rfl
  | send m v timeout =>
    simp only [mbStep] at h
    split at h
    · unfold rtMbSendWait at h
      split at h
      · cases h
        exact .quiet rfl rfl rfl
      · exact sendLoop_effect h
    · cases h
  | recv m timeout =>
    simp only [mbStep] at h
    split at h
    · unfold rtMbRecv at h
      split at h
      · cases h
        exact .quiet rfl rfl rfl
      · exact recvLoop_effect h
    · cases h
  | goOn => exact goOn_effect h
  | isrSend m v =>
    simp only [mbStep] at h
    split at h <;> cases h
    · exact .quiet rfl rfl rfl
    · exact .stored m v ‹_› rfl rfl rfl
  | isrRecv m =>
    simp only [mbStep] at h
    split at h <;> cases h
    · exact .quiet rfl rfl rfl
    · exact .fetched m ‹_› rfl rfl rfl
  | timeout u =>
    obtain ⟨k, -, rfl⟩ := Option.map_eq_some_iff.mp h
    exact .quiet rfl rfl rfl
  | tick =>
    cases h
    exact .quiet rfl rfl rfl

/-! ## The queue -/

theorem nextOffset_eq {i size : Nat} (hi : i < size) (hs : size < 2 ^ 16) :
    nextOffset i size = (i + 1) % size := by
  unfold nextOffset
  rw [Nat.mod_eq_of_lt (show i + 1 < 2 ^ 16 by omega)]
  exact Ring.wrap_succ hi

theorem Fifo.congr (h : Fifo s m) (hmb : s'.mb m = s.mb m) (hs : s'.sent m = s.sent m)
    (hr : s'.received m = s.received m) : Fifo s' m := by
  refine ⟨?_, ?_, ?_, ?_, ?_⟩ <;> rw [hmb]
  · rw [hs, hr]
    exact h.order
  · exact h.room
  · exact h.offset
  · exact h.inside
  · exact h.small

theorem Fifo.store (h : Fifo s m) (hroom : (s.mb m).entry ≠ (s.mb m).size) (v : Nat) :
    Fifo (store s m v) m := by
  obtain ⟨horder, hle, hoff, hin, hsmall⟩ := h
  have hlt : (s.mb m).entry < (s.mb m).size := by omega
  have hentry : ((s.mb m).entry + 1) % 2 ^ 16 = (s.mb m).entry + 1 :=
    Nat.mod_eq_of_lt (by omega)
  have hnext : nextOffset (s.mb m).inOffset (s.mb m).size =
      ((s.mb m).outOffset + ((s.mb m).entry + 1)) % (s.mb m).size := by
    rw [nextOffset_eq _ hsmall, hoff, Nat.mod_add_mod, Nat.add_assoc]
    rw [hoff]
    exact Nat.mod_lt _ (by omega)
  constructor
  · simp only [Mailbox.store, setMb, RtMailbox.stored, Function.update_self, hentry]
    rw [hoff, Ring.contents_push hlt, ← List.append_assoc]
    exact congrArg (· ++ [v]) horder
  · simp only [Mailbox.store, setMb, Function.update_self, hentry]
    omega
  · simp only [Mailbox.store, setMb, Function.update_self, hentry]
    exact hnext
  · simpa only [Mailbox.store, setMb, Function.update_self] using hin
  · simpa only [Mailbox.store, setMb, Function.update_self] using hsmall

theorem Fifo.fetch (h : Fifo s m) (hsome : (s.mb m).entry ≠ 0) : Fifo (fetch s m) m := by
  obtain ⟨horder, hle, hoff, hin, hsmall⟩ := h
  obtain ⟨n, hn⟩ := Nat.exists_eq_succ_of_ne_zero hsome
  have hentry : ((s.mb m).entry + (2 ^ 16 - 1)) % 2 ^ 16 = n := by
    rw [hn]
    omega
  have hnext : nextOffset (s.mb m).outOffset (s.mb m).size =
      ((s.mb m).outOffset + 1) % (s.mb m).size := nextOffset_eq hin hsmall
  have hpop : (s.mb m).stored = (s.mb m).msgPool (s.mb m).outOffset ::
      Ring.contents (s.mb m).msgPool (s.mb m).size (((s.mb m).outOffset + 1) % (s.mb m).size) n := by
    rw [RtMailbox.stored, hn, Nat.succ_eq_add_one, Ring.contents_pop, Nat.mod_eq_of_lt hin]
  constructor
  · simp only [Mailbox.fetch, setMb, RtMailbox.stored, Function.update_self, hentry, hnext]
    rw [← horder, hpop, List.append_assoc, List.singleton_append]
  · simp only [Mailbox.fetch, setMb, Function.update_self, hentry]
    omega
  · simp only [Mailbox.fetch, setMb, Function.update_self, hentry, hnext]
    rw [hoff, hn, Nat.mod_add_mod, Nat.succ_eq_add_one, Nat.add_assoc, Nat.add_comm 1 n]
  · simp only [Mailbox.fetch, setMb, Function.update_self, hnext]
    exact Nat.mod_lt _ (by omega)
  · simpa only [Mailbox.fetch, setMb, Function.update_self] using hsmall

theorem Fifo.step (h : Fifo s m) (hs : mbStep s act = some s') : Fifo s' m := by
  cases mbStep_effect hs with
  | quiet hmb hse hr => exact h.congr (by rw [hmb]) (by rw [hse]) (by rw [hr])
  | stored p v hroom hmb hse hr =>
    by_cases hp : m = p
    · subst hp
      exact (h.store hroom v).congr (by rw [hmb]) (by rw [hse]) (by rw [hr]; rfl)
    · refine h.congr ?_ ?_ (by rw [hr])
      · rw [hmb]
        exact Function.update_of_ne hp ..
      · rw [hse]
        exact Function.update_of_ne hp ..
  | fetched p hsome hmb hse hr =>
    by_cases hp : m = p
    · subst hp
      exact (h.fetch hsome).congr (by rw [hmb]) (by rw [hse]; rfl) (by rw [hr])
    · refine h.congr ?_ (by rw [hse]) ?_
      · rw [hmb]
        exact Function.update_of_ne hp ..
      · rw [hr]
        exact Function.update_of_ne hp ..

/-- The size of a mailbox never changes. -/
theorem mbStep_size (h : mbStep s act = some s') (m : Nat) : (s'.mb m).size = (s.mb m).size := by
  cases mbStep_effect h with
  | quiet hmb => rw [hmb]
  | stored p v _ hmb =>
    rw [hmb]
    by_cases hp : m = p
    · subst hp
      simp [Mailbox.store, setMb]
    · simp [Mailbox.store, setMb, hp]
  | fetched p _ hmb =>
    rw [hmb]
    by_cases hp : m = p
    · subst hp
      simp [Mailbox.fetch, setMb]
    · simp [Mailbox.fetch, setMb, hp]

/-- **A mailbox is a FIFO of capacity `size`.** In every run, the values of the successful receives
and then the stored ones are those of the successful sends, in the order in which they were stored;
there are at most `size` of them, and `in_offset` is behind the last. -/
theorem mailbox_fifo (pool : Nat → Nat → Nat) (size flag priority : Nat → Nat) (m : Nat)
    (hpos : 0 < size m) (hsize : size m < 2 ^ 16) (acts : List MbAct) (s : MbSys)
    (hx : exec mbStep (mbInit pool size flag priority) acts = some s) :
    (s.mb m).size = size m ∧ Fifo s m := by
  have hmod : size m % 2 ^ 16 = size m := Nat.mod_eq_of_lt hsize
  refine exec_inv (I := fun s => (s.mb m).size = size m ∧ Fifo s m)
    (fun s act s' h hs => ⟨(mbStep_size hs m).trans h.1, h.2.step hs⟩) hx ⟨hmod, ?_⟩
  constructor
  · rfl
  · exact Nat.zero_le _
  · exact (Nat.zero_mod _).symm
  · show 0 < size m % 2 ^ 16
    omega
  · show size m % 2 ^ 16 < 2 ^ 16
    omega

/-- The thread 1 waits to send a second value into a mailbox of size 1. It is resumed by a receive,
but an interrupt stores a value first, and it waits again for the rest of its time. -/
def resumedTooLate : List MbAct :=
  [.send 0 7 0, .goOn, .preempt 1, .send 0 8 5, .preempt 0, .tick, .recv 0 0, .isrSend 0 9,
    .preempt 1, .goOn, .goOn, .preempt 0, .isrRecv 0, .preempt 1, .goOn, .goOn]

theorem mailbox_fifo_race : ∃ s, exec mbStep (mbInit (fun _ _ => 0) (fun _ => 1) (fun _ => 0)
    fun _ => 10) resumedTooLate = some s ∧ ((s.mb 0).size = 1 ∧ Fifo s 0) ∧
      s.sent 0 = [7, 9, 8] ∧ s.received 0 = [7, 9] :=
  ⟨_, rfl, mailbox_fifo (fun _ _ => 0) (fun _ => 1) (fun _ => 0) (fun _ => 10) 0 (by decide)
    (by decide) resumedTooLate _ rfl, rfl, rfl⟩

end Tudu.Mailbox
