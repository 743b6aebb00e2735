import Mathlib.Algebra.Group.Nat.Defs
import TuduOS.Kernel.Wait
import TuduOS.Lib.Lts

/-!
# Message queues (`rt_mq_send_wait`, `rt_mq_urgent`, `rt_mq_recv`, `rt_mq_control` of `ipc.c`)

Any number of threads and message queues. A section with interrupts disabled is one step, and so is
each statement between two sections; between two steps any ready thread may run, a timer may expire
and the tick may go on.

* The buffers of a queue are numbered by their place in `msg_pool`; `next b` is the pointer in
  front of the buffer `b`, and `data b` its contents.
* A thread at `sendTaken`, `sendCopy`, `sendLink`, `urgentCopy`, `urgentLink`, `recvCopy` or
  `recvFree` has a buffer in its hands.
* The receivers of the queue `m` wait on the list `2 * m`, the senders (`suspend_sender_thread`) on
  the list `2 * m + 1`.
* The loop of a reset runs with enough fuel (`resetLoop_returns`). A `NULL` head that the code reads
  through has no next state.

The ghost `queue m` is the queue that `m` stands for: a send puts its message at the end where it
links it, an urgent send at the front, a receive takes the first message, a reset takes all. A
receive remembers the message that it took (`recvCopy`, `recvFree`).
-/

namespace Tudu.MessageQueue

open Kern Lts

abbrev Msg := List UInt8

structure RtMq where
  /-- `rt_uint16_t`, as are the next two. -/
  msgSize : Nat
  maxMsgs : Nat
  entry : Nat
  head : Option Nat
  tail : Option Nat
  free : Option Nat
  next : Nat → Option Nat
  data : Nat → Msg
  flag : Nat

inductive Pc where
  | user
  /-- In `rt_schedule` in `rt_mq_send_wait(m, c, timeout)`. -/
  | sendWait (m : Nat) (c : Msg) (timeout : Int) (delta : Nat)
  /-- Resumed without an error, before the next section. -/
  | sendAgain (m : Nat) (c : Msg) (timeout : Int) (delta : Nat)
  /-- `msg->next = RT_NULL` -/
  | sendTaken (m b : Nat) (c : Msg)
  /-- `rt_memcpy(msg + 1, buffer, size)` -/
  | sendCopy (m b : Nat) (c : Msg)
  /-- Before the second section. -/
  | sendLink (m b : Nat) (c : Msg)
  /-- `rt_memcpy(msg + 1, buffer, size)` of `rt_mq_urgent` -/
  | urgentCopy (m b : Nat) (c : Msg)
  | urgentLink (m b : Nat) (c : Msg)
  /-- In `rt_schedule` in `rt_mq_recv(m, size, timeout)`. -/
  | recvWait (m size : Nat) (timeout : Int) (delta : Nat)
  | recvAgain (m size : Nat) (timeout : Int) (delta : Nat)
  /-- `rt_memcpy(buffer, msg + 1, ...)`; `c` is the message taken. -/
  | recvCopy (m b size : Nat) (c : Msg)
  /-- Before the second section, with the received bytes `r`. -/
  | recvFree (m b size : Nat) (c r : Msg)
  /-- The call is about to return `r`. -/
  | done (r : Int)
  deriving DecidableEq

structure MqSys where
  kern : Kern
  mq : Nat → RtMq
  pc : Nat → Pc
  /-- `rt_tick` (`rt_uint32_t`) -/
  tick : Nat
  queue : Nat → List Msg

namespace MqSys

def setKern (s : MqSys) (k : Kern) : MqSys := { s with kern := k }

def setMq (s : MqSys) (m : Nat) (x : RtMq) : MqSys := { s with mq := Function.update s.mq m x }

def setQueue (s : MqSys) (m : Nat) (l : List Msg) : MqSys :=
  { s with queue := Function.update s.queue m l }

def goto (s : MqSys) (t : Nat) (p : Pc) : MqSys := { s with pc := Function.update s.pc t p }

end MqSys

open MqSys

namespace RtMq

/-- `b->next = p` -/
def setNext (x : RtMq) (b : Nat) (p : Option Nat) : RtMq :=
  { x with next := Function.update x.next b p }

/-- `rt_memcpy(b + 1, c, size of c)` -/
def copyIn (x : RtMq) (b : Nat) (c : Msg) : RtMq :=
  { x with data := Function.update x.data b (c ++ (x.data b).drop c.length) }

/-- `mq->msg_queue_free = b->next` -/
def takeFree (x : RtMq) (b : Nat) : RtMq := { x with free := x.next b }

/-- `b->next = mq->msg_queue_free; mq->msg_queue_free = b` -/
def putFree (x : RtMq) (b : Nat) : RtMq := { x.setNext b x.free with free := some b }

/-- The second section of `rt_mq_send_wait`. -/
def linkTail (x : RtMq) (b : Nat) : RtMq :=
  let y := match x.tail with
    | some t => x.setNext t (some b)
    | none => x
  { y with
    tail := some b
    head := if x.head = none then some b else x.head
    entry := (x.entry + 1) % 2 ^ 16 }

/-- The second section of `rt_mq_urgent`. -/
def linkHead (x : RtMq) (b : Nat) : RtMq :=
  { x.setNext b x.head with
    head := some b
    tail := if x.tail = none then some b else x.tail
    entry := (x.entry + 1) % 2 ^ 16 }

/-- The first buffer `b` is taken off the message list. -/
def unlinkHead (x : RtMq) (b : Nat) : RtMq :=
  { x with
    head := x.next b
    tail := if x.tail = some b then none else x.tail }

/-- The loop of a reset; `none`: there is not enough fuel. -/
def resetLoop : Nat → RtMq → Option RtMq
  | n, x =>
    match x.head with
    | none => some x
    | some b =>
      match n with
      | 0 => none
      | n + 1 => resetLoop n ((x.unlinkHead b).putFree b)

end RtMq

/-- The loop of `rt_mq_send_wait`, from its test on. -/
def sendLoop (s : MqSys) (m : Nat) (c : Msg) (timeout : Int) (delta : Nat) : Option MqSys :=
  let t := s.kern.current
  match (s.mq m).free with
  | none =>
    if timeout = 0 then some ((s.setKern (s.kern.setError t rtEok)).goto t (.done (-rtEfull)))
    else
      (s.kern.waitOn (2 * m + 1) (s.mq m).flag timeout).map fun k =>
        (s.setKern k).goto t (.sendWait m c timeout (if timeout > 0 then s.tick else delta))
  | some b => some ((s.setMq m ((s.mq m).takeFree b)).goto t (.sendTaken m b c))

/-- `rt_mq_send_wait`, up to its first wait or its copy. -/
def rtMqSendWait (s : MqSys) (m : Nat) (c : Msg) (timeout : Int) : Option MqSys :=
  let t := s.kern.current
  if c = [] then none
  else if c.length > (s.mq m).msgSize then some (s.goto t (.done (-rtError)))
  else if (s.mq m).free = none ∧ timeout = 0 then some (s.goto t (.done (-rtEfull)))
  else sendLoop s m c timeout 0

/-- `rt_mq_urgent`, up to its copy. -/
def rtMqUrgent (s : MqSys) (m : Nat) (c : Msg) : Option MqSys :=
  let t := s.kern.current
  if c = [] then none
  else if c.length > (s.mq m).msgSize then some (s.goto t (.done (-rtError)))
  else
    match (s.mq m).free with
    | none => some (s.goto t (.done (-rtEfull)))
    | some b => some ((s.setMq m ((s.mq m).takeFree b)).goto t (.urgentCopy m b c))

/-- The loop of `rt_mq_recv`, from its test on. -/
def recvLoop (s : MqSys) (m size : Nat) (timeout : Int) (delta : Nat) : Option MqSys :=
  let t := s.kern.current
  let x := s.mq m
  if x.entry = 0 then
    if timeout = 0 then
      some ((s.setKern (s.kern.setError t (-rtEtimeout))).goto t (.done (-rtEtimeout)))
    else
      (s.kern.waitOn (2 * m) x.flag timeout).map fun k =>
        (s.setKern k).goto t (.recvWait m size timeout (if timeout > 0 then s.tick else delta))
  else
    match x.head with
    | none => none
    | some b =>
      some (((s.setMq m { x.unlinkHead b with
          entry := (x.entry + (2 ^ 16 - 1)) % 2 ^ 16 }).setQueue m (s.queue m).tail).goto t
        (.recvCopy m b size ((s.queue m).headD [])))

/-- `rt_mq_recv`, up to its first wait or its copy. -/
def rtMqRecv (s : MqSys) (m size : Nat) (timeout : Int) : Option MqSys :=
  let t := s.kern.current
  if size = 0 then none
  else if (s.mq m).entry = 0 ∧ timeout = 0 then some (s.goto t (.done (-rtEtimeout)))
  else recvLoop s m size timeout 0

/-- `rt_mq_control(m, RT_IPC_CMD_RESET)` -/
def rtMqReset (s : MqSys) (m : Nat) : Option MqSys :=
  let k := (s.kern.resumeAll (2 * m)).resumeAll (2 * m + 1)
  ((s.mq m).resetLoop (s.mq m).maxMsgs).map fun x =>
    ((s.setKern k).setMq m { x with entry := 0 }).setQueue m []

/-- Behind `rt_schedule`: the test of `error`. -/
def afterWait (s : MqSys) (p : Pc) : Option MqSys :=
  let t := s.kern.current
  if (s.kern.thread t).stat = .ready then
    if (s.kern.thread t).error ≠ rtEok then some (s.goto t (.done (s.kern.thread t).error))
    else some (s.goto t p)
  else none

def goOn (s : MqSys) : Option MqSys :=
  let t := s.kern.current
  match s.pc t with
  | .user => none
  | .sendWait m c timeout delta => afterWait s (.sendAgain m c timeout delta)
  | .sendAgain m c timeout delta =>
    sendLoop s m c (restTime timeout delta s.tick) (restDelta timeout delta s.tick)
  | .sendTaken m b c => some ((s.setMq m ((s.mq m).setNext b none)).goto t (.sendCopy m b c))
  | .sendCopy m b c => some ((s.setMq m ((s.mq m).copyIn b c)).goto t (.sendLink m b c))
  | .sendLink m b c =>
    some ((((s.setMq m ((s.mq m).linkTail b)).setQueue m (s.queue m ++ [c])).setKern
      (s.kern.resumeFirst (2 * m))).goto t (.done rtEok))
  | .urgentCopy m b c => some ((s.setMq m ((s.mq m).copyIn b c)).goto t (.urgentLink m b c))
  | .urgentLink m b c =>
    some ((((s.setMq m ((s.mq m).linkHead b)).setQueue m (c :: s.queue m)).setKern
      (s.kern.resumeFirst (2 * m))).goto t (.done rtEok))
  | .recvWait m size timeout delta => afterWait s (.recvAgain m size timeout delta)
  | .recvAgain m size timeout delta =>
    recvLoop s m size (restTime timeout delta s.tick) (restDelta timeout delta s.tick)
  | .recvCopy m b size c =>
    some (s.goto t (.recvFree m b size c (((s.mq m).data b).take (min size (s.mq m).msgSize))))
  | .recvFree m b _ _ _ =>
    some (((s.setMq m ((s.mq m).putFree b)).setKern (s.kern.resumeFirst (2 * m + 1))).goto t
      (.done rtEok))
  | .done _ => some (s.goto t .user)

inductive MqAct where
  /-- An interrupt, or `rt_schedule`, switches to the ready thread `u`. -/
  | preempt (u : Nat)
  /-- The current thread calls `rt_mq_send_wait(m, c, timeout)`. -/
  | send (m : Nat) (c : Msg) (timeout : Int)
  /-- The current thread calls `rt_mq_urgent(m, c)`. -/
  | urgent (m : Nat) (c : Msg)
  /-- The current thread calls `rt_mq_recv(m, size, timeout)`. -/
  | recv (m size : Nat) (timeout : Int)
  /-- The current thread goes on in its call. -/
  | goOn
  /-- The current thread or an interrupt calls `rt_mq_control(m, RT_IPC_CMD_RESET)`. -/
  | reset (m : Nat)
  /-- The timer of the thread `u` expires. -/
  | timeout (u : Nat)
  /-- The tick goes on. -/
  | tick
  deriving DecidableEq

def mqStep (s : MqSys) : MqAct → Option MqSys
  | .preempt u =>
    if (s.kern.thread u).stat = .ready then some (s.setKern { s.kern with current := u }) else none
  | .send m c timeout =>
    match s.pc s.kern.current with
    | .user => rtMqSendWait s m c timeout
    | _ => none
  | .urgent m c =>
    match s.pc s.kern.current with
    | .user => rtMqUrgent s m c
    | _ => none
  | .recv m size timeout =>
    match s.pc s.kern.current with
    | .user => rtMqRecv s m size timeout
    | _ => none
  | .goOn => goOn s
  | .reset m => rtMqReset s m
  | .timeout u => (s.kern.rtThreadTimeout u).map s.setKern
  | .tick => some { s with tick := (s.tick + 1) % 2 ^ 32 }

/-- `rt_mq_init`, on a pool with the pointers `next` and the contents `data`. -/
def rtMqInit (msgSize poolSize flag : Nat) (next : Nat → Option Nat) (data : Nat → Msg) : RtMq :=
  let size := rtAlign msgSize % 2 ^ 16
  let maxMsgs := poolSize / (size + 4) % 2 ^ 16
  (List.range maxMsgs).foldl RtMq.putFree ⟨size, maxMsgs, 0, none, none, none, next, data, flag⟩

def mqInit (msgSize poolSize flag priority : Nat → Nat) (next : Nat → Nat → Option Nat)
    (data : Nat → Nat → Msg) : MqSys where
  kern := ⟨0, fun t => ⟨.ready, rtEok, priority t, false, false, false⟩, fun _ => []⟩
  mq := fun m => rtMqInit (msgSize m) (poolSize m) (flag m) (next m) (data m)
  pc := fun _ => .user
  tick := 0
  queue := fun _ => []

end Tudu.MessageQueue
