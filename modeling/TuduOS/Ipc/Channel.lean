import Mathlib.Tactic.Simps.Basic
import TuduOS.Kernel.Thread
import TuduOS.Lib.Lts

/-!
# Channels (`bin_channel_recv`, `bin_channel_send`, `bin_channel_reply` of `ipc.c`)

Any number of threads and channels. A section with interrupts disabled is one step, of the current
thread. Between two steps an interrupt may switch to any ready thread (`preempt`) or let a timer
expire (`timeout`). A file descriptor stands for its channel.

* The record pool: `ipc_msg_alloc` takes the records in order; `ipc_msg_free` gives none back.
* `bin_channel_send` puts the message in the `msg_ret` of every thread on the suspend list
  (`sendLoop`). Where it finds an unread message, it sleeps with interrupts enabled (`sendUnread`),
  and goes on from that thread when the slot is empty. (If that thread has left the list, the C code
  follows its `tlist` into another list; a run of the model ends there.) A send with `need_reply`
  then waits (`sendWait`) and takes the replies from `wait_msg` (`sendDrain`).
* `bin_channel_send` reads `need_schedule` uninitialised if no thread is on the list: it may or may
  not call `rt_schedule`.
* `bin_channel_recv` leaves `thread->error` as it is. Other calls of the thread may set it
  (`setError`).

A `NULL` record that the code writes to ends the run (`fault`). `ChannelLog` is the ghost part of
the state. No signals.
-/

namespace Tudu.Channel

open Kern

def ipcMsgSize : Nat := 100

structure BinChannelMsg where
  sender : Nat
  type : Int
  u : Nat
  deriving DecidableEq

/-- A channel; its `suspend_thread` list is the one of the same number in `Kern`. -/
structure BinChannel where
  flag : Nat
  waitMsg : List Nat
  reply : Option Nat
  /-- `reader_queue.flag` -/
  readerFlag : Nat
  /-- `reader_queue.waiting_list` -/
  waitingList : List Nat
  deriving DecidableEq

/-- Where a thread is; `c`: the channel, `r`: the record of its message. -/
inductive Pc where
  /-- Outside the channel functions. -/
  | user
  /-- In `bin_channel_recv`, at `rt_schedule`. -/
  | recv (c : Nat)
  /-- In `bin_channel_send`, asleep because the listed thread `u` has an unread message. -/
  | sendUnread (c r : Nat) (needReply : Bool) (u : Nat)
  /-- In `bin_channel_send`, at the `rt_schedule` before it takes the replies; `sched`:
  `need_schedule` is set. -/
  | sendWait (c r : Nat) (sched : Bool)
  /-- In the endless loop "channel recv reply error!". -/
  | sendErr (c : Nat)
  deriving DecidableEq

/-- A `bin_channel_reply` that returned `RT_EOK`. -/
structure ReplyEvent where
  channel : Nat
  /-- The record of the reply. -/
  msg : Nat
  /-- The sender of the message that the replier had received. -/
  asker : Option Nat
  /-- The thread that it resumed. -/
  woke : Nat
  deriving DecidableEq

/-- What has happened so far. -/
structure ChannelLog where
  /-- The messages for which `bin_channel_send` returned `RT_EOK`. -/
  sent : List Nat
  /-- The messages that a `bin_channel_recv` returned. -/
  recvd : List Nat
  /-- The message that the thread's last `bin_channel_recv` returned. -/
  lastRecv : Nat → Option BinChannelMsg
  /-- The thread was sent a message that it has to reply to. -/
  owes : Nat → Bool
  replies : List ReplyEvent
  /-- The replies that a sender took, with the sender. -/
  drained : List (Nat × Nat)
  /-- The free records before and after each send with `need_reply` that returned. -/
  exchanges : List (Nat × Nat)
  /-- `ipc_msg_alloc` returned `NULL` to a `bin_channel_send`. -/
  nomem : Bool

structure ChannelSys where
  kern : Kern
  msgRet : Nat → Option Nat
  ipcMsg : Nat → BinChannelMsg
  ipcMsgPos : Nat
  channel : Nat → BinChannel
  pc : Nat → Pc
  fault : Bool
  log : ChannelLog

namespace ChannelSys

@[simps] def goto (s : ChannelSys) (t : Nat) (p : Pc) : ChannelSys :=
  { s with pc := Function.update s.pc t p }

@[simps] def setKern (s : ChannelSys) (k : Kern) : ChannelSys := { s with kern := k }

@[simps] def setChannel (s : ChannelSys) (c : Nat) (x : BinChannel) : ChannelSys :=
  { s with channel := Function.update s.channel c x }

/-- `rt_thread_mdelay`, up to its `rt_schedule`. -/
def mdelay (s : ChannelSys) : ChannelSys :=
  s.setKern ((s.kern.rtThreadSuspend s.kern.current).startTimer s.kern.current)

def free (s : ChannelSys) : Nat := ipcMsgSize - s.ipcMsgPos

end ChannelSys

open ChannelSys

def ipcMsgAlloc (s : ChannelSys) : Option (Nat × ChannelSys) :=
  if s.ipcMsgPos < ipcMsgSize then some (s.ipcMsgPos, { s with ipcMsgPos := s.ipcMsgPos + 1 })
  else none

def ipcMsgInit (s : ChannelSys) (r : Nat) (type : Int) (u : Nat) : ChannelSys :=
  { s with ipcMsg := Function.update s.ipcMsg r ⟨s.kern.current, type, u⟩ }

def binChannelRecv (s : ChannelSys) (c : Nat) (timeout : Int) : Option ChannelSys :=
  let t := s.kern.current
  (s.kern.rtIpcListSuspend c t (s.channel c).flag).map fun k =>
    let k := if timeout > 0 then k.startTimer t else k
    let s := (s.setKern k).goto t (.recv c)
    { s with log := { s.log with lastRecv := Function.update s.log.lastRecv t none } }

/-- The thread takes the message `r` out of its `msg_ret`. -/
def recvMsg (s : ChannelSys) (c r : Nat) : ChannelSys :=
  let t := s.kern.current
  let x := s.channel c
  let s := { s with
    msgRet := if x.reply = none then Function.update s.msgRet t none else s.msgRet
    log := { s.log with
      recvd := r :: s.log.recvd
      lastRecv := Function.update s.log.lastRecv t (some (s.ipcMsg r)) } }
  (s.setChannel c { x with
    readerFlag := if x.waitingList = [] then 0 else x.readerFlag }).goto t .user

/-- `bin_channel_recv` behind its `rt_schedule`. -/
def recvResume (s : ChannelSys) (c : Nat) : ChannelSys :=
  let t := s.kern.current
  if (s.kern.thread t).error ≠ rtEok then s.goto t .user
  else
    match s.msgRet t with
    | none => s.goto t .user
    | some r => recvMsg s c r

/-- The listed thread `u` gets the message `r` and is resumed. -/
def give (s : ChannelSys) (c r u : Nat) : ChannelSys :=
  { s with
    msgRet := Function.update s.msgRet u (some r)
    kern := s.kern.rtThreadResume u
    channel := Function.update s.channel c { s.channel c with readerFlag := 1 } }

/-- The record for the reply of `u` goes on `waiting_list`. -/
def addReplyMsg (s : ChannelSys) (c u : Nat) : Option ChannelSys :=
  match ipcMsgAlloc s with
  | none => none
  | some (e, s) => some { s with
      ipcMsg := Function.update s.ipcMsg e { s.ipcMsg e with sender := u, type := 0 }
      channel := Function.update s.channel c
        { s.channel c with waitingList := e :: (s.channel c).waitingList }
      log := { s.log with owes := Function.update s.log.owes u true } }

/-- The end of the section of `bin_channel_send`. -/
def sendDone (s : ChannelSys) (c r : Nat) (needReply sched : Bool) : ChannelSys :=
  let t := s.kern.current
  if needReply then (s.setKern (s.kern.rtThreadSuspend t)).goto t (.sendWait c r sched)
  else
    let s := s.goto t .user
    { s with log := { s.log with sent := r :: s.log.sent } }

/-- The loop of `bin_channel_send` over the suspend list. -/
def sendLoop (c r : Nat) (needReply sched : Bool) : List Nat → ChannelSys → ChannelSys
  | [], s => sendDone s c r needReply sched
  | u :: us, s =>
    if s.msgRet u ≠ none then s.mdelay.goto s.kern.current (.sendUnread c r needReply u)
    else
      let s := give s c r u
      if needReply then
        match addReplyMsg s c u with
        | none => { s with fault := true }
        | some s => sendLoop c r needReply sched us s
      else sendLoop c r needReply sched us s

/-- `bin_channel_send` with its record `r`, up to the loop. -/
def sendStart (s : ChannelSys) (c r : Nat) (type : Int) (u : Nat) (needReply : Bool) :
    ChannelSys :=
  let s := ipcMsgInit s r type u
  if needReply then s.setChannel c { s.channel c with reply := some s.kern.current } else s

def binChannelSend (s : ChannelSys) (c : Nat) (type : Int) (u : Nat) (needReply : Bool) :
    ChannelSys :=
  match ipcMsgAlloc s with
  | none => { s with log := { s.log with nomem := true } }
  | some (r, s) =>
    let l := s.kern.suspendThread c
    sendLoop c r needReply (decide (l ≠ [])) l (sendStart s c r type u needReply)

/-- The end of `rt_thread_mdelay`. -/
def awake (s : ChannelSys) : ChannelSys :=
  let t := s.kern.current
  s.setKern (if (s.kern.thread t).error = -rtEtimeout then s.kern.setError t rtEok else s.kern)

/-- `bin_channel_send` after its sleep: `u` may have read its message. -/
def sendRetry (s : ChannelSys) (c r : Nat) (needReply : Bool) (u : Nat) : Option ChannelSys :=
  let s := awake s
  if s.msgRet u ≠ none then some s.mdelay
  else if u ∈ s.kern.suspendThread c then
    some (sendLoop c r needReply true ((s.kern.suspendThread c).dropWhile (· ≠ u)) s)
  else none

/-- The sender takes all replies of `wait_msg`. -/
def drainMsg (s : ChannelSys) (c : Nat) : ChannelSys :=
  let x := s.channel c
  let s := s.setChannel c { x with waitMsg := [] }
  { s with log := { s.log with
    drained := x.waitMsg.map (fun e => (s.kern.current, e)) ++ s.log.drained } }

/-- The send with `need_reply` returns `RT_EOK`. -/
def sendEnd (s : ChannelSys) (r : Nat) : ChannelSys :=
  let s := s.goto s.kern.current .user
  { s with log := { s.log with
    sent := r :: s.log.sent
    exchanges := (ipcMsgSize - r, s.free) :: s.log.exchanges } }

/-- One round of the loop in which a sender takes the replies. -/
def sendDrain (s : ChannelSys) (c r : Nat) : ChannelSys :=
  let t := s.kern.current
  if (s.channel c).waitMsg = [] then s.goto t (.sendErr c)
  else
    let s := drainMsg s c
    if (s.channel c).waitingList = [] then sendEnd s r
    else (s.setKern (s.kern.rtThreadSuspend t)).goto t (.sendWait c r true)

/-- The record `e` goes from `waiting_list` to `wait_msg`, with the reply in it. -/
def replyMsg (s : ChannelSys) (c e : Nat) (type : Int) (u : Nat) : ChannelSys :=
  let x := s.channel c
  let s := ipcMsgInit s e type u
  let s := s.setChannel c { x with
    waitingList := x.waitingList.erase e
    waitMsg := e :: x.waitMsg }
  { s with msgRet := Function.update s.msgRet s.kern.current none }

/-- `bin_channel_reply` has found `e`, and resumes the thread `v`. -/
def replyWake (s : ChannelSys) (c e v : Nat) : ChannelSys :=
  let t := s.kern.current
  { s.setKern (s.kern.rtThreadResume v) with log := { s.log with
    owes := Function.update s.log.owes t false
    replies := ⟨c, e, (s.log.lastRecv t).map (·.sender), v⟩ :: s.log.replies } }

def binChannelReply (s : ChannelSys) (c : Nat) (type : Int) (u : Nat) : ChannelSys :=
  let t := s.kern.current
  match (s.channel c).waitingList.find? fun e => (s.ipcMsg e).sender = t with
  | none => s
  | some e =>
    let s := replyMsg s c e type u
    match (s.channel c).reply with
    | none => { s with fault := true }
    | some v => replyWake s c e v

inductive ChannelAct where
  /-- An interrupt, or `rt_schedule`, switches to the ready thread `u`. -/
  | preempt (u : Nat)
  /-- The current thread calls `bin_channel_recv(c, timeout)`. -/
  | recv (c : Nat) (timeout : Int)
  /-- The current thread calls `bin_channel_send(c, {type, u}, need_reply)`. -/
  | send (c : Nat) (type : Int) (u : Nat) (needReply : Bool)
  /-- The current thread calls `bin_channel_reply(c, {type, u})`. -/
  | reply (c : Nat) (type : Int) (u : Nat)
  /-- The current thread goes on behind its `rt_schedule`. -/
  | resume
  /-- The timer of the thread `u` expires. -/
  | timeout (u : Nat)
  /-- Another call of the current thread leaves `e` in its `error`. -/
  | setError (e : Int)
  deriving DecidableEq

def channelStep (s : ChannelSys) (act : ChannelAct) : Option ChannelSys :=
  if s.fault then none
  else
    match act, s.pc s.kern.current with
    | .preempt u, _ =>
      if (s.kern.thread u).stat = .ready then some (s.setKern { s.kern with current := u })
      else none
    | .recv c timeout, .user => binChannelRecv s c timeout
    | .send c type u needReply, .user => some (binChannelSend s c type u needReply)
    | .reply c type u, .user => some (binChannelReply s c type u)
    | .setError e, .user => some (s.setKern (s.kern.setError s.kern.current e))
    | .resume, .recv c =>
      if (s.kern.thread s.kern.current).stat = .ready then some (recvResume s c) else none
    | .resume, .sendUnread c r needReply u =>
      if (s.kern.thread s.kern.current).stat = .ready then sendRetry s c r needReply u else none
    | .resume, .sendWait c r sched =>
      if sched = false ∨ (s.kern.thread s.kern.current).stat = .ready then some (sendDrain s c r)
      else none
    | .timeout u, _ => (s.kern.rtThreadTimeout u).map s.setKern
    | _, _ => none

/-- The channels are open, and the threads run that use them. -/
def channelInit (flag priority : Nat → Nat) : ChannelSys where
  kern := ⟨0, fun t => ⟨.ready, rtEok, priority t, false, false, false⟩, fun _ => []⟩
  msgRet := fun _ => none
  ipcMsg := fun _ => ⟨0, 0, 0⟩
  ipcMsgPos := 0
  channel := fun c => ⟨flag c, [], none, 0, []⟩
  pc := fun _ => .user
  fault := false
  log := ⟨[], [], fun _ => none, fun _ => false, [], [], [], false⟩

end Tudu.Channel
