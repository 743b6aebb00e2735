import Mathlib.Data.BitVec
import TuduOS.Kernel.Def
import TuduOS.Lib.Lts

/-!
# Signals of a thread (`signal.c`)

One thread, the target, which may call `rt_signal_install`, `rt_signal_mask`, `rt_signal_unmask`,
`rt_signal_wait` and `rt_thread_kill`, also in its handlers; and any number of other threads and
interrupts that send signals to it. A section with interrupts disabled, and what follows it up to
the next one, is one step.

* `frames` are the calls of `signal.c` that the target is in, the last one first. Between them it
  runs code of its own.
* READY and RUNNING are one state; `self` is true while the target is `rt_thread_self()`.
* A node comes from a memory pool; whether there is one left is not in the state.
* A step without a next state: the code reads `sig_vectors` or goes on at `sig_ret` through `NULL`,
  or shifts by 32 or more.

The ghosts: `accepted` has the signals of the accepted `rt_thread_kill`s, and a node the number of
the one that made it; `log` has the handlers that were called; `waits` counts the times that the
target was suspended in `rt_signal_wait`; `ret` is what `rt_signal_wait` returned in the last step.
-/

namespace Tudu.Signal

def rtEinval : Int := 10

structure Siginfo where
  siSigno : Nat
  siCode : Nat
  siValue : Nat
  deriving DecidableEq

structure SiginfoNode where
  si : Siginfo
  number : Nat
  deriving DecidableEq

inductive Stat where
  | ready | suspend | close
  deriving DecidableEq

/-- What `rt_signal_install` is given; `fn n` is a function of the user. -/
inductive Sighandler where
  | ign | dfl
  | fn (n : Nat)
  deriving DecidableEq

structure RtThread where
  stat : Stat
  /-- `RT_THREAD_STAT_SIGNAL` -/
  signal : Bool
  /-- `RT_THREAD_STAT_SIGNAL_WAIT` -/
  signalWait : Bool
  /-- `RT_THREAD_STAT_SIGNAL_PENDING` -/
  signalPending : Bool
  /-- The thread's timer runs. -/
  timer : Bool
  error : Int
  sigPending : BitVec 32
  sigMask : BitVec 32
  /-- Each vector is `NULL`, `_signal_default_handler` or a function of the user. -/
  sigVectors : Option (Nat → Option Sighandler)
  siList : List SiginfoNode
  /-- `sig_ret` is not `NULL`. -/
  sigRet : Bool
  /-- `sp` is on the stack for `_signal_entry`. -/
  atEntry : Bool

inductive Frame where
  /-- The loop of `rt_thread_handle_sig(clean_state)`; `called`: the handler is not `NULL`. -/
  | handling (cleanState called : Bool)
  /-- `rt_schedule` in `rt_signal_wait` -/
  | waiting (set : BitVec 32)
  /-- `rt_schedule` anywhere else -/
  | blocked
  /-- `_signal_entry` -/
  | entry
  /-- `rt_thread_kill` of itself, before it takes a node -/
  | killing (sig : Fin 32)
  /-- before `_signal_deliver` -/
  | deliver
  /-- `_signal_deliver`, before `rt_thread_handle_sig` -/
  | handle
  deriving DecidableEq

/-- A `rt_thread_kill` of another thread: before it takes a node, or before `_signal_deliver`, with
`waits` as it was when the node was appended. -/
structure Kill where
  sig : Fin 32
  appended : Option Nat
  deriving DecidableEq

/-- The call of a handler, with the bit of the signal in `sig_mask` then. -/
structure Call where
  number : Nat
  signo : Nat
  enabled : Bool
  deriving DecidableEq

/-- What `rt_signal_wait(set, si, _)` returned. -/
structure WaitRet where
  set : BitVec 32
  ret : Int
  si : Siginfo
  deriving DecidableEq

structure SigSys where
  tid : RtThread
  self : Bool
  frames : List Frame
  kills : Nat → Option Kill
  accepted : List Nat
  log : List Call
  waits : Nat
  ret : Option WaitRet

/-- `sig_mask(sig_no)` -/
def sigBit (signo : Nat) : BitVec 32 := 1#32 <<< signo

/-- `rt_signal_install`, of a valid signal -/
def rtSignalInstall (t : RtThread) (signo : Nat) (handler : Sighandler) : RtThread :=
  let vectors := t.sigVectors.getD fun _ => some .dfl
  { t with sigVectors := some (Function.update vectors signo
      (match handler with
        | .ign => none
        | h => some h)) }

/-- `_signal_deliver` -/
def signalDeliver (s : SigSys) (irq : Bool) : SigSys :=
  let t := s.tid
  if t.sigPending &&& t.sigMask = 0 then s
  else if t.stat = .suspend then
    { s with tid := { t with
      stat := .ready, timer := false, signal := true, signalPending := true } }
  else if s.self then
    { s with
      tid := { t with signal := true }
      frames := if irq then s.frames else .handle :: s.frames }
  else if t.signal = false then
    { s with tid := { t with
      signal := true, signalPending := false, sigRet := true, atEntry := true } }
  else s

/-- The loop of `rt_thread_handle_sig`, from its test on: a handler is called, or the loop ends. -/
def handleLoop (s : SigSys) (cleanState : Bool) : Option SigSys :=
  let t := s.tid
  let done := if cleanState then { s with tid := { t with signal := false } } else s
  if t.sigPending &&& t.sigMask = 0 then some done
  else
    match t.siList with
    | [] => some done
    | node :: rest =>
      t.sigVectors.map fun vectors =>
        let signo := node.si.siSigno
        { s with
          tid := { t with siList := rest, sigPending := t.sigPending &&& ~~~sigBit signo }
          frames := .handling cleanState (vectors signo).isSome :: s.frames
          log := if (vectors signo).isSome then
            ⟨node.number, signo, t.sigMask.getLsbD signo⟩ :: s.log else s.log }

def rtThreadHandleSig (s : SigSys) (cleanState : Bool) : Option SigSys :=
  if s.tid.sigPending &&& s.tid.sigMask = 0 ∨ s.tid.signalWait = true then some s
  else handleLoop s cleanState

/-- The first node of a signal of the set, and the list without it. -/
def takeMatch (set : BitVec 32) : List SiginfoNode → Option (SiginfoNode × List SiginfoNode)
  | [] => none
  | n :: l =>
    if sigBit n.si.siSigno &&& set ≠ 0 then some (n, l)
    else (takeMatch set l).map fun r => (r.1, n :: r.2)

/-- `rt_signal_wait` from `__done` on, with `*si` cleared before. -/
def waitDone (s : SigSys) (set : BitVec 32) : SigSys :=
  let t := s.tid
  match takeMatch set t.siList with
  | some (n, rest) =>
    { s with
      tid := { t with siList := rest, sigPending := t.sigPending &&& ~~~sigBit n.si.siSigno }
      ret := some ⟨set, rtEok, n.si⟩ }
  | none => { s with ret := some ⟨set, rtEok, ⟨0, 0, 0⟩⟩ }

/-- `rt_signal_wait`, up to its `rt_schedule` -/
def rtSignalWait (s : SigSys) (set : BitVec 32) (timeout : Int) : SigSys :=
  if set = 0 then { s with ret := some ⟨set, -rtEinval, ⟨0, 0, 0⟩⟩ }
  else if s.tid.sigPending &&& set ≠ 0 then waitDone s set
  else if timeout = 0 then { s with ret := some ⟨set, -rtEtimeout, ⟨0, 0, 0⟩⟩ }
  else
    { s with
      tid := { s.tid with stat := .suspend, signalWait := true, timer := decide (timeout ≠ -1) }
      frames := .waiting set :: s.frames
      waits := s.waits + 1 }

/-- `rt_signal_wait` behind its `rt_schedule` -/
def waitReturn (s : SigSys) (set : BitVec 32) : SigSys :=
  let s := { s with tid := { s.tid with signalWait := false } }
  if s.tid.error = -rtEtimeout then
    { s with tid := { s.tid with error := rtEok }, ret := some ⟨set, -rtEtimeout, ⟨0, 0, 0⟩⟩ }
  else waitDone s set

/-- The loop of `rt_thread_kill`: the first node of the signal has its information updated. -/
def updateSi (si : Siginfo) : List SiginfoNode → Option (List SiginfoNode)
  | [] => none
  | n :: l =>
    if n.si.siSigno = si.siSigno then some ({ n with si := si } :: l)
    else (updateSi si l).map (n :: ·)

/-- The `si` of `rt_thread_kill`, with `SI_USER`. -/
def siUser (sig : Nat) : Siginfo := ⟨sig, 1, 0⟩

/-- `rt_thread_kill` of a valid signal up to its `rt_mp_alloc`: the thread, if the call ends
before. -/
def killCheck (t : RtThread) (sig : Nat) : Option RtThread :=
  if sig = 3 then
    some { t with
      stat := .close, signal := false, signalWait := false, signalPending := false, timer := false }
  else if t.sigPending &&& sigBit sig ≠ 0 then
    (updateSi (siUser sig) t.siList).map fun l => { t with siList := l }
  else none

/-- `rt_thread_kill` from its `rt_mp_alloc`, which has a node or not, to `_signal_deliver`. -/
def killAppend (s : SigSys) (sig : Nat) (ok : Bool) : SigSys :=
  if ok then
    { s with
      tid := { s.tid with
        siList := s.tid.siList ++ [⟨siUser sig, s.accepted.length⟩]
        sigPending := s.tid.sigPending ||| sigBit sig }
      accepted := s.accepted ++ [sig] }
  else s

inductive Act where
  /-- The target calls `rt_signal_install`. -/
  | install (signo : Nat) (handler : Sighandler)
  | mask (signo : Nat)
  | unmask (signo : Nat)
  | wait (set : BitVec 32) (timeout : Int)
  /-- The target calls `rt_thread_kill` with itself. -/
  | killSelf (sig : Nat)
  /-- The target suspends itself in another call, with its timer or without. -/
  | block (timer : Bool)
  /-- Another call of the target sets its error number. -/
  | setErrno (error : Int)
  /-- The target goes on in its call; `b`: `rt_mp_alloc` has a node, or `rt_schedule` had switched
  to another thread. -/
  | goOn (b : Bool)
  /-- The CPU goes to the target, or from it. -/
  | switchIn
  | switchOut
  /-- The target's timer expires. -/
  | timeout
  /-- Another thread resumes the target. -/
  | resume
  /-- Another thread calls `rt_thread_kill`; then it goes on, twice. -/
  | kill (k sig : Nat)
  | append (k : Nat) (ok : Bool)
  | deliver (k : Nat)
  /-- An interrupt calls `rt_thread_kill`. -/
  | irqKill (sig : Nat) (ok : Bool)

/-- The target is in a call that has returned to its own code, or in none. -/
def userCode (s : SigSys) : Bool :=
  s.self && decide (s.tid.stat = .ready) &&
    match s.frames with
    | [] => true
    | .handling _ called :: _ => called
    | _ => false

/-- The target goes on. -/
def goOn (s : SigSys) (b : Bool) : Option SigSys :=
  let t := s.tid
  match s.frames with
  | [] => none
  | .handling cleanState _ :: frames =>
    handleLoop { s with tid := { t with error := -rtEintr }, frames := frames } cleanState
  | .handle :: frames => rtThreadHandleSig { s with frames := frames } true
  | .deliver :: frames => some (signalDeliver { s with frames := frames } false)
  | .killing sig :: frames => some (killAppend { s with frames := .deliver :: frames } sig b)
  | .entry :: frames =>
    if t.sigRet then
      some { s with tid := { t with sigRet := false, signal := false }, frames := frames }
    else none
  | .blocked :: frames =>
    if b ∧ t.signalPending = true then
      rtThreadHandleSig { s with tid := { t with signalPending := false } } true
    else some { s with frames := frames }
  | .waiting set :: frames =>
    if b ∧ t.signalPending = true then
      rtThreadHandleSig { s with tid := { t with signalPending := false } } true
    else some (waitReturn { s with frames := frames } set)

/-- `rt_signal_unmask` up to its `_signal_deliver` -/
def rtSignalUnmask (s : SigSys) (signo : Nat) : SigSys :=
  let mask := s.tid.sigMask ||| sigBit signo
  let s := { s with tid := { s.tid with sigMask := mask } }
  if mask &&& s.tid.sigPending ≠ 0 then { s with frames := .deliver :: s.frames } else s

def setTid (s : SigSys) (t : RtThread) : SigSys := { s with tid := t }

def accept (s : SigSys) (sig : Nat) : SigSys := { s with accepted := s.accepted ++ [sig] }

def setKill (s : SigSys) (k : Nat) (x : Option Kill) : SigSys :=
  { s with kills := Function.update s.kills k x }

def move (s : SigSys) : Act → Option SigSys
  | .install signo handler =>
    if userCode s then
      some (if signo < 32 then setTid s (rtSignalInstall s.tid signo handler) else s)
    else none
  | .mask signo =>
    if userCode s ∧ signo < 32 then
      some (setTid s { s.tid with sigMask := s.tid.sigMask &&& ~~~sigBit signo })
    else none
  | .unmask signo => if userCode s ∧ signo < 32 then some (rtSignalUnmask s signo) else none
  | .wait set timeout => if userCode s then some (rtSignalWait s set timeout) else none
  | .killSelf sig =>
    if userCode s then
      if h : sig < 32 then
        match killCheck s.tid sig with
        | some t => some (accept (setTid s t) sig)
        | none => some { s with frames := .killing ⟨sig, h⟩ :: s.frames }
      else some s
    else none
  | .block timer =>
    if userCode s then
      some { s with
        tid := { s.tid with stat := .suspend, timer := timer }
        frames := .blocked :: s.frames }
    else none
  | .setErrno error => if userCode s then some (setTid s { s.tid with error := error }) else none
  | .goOn b => if s.self ∧ s.tid.stat = .ready then goOn s b else none
  | .switchIn =>
    if s.self = false ∧ s.tid.stat = .ready then
      let s := { s with self := true }
      if s.tid.atEntry then
        rtThreadHandleSig { s with
          tid := { s.tid with atEntry := false }
          frames := .entry :: s.frames } false
      else some s
    else none
  | .switchOut => if s.self then some { s with self := false } else none
  | .timeout =>
    if s.tid.stat = .suspend ∧ s.tid.timer = true then
      some (setTid s { s.tid with stat := .ready, timer := false, error := -rtEtimeout })
    else none
  | .resume =>
    if s.tid.stat = .suspend then some (setTid s { s.tid with stat := .ready, timer := false })
    else none
  | .kill k sig =>
    if s.self = false ∧ s.kills k = none then
      if h : sig < 32 then
        match killCheck s.tid sig with
        | some t => some (accept (setTid s t) sig)
        | none => some (setKill s k (some ⟨⟨sig, h⟩, none⟩))
      else some s
    else none
  | .append k ok =>
    match s.kills k with
    | some ⟨sig, none⟩ =>
      if s.self = false then some (setKill (killAppend s sig ok) k (some ⟨sig, some s.waits⟩))
      else none
    | _ => none
  | .deliver k =>
    match s.kills k with
    | some ⟨_, some _⟩ =>
      if s.self = false then some (setKill (signalDeliver s false) k none) else none
    | _ => none
  | .irqKill sig ok =>
    if sig < 32 then
      match killCheck s.tid sig with
      | some t => some (accept (setTid s t) sig)
      | none => some (signalDeliver (killAppend s sig ok) true)
    else some s

def sigStep (s : SigSys) (act : Act) : Option SigSys := move { s with ret := none } act

/-- A thread that has been started, and no signal yet. -/
def sigInit : SigSys where
  tid := ⟨.ready, false, false, false, false, rtEok, 0, 0, none, [], false, false⟩
  self := false
  frames := []
  kills _ := none
  accepted := []
  log := []
  waits := 0
  ret := none

end Tudu.Signal
