import TuduOS.Drivers.RingBuffer
import TuduOS.Drivers.Waitqueue
import TuduOS.Lib.Lts

/-!
# Pipes (`pipe.c`)

Any number of threads and descriptors. What a thread does while it holds the mutex of the pipe is
one step between two calls of the wait queues; it gives the mutex back in a step of its own. Every
call of a wait queue is a step, and so is a test outside the mutex. Between two steps any ready
thread may run.

* `Pc`: where a thread is in its call. A thread that is to take the mutex can go on when nobody
  holds it.
* `again`: the thread has been in `rt_wqueue_wait` in this call.
* A caller's memory is a byte at every index.

The ghosts: `accepted` has the bytes that calls of `pipe_fops_write` stored, and `returned` those
that calls of `pipe_fops_read` took; `lost` has what was in a fifo that is gone. When a read returns
0 for the first time, `eof` keeps what was returned and accepted so far.
-/

namespace Tudu.Pipe

open Kern RingBuffer

/-- `EPIPE`, `EAGAIN` -/
def ePipe : Int := 32
def eAgain : Int := 11

/-- `O_RDONLY`, `O_WRONLY`, `O_RDWR` -/
inductive AccMode where
  | rdonly | wronly | rdwr
  deriving DecidableEq

def AccMode.reads : AccMode → Bool
  | .wronly => false
  | _ => true

def AccMode.writes : AccMode → Bool
  | .rdonly => false
  | _ => true

structure RtPipe where
  isNamed : Bool
  fifo : Option RtRingbuffer
  bufsz : Nat
  readers : UInt8
  writers : UInt8
  refCount : UInt8
  readerQueue : RtWqueue
  writerQueue : RtWqueue
  /-- The holder of `lock`. -/
  lock : Option Nat
  /-- The pipe was not deleted. -/
  alive : Bool

/-- A call of `pipe_fops_read` or `pipe_fops_write`: `O_NONBLOCK` of the descriptor, and the
arguments. -/
structure Call where
  nonblock : Bool
  buf : Nat → UInt8
  count : UInt32

inductive Pc where
  | user
  /-- `mem` is what `rt_malloc` gives for the pool of a new fifo, if anything. -/
  | openTake (m : AccMode) (mem : Option (Nat → UInt8))
  | openBody (m : AccMode) (mem : Option (Nat → UInt8))
  | openOut (rc : Int)
  | closeTake (m : AccMode)
  | closeBody (m : AccMode)
  /-- Before the test of `writers`. -/
  | closeWakeReader
  /-- Before the test of `readers`. -/
  | closeWakeWriter
  | closeFifo
  | closeOut
  /-- Before the test of `ref_count` outside the mutex. -/
  | closeDelete
  | readTake (c : Call) (again : Bool)
  | readBody (c : Call) (again : Bool)
  /-- Nothing was there: before the mutex is released. -/
  | readUnlock (c : Call)
  /-- Before the wake-up of the writers. -/
  | readKick (c : Call)
  | readWait (c : Call)
  /-- In `rt_schedule` in `rt_wqueue_wait`. -/
  | readSleep (c : Call)
  /-- Something was read: before the wake-up of the writers. -/
  | readWake (len : Nat)
  | readOut (r : Int)
  | writeTake (c : Call) (ret : UInt32) (wakeup : Bool)
  | writeBody (c : Call) (ret : UInt32) (wakeup : Bool)
  | writeUnlock (c : Call) (ret : UInt32)
  | writeKick (c : Call) (ret : UInt32)
  | writeWait (c : Call) (ret : UInt32)
  | writeSleep (c : Call) (ret : UInt32)
  | writeOut (r : Int) (wakeup : Bool)
  /-- Behind the mutex, before the test of `wakeup`. -/
  | writeWake (r : Int) (wakeup : Bool)
  /-- The call is about to return `r`. -/
  | ret (r : Int)

/-- What is in the fifo. -/
def bytes : Option RtRingbuffer → List UInt8
  | none => []
  | some rb => Ring.contents rb.buffer rb.bufferSize rb.readIndex rb.dataLen

structure PipeSys where
  kern : Kern
  pipe : RtPipe
  pc : Nat → Pc
  accepted : List UInt8
  returned : List UInt8
  lost : List UInt8
  eof : Option (List UInt8 × List UInt8)

namespace PipeSys

def goto (s : PipeSys) (p : Pc) : PipeSys :=
  { s with pc := Function.update s.pc s.kern.current p }

def setPipe (s : PipeSys) (x : RtPipe) : PipeSys := { s with pipe := x }

/-- The mutex is free, and the current thread takes it. -/
def take (s : PipeSys) (p : Pc) : Option PipeSys :=
  if s.pipe.lock = none then
    some ((s.setPipe { s.pipe with lock := some s.kern.current }).goto p)
  else none

def release (s : PipeSys) (p : Pc) : PipeSys := (s.setPipe { s.pipe with lock := none }).goto p

/-- `rt_wqueue_wakeup(&(pipe->reader_queue), ..)` -/
def wakeReaders (s : PipeSys) : PipeSys :=
  let r := s.pipe.readerQueue.wakeup s.kern
  { s with pipe := { s.pipe with readerQueue := r.1 }, kern := r.2 }

/-- `rt_wqueue_wakeup(&(pipe->writer_queue), ..)` -/
def wakeWriters (s : PipeSys) : PipeSys :=
  let r := s.pipe.writerQueue.wakeup s.kern
  { s with pipe := { s.pipe with writerQueue := r.1 }, kern := r.2 }

/-- A read finds no writer. -/
def endOfFile (s : PipeSys) : PipeSys :=
  { s with eof := match s.eof with
    | none => some (s.returned, s.accepted)
    | some x => some x }

/-- The fifo is gone, with what is in it. -/
def dropFifo (s : PipeSys) (fifo : Option RtRingbuffer) : PipeSys :=
  { s with
    pipe := { s.pipe with fifo := fifo }
    lost := s.lost ++ bytes s.pipe.fifo }

end PipeSys

open PipeSys

/-- `rt_ringbuffer_create`: its assertions fail, memory is short, or there is a new buffer. -/
def rtRingbufferCreate (size : Nat) (mem : Option (Nat → UInt8)) : Option (Option RtRingbuffer) :=
  if size = 0 then none
  else match mem with
    | none => some none
    | some pool =>
      if 4 ≤ size ∧ size ≤ 32767 then some (some (RtRingbuffer.init pool (size / 4 * 4))) else none

/-! ## The calls, under the mutex -/

/-- `readers ++`, `writers ++`, `ref_count ++` -/
def RtPipe.addRef (x : RtPipe) (m : AccMode) : RtPipe :=
  { x with
    readers := if m.reads then x.readers + 1 else x.readers
    writers := if m.writes then x.writers + 1 else x.writers
    refCount := x.refCount + 1 }

def pipeFopsOpen (s : PipeSys) (m : AccMode) (mem : Option (Nat → UInt8)) : Option PipeSys :=
  if s.pipe.refCount = 0 then
    (rtRingbufferCreate s.pipe.bufsz mem).map fun fifo =>
      let s := s.dropFifo fifo
      if fifo.isNone then s.goto (.openOut (-rtEnomem))
      else (s.setPipe (s.pipe.addRef m)).goto (.openOut 0)
  else some ((s.setPipe (s.pipe.addRef m)).goto (.openOut 0))

/-- `readers --`, `writers --` -/
def RtPipe.delEnd (x : RtPipe) (m : AccMode) : RtPipe :=
  { x with
    readers := if m.reads then x.readers - 1 else x.readers
    writers := if m.writes then x.writers - 1 else x.writers }

/-- The end of `pipe_fops_close` under the mutex. -/
def closeFifo (s : PipeSys) : PipeSys :=
  let s := if s.pipe.refCount = 1 then s.dropFifo none else s
  s.setPipe { s.pipe with refCount := s.pipe.refCount - 1 }

/-- The test of `pipe_fops_close` outside the mutex. -/
def closesLast (s : PipeSys) : Bool := decide (s.pipe.refCount = 0) && !s.pipe.isNamed

/-- `rt_pipe_delete` of a pipe with no references. -/
def rtPipeDelete (s : PipeSys) : PipeSys :=
  let s := s.dropFifo none
  s.setPipe { s.pipe with alive := false }

/-- The loop of `pipe_fops_read`, under the mutex. -/
def pipeFopsRead (s : PipeSys) (c : Call) : Option PipeSys :=
  if s.pipe.writers = 0 then some (s.endOfFile.goto (.readOut 0))
  else
    s.pipe.fifo.map fun rb =>
      let r := rb.get c.buf c.count.toUInt16
      let len := r.2.1
      let s := { s with
        pipe := { s.pipe with fifo := some r.1 }
        returned := s.returned ++ (List.range len).map r.2.2 }
      if len > 0 then s.goto (.readWake len)
      else if c.nonblock then s.goto (.readOut (-eAgain))
      else s.goto (.readUnlock c)

/-- The loop of `pipe_fops_write`, under the mutex. -/
def pipeFopsWrite (s : PipeSys) (c : Call) (ret : UInt32) (wakeup : Bool) : Option PipeSys :=
  if s.pipe.readers = 0 then
    some (s.goto (.writeOut (if ret = 0 then -ePipe else ret.toInt32.toInt) wakeup))
  else
    s.pipe.fifo.map fun rb =>
      let pbuf := fun i => c.buf (ret.toNat + i)
      let r := rb.put pbuf (c.count - ret).toUInt16
      let len := r.2
      let ret := ret + UInt32.ofNat len
      let s := { s with
        pipe := { s.pipe with fifo := some r.1 }
        accepted := s.accepted ++ (List.range len).map pbuf }
      if ret = c.count then s.goto (.writeOut ret.toInt32.toInt true)
      else if c.nonblock then
        s.goto (.writeOut (if ret = 0 then -eAgain else ret.toInt32.toInt) true)
      else s.goto (.writeUnlock c ret)

/-! ## Steps -/

inductive PipeAct where
  /-- An interrupt, or `rt_schedule`, switches to the ready thread `u`. -/
  | preempt (u : Nat)
  /-- The current thread calls `pipe_fops_open`. -/
  | opens (m : AccMode) (mem : Option (Nat → UInt8))
  /-- The current thread calls `pipe_fops_close`. -/
  | closes (m : AccMode)
  /-- The current thread calls `pipe_fops_read`, and tests `writers`. -/
  | reads (c : Call)
  /-- The current thread calls `pipe_fops_write`, and tests `readers` and `count`. -/
  | writes (c : Call)
  /-- The current thread goes on in its call. -/
  | goOn

/-- The current thread starts a wait in `reader_queue`, or ends it at once. -/
def readWait (s : PipeSys) (c : Call) : PipeSys :=
  let q := s.pipe.readerQueue
  let r := q.wait s.kern s.kern.current
  { s with pipe := { s.pipe with readerQueue := r.1 }, kern := r.2 }.goto
    (if q.flag then .readTake c true else .readSleep c)

def writeWait (s : PipeSys) (c : Call) (ret : UInt32) : PipeSys :=
  let q := s.pipe.writerQueue
  let r := q.wait s.kern s.kern.current
  { s with pipe := { s.pipe with writerQueue := r.1 }, kern := r.2 }.goto
    (if q.flag then .writeTake c ret true else .writeSleep c ret)

def goOn (s : PipeSys) : Option PipeSys :=
  match s.pc s.kern.current with
  | .user => none
  | .openTake m mem => s.take (.openBody m mem)
  | .openBody m mem => pipeFopsOpen s m mem
  | .openOut rc => some (s.release (.ret rc))
  | .closeTake m => s.take (.closeBody m)
  | .closeBody m => some ((s.setPipe (s.pipe.delEnd m)).goto .closeWakeReader)
  | .closeWakeReader =>
    some ((if s.pipe.writers = 0 then s.wakeReaders else s).goto .closeWakeWriter)
  | .closeWakeWriter =>
    some ((if s.pipe.readers = 0 then s.wakeWriters else s).goto .closeFifo)
  | .closeFifo => some ((closeFifo s).goto .closeOut)
  | .closeOut => some (s.release .closeDelete)
  | .closeDelete => some ((if closesLast s then rtPipeDelete s else s).goto (.ret 0))
  | .readTake c again => s.take (.readBody c again)
  | .readBody c _ => pipeFopsRead s c
  | .readUnlock c => some (s.release (.readKick c))
  | .readKick c => some (s.wakeWriters.goto (.readWait c))
  | .readWait c => some (readWait s c)
  | .readSleep c =>
    if (s.kern.thread s.kern.current).stat = .ready then
      some ((s.setPipe { s.pipe with
        readerQueue := s.pipe.readerQueue.waitEnd s.kern.current }).goto (.readTake c true))
    else none
  | .readWake len => some (s.wakeWriters.goto (.readOut len))
  | .readOut r => some (s.release (.ret r))
  | .writeTake c ret wakeup => s.take (.writeBody c ret wakeup)
  | .writeBody c ret wakeup => pipeFopsWrite s c ret wakeup
  | .writeUnlock c ret => some (s.release (.writeKick c ret))
  | .writeKick c ret => some (s.wakeReaders.goto (.writeWait c ret))
  | .writeWait c ret => some (writeWait s c ret)
  | .writeSleep c ret =>
    if (s.kern.thread s.kern.current).stat = .ready then
      some ((s.setPipe { s.pipe with
        writerQueue := s.pipe.writerQueue.waitEnd s.kern.current }).goto (.writeTake c ret true))
    else none
  | .writeOut r wakeup => some (s.release (.writeWake r wakeup))
  | .writeWake r wakeup => some ((if wakeup then s.wakeReaders else s).goto (.ret r))
  | .ret _ => some (s.goto .user)

/-- A call of the current thread, which is in none, from its first test on. -/
def call (s : PipeSys) (p : Pc) : Option PipeSys :=
  match s.pc s.kern.current with
  | .user => some (s.goto p)
  | _ => none

/-- No step touches a pipe that was deleted. -/
def pipeStep (s : PipeSys) (act : PipeAct) : Option PipeSys :=
  if s.pipe.alive then
    match act with
    | .preempt u =>
      if (s.kern.thread u).stat = .ready then some { s with kern := { s.kern with current := u } }
      else none
    | .opens m mem => call s (.openTake m mem)
    | .closes m => call s (.closeTake m)
    | .reads c =>
      if s.pipe.writers = 0 then call s.endOfFile (.ret 0) else call s (.readTake c false)
    | .writes c =>
      if s.pipe.readers = 0 then call s (.ret (-ePipe))
      else if c.count = 0 then call s (.ret 0)
      else call s (.writeTake c 0 false)
    | .goOn => goOn s
  else none

/-- `rt_pipe_create`, and `is_named` as the caller sets it then. -/
def rtPipeCreate (bufsz : Nat) (isNamed : Bool) (priority : Nat → Nat) : PipeSys where
  kern := ⟨0, fun t => ⟨.ready, rtEok, priority t, false, false, false⟩, fun _ => []⟩
  pipe := ⟨isNamed, none, bufsz, 0, 0, 0, .init, .init, none, true⟩
  pc := fun _ => .user
  accepted := []
  returned := []
  lost := []
  eof := none

end Tudu.Pipe
