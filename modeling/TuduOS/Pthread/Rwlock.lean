import TuduOS.Lib.Count
import TuduOS.Pthread.Cond

/-!
# Read-write locks (`pthread_rwlock.c`)

Any number of threads; `rw_mutex` may be taken by anyone when it is free, so that every order in
which it may be handed on is a run. Between two steps any thread may run, and a timer may expire.

* An operation is `entering` until it has `rw_mutex`; what it does then, up to where it releases it,
  is one step, and the release is another. Each such part has at most one operation of a semaphore.
* In `pthread_cond_wait` a thread is `unlocking`, `between` its release of the mutex and the section
  of `rt_sem_take`, `suspended`, at `relock` until it has the mutex again, and at `again` then. `ok`
  says that the wait has not timed out.
* `RwSide.reader` is `rw_condreaders` with `rw_nwaitreaders`, and `RwSide.writer` is alike.
* The ghosts `rd` and `wr` list the threads that hold the lock, once for each lock.
* A `rw_refcount` that overflows has no next state.
-/

namespace Tudu.Pthread

open Lts

inductive RwSide where
  | reader
  | writer
  deriving DecidableEq

inductive RwOp where
  /-- `pthread_rwlock_rdlock` and `pthread_rwlock_wrlock`, or their timed forms. -/
  | lock (side : RwSide) (timed : Bool)
  | trylock (side : RwSide)
  | unlock
  deriving DecidableEq

inductive RwPc where
  | user
  | entering (op : RwOp)
  | body (op : RwOp)
  | unlocking (side : RwSide) (timed : Bool)
  | between (side : RwSide) (timed : Bool)
  | suspended (side : RwSide) (timed : Bool)
  | relock (side : RwSide) (timed ok : Bool)
  | again (side : RwSide) (timed ok : Bool)
  | leaving
  deriving DecidableEq

structure RwSys where
  /-- Of `rw_mutex`. -/
  owner : Option Nat
  cond : RwSide → CondSem
  nwait : RwSide → Nat
  refcount : Int
  pc : Nat → RwPc
  rd : List Nat
  wr : List Nat

namespace RwPc

/-- Resumed by a release of the semaphore. -/
def woken : RwPc → RwPc
  | suspended side timed => relock side timed true
  | p => p

/-- Counted in `rw_nwaitreaders` or `rw_nwaitwriters`. -/
def waits : RwPc → Option RwSide
  | unlocking side _ => some side
  | between side _ => some side
  | suspended side _ => some side
  | relock side _ _ => some side
  | again side _ _ => some side
  | _ => none

/-- Not woken yet. -/
def queued : RwPc → Option RwSide
  | unlocking side _ => some side
  | between side _ => some side
  | suspended side _ => some side
  | _ => none

def sleeps : RwPc → Option RwSide
  | suspended side _ => some side
  | _ => none

/-- Woken, and on its way to the test of the loop. -/
def comes : RwPc → Option RwSide
  | relock side _ true => some side
  | again side _ true => some side
  | _ => none

end RwPc

namespace RwSys

def goto (s : RwSys) (t : Nat) (p : RwPc) : RwSys := { s with pc := Function.update s.pc t p }

def setWait (s : RwSys) (side : RwSide) (n : Nat) : RwSys :=
  { s with nwait := Function.update s.nwait side n }

def setCond (s : RwSys) (side : RwSide) (c : CondSem) : RwSys :=
  { s with cond := Function.update s.cond side c }

/-- The semaphore, and the threads that it has resumed. -/
def resume (s : RwSys) (side : RwSide) (r : CondSem × List Nat) : RwSys :=
  { s.setCond side r.1 with pc := fun t => if t ∈ r.2 then (s.pc t).woken else s.pc t }

/-- The test of the loops, and of the try forms. -/
def mayLock (s : RwSys) : RwSide → Bool
  | .reader => !(decide (s.refcount < 0) || decide (s.nwait .writer > 0))
  | .writer => decide (s.refcount = 0)

def acquire (s : RwSys) (t : Nat) : RwSide → Option RwSys
  | .reader =>
    if s.refcount = 2147483647 then none
    else some { s with refcount := s.refcount + 1, rd := t :: s.rd }
  | .writer => some { s with refcount := -1, wr := t :: s.wr }

/-- From the test of the loop on. -/
def loopTest (s : RwSys) (t : Nat) (side : RwSide) (timed : Bool) : Option RwSys :=
  if s.mayLock side then (s.acquire t side).map fun s => s.goto t .leaving
  else some ((s.setWait side (s.nwait side + 1)).goto t (.unlocking side timed))

/-- The first part of `pthread_rwlock_unlock`. -/
def drop (s : RwSys) (t : Nat) : RwSys :=
  if s.refcount > 0 then { s with refcount := s.refcount - 1, rd := s.rd.erase t }
  else if s.refcount = -1 then { s with refcount := 0, wr := s.wr.erase t }
  else s

/-- The second part. -/
def wakeUp (s : RwSys) : Option RwSys :=
  if s.nwait .writer > 0 then
    if s.refcount = 0 then some (s.resume .writer (s.cond .writer).release) else some s
  else if s.nwait .reader > 0 then (s.cond .reader).broadcast.map (s.resume .reader)
  else some s

def body (s : RwSys) (t : Nat) : RwOp → Option RwSys
  | .lock side timed => s.loopTest t side timed
  | .trylock side =>
    if s.mayLock side then (s.acquire t side).map fun s => s.goto t .leaving
    else some (s.goto t .leaving)
  | .unlock => (s.drop t).wakeUp.map fun s => s.goto t .leaving

/-- `rt_sem_take` in `pthread_cond_wait` or `pthread_cond_timedwait`; `late` says that the time is
over by now. -/
def take (s : RwSys) (t : Nat) (side : RwSide) (timed late : Bool) : RwSys :=
  match (s.cond side).trytake with
  | some c => (s.setCond side c).goto t (.relock side timed true)
  | none =>
    if timed && late then s.goto t (.relock side timed false)
    else
      (s.setCond side { s.cond side with
        suspendThread := (s.cond side).suspendThread ++ [t] }).goto t (.suspended side timed)

/-- Behind `pthread_cond_wait`. -/
def again (s : RwSys) (t : Nat) (side : RwSide) (timed ok : Bool) : Option RwSys :=
  let s := s.setWait side (s.nwait side - 1)
  if ok then s.loopTest t side timed else some (s.goto t .leaving)

/-- The thread `t` goes on. -/
def goOn (s : RwSys) (t : Nat) (late : Bool) : Option RwSys :=
  match s.pc t with
  | .user => none
  | .entering op =>
    if s.owner = none then some ({ s with owner := some t }.goto t (.body op)) else none
  | .body op => s.body t op
  | .unlocking side timed => some ({ s with owner := none }.goto t (.between side timed))
  | .between side timed => some (s.take t side timed late)
  | .suspended _ _ => none
  | .relock side timed ok =>
    if s.owner = none then some ({ s with owner := some t }.goto t (.again side timed ok)) else none
  | .again side timed ok => s.again t side timed ok
  | .leaving => some ({ s with owner := none }.goto t .user)

end RwSys

inductive RwAct where
  /-- The thread `t` calls an operation. -/
  | call (t : Nat) (op : RwOp)
  | goOn (t : Nat) (late : Bool)
  /-- The timer of the thread `t` expires. -/
  | timeout (t : Nat)
  deriving DecidableEq

def rwStep (s : RwSys) : RwAct → Option RwSys
  | .call t op =>
    if s.pc t = .user ∧ (op = .unlock → t ∈ s.rd ∨ t ∈ s.wr) then some (s.goto t (.entering op))
    else none
  | .goOn t late => s.goOn t late
  | .timeout t =>
    match s.pc t with
    | .suspended side true =>
      some ((s.setCond side { s.cond side with
        suspendThread := (s.cond side).suspendThread.erase t }).goto t (.relock side true false))
    | _ => none

/-- `pthread_rwlock_init` -/
def rwInit : RwSys := ⟨none, fun _ => ⟨0, []⟩, fun _ => 0, 0, fun _ => .user, [], []⟩

/-! ## The property and the condition -/

/-- Threads are suspended though nobody holds the lock, and every other thread is in code of its
own. -/
structure Stranded (s : RwSys) : Prop where
  free : s.refcount = 0
  sleeper : ∃ t side, (s.pc t).sleeps = some side
  rest : ∀ t, s.pc t = .user ∨ ∃ side, (s.pc t).sleeps = some side

/-- The property. -/
structure Works (s : RwSys) : Prop where
  /-- One writer and nobody else, or the readers that are counted. -/
  holders : (s.refcount = s.rd.length ∧ s.wr = []) ∨
    (s.refcount = -1 ∧ s.rd = [] ∧ ∃ t, s.wr = [t])
  woken : ¬ Stranded s

/-- A thread of this side has not been woken yet. -/
def Queued (s : RwSys) (side : RwSide) : Prop := ∃ t, (s.pc t).queued = some side

/-- A thread of this side has been woken, and is on its way to the test of its loop. -/
def Comes (s : RwSys) (side : RwSide) : Prop := ∃ t, (s.pc t).comes = some side

structure Passes (s : RwSys) (act : RwAct) : Prop where
  /-- The last of the waiting writers does not give up while the lock is free and readers wait,
  unless one of these is on its way, or finds a token. -/
  gives : ∀ t late timed, act = .goOn t late → s.pc t = .again .writer timed false →
    s.refcount = 0 → s.nwait .writer = 1 →
      s.nwait .reader = 0 ∨ Comes s .reader ∨ 0 < (s.cond .reader).value
  /-- The release of an unlock does not overflow `value` of `rw_condwriters`. -/
  room : ∀ t late, act = .goOn t late → s.pc t = .body .unlock →
    s.refcount = 1 ∨ s.refcount = -1 → s.nwait .writer > 0 → (s.cond .writer).value < 65535

end Tudu.Pthread
