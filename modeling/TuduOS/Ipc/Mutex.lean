import Mathlib.Algebra.Group.Nat.Defs
import TuduOS.Kernel.Thread
import TuduOS.Lib.Lts

/-!
# Mutexes (`rt_mutex_take`, `rt_mutex_release` of `ipc.c`)

Any number of threads and mutexes. A section with interrupts disabled is one step. Between two
steps an interrupt may switch to any ready thread (`preempt`), let a timer expire or deliver a
signal.

* The first try of `rt_mutex_take`, up to `rt_hw_interrupt_enable`, is one section (`rtMutexTake`).
* A thread that waits is at a *phase* of the rest (`Ph`). `goto __again` jumps back into the section
  with interrupts enabled: there each statement is a step (`takeStmt`).
* `rt_schedule` switches to another thread, or returns at once to a thread that is ready
  (`schedule`). Only a thread that was switched away from handles a pending signal when it runs
  again.
* `rt_mutex_release` is one section (`rtMutexRelease`); its `rt_schedule` is a `preempt`.

The ghost `held t m` is the number of successful takes of `m` by `t` that it has not released.
A `NULL` owner that the code reads through, and a thread that goes on a second list, have no next
state. Signal handlers use no mutex.
-/

namespace Tudu.Mutex

open Kern

structure RtMutex where
  /-- `rt_uint16_t` -/
  value : Nat
  originalPriority : Nat
  /-- `rt_uint8_t` -/
  hold : Nat
  owner : Option Nat
  flag : Nat
  deriving DecidableEq

/-- Where a thread is in `rt_mutex_take`, behind its first try. -/
inductive Ph where
  /-- Before `rt_schedule()`. -/
  | sched
  /-- In `rt_schedule()`, switched away from. -/
  | switched
  /-- `if (thread->error != RT_EOK)` -/
  | test
  /-- `if (thread->error == -RT_EINTR) goto __again` -/
  | testIntr
  /-- `return thread->error` -/
  | fail
  /-- `__again: if (mutex->value > 0)`, with interrupts enabled. -/
  | again
  /-- `mutex->value --` -/
  | dec
  /-- `mutex->owner = thread` -/
  | own
  /-- `mutex->original_priority = thread->current_priority` -/
  | prio
  /-- `mutex->hold ++` -/
  | hold
  /-- `if (time == 0)` -/
  | poll
  /-- `if (thread->current_priority < mutex->owner->current_priority)` -/
  | inherit
  /-- `rt_thread_control(mutex->owner, ...)` -/
  | raise
  /-- `rt_ipc_list_suspend`: `rt_thread_suspend(thread)`. -/
  | susp
  /-- `rt_ipc_list_suspend`: the thread goes on the list. -/
  | link
  /-- `if (time > 0)`: the timer. -/
  | timer
  deriving DecidableEq

inductive Pc where
  /-- Outside `rt_mutex_take`. -/
  | user
  | take (m : Nat) (time : Int) (ph : Ph)
  /-- `rt_mutex_take(m)` is about to return `r`. -/
  | done (m : Nat) (r : Int)
  deriving DecidableEq

structure MutexSys where
  kern : Kern
  mutex : Nat → RtMutex
  pc : Nat → Pc
  held : Nat → Nat → Nat

namespace MutexSys

def goto (s : MutexSys) (t : Nat) (p : Pc) : MutexSys := { s with pc := Function.update s.pc t p }

def setMutex (s : MutexSys) (m : Nat) (x : RtMutex) : MutexSys :=
  { s with mutex := Function.update s.mutex m x }

def setKern (s : MutexSys) (k : Kern) : MutexSys := { s with kern := k }

def setHeld (s : MutexSys) (t m n : Nat) : MutexSys :=
  { s with held := Function.update s.held t (Function.update (s.held t) m n) }

/-- `rt_mutex_take(m)` has its result. -/
def finish (s : MutexSys) (t m : Nat) (r : Int) : MutexSys :=
  (s.goto t (.done m r)).setHeld t m (if r = rtEok then s.held t m + 1 else s.held t m)

section

variable (s : MutexSys) (t u m q n : Nat) (p : Pc) (x : RtMutex) (k : Kern)

@[simp] theorem goto_kern : (s.goto t p).kern = s.kern := rfl
@[simp] theorem goto_mutex : (s.goto t p).mutex = s.mutex := rfl
@[simp] theorem goto_held : (s.goto t p).held = s.held := rfl

@[simp] theorem goto_pc : (s.goto t p).pc u = if u = t then p else s.pc u :=
  Function.update_apply ..

@[simp] theorem setMutex_kern : (s.setMutex m x).kern = s.kern := rfl
@[simp] theorem setMutex_pc : (s.setMutex m x).pc = s.pc := rfl
@[simp] theorem setMutex_held : (s.setMutex m x).held = s.held := rfl

@[simp] theorem setMutex_mutex : (s.setMutex m x).mutex q = if q = m then x else s.mutex q :=
  Function.update_apply ..

@[simp] theorem setKern_kern : (s.setKern k).kern = k := rfl
@[simp] theorem setKern_mutex : (s.setKern k).mutex = s.mutex := rfl
@[simp] theorem setKern_pc : (s.setKern k).pc = s.pc := rfl
@[simp] theorem setKern_held : (s.setKern k).held = s.held := rfl

@[simp] theorem setHeld_kern : (s.setHeld t m n).kern = s.kern := rfl
@[simp] theorem setHeld_mutex : (s.setHeld t m n).mutex = s.mutex := rfl
@[simp] theorem setHeld_pc : (s.setHeld t m n).pc = s.pc := rfl

@[simp] theorem setHeld_held :
    (s.setHeld t m n).held u q = if u = t ∧ q = m then n else s.held u q := by
  by_cases hu : u = t
  · subst hu
    by_cases hq : q = m <;> simp [setHeld, hq]
  · simp [setHeld, hu]

end

end MutexSys

open MutexSys

/-- The first try of `rt_mutex_take`. -/
def rtMutexTake (s : MutexSys) (m : Nat) (time : Int) : Option MutexSys :=
  let t := s.kern.current
  let k := s.kern.setError t rtEok
  let x := s.mutex m
  let s := s.setKern k
  if x.owner = some t then
    some ((s.setMutex m { x with hold := (x.hold + 1) % 2 ^ 8 }).finish t m rtEok)
  else if x.value > 0 then
    some ((s.setMutex m { x with
      value := x.value - 1
      owner := some t
      originalPriority := (k.thread t).currentPriority
      hold := (x.hold + 1) % 2 ^ 8 }).finish t m rtEok)
  else if time = 0 then
    some ((s.setKern (k.setError t (-rtEtimeout))).finish t m (-rtEtimeout))
  else
    match x.owner with
    | none => none
    | some o =>
      let k := if (k.thread t).currentPriority < (k.thread o).currentPriority then
        k.changePriority o (k.thread t).currentPriority else k
      (k.rtIpcListSuspend m t x.flag).map fun k =>
        let k := if time > 0 then k.startTimer t else k
        (s.setKern k).goto t (.take m time .sched)

/-- One statement of `rt_mutex_take` behind its first try, run by the current thread. -/
def takeStmt (s : MutexSys) (m : Nat) (time : Int) : Ph → Option MutexSys
  | .sched => none
  | .switched =>
    if (s.kern.thread s.kern.current).stat = .ready then
      let t := s.kern.current
      let k := if (s.kern.thread t).sigPending then
        s.kern.setThread t { s.kern.thread t with error := -rtEintr, sigPending := false }
        else s.kern
      some ((s.setKern k).goto t (.take m time .test))
    else none
  | .test =>
    let t := s.kern.current
    if (s.kern.thread t).error ≠ rtEok then some (s.goto t (.take m time .testIntr))
    else some (s.finish t m rtEok)
  | .testIntr =>
    let t := s.kern.current
    if (s.kern.thread t).error = -rtEintr then some (s.goto t (.take m time .again))
    else some (s.goto t (.take m time .fail))
  | .fail =>
    let t := s.kern.current
    some (s.finish t m (s.kern.thread t).error)
  | .again =>
    if (s.mutex m).value > 0 then some (s.goto s.kern.current (.take m time .dec))
    else some (s.goto s.kern.current (.take m time .poll))
  | .dec =>
    let x := s.mutex m
    some ((s.setMutex m { x with value := (x.value + (2 ^ 16 - 1)) % 2 ^ 16 }).goto s.kern.current
      (.take m time .own))
  | .own =>
    let t := s.kern.current
    some ((s.setMutex m { s.mutex m with owner := some t }).goto t (.take m time .prio))
  | .prio =>
    let t := s.kern.current
    some ((s.setMutex m { s.mutex m with
      originalPriority := (s.kern.thread t).currentPriority }).goto t (.take m time .hold))
  | .hold =>
    let x := s.mutex m
    some ((s.setMutex m { x with hold := (x.hold + 1) % 2 ^ 8 }).finish s.kern.current m rtEok)
  | .poll =>
    let t := s.kern.current
    if time = 0 then
      some ((s.setKern (s.kern.setError t (-rtEtimeout))).finish t m (-rtEtimeout))
    else some (s.goto t (.take m time .inherit))
  | .inherit =>
    let t := s.kern.current
    match (s.mutex m).owner with
    | none => none
    | some o =>
      if (s.kern.thread t).currentPriority < (s.kern.thread o).currentPriority then
        some (s.goto t (.take m time .raise))
      else some (s.goto t (.take m time .susp))
  | .raise =>
    let t := s.kern.current
    match (s.mutex m).owner with
    | none => none
    | some o =>
      some ((s.setKern (s.kern.changePriority o (s.kern.thread t).currentPriority)).goto t
        (.take m time .susp))
  | .susp =>
    let t := s.kern.current
    some ((s.setKern (s.kern.rtThreadSuspend t)).goto t (.take m time .link))
  | .link =>
    let t := s.kern.current
    (s.kern.rtIpcListInsert m t (s.mutex m).flag).map fun k =>
      (s.setKern k).goto t (.take m time .timer)
  | .timer =>
    let t := s.kern.current
    let k := if time > 0 then s.kern.startTimer t else s.kern
    some ((s.setKern k).goto t (.take m time .sched))

/-- `rt_mutex_release` -/
def rtMutexRelease (s : MutexSys) (m : Nat) : MutexSys :=
  let t := s.kern.current
  let x := s.mutex m
  if x.owner ≠ some t then s.setKern (s.kern.setError t (-rtError))
  else
    let s := s.setHeld t m (s.held t m - 1)
    let x := { x with hold := (x.hold + (2 ^ 8 - 1)) % 2 ^ 8 }
    if x.hold = 0 then
      let k := if x.originalPriority ≠ (s.kern.thread t).currentPriority then
        s.kern.changePriority t x.originalPriority else s.kern
      match k.suspendThread m with
      | u :: _ =>
        (s.setMutex m { x with
          owner := some u
          originalPriority := (k.thread u).currentPriority
          hold := (x.hold + 1) % 2 ^ 8 }).setKern (k.rtThreadResume u)
      | [] =>
        (s.setMutex m { x with
          value := (x.value + 1) % 2 ^ 16
          owner := none
          originalPriority := 0xff }).setKern k
    else s.setMutex m x

inductive MutexAct where
  /-- An interrupt switches to the ready thread `u`. -/
  | preempt (u : Nat)
  /-- The current thread calls `rt_mutex_take(m, time)`. -/
  | take (m : Nat) (time : Int)
  /-- The current thread runs the next statement of its `rt_mutex_take`. -/
  | stmt
  /-- The waiting thread calls `rt_schedule`: it switches to another thread, or returns. -/
  | schedule (next : Option Nat)
  /-- `rt_mutex_take` returns. -/
  | ret
  /-- The current thread calls `rt_mutex_release(m)`. -/
  | release (m : Nat)
  /-- The timer of the thread `u` expires. -/
  | timeout (u : Nat)
  /-- A signal resumes the thread `u`. -/
  | sigResume (u : Nat)
  /-- The thread `u`, which is not suspended, handles a signal. -/
  | sigHandle (u : Nat)
  deriving DecidableEq

def mutexStep (s : MutexSys) : MutexAct → Option MutexSys
  | .preempt u =>
    if (s.kern.thread u).stat = .ready then some (s.setKern { s.kern with current := u }) else none
  | .take m time =>
    match s.pc s.kern.current with
    | .user => rtMutexTake s m time
    | _ => none
  | .stmt =>
    match s.pc s.kern.current with
    | .take m time ph => takeStmt s m time ph
    | _ => none
  | .schedule next =>
    match s.pc s.kern.current with
    | .take m time .sched =>
      match next with
      | some u =>
        if u ≠ s.kern.current ∧ (s.kern.thread u).stat = .ready then
          some ((s.goto s.kern.current (.take m time .switched)).setKern
            { s.kern with current := u })
        else none
      | none =>
        if (s.kern.thread s.kern.current).stat = .ready then
          some (s.goto s.kern.current (.take m time .test))
        else none
    | _ => none
  | .ret =>
    match s.pc s.kern.current with
    | .done _ _ => some (s.goto s.kern.current .user)
    | _ => none
  | .release m =>
    match s.pc s.kern.current with
    | .user => some (rtMutexRelease s m)
    | _ => none
  | .timeout u => (s.kern.rtThreadTimeout u).map s.setKern
  | .sigResume u => (s.kern.sigResume u).map s.setKern
  | .sigHandle u => (s.kern.sigHandle u).map s.setKern

/-- `rt_mutex_init` of every mutex, with the threads running that use them. -/
def mutexInit (flag priority : Nat → Nat) : MutexSys where
  kern := ⟨0, fun t => ⟨.ready, rtEok, priority t, false, false, false⟩, fun _ => []⟩
  mutex := fun m => ⟨1, 0xff, 0, none, flag m⟩
  pc := fun _ => .user
  held := fun _ _ => 0

end Tudu.Mutex
