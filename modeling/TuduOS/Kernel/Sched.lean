import Mathlib.Data.BitVec
import TuduOS.Lib.Circular
import TuduOS.Lib.Lts

/-!
# The scheduler (`scheduler.c`, `thread.c`, `rt_tick_increase`) on one processor

The kernel with any number of threads, and every operation on their states as the code does it, on
the pointers of the lists.

* A thread is a number. Its node `tlist` is `.item t`; the heads are those of
  `rt_thread_priority_table`, of the suspend lists of the IPC objects, and `rt_thread_defunct`.
* `rt_current_thread` is `NULL` until `rt_system_scheduler_start`.
* An operation without a next state: an `RT_ASSERT` fails, or a pointer is not one to a thread.
* `remaining_tick` counts 32 bits. The configuration has `RT_THREAD_PRIORITY_MAX` = 32.

The ghost `ordered`: every `rt_schedule` so far, with the scheduler unlocked, left no ready thread
above the running one.
-/

namespace Tudu.Sched

open Circular Lts

inductive Stat where
  | init | ready | suspend | running | close
  deriving DecidableEq

structure RtThread where
  stat : Stat
  /-- `RT_THREAD_STAT_YIELD` -/
  yield : Bool
  currentPriority : Nat
  initPriority : Nat
  numberMask : BitVec 32
  initTick : Nat
  remainingTick : Nat
  /-- The thread's timer runs. -/
  timer : Bool
  /-- `cleanup` is not `NULL`. -/
  cleanup : Bool
  /-- `rt_object_is_systemobject` -/
  isSystem : Bool
  deriving DecidableEq

/-- The heads of the lists that a `tlist` can be on. -/
inductive Head where
  /-- `rt_thread_priority_table[p]` -/
  | ready (p : Nat)
  /-- The suspend list of an IPC object. -/
  | wait (q : Nat)
  /-- `rt_thread_defunct` -/
  | defunct
  deriving DecidableEq

abbrev Node := Circular.Node Head Nat

structure RtSched where
  links : Links Node
  /-- `rt_thread_ready_priority_group` -/
  group : BitVec 32
  /-- `rt_scheduler_lock_nest` (`rt_int16_t`) -/
  lockNest : Int
  /-- `rt_current_thread` -/
  current : Option Nat
  thread : Nat → RtThread
  ordered : Prop

/-- `__lowest_bit_bitmap`, by the rows of the source. -/
def lowestBitBitmap : List Nat :=
  [0, 4, 5, 4, 6, 4, 5, 4, 7, 4, 5, 4, 6, 4, 5, 4].flatMap fun k =>
    [k, 0, 1, 0, 2, 0, 1, 0, 3, 0, 1, 0, 2, 0, 1, 0]

/-- `__rt_ffs` -/
def rtFfs (value : BitVec 32) : Nat :=
  if value = 0 then 0
  else if value &&& 0xff#32 ≠ 0 then lowestBitBitmap.getD (value &&& 0xff#32).toNat 0 + 1
  else if value &&& 0xff00#32 ≠ 0 then
    lowestBitBitmap.getD ((value &&& 0xff00#32) >>> 8).toNat 0 + 9
  else if value &&& 0xff0000#32 ≠ 0 then
    lowestBitBitmap.getD ((value &&& 0xff0000#32) >>> 16).toNat 0 + 17
  else lowestBitBitmap.getD ((value &&& 0xff000000#32) >>> 24).toNat 0 + 25

/-- `1 << priority` -/
def priorityMask (p : Nat) : BitVec 32 := 1#32 <<< p

namespace RtSched

def setThread (s : RtSched) (t : Nat) (x : RtThread) : RtSched :=
  { s with thread := Function.update s.thread t x }

/-- `stat = x | (stat & ~RT_THREAD_STAT_MASK)` -/
def setStat (s : RtSched) (t : Nat) (x : Stat) : RtSched :=
  s.setThread t { s.thread t with stat := x }

/-- `rt_list_remove(&t->tlist)` -/
def unlink (s : RtSched) (t : Nat) : RtSched := { s with links := s.links.remove (.item t) }

/-- `rt_timer_start(&t->thread_timer)`, and `rt_timer_stop` or `rt_timer_detach`. -/
def setTimer (s : RtSched) (t : Nat) (b : Bool) : RtSched :=
  s.setThread t { s.thread t with timer := b }

/-- `rt_schedule_insert_thread` -/
def rtScheduleInsertThread (s : RtSched) (t : Nat) : RtSched :=
  if s.current = some t then s.setStat t .running
  else
    let x := s.thread t
    { s.setStat t .ready with
      links := s.links.insertBefore (.head (.ready x.currentPriority)) (.item t)
      group := s.group ||| x.numberMask }

/-- `rt_schedule_remove_thread` -/
def rtScheduleRemoveThread (s : RtSched) (t : Nat) : RtSched :=
  let x := s.thread t
  let links := s.links.remove (.item t)
  { s with
    links := links
    group := if links.isEmpty (.head (.ready x.currentPriority)) then s.group &&& ~~~x.numberMask
      else s.group }

/-- `_get_highest_priority_thread`: the thread, and its priority. -/
def getHighestPriorityThread (s : RtSched) : Option (Nat × Nat) :=
  match rtFfs s.group with
  | 0 => none
  | p + 1 =>
    match s.links.next (.head (.ready p)) with
    | .item u => some (u, p)
    | .head _ => none

/-- The choice of `rt_schedule` between the current thread `c` and the first ready thread `u`: the
thread to run, and `need_insert_from_thread`. -/
def chooseThread (s : RtSched) (c u highest : Nat) : RtSched × Nat × Bool :=
  let x := s.thread c
  if x.stat = .running then
    if x.currentPriority < highest then (s, c, false)
    else if x.currentPriority = highest ∧ x.yield = false then (s, c, false)
    else (s.setThread c { x with yield := false }, u, true)
  else (s, u, false)

/-- The switch of `rt_schedule` from `c` to `toThread`. -/
def switchTo (s : RtSched) (c toThread : Nat) (needInsert : Bool) : RtSched :=
  if toThread ≠ c then
    let s := { s with current := some toThread }
    let s := if needInsert then s.rtScheduleInsertThread c else s
    (s.rtScheduleRemoveThread toThread).setStat toThread .running
  else (s.rtScheduleRemoveThread c).setStat c .running

/-- `rt_schedule` with the scheduler unlocked. -/
def switchThread (s : RtSched) : Option RtSched :=
  if s.group = 0 then some s
  else
    match s.current, s.getHighestPriorityThread with
    | some c, some (u, highest) =>
      let (s, toThread, needInsert) := s.chooseThread c u highest
      some (s.switchTo c toThread needInsert)
    | _, _ => none

/-- No ready thread is above the running one. -/
def Highest (s : RtSched) : Prop :=
  ∀ c u, s.current = some c → (s.thread u).stat = .ready →
    (s.thread c).currentPriority ≤ (s.thread u).currentPriority

def rtSchedule (s : RtSched) : Option RtSched :=
  if s.lockNest = 0 then
    s.switchThread.map fun s' => { s' with ordered := s.ordered ∧ s'.Highest }
  else some s

/-- `rt_system_scheduler_start` -/
def rtSystemSchedulerStart (s : RtSched) : Option RtSched :=
  match s.current, s.getHighestPriorityThread with
  | none, some (u, _) =>
    let s := { s with current := some u }.rtScheduleRemoveThread u
    some (s.setThread u { s.thread u with stat := .running, yield := false })
  | _, _ => none

/-- `rt_thread_suspend` -/
def rtThreadSuspend (s : RtSched) (t : Nat) : Option RtSched :=
  let x := s.thread t
  if x.stat = .ready ∨ x.stat = .running then
    if x.stat = .running ∧ s.current ≠ some t then none
    else some ((s.rtScheduleRemoveThread t).setThread t { x with stat := .suspend, timer := false })
  else some s

/-- `rt_thread_resume` -/
def rtThreadResume (s : RtSched) (t : Nat) : RtSched :=
  if (s.thread t).stat = .suspend then
    ((s.unlink t).setTimer t false).rtScheduleInsertThread t
  else s

/-- `rt_thread_startup` -/
def rtThreadStartup (s : RtSched) (t : Nat) : Option RtSched :=
  let x := s.thread t
  if x.stat = .init then
    let s := (s.setThread t { x with
      currentPriority := x.initPriority
      numberMask := priorityMask x.initPriority
      stat := .suspend
      yield := false }).rtThreadResume t
    if s.current = none then some s else s.rtSchedule
  else none

def setPriority (s : RtSched) (t p : Nat) : RtSched :=
  s.setThread t { s.thread t with currentPriority := p, numberMask := priorityMask p }

/-- `rt_thread_control(t, RT_THREAD_CTRL_CHANGE_PRIORITY, &p)` -/
def changePriority (s : RtSched) (t p : Nat) : RtSched :=
  if (s.thread t).stat = .ready then
    ((s.rtScheduleRemoveThread t).setPriority t p).rtScheduleInsertThread t
  else s.setPriority t p

/-- `rt_list_insert_after(&rt_thread_defunct, &t->tlist)` -/
def toDefunct (s : RtSched) (t : Nat) : RtSched :=
  { s with links := s.links.insertAfter (.head .defunct) (.item t) }

/-- `stat = RT_THREAD_CLOSE`, and the timer is detached. -/
def setClose (s : RtSched) (t : Nat) : RtSched :=
  s.setThread t { s.thread t with stat := .close, yield := false, timer := false }

/-- `rt_thread_exit` of the current thread -/
def rtThreadExit (s : RtSched) : Option RtSched :=
  match s.current with
  | none => none
  | some t =>
    let x := s.thread t
    let s := (s.rtScheduleRemoveThread t).setClose t
    (if x.isSystem = true ∧ x.cleanup = false then s else s.toDefunct t).rtSchedule

/-- `rt_thread_detach` -/
def rtThreadDetach (s : RtSched) (t : Nat) : Option RtSched :=
  let x := s.thread t
  if x.isSystem = false then none
  else if x.stat = .close then some s
  else
    let s := (if x.stat ≠ .init then s.rtScheduleRemoveThread t else s).setClose t
    some (if x.cleanup = false then s else s.toDefunct t)

/-- `rt_thread_delete` -/
def rtThreadDelete (s : RtSched) (t : Nat) : Option RtSched :=
  let x := s.thread t
  if x.isSystem = true then none
  else if x.stat = .close then some s
  else
    let s := (if x.stat ≠ .init then s.rtScheduleRemoveThread t else s).setClose t
    some (s.toDefunct t)

/-- `rt_thread_sleep` of the current thread, up to its wait. -/
def rtThreadSleep (s : RtSched) : Option RtSched :=
  match s.current with
  | none => none
  | some t => (s.rtThreadSuspend t).bind fun s => (s.setTimer t true).rtSchedule

/-- `rt_thread_timeout` -/
def rtThreadTimeout (s : RtSched) (t : Nat) : Option RtSched :=
  if (s.thread t).stat = .suspend then ((s.unlink t).rtScheduleInsertThread t).rtSchedule else none

/-- `rt_timer_check` at the expired timer of a thread. -/
def expire (s : RtSched) (t : Nat) : Option RtSched :=
  if (s.thread t).timer then (s.setTimer t false).rtThreadTimeout t else none

/-- `rt_tick_increase`, when the timers of the threads `expired` expire one after the other. -/
def rtTickIncrease (s : RtSched) (expired : List Nat) : Option RtSched :=
  match s.current with
  | none => none
  | some t =>
    let x := s.thread t
    let remaining := (x.remainingTick + (2 ^ 32 - 1)) % 2 ^ 32
    let s := s.setThread t { x with remainingTick := remaining }
    let yielded :=
      if remaining = 0 then
        (s.setThread t { s.thread t with remainingTick := x.initTick, yield := true }).rtSchedule
      else some s
    yielded.bind fun s => expired.foldlM expire s

def rtEnterCritical (s : RtSched) : RtSched :=
  { s with lockNest := (s.lockNest + 1).bmod (2 ^ 16) }

def rtExitCritical (s : RtSched) : Option RtSched :=
  let n := (s.lockNest - 1).bmod (2 ^ 16)
  if n ≤ 0 then
    let s := { s with lockNest := 0 }
    if s.current = none then some s else s.rtSchedule
  else some { s with lockNest := n }

/-- The loop of `rt_ipc_list_suspend`, in at most so many rounds: the node to insert before. -/
def findLower (s : RtSched) (list : Node) (priority : Nat) : Nat → Node → Option Node
  | 0, _ => none
  | k + 1, n =>
    if n = list then some list
    else
      match n with
      | .item u =>
        if priority < (s.thread u).currentPriority then some n
        else findLower s list priority k (s.links.next n)
      | .head _ => none

/-- `rt_ipc_list_suspend` of the current thread, which is running. -/
def rtIpcListSuspend (s : RtSched) (q flag rounds : Nat) : Option RtSched :=
  match s.current with
  | none => none
  | some t =>
    if (s.thread t).stat = .running then
      (s.rtThreadSuspend t).bind fun s =>
        let list : Node := .head (.wait q)
        if flag = 0 then some { s with links := s.links.insertBefore list (.item t) }
        else if flag = 1 then
          (s.findLower list (s.thread t).currentPriority rounds (s.links.next list)).map fun n =>
            { s with links := s.links.insertBefore n (.item t) }
        else some s
    else none

/-- One round of `rt_thread_idle_excute`, but for the memory of the thread. -/
def rtThreadIdleExcute (s : RtSched) : Option RtSched :=
  match s.links.next (.head .defunct) with
  | .item t => (s.unlink t).rtEnterCritical.rtExitCritical
  | .head _ => some s

end RtSched

open RtSched

inductive SchedAct where
  | start
  | startup (t : Nat)
  | suspend (t : Nat)
  | resume (t : Nat)
  | sleep
  | timeout (t : Nat)
  | changePriority (t p : Nat)
  | exit
  | detach (t : Nat)
  | delete (t : Nat)
  | tick (expired : List Nat)
  | schedule
  | enterCritical
  | exitCritical
  | ipcSuspend (q flag rounds : Nat)
  | idle
  deriving DecidableEq

def schedStep (s : RtSched) : SchedAct → Option RtSched
  | .start => s.rtSystemSchedulerStart
  | .startup t => s.rtThreadStartup t
  | .suspend t => s.rtThreadSuspend t
  | .resume t => some (s.rtThreadResume t)
  | .sleep => s.rtThreadSleep
  | .timeout t => s.expire t
  | .changePriority t p => some (s.changePriority t p)
  | .exit => s.rtThreadExit
  | .detach t => s.rtThreadDetach t
  | .delete t => s.rtThreadDelete t
  | .tick expired => s.rtTickIncrease expired
  | .schedule => s.rtSchedule
  | .enterCritical => some s.rtEnterCritical
  | .exitCritical => s.rtExitCritical
  | .ipcSuspend q flag rounds => s.rtIpcListSuspend q flag rounds
  | .idle => s.rtThreadIdleExcute

/-- `_rt_thread_init` -/
def rtThreadInit (priority tick : Nat) (isSystem cleanup : Bool) : RtThread where
  stat := .init
  yield := false
  currentPriority := priority
  initPriority := priority
  numberMask := 0
  initTick := tick
  remainingTick := tick
  timer := false
  cleanup := cleanup
  isSystem := isSystem

/-- `rt_system_scheduler_init`, with every thread initialized and none started. -/
def schedInit (priority tick : Nat → Nat) (isSystem cleanup : Nat → Bool) : RtSched where
  links := ⟨id, id⟩
  group := 0
  lockNest := 0
  current := none
  thread := fun t => rtThreadInit (priority t) (tick t) (isSystem t) (cleanup t)
  ordered := True

end Tudu.Sched
