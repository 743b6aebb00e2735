import TuduOS.Kernel.Def
import TuduOS.Lib.Circular
import TuduOS.Lib.Lts

/-!
# Timers

`timer.c`, for `n` timer objects, with `RT_USING_TIMER_SOFT` and any number `level` of rows
(`RT_TIMER_SKIP_LIST_LEVEL`).

* A tick is a 32-bit word. `RT_TICK_MAX / 2` is 2^31 - 1.
* A list is one ring of pointers for each row. The node of a timer in a row, and the head of the
  row, are nodes of their own; `row_head[row_lvl] + 1` is the same node one row down.
* A call is one step. `rt_timer_check` and `rt_soft_timer_check` are one step up to each call of a
  timeout function and one from its return on: what the function does, and what happens while it
  runs, are the steps between.
* A call that fails an assertion, or that does not end, has no next state.

The timer thread is resumed in `rt_timer_start` without an effect on the timers.
-/

namespace Tudu.Timer

open Circular

/-- `rt_tick_t` -/
abbrev Tick := BitVec 32

/-- `RT_TICK_MAX / 2` -/
def rtTickMaxHalf : Tick := 0x7fffffff#32

/-- `RT_TIMER_SKIP_LIST_MASK` -/
def rtTimerSkipListMask : BitVec 32 := 3#32

/-- `struct rt_timer`, with the bits of its flag and without its nodes. -/
structure RtTimer where
  activated : Bool
  periodic : Bool
  softTimer : Bool
  initTick : Tick
  timeoutTick : Tick
  deriving DecidableEq

/-- `rt_timer_list` and `rt_soft_timer_list` -/
inductive TimerList where
  | hard
  | soft
  deriving DecidableEq

/-- The head of a row of a list, and the node of a timer in a row. -/
abbrev RowNode (n : Nat) := Node (TimerList × Nat) (Fin n × Nat)

/-- Where `rt_timer_check` is: its local `current_tick`, or the timer of the timeout function. -/
inductive Check (n : Nat) where
  | idle
  | scan (currentTick : Tick)
  | callback (t : Fin n)
  deriving DecidableEq

/-- Where `rt_soft_timer_check` is, with its local `n`. -/
inductive SoftCheck (n : Nat) where
  | idle
  | scan (currentTick : Tick) (node : RowNode n)
  | callback (t : Fin n) (node : RowNode n)
  deriving DecidableEq

/-- `starts` and `startNo` are not in the source: how often a timer was started, and which start was
the last one of each timer. -/
structure State (n : Nat) where
  timer : Fin n → RtTimer
  links : Links (RowNode n)
  tick : Tick
  randomNr : BitVec 32
  check : Check n
  softCheck : SoftCheck n
  starts : Nat
  startNo : Fin n → Nat

variable {n : Nat}

/-- `_rt_timer_init` of every timer, then `rt_system_timer_init` -/
def State.init (time : Fin n → Tick) (periodic soft : Fin n → Bool) (tick : Tick)
    (randomNr : BitVec 32) : State n where
  timer t :=
    { activated := false, periodic := periodic t, softTimer := soft t, initTick := time t,
      timeoutTick := 0#32 }
  links := { next := id, prev := id }
  tick := tick
  randomNr := randomNr
  check := .idle
  softCheck := .idle
  starts := 0
  startNo _ := 0

def State.setTimer (s : State n) (t : Fin n) (v : RtTimer) : State n :=
  { s with timer := Function.update s.timer t v }

def setActivated (s : State n) (t : Fin n) (b : Bool) : State n :=
  s.setTimer t { s.timer t with activated := b }

/-- `_rt_timer_remove`, the rows below `level` -/
def rtTimerRemove (links : Links (RowNode n)) (t : Fin n) : Nat → Links (RowNode n)
  | 0 => links
  | i + 1 => (rtTimerRemove links t i).remove (.item (t, i))

/-- `rtTimerRemove`, and the flag is cleared -/
def deactivate (level : Nat) (s : State n) (t : Fin n) : State n :=
  setActivated { s with links := rtTimerRemove s.links t level } t false

/-- The list that the flag of a timer selects. -/
def timerList (s : State n) (t : Fin n) : TimerList :=
  if (s.timer t).softTimer then .soft else .hard

/-! ## The search for the place of a timer -/

/-- The timer that is started goes behind `t`. -/
def Skips (s : State n) (timeout : Tick) (t : Fin n) : Prop :=
  (s.timer t).timeoutTick - timeout = 0#32 ∨
    ¬ (s.timer t).timeoutTick - timeout < rtTickMaxHalf

instance (s : State n) (timeout : Tick) (t : Fin n) : Decidable (Skips s timeout t) :=
  inferInstanceAs (Decidable (_ ∨ _))

/-- The search in one row, from the node `x` on. -/
def searchRow (s : State n) (q : TimerList) (timeout : Tick) (row : Nat) :
    Nat → RowNode n → Option (RowNode n)
  | 0, _ => none
  | fuel + 1, x =>
    if x = s.links.prev (.head (q, row)) then some x
    else
      match s.links.next x with
      | .head _ => none
      | .item (t, r) =>
        if Skips s timeout t then searchRow s q timeout row fuel (.item (t, r)) else some x

/-- `row_head[row_lvl] + 1` -/
def rowDown : RowNode n → RowNode n
  | .head (q, row) => .head (q, row + 1)
  | .item (t, row) => .item (t, row + 1)

/-- The array `row_head`, for `k` rows from `row` on. -/
def rowHeads (s : State n) (q : TimerList) (timeout : Tick) :
    Nat → Nat → (Nat → RowNode n) → Option (Nat → RowNode n)
  | 0, _, rowHead => some rowHead
  | k + 1, row, rowHead =>
    match searchRow s q timeout row (1 + n) (rowHead row) with
    | none => none
    | some x =>
      rowHeads s q timeout k (row + 1)
        (Function.update (Function.update rowHead row x) (row + 1) (rowDown x))

/-- The rows above the last one: one more for each two low bits of `tstNr` that are 0. -/
def insertRows (rowHead : Nat → RowNode n) (t : Fin n) :
    Nat → BitVec 32 → Links (RowNode n) → Links (RowNode n)
  | 0, _, links => links
  | row + 1, tstNr, links =>
    if tstNr &&& rtTimerSkipListMask = 0#32 then
      insertRows rowHead t row (tstNr >>> ((rtTimerSkipListMask + 1#32) >>> 1))
        (links.insertAfter (rowHead row) (.item (t, row)))
    else links

/-- The search, then the insertion of `rt_timer_start`. -/
def insertTimer (level : Nat) (s : State n) (t : Fin n) : Option (Links (RowNode n)) :=
  let q := timerList s t
  (rowHeads s q (s.timer t).timeoutTick level 0 fun _ => .head (q, 0)).map fun rowHead =>
    insertRows rowHead t (level - 1) (s.randomNr + 1#32)
      (s.links.insertAfter (rowHead (level - 1)) (.item (t, level - 1)))

/-- `timer->timeout_tick = rt_tick_get() + timer->init_tick` -/
def setTimeout (s : State n) (t : Fin n) : State n :=
  s.setTimer t { s.timer t with timeoutTick := s.tick + (s.timer t).initTick }

/-- The timer is linked; its flag is set. -/
def activate (s : State n) (t : Fin n) (links : Links (RowNode n)) : State n :=
  setActivated
    { s with
      links := links
      randomNr := s.randomNr + 1#32
      starts := s.starts + 1
      startNo := Function.update s.startNo t s.starts } t true

def rtTimerStart (level : Nat) (s : State n) (t : Fin n) : Option (State n) :=
  let s := deactivate level s t
  if (s.timer t).initTick < rtTickMaxHalf then
    let s := setTimeout s t
    (insertTimer level s t).map (activate s t)
  else none

def rtTimerStop (level : Nat) (s : State n) (t : Fin n) : Int × State n :=
  if (s.timer t).activated then (rtEok, deactivate level s t) else (-rtError, s)

inductive TimerCtrl where
  | getTime
  | setTime (arg : Tick)
  | setOneshot
  | setPeriodic
  | getState
  deriving DecidableEq

/-- `rt_timer_control`, with what it stores at `arg` -/
def rtTimerControl (s : State n) (t : Fin n) : TimerCtrl → Option Tick × State n
  | .getTime => (some (s.timer t).initTick, s)
  | .setTime arg => (none, s.setTimer t { s.timer t with initTick := arg })
  | .setOneshot => (none, s.setTimer t { s.timer t with periodic := false })
  | .setPeriodic => (none, s.setTimer t { s.timer t with periodic := true })
  | .getState => (some (if (s.timer t).activated then 1#32 else 0#32), s)

/-! ## The scans -/

/-- `(current_tick - t->timeout_tick) < RT_TICK_MAX / 2` -/
def Due (s : State n) (currentTick : Tick) (t : Fin n) : Prop :=
  currentTick - (s.timer t).timeoutTick < rtTickMaxHalf

instance (s : State n) (currentTick : Tick) (t : Fin n) : Decidable (Due s currentTick t) :=
  inferInstanceAs (Decidable (_ < _))

/-- The timeout function of `t` has returned. -/
def timeoutDone (level : Nat) (s : State n) (t : Fin n) : Option (State n) :=
  if (s.timer t).periodic && (s.timer t).activated then
    rtTimerStart level (setActivated s t false) t
  else some (setActivated s t false)

/-- The loop of `rt_timer_check` up to a timeout function. -/
def checkFire (level : Nat) (s : State n) : Option (State n) :=
  match s.check with
  | .scan currentTick =>
    match s.links.next (.head (.hard, level - 1)) with
    | .item (t, _) =>
      if Due s currentTick t then
        some { s with links := rtTimerRemove s.links t level, check := .callback t }
      else none
    | .head _ => none
  | _ => none

def checkReturn (level : Nat) (s : State n) : Option (State n) :=
  match s.check with
  | .callback t =>
    (timeoutDone level s t).map fun s' => { s' with check := .scan s.tick }
  | _ => none

/-- The end of `rt_timer_check`: the list is empty, or its first timer is not due. -/
def checkLeave (level : Nat) (s : State n) : Option (State n) :=
  match s.check with
  | .scan currentTick =>
    match s.links.next (.head (.hard, level - 1)) with
    | .item (t, _) => if Due s currentTick t then none else some { s with check := .idle }
    | .head _ => some { s with check := .idle }
  | _ => none

/-- The loop of `rt_soft_timer_check` up to a timeout function. -/
def softFire (level : Nat) (s : State n) : Option (State n) :=
  match s.softCheck with
  | .scan currentTick (.item (t, r)) =>
    if Due s currentTick t then
      some { s with
        softCheck := .callback t (s.links.next (.item (t, r)))
        links := rtTimerRemove s.links t level }
    else none
  | _ => none

def softReturn (level : Nat) (s : State n) : Option (State n) :=
  match s.softCheck with
  | .callback t node =>
    (timeoutDone level s t).map fun s' => { s' with softCheck := .scan s.tick node }
  | _ => none

/-- The end of `rt_soft_timer_check`: at the head, or at a timer that is not due. -/
def softLeave (s : State n) : Option (State n) :=
  match s.softCheck with
  | .scan currentTick (.item (t, _)) =>
    if Due s currentTick t then none else some { s with softCheck := .idle }
  | .scan _ (.head _) => some { s with softCheck := .idle }
  | _ => none

/-! ## The system -/

inductive Act (n : Nat) where
  | tickIncrease
  | start (t : Fin n)
  | stop (t : Fin n)
  | control (t : Fin n) (cmd : TimerCtrl)
  | checkEnter
  | checkFire
  | checkReturn
  | checkLeave
  | softEnter
  | softFire
  | softReturn
  | softLeave
  deriving DecidableEq

def step (level : Nat) (s : State n) : Act n → Option (State n)
  | .tickIncrease => some { s with tick := s.tick + 1#32 }
  | .start t => rtTimerStart level s t
  | .stop t => some (rtTimerStop level s t).2
  | .control t cmd => some (rtTimerControl s t cmd).2
  | .checkEnter => if s.check = .idle then some { s with check := .scan s.tick } else none
  | .checkFire => checkFire level s
  | .checkReturn => checkReturn level s
  | .checkLeave => checkLeave level s
  | .softEnter =>
    if s.softCheck = .idle then
      some { s with softCheck := .scan s.tick (s.links.next (.head (.soft, level - 1))) }
    else none
  | .softFire => softFire level s
  | .softReturn => softReturn level s
  | .softLeave => softLeave s

/-- The timers of a row, from the node `x` on. -/
def rowFrom (links : Links (RowNode n)) : Nat → RowNode n → List (Fin n)
  | 0, _ => []
  | k + 1, x =>
    match links.next x with
    | .head _ => []
    | .item (t, r) => t :: rowFrom links k (.item (t, r))

/-- A row of a list, in the order of its pointers. -/
def row (links : Links (RowNode n)) (q : TimerList) (r : Nat) : List (Fin n) :=
  rowFrom links n (.head (q, r))

/-- The timer is on a list: in its last row. -/
def Linked (level : Nat) (s : State n) (t : Fin n) : Prop :=
  t ∈ row s.links .hard (level - 1) ∨ t ∈ row s.links .soft (level - 1)

instance (level : Nat) (s : State n) (t : Fin n) : Decidable (Linked level s t) :=
  inferInstanceAs (Decidable (_ ∨ _))

end Tudu.Timer
