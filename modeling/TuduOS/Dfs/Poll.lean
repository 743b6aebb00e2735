import TuduOS.Lib.Lts
import Mathlib.Data.Nat.Basic
import Mathlib.Logic.Function.Iterate

/-!
# `poll` (`poll.c`)

One thread in `poll_do`, between the devices that wake it and the tick interrupt.

* `doPollfd`: one descriptor. What `fd_get` and the device's `poll` answer is the input
  (`FileAnswer`).
* `State`: the table, the thread and its timer. Below `own`, values beside the state that record
  what happened: the passes, the wake-ups, whether the thread slept.
* `poll_times_out`: while no wake-up comes before the timer expires, the second pass is the last
  one.
* `spins_of_wakeup`: `triggered` is never taken back. After a wake-up the thread does not sleep
  and, as long as nothing is ready, does not return.
-/

namespace Tudu.Poll

open Lts

/-- `RT_TICK_PER_SECOND` of the board -/
def rtTickPerSecond : Nat := 1000

/-- `RT_TICK_MAX / 2`, the bound of the assertion in `rt_timer_start` -/
def rtTickMaxHalf : BitVec 32 := 0x7fffffff#32

/-- `RT_WAITING_FOREVER` is -1. -/
def rtTickFromMillisecond (ms : Int) : BitVec 32 :=
  if ms < 0 then -1#32
  else BitVec.ofNat 32 (rtTickPerSecond * (ms.toNat / 1000) +
    (rtTickPerSecond * (ms.toNat % 1000) + 999) / 1000)

def pollin : BitVec 32 := 0x01#32
def pollout : BitVec 32 := 0x02#32
def pollerr : BitVec 32 := 0x04#32
def pollhup : BitVec 32 := 0x08#32
def pollnval : BitVec 32 := 0x10#32

/-- `POLLMASK_DEFAULT`. `POLLRDNORM` and `POLLWRNORM` are `POLLIN` and `POLLOUT`. -/
def pollmaskDefault : BitVec 32 := pollin ||| pollout

structure Pollfd where
  fd : Int
  events : BitVec 16
  revents : BitVec 16
  deriving DecidableEq

/-- `struct rt_poll_node`: its key, and whether it is on its wait queue. -/
structure PollNode where
  key : BitVec 32
  queued : Bool
  deriving DecidableEq

/-- `struct rt_poll_table` -/
structure PollTable where
  /-- `req._proc` is `_poll_add`, not null. -/
  proc : Bool
  key : BitVec 16
  triggered : Bool
  /-- The newest node first. -/
  nodes : List PollNode
  deriving DecidableEq

def pollTableInit : PollTable := ⟨true, 0, false, []⟩

def pollAdd (pt : PollTable) : PollTable :=
  { pt with nodes := ⟨pt.key.signExtend 32, true⟩ :: pt.nodes }

def rtPollAdd (pt : PollTable) : PollTable :=
  if pt.proc then pollAdd pt else pt

inductive FileAnswer where
  /-- `fd_get` found no file. -/
  | noFile
  /-- `fops->poll` is null. -/
  | noPoll
  /-- The device called `rt_poll_add` so many times and returned `mask`. A node that `rt_malloc`
  did not give is not counted. -/
  | poll (adds : Nat) (mask : BitVec 32)
  deriving DecidableEq

/-- `pollfd->events | POLLERR | POLLHUP` -/
def Pollfd.wanted (pf : Pollfd) : BitVec 32 :=
  pf.events.signExtend 32 ||| pollerr ||| pollhup

def Pollfd.report (pf : Pollfd) (mask : BitVec 32) : Pollfd :=
  { pf with revents := mask.setWidth 16 }

def doPollfd (pf : Pollfd) (pt : PollTable) (ans : FileAnswer) :
    BitVec 32 × Pollfd × PollTable :=
  if pf.fd < 0 then (0, pf.report 0, pt)
  else
    match ans with
    | .noFile => (pollnval, pf.report pollnval, pt)
    | .noPoll => (pollmaskDefault &&& pf.wanted, pf.report (pollmaskDefault &&& pf.wanted), pt)
    | .poll adds mask =>
      let pt' := rtPollAdd^[adds] { pt with key := pf.wanted.setWidth 16 }
      if mask.slt 0 then (mask, pf.report 0, pt')
      else (mask &&& pf.wanted, pf.report (mask &&& pf.wanted), pt')

inductive Pc where
  /-- In front of the `n`-th descriptor, or behind the last one. -/
  | scan (n : Nat)
  /-- In front of `poll_wait_timeout`. -/
  | wait
  /-- In `poll_wait_timeout`, behind `rt_schedule`. -/
  | sleep
  | done (ret : Int)
  deriving DecidableEq

structure State where
  fds : List Pollfd
  pt : PollTable
  num : Nat
  istimeout : Bool
  pc : Pc
  suspended : Bool
  /-- The ticks that are left to the thread's timer, when it runs. -/
  timer : Option Nat
  /-- The thread's steps since its timer expired. -/
  own : Nat
  expired : Bool
  passes : Nat
  wakes : Nat
  /-- The thread slept, or a wake-up came, since the last pass began. -/
  rested : Bool
  /-- A pass began without that. -/
  spun : Bool
  deriving DecidableEq

/-- The head of the loop. -/
def startPass (s : State) : State :=
  { s with pc := .scan 0, num := 0, passes := s.passes + 1, rested := false
           spun := s.spun || !s.rested }

/-- `poll_table_init` and the first lines of `poll_do`. -/
def init (fds : List Pollfd) (msec : Int) : State :=
  startPass
    { fds := fds, pt := { pollTableInit with proc := msec ≠ 0 }, num := 0, istimeout := msec = 0
      pc := .scan 0, suspended := false, timer := none, own := 0, expired := false, passes := 0
      wakes := 0, rested := true, spun := false }

/-- The body of the loop over the descriptors, and what follows the loop. -/
def scan (s : State) (n : Nat) (ans : FileAnswer) : State :=
  match s.fds[n]? with
  | some pf =>
    let (ret, pf', pt') := doPollfd pf s.pt ans
    if ret.slt 0 then
      { s with fds := s.fds.set n pf', pt := { pt' with proc := false }, pc := .done ret.toInt }
    else if ret = 0 then
      { s with fds := s.fds.set n pf', pt := pt', pc := .scan (n + 1) }
    else
      { s with fds := s.fds.set n pf', pt := { pt' with proc := false }, num := s.num + 1
               pc := .scan (n + 1) }
  | none =>
    { s with pt := { s.pt with proc := false }
             pc := if s.num ≠ 0 ∨ s.istimeout then .done s.num else .wait }

/-- The end of `poll_wait_timeout`, and of the loop's body. -/
def waitReturn (s : State) : State :=
  startPass { s with istimeout := s.istimeout || !s.pt.triggered }

/-- `poll_wait_timeout` up to `rt_schedule`. The assertion of `rt_timer_start` may fail. -/
def pollWaitTimeout (msec : Int) (s : State) : Option State :=
  let timeout := rtTickFromMillisecond msec
  if timeout ≠ 0 ∧ s.pt.triggered = false then
    if 0 < timeout.toInt then
      if timeout < rtTickMaxHalf then
        some { s with suspended := true, timer := some timeout.toNat, pc := .sleep, rested := true }
      else none
    else some { s with suspended := true, timer := none, pc := .sleep, rested := true }
  else some (waitReturn s)

/-- One step of the thread. -/
def run (msec : Int) (s : State) (ans : FileAnswer) : Option State :=
  match s.pc with
  | .scan n => some (scan s n ans)
  | .wait => pollWaitTimeout msec s
  | .sleep => if s.suspended then none else some (waitReturn s)
  | .done _ => none

/-- The wake-up function takes the key. -/
def Accepts (node : PollNode) (key : BitVec 32) : Prop :=
  node.queued = true ∧ (key = 0 ∨ key &&& node.key ≠ 0)

instance (node : PollNode) (key : BitVec 32) : Decidable (Accepts node key) :=
  inferInstanceAs (Decidable (_ ∧ _))

/-- `rt_wqueue_wakeup` at the `i`-th node: `__wqueue_pollwake`, then `rt_thread_resume` and
`rt_wqueue_remove`. -/
def wakeup (s : State) (i : Nat) (key : BitVec 32) : Option State :=
  match s.pt.nodes[i]? with
  | none => none
  | some node =>
    if Accepts node key then
      some { s with
        pt := { s.pt with triggered := true, nodes := s.pt.nodes.set i { node with queued := false } }
        suspended := false, timer := if s.suspended then none else s.timer
        wakes := s.wakes + 1, rested := true }
    else some s

/-- The tick interrupt. `rt_thread_timeout` asserts that the thread is suspended. -/
def tick (s : State) : Option State :=
  match s.timer with
  | none => some s
  | some n =>
    if 1 < n then some { s with timer := some (n - 1) }
    else if s.suspended then some { s with suspended := false, timer := none, expired := true }
    else none

inductive Act where
  | run (ans : FileAnswer)
  | wakeup (i : Nat) (key : BitVec 32)
  | tick
  deriving DecidableEq

def step (msec : Int) (s : State) : Act → Option State
  | .run ans => (run msec s ans).map fun s' => { s' with own := if s.expired then s.own + 1 else 0 }
  | .wakeup i key => wakeup s i key
  | .tick => tick s

/-! ## The conditions on a step -/

/-- The descriptor that the thread's next step polls. -/
def polled (s : State) : Option Pollfd :=
  match s.pc with
  | .scan n => s.fds[n]?
  | _ => none

/-- No polled descriptor is ready. -/
def Unready (s : State) : Act → Prop
  | .run ans => ∀ pf ∈ polled s, (doPollfd pf s.pt ans).1 = 0
  | _ => True

/-- The action is a wake-up that is delivered. -/
def Delivers (s : State) : Act → Prop
  | .wakeup i key => ∃ node ∈ s.pt.nodes[i]?, Accepts node key
  | _ => False

/-- No wake-up is delivered before the wait has timed out. -/
def Quiet (s : State) (act : Act) : Prop := Delivers s act → s.istimeout = true

instance (s : State) : ∀ act, Decidable (Unready s act)
  | .run ans => inferInstanceAs (Decidable (∀ pf ∈ polled s, (doPollfd pf s.pt ans).1 = 0))
  | .wakeup _ _ => inferInstanceAs (Decidable True)
  | .tick => inferInstanceAs (Decidable True)

instance (s : State) : ∀ act, Decidable (Delivers s act)
  | .run _ => inferInstanceAs (Decidable False)
  | .wakeup i key => inferInstanceAs (Decidable (∃ node ∈ s.pt.nodes[i]?, Accepts node key))
  | .tick => inferInstanceAs (Decidable False)

instance (s : State) (act : Act) : Decidable (Quiet s act) :=
  inferInstanceAs (Decidable (_ → _))

/-- What the caller relies on. -/
structure PollOk (msec : Int) (nfds : Nat) (s : State) : Prop where
  passes : s.passes ≤ s.wakes + 2
  rested : s.spun = false
  zero : ∀ r, s.pc = .done r → r = 0
  /-- A sleeping thread has a timer that will wake it. -/
  armed : s.suspended = true → ∃ n, s.timer = some (n + 1) ∧ n < msec.toNat
  /-- The thread's step `nfds + 2` is the last one. -/
  returns : s.expired = true → s.own ≤ nfds + 2 ∧ (s.own = nfds + 2 → s.pc = .done 0)
  /-- Nothing stops it before. -/
  runs : s.expired = true → s.pc = .done 0 ∨ ∀ ans, ∃ s', step msec s (.run ans) = some s'

/-! ## The invariant -/

/-- Where the thread is, while no wake-up came in time. -/
inductive Phase (msec : Int) (nfds : Nat) (s : State) : Prop where
  | first (notimeout : s.istimeout = false) (untriggered : s.pt.triggered = false)
      (pass : s.passes = 1) (awake : s.suspended = false) (stopped : s.timer = none)
      (running : s.expired = false) (at_ : (∃ n, s.pc = .scan n) ∨ s.pc = .wait)
  | asleep (notimeout : s.istimeout = false) (untriggered : s.pt.triggered = false)
      (pass : s.passes = 1) (awake : s.suspended = true) (armed : ∃ n, s.timer = some (n + 1) ∧ n < msec.toNat)
      (running : s.expired = false) (rested : s.rested = true) (at_ : s.pc = .sleep)
  | woken (notimeout : s.istimeout = false) (untriggered : s.pt.triggered = false)
      (pass : s.passes = 1) (awake : s.suspended = false) (stopped : s.timer = none)
      (own : s.own = 0) (expired : s.expired = true) (rested : s.rested = true) (at_ : s.pc = .sleep)
  | second (timeout : s.istimeout = true) (pass : s.passes = 2) (awake : s.suspended = false)
      (stopped : s.timer = none) (expired : s.expired = true)
      (at_ : ∃ n, n ≤ nfds ∧ s.pc = .scan n ∧ s.own = n + 1)
  | done (timeout : s.istimeout = true) (pass : s.passes = 2) (awake : s.suspended = false)
      (stopped : s.timer = none) (expired : s.expired = true) (own : s.own = nfds + 2)
      (at_ : s.pc = .done 0)

structure PollInv (msec : Int) (nfds : Nat) (s : State) : Prop where
  length : s.fds.length = nfds
  num : s.num = 0
  rested : s.spun = false
  /-- The thread's steps are counted from the expiry on. -/
  own : s.expired = false → s.own = 0
  phase : Phase msec nfds s

variable {msec : Int} {nfds : Nat} {s s' t : State} {ans : FileAnswer} {act : Act}

theorem tick_ms (h : 0 < msec) (hm : msec < 2147483647) :
    (rtTickFromMillisecond msec).toNat = msec.toNat := by
  have hms : rtTickPerSecond * (msec.toNat / 1000) +
      (rtTickPerSecond * (msec.toNat % 1000) + 999) / 1000 = msec.toNat := by
    unfold rtTickPerSecond
    omega
  rw [rtTickFromMillisecond, if_neg (by omega), hms, BitVec.toNat_ofNat, Nat.mod_eq_of_lt (by omega)]

/-- Below the assertion's bound the wait arms the timer and sleeps. -/
theorem pollWaitTimeout_sleep (h : 0 < msec) (hm : msec < 2147483647)
    (ht : s.pt.triggered = false) :
    pollWaitTimeout msec s =
      some { s with suspended := true, timer := some msec.toNat, pc := .sleep, rested := true } := by
  have hn := tick_ms h hm
  have h0 : rtTickFromMillisecond msec ≠ 0 := by
    intro he
    rw [he] at hn
    simp only [BitVec.ofNat_eq_ofNat, BitVec.toNat_ofNat, Nat.zero_mod] at hn
    omega
  have hpos : 0 < (rtTickFromMillisecond msec).toInt := by
    rw [BitVec.toInt_eq_toNat_of_lt (by omega)]
    omega
  have hlt : rtTickFromMillisecond msec < rtTickMaxHalf := by
    rw [BitVec.lt_def, hn, rtTickMaxHalf, BitVec.toNat_ofNat]
    omega
  simp only [pollWaitTimeout, if_pos (And.intro h0 ht), if_pos hpos, if_pos hlt, hn]

/-- Nothing that is polled is ready: the next descriptor. -/
theorem scan_some {n : Nat} {pf : Pollfd} (hn : s.fds[n]? = some pf)
    (h0 : (doPollfd pf s.pt ans).1 = 0) :
    scan s n ans = { s with fds := s.fds.set n (doPollfd pf s.pt ans).2.1
                            pt := (doPollfd pf s.pt ans).2.2, pc := .scan (n + 1) } := by
  simp only [scan, hn]
  rw [if_neg (by rw [h0]; decide), if_pos h0]

theorem scan_none {n : Nat} (hn : s.fds[n]? = none) :
    scan s n ans = { s with pt := { s.pt with proc := false }
                            pc := if s.num ≠ 0 ∨ s.istimeout then .done s.num else .wait } := by
  simp only [scan, hn]

theorem rtPollAdd_triggered (pt : PollTable) : (rtPollAdd pt).triggered = pt.triggered := by
  unfold rtPollAdd
  split <;> rfl

/-- Only a wake-up triggers. -/
theorem doPollfd_triggered (pf : Pollfd) (pt : PollTable) (ans : FileAnswer) :
    (doPollfd pf pt ans).2.2.triggered = pt.triggered := by
  have hadd : ∀ (n : Nat) (pt : PollTable), (rtPollAdd^[n] pt).triggered = pt.triggered := by
    intro n
    induction n with
    | zero => exact fun pt => rfl
    | succ n ih =>
      intro pt
      rw [Function.iterate_succ_apply, ih, rtPollAdd_triggered]
  unfold doPollfd
  split
  · rfl
  · cases ans with
    | noFile => rfl
    | noPoll => rfl
    | poll adds mask =>
      have := hadd adds { pt with key := pf.wanted.setWidth 16 }
      simp only
      split <;> exact this

theorem init_inv (fds : List Pollfd) (h : 0 < msec) : PollInv msec fds.length (init fds msec) where
  length := rfl
  num := rfl
  rested := rfl
  own := fun _ => rfl
  phase := .first (decide_eq_false (by omega)) rfl rfl rfl rfl rfl (.inl ⟨0, rfl⟩)

/-! ## The steps -/

/-- The loop over the descriptors goes on, or ends with nothing found. -/
structure Scanned (nfds n : Nat) (s s' : State) : Prop where
  length : s'.fds.length = nfds
  num : s'.num = 0
  triggered : s'.pt.triggered = s.pt.triggered
  istimeout : s'.istimeout = s.istimeout
  suspended : s'.suspended = s.suspended
  timer : s'.timer = s.timer
  own : s'.own = s.own
  expired : s'.expired = s.expired
  passes : s'.passes = s.passes
  spun : s'.spun = s.spun
  pc : s'.pc = if n < nfds then .scan (n + 1) else if s.istimeout then .done 0 else .wait

theorem scan_scanned {n : Nat} (hl : s.fds.length = nfds) (h0 : s.num = 0) (hpc : s.pc = .scan n)
    (hu : Unready s (.run ans)) : Scanned nfds n s (scan s n ans) := by
  cases hn : s.fds[n]? with
  | some pf =>
    have hlt : n < nfds := hl ▸ (List.getElem?_eq_some_iff.mp hn).1
    have hpf : pf ∈ polled s := by
      simp only [polled, hpc, hn, Option.mem_def]
    rw [scan_some hn (hu pf hpf)]
    exact ⟨(List.length_set ..).trans hl, h0, doPollfd_triggered pf s.pt ans, rfl, rfl, rfl, rfl,
      rfl, rfl, rfl, (if_pos hlt).symm⟩
  | none =>
    have hge : ¬n < nfds := by
      rw [← hl]
      exact Nat.not_lt.mpr (List.getElem?_eq_none_iff.mp hn)
    rw [scan_none hn]
    refine ⟨hl, h0, rfl, rfl, rfl, rfl, rfl, rfl, rfl, rfl, ?_⟩
    rw [if_neg hge]
    simp [h0]

theorem run_step (h : 0 < msec) (hm : msec < 2147483647) (hi : PollInv msec nfds s)
    (hu : Unready s (.run ans)) (hs : step msec s (.run ans) = some s') : PollInv msec nfds s' := by
  obtain ⟨t, ht, rfl⟩ := Option.map_eq_some_iff.mp hs
  cases hi.phase with
  | first notimeout untriggered pass awake stopped running at_ =>
    have hown := hi.own running
    rcases at_ with ⟨n, hpc⟩ | hpc
    · simp only [run, hpc, Option.some.injEq] at ht
      subst ht
      have hsc := scan_scanned hi.length hi.num hpc hu
      have hpc' := hsc.pc
      refine ⟨hsc.length, hsc.num, hsc.spun.trans hi.rested, fun _ => by simp [running], ?_⟩
      refine .first (hsc.istimeout.trans notimeout) (hsc.triggered.trans untriggered)
        (hsc.passes.trans pass) (hsc.suspended.trans awake) (hsc.timer.trans stopped)
        (hsc.expired.trans running) ?_
      rw [notimeout] at hpc'
      by_cases hlt : n < nfds
      · rw [if_pos hlt] at hpc'
        exact .inl ⟨n + 1, hpc'⟩
      · rw [if_neg hlt] at hpc'
        exact .inr hpc'
    · simp only [run, hpc, pollWaitTimeout_sleep h hm untriggered, Option.some.injEq] at ht
      subst ht
      refine ⟨hi.length, hi.num, hi.rested, fun _ => by simp [running], ?_⟩
      exact .asleep notimeout untriggered pass rfl ⟨msec.toNat - 1, congrArg some (by omega), by omega⟩
        running rfl rfl
  | asleep notimeout untriggered pass awake armed running rested at_ =>
    simp [run, at_, awake] at ht
  | woken notimeout untriggered pass awake stopped own expired rested at_ =>
    simp only [run, at_, awake, Bool.false_eq_true, if_false, Option.some.injEq] at ht
    subst ht
    refine ⟨hi.length, rfl, ?_, fun he => absurd (he.symm.trans expired) (by decide), ?_⟩
    · simp [waitReturn, startPass, hi.rested, rested]
    refine .second ?_ (congrArg (· + 1) pass) awake stopped expired ⟨0, Nat.zero_le _, rfl, ?_⟩
    · simp [waitReturn, startPass, untriggered]
    · simp [expired, own]
  | second timeout pass awake stopped expired at_ =>
    obtain ⟨n, hn, hpc, hown⟩ := at_
    simp only [run, hpc, Option.some.injEq] at ht
    subst ht
    have hsc := scan_scanned hi.length hi.num hpc hu
    have hpc' := hsc.pc
    have hexp := hsc.expired.trans expired
    refine ⟨hsc.length, hsc.num, hsc.spun.trans hi.rested,
      fun he => absurd (he.symm.trans hexp) (by decide), ?_⟩
    rw [timeout] at hpc'
    by_cases hlt : n < nfds
    · rw [if_pos hlt] at hpc'
      refine .second (hsc.istimeout.trans timeout) (hsc.passes.trans pass)
        (hsc.suspended.trans awake) (hsc.timer.trans stopped) hexp ⟨n + 1, hlt, hpc', ?_⟩
      simp [expired, hown]
    · rw [if_neg hlt] at hpc'
      refine .done (hsc.istimeout.trans timeout) (hsc.passes.trans pass)
        (hsc.suspended.trans awake) (hsc.timer.trans stopped) hexp ?_ hpc'
      have : n = nfds := by omega
      simp [expired, hown, this]
  | done timeout pass awake stopped expired own at_ =>
    simp [run, at_] at ht

theorem tick_step (hi : PollInv msec nfds s) (hs : tick s = some s') : PollInv msec nfds s' := by
  unfold tick at hs
  cases hp : hi.phase with
  | asleep notimeout untriggered pass awake armed running rested at_ =>
    obtain ⟨n, hn, hlt⟩ := armed
    simp only [hn] at hs
    split at hs
    · cases hs
      exact ⟨hi.length, hi.num, hi.rested, hi.own, .asleep notimeout untriggered pass awake
        ⟨n - 1, congrArg some (by omega), by omega⟩ running rested at_⟩
    · cases hs
      exact ⟨hi.length, hi.num, hi.rested, fun he => (by cases he),
        .woken notimeout untriggered pass rfl rfl (hi.own running) rfl rested at_⟩
  | first _ _ _ _ stopped | woken _ _ _ _ stopped | second _ _ _ stopped | done _ _ _ stopped =>
    simp only [stopped, Option.some.injEq] at hs
    exact hs ▸ hi

/-- A wake-up after the time-out changes nothing that the thread reads. -/
theorem wakeup_step {i : Nat} {key : BitVec 32} (hi : PollInv msec nfds s)
    (hq : Quiet s (.wakeup i key)) (hs : wakeup s i key = some s') : PollInv msec nfds s' := by
  unfold wakeup at hs
  cases hn : s.pt.nodes[i]? with
  | none => simp [hn] at hs
  | some node =>
    simp only [hn] at hs
    split at hs
    · have hto := hq ⟨node, hn, ‹_›⟩
      cases hs
      refine ⟨hi.length, hi.num, hi.rested, hi.own, ?_⟩
      cases hi.phase with
      | second timeout pass awake stopped expired at_ =>
        exact .second timeout pass rfl (by rw [awake]; exact stopped) expired at_
      | done timeout pass awake stopped expired own at_ =>
        exact .done timeout pass rfl (by rw [awake]; exact stopped) expired own at_
      | first notimeout | asleep notimeout | woken notimeout =>
        exact absurd (hto.symm.trans notimeout) (by decide)
    · cases hs
      exact hi

theorem poll_step (h : 0 < msec) (hm : msec < 2147483647) (hi : PollInv msec nfds s)
    (hu : Unready s act) (hq : Quiet s act) (hs : step msec s act = some s') : PollInv msec nfds s' := by
  cases act with
  | run ans => exact run_step h hm hi hu hs
  | wakeup i key => exact wakeup_step hi hq hs
  | tick => exact tick_step hi hs

theorem PollInv.ok (hi : PollInv msec nfds s) : PollOk msec nfds s where
  passes := by
    cases hi.phase <;> omega
  rested := hi.rested
  zero := by
    intro r hr
    cases hi.phase with
    | done _ _ _ _ _ _ at_ =>
      rw [at_] at hr
      cases hr
      rfl
    | first _ _ _ _ _ _ at_ => rcases at_ with ⟨n, hpc⟩ | hpc <;> simp [hpc] at hr
    | asleep _ _ _ _ _ _ _ at_ => simp [at_] at hr
    | woken _ _ _ _ _ _ _ _ at_ => simp [at_] at hr
    | second _ _ _ _ _ at_ =>
      obtain ⟨n, -, hpc, -⟩ := at_
      simp [hpc] at hr
  armed := by
    intro hs
    cases hi.phase with
    | asleep _ _ _ _ armed => exact armed
    | first _ _ _ awake => simp [awake] at hs
    | woken _ _ _ awake => simp [awake] at hs
    | second _ _ awake => simp [awake] at hs
    | done _ _ awake => simp [awake] at hs
  returns := by
    intro he
    cases hi.phase with
    | done _ _ _ _ _ own at_ => exact ⟨Nat.le_of_eq own, fun _ => at_⟩
    | first _ _ _ _ _ running => simp [running] at he
    | asleep _ _ _ _ _ running => simp [running] at he
    | woken _ _ _ _ _ own => omega
    | second _ _ _ _ _ at_ =>
      obtain ⟨n, hn, -, hown⟩ := at_
      omega
  runs := by
    intro he
    cases hi.phase with
    | done _ _ _ _ _ _ at_ => exact .inl at_
    | first _ _ _ _ _ running => simp [running] at he
    | asleep _ _ _ _ _ running => simp [running] at he
    | woken _ _ _ awake _ _ _ _ at_ => exact .inr fun ans => by simp [step, run, at_, awake]
    | second _ _ _ _ _ at_ =>
      obtain ⟨n, -, hpc, -⟩ := at_
      exact .inr fun ans => by simp [step, run, hpc]

/-! ## Whole runs -/

/-- In a run in which nothing gets ready and no wake-up comes before the wait has timed out. -/
theorem poll_times_out (fds : List Pollfd) {acts : List Act} (h : 0 < msec) (hm : msec < 2147483647)
    (hu : Along (step msec) Unready (init fds msec) acts)
    (hq : Along (step msec) Quiet (init fds msec) acts)
    (hx : exec (step msec) (init fds msec) acts = some t) : PollOk msec fds.length t := by
  have hc := hu.and hq
  exact PollInv.ok (hc.inv (fun s act s' hi ha hs => poll_step h hm hi ha.1 ha.2 hs) hx
    (init_inv fds h))

/-- A device on one descriptor, with a timer of two ticks and a wake-up behind its expiry. -/
theorem poll_times_out_one :
    PollOk 2 1 ((exec (step 2) (init [⟨3, 1, 0⟩] 2)
      [.run (.poll 1 0), .run .noPoll, .run .noPoll, .tick, .tick, .run .noPoll, .wakeup 0 1,
        .run (.poll 1 0), .run .noPoll]).get (by decide)) :=
  poll_times_out [⟨3, 1, 0⟩] (by decide) (by decide) (by decide) (by decide) (Option.some_get _).symm

/-- A wake-up for which nothing is ready: three passes more, the last two without a rest. -/
theorem poll_spins :
    ∃ acts t, exec (step 1000) (init [⟨3, 1, 0⟩] 1000) acts = some t ∧
      Along (step 1000) Unready (init [⟨3, 1, 0⟩] 1000) acts ∧
      t.wakes = 1 ∧ t.passes = 4 ∧ t.spun = true :=
  ⟨[.run (.poll 1 0), .run .noPoll, .run .noPoll, .wakeup 0 1, .run .noPoll,
    .run (.poll 0 0), .run .noPoll, .run .noPoll, .run (.poll 0 0), .run .noPoll, .run .noPoll],
    _, rfl, by decide, rfl, rfl, rfl⟩

/-! ## After an early wake-up -/

/-- `triggered` is set and the wait has not timed out. -/
structure Spinning (nfds : Nat) (s : State) : Prop where
  length : s.fds.length = nfds
  notimeout : s.istimeout = false
  triggered : s.pt.triggered = true
  awake : s.suspended = false
  stopped : s.timer = none
  num : s.num = 0
  going : ∀ r, s.pc ≠ .done r

theorem waitReturn_spinning (hl : s.fds.length = nfds) (hto : s.istimeout = false)
    (ht : s.pt.triggered = true) (ha : s.suspended = false) (hs : s.timer = none) :
    Spinning nfds (waitReturn s) :=
  ⟨hl, by simp [waitReturn, startPass, hto, ht], ht, ha, hs, rfl, fun _ => Pc.noConfusion⟩

/-- The wait does not sleep. -/
theorem pollWaitTimeout_triggered (ht : s.pt.triggered = true) :
    pollWaitTimeout msec s = some (waitReturn s) := by
  simp [pollWaitTimeout, ht]

theorem spinning_step (hi : Spinning nfds s) (hu : Unready s act) (hs : step msec s act = some s') :
    Spinning nfds s' := by
  cases act with
  | run ans =>
    obtain ⟨t, ht, rfl⟩ := Option.map_eq_some_iff.mp hs
    suffices h : Spinning nfds t from
      ⟨h.length, h.notimeout, h.triggered, h.awake, h.stopped, h.num, h.going⟩
    cases hpc : s.pc with
    | scan n =>
      simp only [run, hpc, Option.some.injEq] at ht
      subst ht
      have hsc := scan_scanned hi.length hi.num hpc hu
      refine ⟨hsc.length, hsc.istimeout.trans hi.notimeout, hsc.triggered.trans hi.triggered,
        hsc.suspended.trans hi.awake, hsc.timer.trans hi.stopped, hsc.num, fun r => ?_⟩
      rw [hsc.pc, hi.notimeout]
      split <;> simp
    | wait =>
      simp only [run, hpc, pollWaitTimeout_triggered hi.triggered, Option.some.injEq] at ht
      exact ht ▸ waitReturn_spinning hi.length hi.notimeout hi.triggered hi.awake hi.stopped
    | sleep =>
      simp only [run, hpc, hi.awake, Bool.false_eq_true, if_false, Option.some.injEq] at ht
      exact ht ▸ waitReturn_spinning hi.length hi.notimeout hi.triggered hi.awake hi.stopped
    | done r => exact absurd hpc (hi.going r)
  | wakeup i key =>
    simp only [step, wakeup] at hs
    split at hs
    · cases hs
    · split at hs
      · cases hs
        refine ⟨hi.length, hi.notimeout, rfl, rfl, ?_, hi.num, hi.going⟩
        simp [hi.awake, hi.stopped]
      · cases hs
        exact hi
  | tick =>
    simp only [step, tick, hi.stopped, Option.some.injEq] at hs
    exact hs ▸ hi

/-- The first wake-up, when it comes too early. -/
theorem wakeup_spinning (hi : PollInv msec nfds s) (hd : Delivers s act)
    (hto : s.istimeout = false) (hs : step msec s act = some s') : Spinning nfds s' := by
  cases act with
  | run ans => exact absurd hd id
  | tick => exact absurd hd id
  | wakeup i key =>
    obtain ⟨node, hn, hacc⟩ := hd
    simp only [step, wakeup, Option.mem_def.mp hn, if_pos hacc, Option.some.injEq] at hs
    subst hs
    refine ⟨hi.length, hto, rfl, rfl, ?_, hi.num, fun r hr => ?_⟩
    · cases hi.phase with
      | first _ _ _ awake stopped => simp [awake, stopped]
      | asleep _ _ _ awake => simp [awake]
      | woken _ _ _ awake stopped => simp [awake, stopped]
      | second _ _ awake stopped => simp [awake, stopped]
      | done _ _ awake stopped => simp [awake, stopped]
    · cases hi.phase with
      | first _ _ _ _ _ _ at_ => rcases at_ with ⟨n, hpc⟩ | hpc <;> simp [hpc] at hr
      | asleep _ _ _ _ _ _ _ at_ => simp [at_] at hr
      | woken _ _ _ _ _ _ _ _ at_ => simp [at_] at hr
      | second timeout => simp [timeout] at hto
      | done timeout => simp [timeout] at hto

/-- Every run in which nothing gets ready: it goes as `poll_times_out` says, or spins. -/
theorem inv_or_spinning (fds : List Pollfd) {acts : List Act} (h : 0 < msec)
    (hm : msec < 2147483647) (hu : Along (step msec) Unready (init fds msec) acts)
    (hx : exec (step msec) (init fds msec) acts = some t) :
    PollInv msec fds.length t ∨ Spinning fds.length t := by
  refine hu.inv (I := fun s => PollInv msec fds.length s ∨ Spinning fds.length s)
    (fun s act s' hi ha hs => ?_) hx (.inl (init_inv fds h))
  rcases hi with hi | hi
  · by_cases hd : Delivers s act ∧ s.istimeout = false
    · exact .inr (wakeup_spinning hi hd.1 hd.2 hs)
    · refine .inl (poll_step h hm hi ha (fun hde => ?_) hs)
      exact Bool.not_eq_false _ ▸ fun hto => hd ⟨hde, hto⟩
  · exact .inr (spinning_step hi ha hs)

/-- A wake-up before the time-out: from then on the thread neither sleeps nor returns, whatever
else comes. -/
theorem spins_of_wakeup (fds : List Pollfd) {acts acts' : List Act} (h : 0 < msec)
    (hm : msec < 2147483647) (hu : Along (step msec) Unready (init fds msec) acts)
    (hx : exec (step msec) (init fds msec) acts = some s) (hd : Delivers s act)
    (hto : s.istimeout = false) (hs : step msec s act = some s')
    (hu' : Along (step msec) Unready s' acts') (hx' : exec (step msec) s' acts' = some t) :
    t.suspended = false ∧ ∀ r, t.pc ≠ .done r := by
  have hs' : Spinning fds.length s' := by
    rcases inv_or_spinning fds h hm hu hx with hi | hi
    · exact wakeup_spinning hi hd hto hs
    · cases act with
      | wakeup i key => exact spinning_step hi (show Unready s (.wakeup i key) from trivial) hs
      | run ans => exact absurd hd id
      | tick => exact absurd hd id
  have ht := hu'.inv (fun s act s' hi ha hst => spinning_step hi ha hst) hx' hs'
  exact ⟨ht.awake, ht.going⟩

end Tudu.Poll
