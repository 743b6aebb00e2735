import TuduOS.Kernel.Timer
import Mathlib.Data.Nat.Basic

/-!
# `rt_thread_delay_until` (`thread.c`)

One thread that calls `rt_thread_delay_until(&t, inc)` again and again, and its timer. Of the timer
list only this timer is seen: the tick interrupt runs its timeout function in the first tick in
which it is due (`Kernel/TimerExpiry`). Nothing else resumes the thread.

* `tick` is the caller's variable `*tick`. The call stores the timer's time there before it sleeps,
  and the tick of its return behind `rt_schedule`.
* `delay_until_iff`: the thread is woken at `t + inc`, `t + 2 * inc`, ... just when it makes every
  call in the tick of the last return and runs in the tick in which it is woken.
-/

namespace Tudu.DelayUntil

open Lts Timer

inductive Pc where
  /-- Between two calls. -/
  | running
  /-- Suspended. -/
  | sleeping
  /-- Resumed, and not yet behind `rt_schedule`. -/
  | woken
  /-- In a failed assertion. -/
  | halted
  deriving DecidableEq

/-- `calls`, `busy` and `wokeAt` are not in the source: the calls that returned, the ticks since the
last return, and the tick of the last wake-up. -/
structure State where
  /-- `rt_tick` -/
  now : Tick
  tick : Tick
  threadTimer : RtTimer
  error : Int
  pc : Pc
  calls : Nat
  busy : Nat
  wokeAt : Tick
  deriving DecidableEq

/-- The caller has stored `rt_tick_get()` in its variable. -/
def init (t : Tick) : State where
  now := t
  tick := t
  threadTimer := ⟨false, false, false, 0#32, 0#32⟩
  error := rtEok
  pc := .running
  calls := 0
  busy := 0
  wokeAt := t

/-- `rt_timer_start` of the thread's timer, with its assertion. -/
def startTimer (s : State) : State :=
  if s.threadTimer.initTick < rtTickMaxHalf then
    { s with threadTimer :=
        { s.threadTimer with
          activated := true
          timeoutTick := s.now + s.threadTimer.initTick } }
  else { s with pc := .halted }

/-- `*tick = rt_tick_get()`, and the return. -/
def delayReturn (s : State) : State :=
  { s with tick := s.now, pc := .running, calls := s.calls + 1, busy := 0 }

/-- `rt_thread_delay_until` up to `rt_schedule`, or the whole call. -/
def rtThreadDelayUntil (inc : Tick) (s : State) : State :=
  if s.now - s.tick < inc then
    startTimer
      { s with
        tick := s.now - s.tick + inc
        pc := .sleeping
        threadTimer := { s.threadTimer with activated := false, initTick := s.now - s.tick + inc } }
  else delayReturn s

/-- Behind `rt_schedule`. -/
def rtThreadDelayUntilEnd (s : State) : State :=
  delayReturn { s with error := if s.error = -rtEtimeout then rtEok else s.error }

/-- `rt_thread_timeout`, with its assertion. -/
def rtThreadTimeout (s : State) : State :=
  if s.pc = .sleeping then { s with error := -rtEtimeout, pc := .woken, wokeAt := s.now }
  else { s with pc := .halted }

/-- `rt_timer_check` at the thread's timer. -/
def rtTimerCheck (s : State) : State :=
  if s.threadTimer.activated ∧ s.now - s.threadTimer.timeoutTick < rtTickMaxHalf then
    rtThreadTimeout { s with threadTimer := { s.threadTimer with activated := false } }
  else s

/-- `rt_tick_increase` -/
def rtTickIncrease (s : State) : State :=
  rtTimerCheck { s with now := s.now + 1#32, busy := s.busy + 1 }

inductive Act where
  | tick
  | call
  | ret
  deriving DecidableEq

def step (inc : Tick) (s : State) : Act → Option State
  | .tick => some (rtTickIncrease s)
  | .call => if s.pc = .running then some (rtThreadDelayUntil inc s) else none
  | .ret => if s.pc = .woken then some (rtThreadDelayUntilEnd s) else none

/-! ## The conditions on a step -/

/-- The execution time since the last return is shorter than `inc`. -/
def InTime (inc : Tick) (s : State) : Act → Prop
  | .call => s.busy < inc.toNat
  | _ => True

/-- A call is made in the tick of the last return, and the thread runs in the tick in which it is
woken. -/
def Prompt (s : State) : Act → Prop
  | .call => s.now = s.tick
  | .ret => s.now = s.wokeAt
  | .tick => True

instance (inc : Tick) (s : State) : ∀ act, Decidable (InTime inc s act)
  | .call => inferInstanceAs (Decidable (s.busy < inc.toNat))
  | .ret => inferInstanceAs (Decidable True)
  | .tick => inferInstanceAs (Decidable True)

instance (s : State) : ∀ act, Decidable (Prompt s act)
  | .call => inferInstanceAs (Decidable (s.now = s.tick))
  | .ret => inferInstanceAs (Decidable (s.now = s.wokeAt))
  | .tick => inferInstanceAs (Decidable True)

/-- `t + k * inc` modulo 2^32 -/
def goal (t inc : Tick) (k : Nat) : Tick := t + BitVec.ofNat 32 k * inc

/-- What the claimed schedule says of a state. -/
def OnTime (t inc : Tick) (s : State) : Prop :=
  match s.pc with
  | .running => s.tick = goal t inc s.calls
  | .sleeping => s.threadTimer.timeoutTick = goal t inc (s.calls + 1)
  | .woken => s.wokeAt = goal t inc (s.calls + 1)
  | .halted => False

variable {t inc : Tick} {s s' : State} {act : Act}

theorem goal_succ (k : Nat) : goal t inc (k + 1) = goal t inc k + inc := by
  have hk : BitVec.ofNat 32 (k + 1) = BitVec.ofNat 32 k + 1#32 := BitVec.ofNat_add k 1
  rw [goal, goal, hk, BitVec.add_mul, BitVec.one_mul, BitVec.add_assoc]

/-! ## The invariant -/

/-- The state behind steps that were all prompt. -/
structure DelayInv (t inc : Tick) (s : State) : Prop where
  onTime : OnTime t inc s
  /-- The last return was `busy` ticks ago. -/
  busy : s.pc = .running → s.now - s.tick = BitVec.ofNat 32 s.busy
  stopped : s.pc ≠ .sleeping → s.threadTimer.activated = false
  started : s.pc = .sleeping → s.threadTimer.activated = true
  /-- The timer is not due yet. -/
  ahead : s.pc = .sleeping → s.threadTimer.timeoutTick - s.now ≠ 0 ∧
    s.threadTimer.timeoutTick - s.now < rtTickMaxHalf

theorem init_inv (t inc : Tick) : DelayInv t inc (init t) where
  onTime := by
    show t = t + BitVec.ofNat 32 0 * inc
    simp
  busy := fun _ => BitVec.sub_self t
  stopped := fun _ => rfl
  started := Pc.noConfusion
  ahead := Pc.noConfusion

/-- A timer that is not due is due in the next tick just when that is its time. -/
theorem due_next {timeout now : Tick} (h0 : timeout - now ≠ 0) (hlt : timeout - now < rtTickMaxHalf) :
    now + 1#32 - timeout < rtTickMaxHalf ↔ timeout = now + 1#32 := by
  have hd : (timeout - now).toNat ≠ 0 := fun h => h0 (BitVec.eq_of_toNat_eq h)
  rw [BitVec.lt_def, rtTickMaxHalf] at hlt ⊢
  rw [← BitVec.toNat_inj]
  simp only [BitVec.toNat_sub, BitVec.toNat_add, BitVec.toNat_ofNat, Nat.reducePow,
    Nat.reduceMod] at hd hlt ⊢
  have := timeout.isLt
  have := now.isLt
  omega

theorem tick_step (hi : DelayInv t inc s) : DelayInv t inc (rtTickIncrease s) := by
  unfold rtTickIncrease rtTimerCheck
  by_cases hp : s.pc = .sleeping
  · obtain ⟨h0, hlt⟩ := hi.ahead hp
    have hto := hi.onTime
    simp only [OnTime, hp] at hto
    by_cases hdue : s.now + 1#32 - s.threadTimer.timeoutTick < rtTickMaxHalf
    · have heq := (due_next h0 hlt).mp hdue
      rw [if_pos ⟨hi.started hp, hdue⟩, rtThreadTimeout, if_pos hp]
      exact ⟨heq.symm.trans hto, Pc.noConfusion, fun _ => rfl, Pc.noConfusion, Pc.noConfusion⟩
    · have hne : s.threadTimer.timeoutTick ≠ s.now + 1#32 := fun he =>
        hdue ((due_next h0 hlt).mpr he)
      rw [if_neg fun h => hdue h.2]
      refine ⟨hi.onTime, fun hr => ?_, fun hn => absurd hp hn, fun _ => hi.started hp, fun _ => ?_⟩
      · exact absurd (hp.symm.trans hr) Pc.noConfusion
      · have hnz : s.threadTimer.timeoutTick - (s.now + 1#32) ≠ 0 := fun he =>
          hne (BitVec.sub_eq_iff_eq_add.mp he |>.trans (BitVec.zero_add _))
        refine ⟨hnz, ?_⟩
        have hd : (s.threadTimer.timeoutTick - s.now).toNat ≠ 0 :=
          fun h => h0 (BitVec.eq_of_toNat_eq h)
        simp only [BitVec.lt_def, rtTickMaxHalf, BitVec.toNat_sub, BitVec.toNat_add,
          BitVec.toNat_ofNat, Nat.reducePow, Nat.reduceMod] at hd hlt ⊢
        omega
  · rw [if_neg fun h => absurd (h.1.symm.trans (hi.stopped hp)) (by decide)]
    refine ⟨hi.onTime, fun hr => ?_, hi.stopped, fun h => absurd h hp, fun h => absurd h hp⟩
    have hb := hi.busy hr
    show s.now + 1#32 - s.tick = BitVec.ofNat 32 (s.busy + 1)
    rw [BitVec.ofNat_add, ← hb]
    bv_omega

/-- The first branch of the call. -/
theorem rtThreadDelayUntil_inTime (hi : DelayInv t inc s) (hp : s.pc = .running)
    (ht : InTime inc s .call) :
    (s.now - s.tick).toNat = s.busy ∧ rtThreadDelayUntil inc s = startTimer
      { s with
        tick := s.now - s.tick + inc
        pc := .sleeping
        threadTimer := { s.threadTimer with activated := false, initTick := s.now - s.tick + inc } } := by
  have hb : (s.now - s.tick).toNat = s.busy := by
    rw [hi.busy hp, BitVec.toNat_ofNat, Nat.mod_eq_of_lt (Nat.lt_trans ht inc.isLt)]
  refine ⟨hb, ?_⟩
  rw [rtThreadDelayUntil, if_pos (by rw [BitVec.lt_def, hb]; exact ht)]

/-- A call in the tick of the last return sets the timer to `inc`. -/
theorem call_prompt (h0 : inc ≠ 0) (hinc : inc < rtTickMaxHalf) (hi : DelayInv t inc s)
    (hp : s.pc = .running) (ht : InTime inc s .call) (hc : s.now = s.tick) :
    DelayInv t inc (rtThreadDelayUntil inc s) := by
  have hd : s.now - s.tick + inc = inc := by
    rw [hc, BitVec.sub_self, BitVec.zero_add]
  have hto := hi.onTime
  simp only [OnTime, hp] at hto
  rw [(rtThreadDelayUntil_inTime hi hp ht).2, hd, startTimer, if_pos hinc]
  have ha : s.now + inc - s.now = inc := by
    rw [BitVec.add_comm, BitVec.add_sub_cancel]
  refine ⟨?_, Pc.noConfusion, fun h => absurd rfl h, fun _ => rfl, fun _ => ?_⟩
  · show s.now + inc = goal t inc (s.calls + 1)
    rw [goal_succ, ← hto, hc]
  · exact ha.symm ▸ ⟨h0, hinc⟩

/-- Each tick between the last return and the call is counted twice. -/
theorem call_late (hinc : inc < rtTickMaxHalf) (hi : DelayInv t inc s) (hp : s.pc = .running)
    (ht : InTime inc s .call) (hc : s.now ≠ s.tick) : ¬OnTime t inc (rtThreadDelayUntil inc s) := by
  obtain ⟨hb, heq⟩ := rtThreadDelayUntil_inTime hi hp ht
  have hto := hi.onTime
  simp only [OnTime, hp] at hto
  rw [heq, startTimer]
  split
  · show ¬s.now + (s.now - s.tick + inc) = goal t inc (s.calls + 1)
    rw [goal_succ, ← hto]
    intro he
    -- the sum is `inc` and twice the execution time, which is below 2^32
    have hne : (s.now - s.tick).toNat ≠ 0 := fun h =>
      hc (BitVec.sub_eq_iff_eq_add.mp (BitVec.eq_of_toNat_eq h) |>.trans (BitVec.zero_add _))
    have hlt : (s.now - s.tick).toNat < inc.toNat := hb ▸ ht
    rw [BitVec.lt_def, rtTickMaxHalf] at hinc
    rw [← BitVec.toNat_inj] at he
    simp only [BitVec.toNat_sub, BitVec.toNat_add, BitVec.toNat_ofNat, Nat.reducePow,
      Nat.reduceMod] at he hne hlt hinc
    have := s.now.isLt
    have := s.tick.isLt
    omega
  · exact id

/-- A return stores the tick in which the thread runs again. -/
theorem ret_iff (hi : DelayInv t inc s) (hp : s.pc = .woken) :
    OnTime t inc (rtThreadDelayUntilEnd s) ↔ s.now = s.wokeAt := by
  have hto := hi.onTime
  simp only [OnTime, hp] at hto
  show s.now = goal t inc (s.calls + 1) ↔ _
  rw [hto]

theorem delay_step (h0 : inc ≠ 0) (hinc : inc < rtTickMaxHalf) (hi : DelayInv t inc s)
    (ht : InTime inc s act) (hc : Prompt s act) (hs : step inc s act = some s') :
    DelayInv t inc s' := by
  cases act with
  | tick =>
    cases hs
    exact tick_step hi
  | call =>
    simp only [step] at hs
    split at hs
    · cases hs
      exact call_prompt h0 hinc hi ‹_› ht hc
    · cases hs
  | ret =>
    simp only [step] at hs
    split at hs
    · cases hs
      have hp : s.pc = .woken := ‹_›
      exact ⟨(ret_iff hi hp).mpr hc, fun _ => BitVec.sub_self _,
        fun _ => hi.stopped (by rw [hp]; decide), Pc.noConfusion, Pc.noConfusion⟩
    · cases hs

theorem late_step (hinc : inc < rtTickMaxHalf) (hi : DelayInv t inc s) (ht : InTime inc s act)
    (hc : ¬Prompt s act) (hs : step inc s act = some s') : ¬OnTime t inc s' := by
  cases act with
  | tick => exact absurd trivial hc
  | call =>
    simp only [step] at hs
    split at hs
    · cases hs
      exact call_late hinc hi ‹_› ht hc
    · cases hs
  | ret =>
    simp only [step] at hs
    split at hs
    · cases hs
      exact fun h => hc ((ret_iff hi ‹_›).mp h)
    · cases hs

/-- In every run with execution times below `inc`. -/
theorem delay_until_iff (t inc : Tick) (h0 : inc ≠ 0) (hinc : inc < rtTickMaxHalf) {acts : List Act}
    (hd : Along (step inc) (InTime inc) (init t) acts) (hx : exec (step inc) (init t) acts = some s) :
    Along (step inc) Prompt (init t) acts ↔ Visits (step inc) (OnTime t inc) (init t) acts :=
  along_iff_visits_along (fun _ hi => hi.onTime)
    (fun _ _ _ hi ht hc hs => delay_step h0 hinc hi ht hc hs)
    (fun _ _ _ hi ht hc hs => late_step hinc hi ht hc hs) hd hx (init_inv t inc)

/-- Two periods of two ticks over the end of the counter. -/
theorem delay_until_two : Visits (step 2#32) (OnTime 0xfffffffe#32 2#32) (init 0xfffffffe#32)
    [.call, .tick, .tick, .ret, .call, .tick, .tick, .ret] :=
  (delay_until_iff 0xfffffffe#32 2#32 (by decide) (by decide) (by decide)
    (Option.some_get (by decide)).symm).mp (by decide)

/-- One tick of execution and a period of ten: the thread is woken two ticks late. -/
theorem delay_until_drift :
    ∃ s, exec (step 10#32) (init 0#32) (.tick :: .call :: List.replicate 11 .tick) = some s ∧
      Along (step 10#32) (InTime 10#32) (init 0#32) (.tick :: .call :: List.replicate 11 .tick) ∧
      s.pc = .woken ∧ s.wokeAt = 12#32 ∧ goal 0#32 10#32 1 = 10#32 :=
  ⟨_, rfl, by decide, by decide, by decide, by decide⟩

end Tudu.DelayUntil
