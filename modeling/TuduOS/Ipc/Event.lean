import TuduOS.Kernel.Wait
import TuduOS.Lib.BitSet
import TuduOS.Lib.Lts
import TuduOS.Lib.Serve

/-!
# Events (`rt_event_send`, `rt_event_recv`, `rt_event_control` of `ipc.c`)

Any number of threads and events. A section with interrupts disabled is one step, and any ready
thread may run between two steps. A thread that waits for the event `e` is at `recv e` until it
returns from `rt_event_recv`. `rt_event_send` may be called by an interrupt.

* `wake`, `sendOne`: the body of the loop of `rt_event_send` for one listed thread; `rtEventSend`
  goes through the list as it was at the start, since only the thread of the round leaves it.
* An `RT_ASSERT` that fails has no next state.

**The property**. No thread on the list is satisfied by the set of the event (`NoneSatisfied`), and
a send wakes those that are satisfied in the order of the list, each after what the ones before it
cleared (`SendServes`). What a thread wants is said with sets of bits (`Wants`, `clear`).
-/

namespace Tudu.Event

open Kern Lts BitSet Serve

def rtEventFlagAnd : BitVec 8 := 0x01
def rtEventFlagOr : BitVec 8 := 0x02
def rtEventFlagClear : BitVec 8 := 0x04

structure RtEvent where
  set : BitVec 32
  flag : Nat
  deriving DecidableEq

inductive Pc where
  | user
  /-- On its way through `rt_schedule` in `rt_event_recv(e)`. -/
  | recv (e : Nat)
  /-- `rt_event_recv` is about to return `r`, with `*recved`. -/
  | done (r : Int) (recved : BitVec 32)
  deriving DecidableEq

structure EventSys where
  kern : Kern
  event : Nat → RtEvent
  /-- The field `event_set` of each thread. -/
  eventSet : Nat → BitVec 32
  /-- The field `event_info` of each thread. -/
  eventInfo : Nat → BitVec 8
  pc : Nat → Pc

namespace EventSys

def setKern (s : EventSys) (k : Kern) : EventSys := { s with kern := k }

def setSet (s : EventSys) (e : Nat) (x : BitVec 32) : EventSys :=
  { s with event := Function.update s.event e { s.event e with set := x } }

def setEventSet (s : EventSys) (t : Nat) (x : BitVec 32) : EventSys :=
  { s with eventSet := Function.update s.eventSet t x }

def setEventInfo (s : EventSys) (t : Nat) (x : BitVec 8) : EventSys :=
  { s with eventInfo := Function.update s.eventInfo t x }

def goto (s : EventSys) (t : Nat) (p : Pc) : EventSys := { s with pc := Function.update s.pc t p }

end EventSys

open EventSys

/-- The thread `u`, whose condition is satisfied, is resumed. -/
def wake (s : EventSys) (e u : Nat) : EventSys :=
  let s := if s.eventInfo u &&& rtEventFlagClear ≠ 0 then
    s.setSet e ((s.event e).set &&& ~~~s.eventSet u) else s
  s.setKern (s.kern.rtThreadResume u)

/-- One round of the loop of `rt_event_send`. -/
def sendOne (e : Nat) (s : EventSys) (u : Nat) : EventSys :=
  if s.eventInfo u &&& rtEventFlagAnd ≠ 0 then
    if s.eventSet u &&& (s.event e).set = s.eventSet u then wake s e u else s
  else if s.eventInfo u &&& rtEventFlagOr ≠ 0 then
    if s.eventSet u &&& (s.event e).set ≠ 0 then
      wake (s.setEventSet u (s.eventSet u &&& (s.event e).set)) e u
    else s
  else s

def rtEventSend (s : EventSys) (e : Nat) (set : BitVec 32) : EventSys :=
  if set = 0 then s
  else (s.kern.suspendThread e).foldl (sendOne e) (s.setSet e ((s.event e).set ||| set))

/-- The test of `rt_event_recv`; `none`: `RT_ASSERT(0)`. -/
def recvTest (x set : BitVec 32) (option : BitVec 8) : Option Bool :=
  if option &&& rtEventFlagAnd ≠ 0 then some (x &&& set = set)
  else if option &&& rtEventFlagOr ≠ 0 then some (x &&& set ≠ 0)
  else none

/-- `rt_event_recv`, called by the current thread. -/
def rtEventRecv (s : EventSys) (e : Nat) (set : BitVec 32) (option : BitVec 8) (timeout : Int) :
    Option EventSys :=
  let t := s.kern.current
  if set = 0 then some (s.goto t (.done (-rtError) 0))
  else
    let k := s.kern.setError t rtEok
    let x := (s.event e).set
    match recvTest x set option with
    | none => none
    | some true =>
      let s := if option &&& rtEventFlagClear ≠ 0 then s.setSet e (x &&& ~~~set) else s
      some ((s.setKern k).goto t (.done rtEok (x &&& set)))
    | some false =>
      if timeout = 0 then
        some ((s.setKern (k.setError t (-rtEtimeout))).goto t (.done (-rtEtimeout) 0))
      else
        (s.kern.waitOn e (s.event e).flag timeout).map fun k =>
          (((s.setEventSet t set).setEventInfo t option).setKern k).goto t (.recv e)

/-- `rt_event_recv` behind `rt_schedule`. -/
def rtEventRecvEnd (s : EventSys) : EventSys :=
  let t := s.kern.current
  if (s.kern.thread t).error ≠ rtEok then s.goto t (.done (s.kern.thread t).error 0)
  else s.goto t (.done (s.kern.thread t).error (s.eventSet t))

/-- `rt_event_control(e, RT_IPC_CMD_RESET)` -/
def rtEventReset (s : EventSys) (e : Nat) : EventSys :=
  (s.setKern (s.kern.resumeAll e)).setSet e 0

inductive EventAct where
  /-- An interrupt, or `rt_schedule`, switches to the ready thread `u`. -/
  | preempt (u : Nat)
  /-- The current thread or an interrupt calls `rt_event_send(e, set)`. -/
  | send (e : Nat) (set : BitVec 32)
  /-- The current thread calls `rt_event_recv(e, set, option, timeout)`. -/
  | recv (e : Nat) (set : BitVec 32) (option : BitVec 8) (timeout : Int)
  /-- The current thread, back from `rt_schedule`, ends its `rt_event_recv`. -/
  | recvEnd
  /-- `rt_event_recv` returns. -/
  | ret
  /-- The current thread or an interrupt calls `rt_event_control(e, RT_IPC_CMD_RESET)`. -/
  | reset (e : Nat)
  /-- The timer of the thread `u` expires. -/
  | timeout (u : Nat)
  deriving DecidableEq

def eventStep (s : EventSys) : EventAct → Option EventSys
  | .preempt u =>
    if (s.kern.thread u).stat = .ready then some (s.setKern { s.kern with current := u }) else none
  | .send e set => some (rtEventSend s e set)
  | .recv e set option timeout =>
    match s.pc s.kern.current with
    | .user => rtEventRecv s e set option timeout
    | _ => none
  | .recvEnd =>
    match s.pc s.kern.current with
    | .recv _ =>
      if (s.kern.thread s.kern.current).stat = .ready then some (rtEventRecvEnd s) else none
    | _ => none
  | .ret =>
    match s.pc s.kern.current with
    | .done _ _ => some (s.goto s.kern.current .user)
    | _ => none
  | .reset e => some (rtEventReset s e)
  | .timeout u => (s.kern.rtThreadTimeout u).map s.setKern

/-- `rt_event_init` of every event. -/
def eventInit (flag priority : Nat → Nat) : EventSys where
  kern := ⟨0, fun t => ⟨.ready, rtEok, priority t, false, false, false⟩, fun _ => []⟩
  event := fun e => ⟨0, flag e⟩
  eventSet := fun _ => 0
  eventInfo := fun _ => 0
  pc := fun _ => .user

/-! ## The property -/

/-- What the thread `u` waits for is in the set `a`: all its bits, or one of them. -/
def Wants (s : EventSys) (u : Nat) (a : Set Nat) : Prop :=
  if s.eventInfo u &&& rtEventFlagAnd ≠ 0 then bits (s.eventSet u) ⊆ a
  else s.eventInfo u &&& rtEventFlagOr ≠ 0 ∧ (bits (s.eventSet u) ∩ a).Nonempty

/-- What the thread `u` leaves of the set `a` when it is woken. -/
def clear (s : EventSys) (u : Nat) (a : Set Nat) : Set Nat :=
  if s.eventInfo u &&& rtEventFlagClear ≠ 0 then a \ bits (s.eventSet u) else a

/-- The property of a state: no thread on the list of an event is satisfied by its set. -/
def NoneSatisfied (s : EventSys) : Prop :=
  ∀ e, ∀ u ∈ s.kern.suspendThread e, ¬ Wants s u (bits (s.event e).set)

/-- The property of a send: with the new bits in the set, the threads of the list are served in
order. Those and no others are ready and off the list, and the set is what they leave. -/
def SendServes (s s' : EventSys) (e : Nat) (set : BitVec 32) : Prop :=
  ∃ woken, Served (Wants s) (clear s) (s.kern.suspendThread e) (bits (s.event e).set ∪ bits set) woken
      (bits (s'.event e).set) ∧
    s'.kern.suspendThread e = (s.kern.suspendThread e).filter (· ∉ woken) ∧
    (∀ u ∈ woken, (s'.kern.thread u).stat = .ready) ∧
    ∀ u, u ∉ woken → s'.kern.thread u = s.kern.thread u

/-! ## The invariant -/

/-- A thread on a list is suspended in `rt_event_recv` of that event, and on the list once. -/
structure ListInv (s : EventSys) : Prop where
  on : ∀ u e, u ∈ s.kern.suspendThread e → s.pc u = .recv e ∧ (s.kern.thread u).stat = .suspend
  nodup : ∀ e, (s.kern.suspendThread e).Nodup

variable {s s' : EventSys} {k : Kern} {act : EventAct} {t u e q : Nat} {set : BitVec 32}
  {option : BitVec 8} {timeout : Int}

theorem Wants.mono {a b : Set Nat} (h : Wants s u a) (hab : a ⊆ b) : Wants s u b := by
  unfold Wants at h ⊢
  split at h
  · rw [if_pos ‹_›]
    exact h.trans hab
  · rw [if_neg ‹_›]
    exact ⟨h.1, h.2.mono (Set.inter_subset_inter_right _ hab)⟩

theorem clear_subset (s : EventSys) (u : Nat) (a : Set Nat) : clear s u a ⊆ a := by
  unfold clear
  split
  · exact fun i hi => hi.1
  · exact subset_rfl

/-- The tests of the code are those on sets. -/
theorem wants_iff (s : EventSys) (u : Nat) (x : BitVec 32) : Wants s u (bits x) ↔
    if s.eventInfo u &&& rtEventFlagAnd ≠ 0 then s.eventSet u &&& x = s.eventSet u
    else s.eventInfo u &&& rtEventFlagOr ≠ 0 ∧ s.eventSet u &&& x ≠ 0 := by
  unfold Wants
  split
  · exact and_eq_left_iff.symm
  · rw [and_ne_zero_iff (x := s.eventSet u)]

/-! ## One round of a send -/

/-- What a round does for a thread that is satisfied. -/
structure Woken (s s' : EventSys) (e u : Nat) : Prop where
  kern : s'.kern = s.kern.rtThreadResume u
  set : bits (s'.event e).set = clear s u (bits (s.event e).set)
  other : ∀ q, q ≠ e → s'.event q = s.event q
  eventSet : ∀ v, v ≠ u → s'.eventSet v = s.eventSet v
  eventInfo : s'.eventInfo = s.eventInfo
  pc : s'.pc = s.pc

/-- To clear a saved set is to clear the set that was waited for. -/
theorem wake_woken (x : BitVec 32) (hx : bits x ∩ bits (s.event e).set =
    bits (s.eventSet u) ∩ bits (s.event e).set) : Woken s (wake (s.setEventSet u x) e u) e u := by
  have hdiff : bits ((s.event e).set &&& ~~~x) =
      bits (s.event e).set \ bits (s.eventSet u) := by
    rw [bits_and_not]
    ext i
    have hi : i ∈ bits x ∩ bits (s.event e).set ↔
        i ∈ bits (s.eventSet u) ∩ bits (s.event e).set := by rw [hx]
    constructor
    · rintro ⟨hset, hno⟩
      exact ⟨hset, fun hin => hno (hi.mpr ⟨hin, hset⟩).1⟩
    · rintro ⟨hset, hno⟩
      exact ⟨hset, fun hin => hno (hi.mp ⟨hin, hset⟩).1⟩
  have hself : (s.setEventSet u x).eventSet u = x := Function.update_self ..
  unfold wake
  by_cases hc : s.eventInfo u &&& rtEventFlagClear ≠ 0
  · rw [if_pos (show (s.setEventSet u x).eventInfo u &&& rtEventFlagClear ≠ 0 from hc), hself]
    refine ⟨rfl, ?_, fun q hq => Function.update_of_ne hq .., fun v hv =>
      Function.update_of_ne hv .., rfl, rfl⟩
    show bits (Function.update s.event e _ e).set = _
    rw [Function.update_self, clear, if_pos hc]
    exact hdiff
  · rw [if_neg (show ¬ (s.setEventSet u x).eventInfo u &&& rtEventFlagClear ≠ 0 from hc)]
    refine ⟨rfl, ?_, fun _ _ => rfl, fun v hv => Function.update_of_ne hv .., rfl, rfl⟩
    rw [clear, if_neg hc]
    rfl

theorem setEventSet_self (s : EventSys) (u : Nat) : s.setEventSet u (s.eventSet u) = s := by
  unfold setEventSet
  rw [Function.update_eq_self]

/-- A round wakes a thread that is satisfied, and does nothing for another one. -/
theorem sendOne_cases (s : EventSys) (e u : Nat) :
    (Wants s u (bits (s.event e).set) ∧ Woken s (sendOne e s u) e u) ∨
      (¬ Wants s u (bits (s.event e).set) ∧ sendOne e s u = s) := by
  rw [wants_iff]
  unfold sendOne
  by_cases hand : s.eventInfo u &&& rtEventFlagAnd ≠ 0
  · rw [if_pos hand, if_pos hand]
    by_cases hw : s.eventSet u &&& (s.event e).set = s.eventSet u
    · rw [if_pos hw]
      have h := wake_woken (s := s) (e := e) (u := u) (s.eventSet u) rfl
      rw [setEventSet_self] at h
      exact .inl ⟨hw, h⟩
    · rw [if_neg hw]
      exact .inr ⟨hw, rfl⟩
  rw [if_neg hand, if_neg hand]
  by_cases hor : s.eventInfo u &&& rtEventFlagOr ≠ 0
  · rw [if_pos hor]
    by_cases hw : s.eventSet u &&& (s.event e).set ≠ 0
    · rw [if_pos hw]
      refine .inl ⟨⟨hor, hw⟩, wake_woken _ ?_⟩
      rw [bits_and, Set.inter_assoc, Set.inter_self]
    · rw [if_neg hw]
      exact .inr ⟨fun h => hw h.2, rfl⟩
  · rw [if_neg hor]
    exact .inr ⟨fun h => hor h.1, rfl⟩

/-! ## The loop of a send -/

theorem rtThreadResume_suspended (hs : (k.thread u).stat = .suspend) :
    k.rtThreadResume u = k.unlinkReady u := if_pos hs

/-- What the loop does with the threads `us`, of which it wakes the threads `woken`. -/
structure Sent (s s' : EventSys) (e : Nat) (us woken : List Nat) : Prop where
  served : Served (Wants s) (clear s) us (bits (s.event e).set) woken (bits (s'.event e).set)
  list : ∀ q, s'.kern.suspendThread q = (s.kern.suspendThread q).filter (· ∉ woken)
  ready : ∀ v ∈ woken, (s'.kern.thread v).stat = .ready
  thread : ∀ v, v ∉ woken → s'.kern.thread v = s.kern.thread v
  eventSet : ∀ v, v ∉ woken → s'.eventSet v = s.eventSet v
  eventInfo : s'.eventInfo = s.eventInfo
  other : ∀ q, q ≠ e → s'.event q = s.event q
  pc : s'.pc = s.pc

theorem Wants.congr (hs : s'.eventSet u = s.eventSet u) (hi : s'.eventInfo u = s.eventInfo u)
    (a : Set Nat) : Wants s' u a ↔ Wants s u a := by
  unfold Wants
  rw [hs, hi]

theorem clear_congr (hs : s'.eventSet u = s.eventSet u) (hi : s'.eventInfo u = s.eventInfo u)
    (a : Set Nat) : clear s' u a = clear s u a := by
  unfold clear
  rw [hs, hi]

/-- The first thread of the rest is woken, and the loop goes on. -/
theorem Sent.serve {s1 : EventSys} {us woken : List Nat} (hw : Wants s u (bits (s.event e).set))
    (h1 : Woken s s1 e u) (hsus : (s.kern.thread u).stat = .suspend) (hu : u ∉ us)
    (h : Sent s1 s' e us woken) : Sent s s' e (u :: us) (u :: woken) := by
  have hk := h1.kern
  rw [rtThreadResume_suspended hsus] at hk
  have huw : u ∉ woken := fun hm => hu (h.served.sublist.mem hm)
  have hne : ∀ v ∈ us, v ≠ u := fun v hv => by
    rintro rfl
    exact hu hv
  refine ⟨.serve hw ?_, fun q => ?_, fun v hv => ?_, fun v hv => ?_, fun v hv => ?_, ?_, fun q hq => ?_,
    h.pc.trans h1.pc⟩
  · rw [← h1.set]
    refine h.served.congr (fun v hv a => ?_) fun v hv a => ?_
    · exact (Wants.congr (h1.eventSet v (hne v hv)) (congrFun h1.eventInfo v) a).symm
    · exact (clear_congr (h1.eventSet v (hne v hv)) (congrFun h1.eventInfo v) a).symm
  · rw [h.list, hk]
    show ((s.kern.suspendThread q).filter (· ≠ u)).filter (· ∉ woken) = _
    rw [List.filter_filter]
    apply List.filter_congr
    intro v _
    simp only [List.mem_cons, not_or, ne_eq, Bool.decide_and]
    exact Bool.and_comm ..
  · rcases List.mem_cons.mp hv with rfl | hv
    · rw [h.thread v huw, hk, unlinkReady_thread, if_pos rfl]
    · exact h.ready v hv
  · rw [List.mem_cons, not_or] at hv
    rw [h.thread v hv.2, hk, unlinkReady_thread, if_neg hv.1]
  · rw [List.mem_cons, not_or] at hv
    exact (h.eventSet v hv.2).trans (h1.eventSet v hv.1)
  · exact h.eventInfo.trans h1.eventInfo
  · exact (h.other q hq).trans (h1.other q hq)

theorem sendLoop_sent (us : List Nat) (s : EventSys) (hn : us.Nodup)
    (hsus : ∀ u ∈ us, (s.kern.thread u).stat = .suspend) :
    ∃ woken, Sent s (us.foldl (sendOne e) s) e us woken := by
  induction us generalizing s with
  | nil =>
    exact ⟨[], .nil _, fun q => by simp, fun v hv => absurd hv List.not_mem_nil, fun _ _ => rfl,
      fun _ _ => rfl, rfl, fun _ _ => rfl, rfl⟩
  | cons u us ih =>
    obtain ⟨hu, hn⟩ := List.nodup_cons.mp hn
    have hsu := hsus u List.mem_cons_self
    rw [List.foldl_cons]
    rcases sendOne_cases s e u with ⟨hw, h1⟩ | ⟨hw, h1⟩
    · -- the threads behind `u` are suspended as before
      have hsus₁ : ∀ v ∈ us, ((sendOne e s u).kern.thread v).stat = .suspend := by
        intro v hv
        have hvu : v ≠ u := by
          rintro rfl
          exact hu hv
        rw [h1.kern, rtThreadResume_suspended hsu, unlinkReady_thread, if_neg hvu]
        exact hsus v (List.mem_cons_of_mem _ hv)
      obtain ⟨woken, h⟩ := ih (sendOne e s u) hn hsus₁
      exact ⟨u :: woken, h.serve hw h1 hsu hu⟩
    · rw [h1]
      obtain ⟨woken, h⟩ := ih s hn fun v hv => hsus v (List.mem_cons_of_mem _ hv)
      exact ⟨woken, .pass hw h.served, h.list, h.ready, h.thread, h.eventSet, h.eventInfo, h.other,
        h.pc⟩

/-! ## The steps -/

theorem ListInv.mono (h : ListInv s) (hpc : s'.pc = s.pc)
    (hsub : ∀ q, (s'.kern.suspendThread q).Sublist (s.kern.suspendThread q))
    (hthr : ∀ u q, u ∈ s'.kern.suspendThread q → (s'.kern.thread u).stat = (s.kern.thread u).stat) :
    ListInv s' := by
  refine ⟨fun u q hu => ?_, fun q => (h.nodup q).sublist (hsub q)⟩
  rw [hpc, hthr u q hu]
  exact h.on u q ((hsub q).mem hu)

theorem NoneSatisfied.mono (h : NoneSatisfied s)
    (hsub : ∀ q, (s'.kern.suspendThread q).Sublist (s.kern.suspendThread q))
    (hset : ∀ q, bits (s'.event q).set ⊆ bits (s.event q).set)
    (hthr : ∀ u q, u ∈ s'.kern.suspendThread q →
      s'.eventSet u = s.eventSet u ∧ s'.eventInfo u = s.eventInfo u) : NoneSatisfied s' := by
  intro q u hu hw
  obtain ⟨hs, hi⟩ := hthr u q hu
  refine h q u ((hsub q).mem hu) ?_
  exact ((Wants.congr hs hi _).mp hw).mono (hset q)

/-- A send keeps the invariant and serves the threads of the list. -/
theorem send_keeps (h : NoneSatisfied s) (hi : ListInv s) (e : Nat) (set : BitVec 32) :
    NoneSatisfied (rtEventSend s e set) ∧ ListInv (rtEventSend s e set) ∧
      (set ≠ 0 → SendServes s (rtEventSend s e set) e set) := by
  unfold rtEventSend
  by_cases h0 : set = 0
  · rw [if_pos h0]
    exact ⟨h, hi, fun hne => absurd h0 hne⟩
  rw [if_neg h0]
  obtain ⟨woken, hsent⟩ := sendLoop_sent (e := e) (s.kern.suspendThread e)
    (s.setSet e ((s.event e).set ||| set)) (hi.nodup e) fun u hu => (hi.on u e hu).2
  have hset : bits ((s.setSet e ((s.event e).set ||| set)).event e).set =
      bits (s.event e).set ∪ bits set := by
    show bits (Function.update s.event e _ e).set = _
    rw [Function.update_self]
    exact bits_or
  have hserved : Served (Wants s) (clear s) (s.kern.suspendThread e)
      (bits (s.event e).set ∪ bits set) woken _ := hset ▸ hsent.served
  have hleft : ∀ u q, u ∈ (List.foldl (sendOne e) (s.setSet e ((s.event e).set ||| set))
      (s.kern.suspendThread e)).kern.suspendThread q → u ∈ s.kern.suspendThread q ∧ u ∉ woken := by
    intro u q hu
    rw [hsent.list, List.mem_filter] at hu
    exact ⟨hu.1, of_decide_eq_true hu.2⟩
  have hsub : ∀ q, ((List.foldl (sendOne e) (s.setSet e ((s.event e).set ||| set))
      (s.kern.suspendThread e)).kern.suspendThread q).Sublist (s.kern.suspendThread q) := by
    intro q
    rw [hsent.list]
    exact List.filter_sublist
  refine ⟨fun q u hu hw => ?_, ?_, fun _ => ?_⟩
  · obtain ⟨hmem, huw⟩ := hleft u q hu
    have hw' := (Wants.congr (hsent.eventSet u huw) (congrFun hsent.eventInfo u) _).mp hw
    by_cases hq : q = e
    · subst hq
      have hmono : ∀ v a b, a ≤ b → Wants s v a → Wants s v b := fun v a b hab hv =>
        Wants.mono hv hab
      exact hserved.unsat hmono (clear_subset s) hmem huw hw'
    · have hev := hsent.other q hq
      rw [hev] at hw'
      refine h q u hmem ?_
      have hself : (s.setSet e ((s.event e).set ||| set)).event q = s.event q :=
        Function.update_of_ne hq ..
      rwa [hself] at hw'
  · exact hi.mono hsent.pc hsub fun u q hu => congrArg Thread.stat (hsent.thread u (hleft u q hu).2)
  · exact ⟨woken, hserved, hsent.list e, hsent.ready, hsent.thread⟩

/-- A thread outside `rt_event_recv`, or that runs, is on no list. -/
theorem ListInv.off (h : ListInv s) (ht : s.pc t ≠ .recv q ∨ (s.kern.thread t).stat = .ready) :
    t ∉ s.kern.suspendThread q := by
  intro hq
  obtain ⟨hp, hs⟩ := h.on t q hq
  rcases ht with ht | ht
  · exact ht hp
  · rw [hs] at ht
    cases ht

/-- A step of a thread that is on no list, without a wait. -/
theorem ListInv.own (h : ListInv s) (ht : ∀ q, t ∉ s.kern.suspendThread q)
    (hpc : ∀ u, u ≠ t → s'.pc u = s.pc u) (hlist : s'.kern.suspendThread = s.kern.suspendThread)
    (hthr : ∀ u, u ≠ t → (s'.kern.thread u).stat = (s.kern.thread u).stat) : ListInv s' := by
  refine ⟨fun u q hu => ?_, fun q => ?_⟩
  · rw [hlist] at hu
    have hut : u ≠ t := by
      rintro rfl
      exact ht q hu
    rw [hpc u hut, hthr u hut]
    exact h.on u q hu
  · rw [hlist]
    exact h.nodup q

/-! ## A receive -/

theorem recvTest_some {x : BitVec 32} {b : Bool} (h : recvTest x set option = some b) :
    (b = true ↔ if option &&& rtEventFlagAnd ≠ 0 then set &&& x = set
      else option &&& rtEventFlagOr ≠ 0 ∧ set &&& x ≠ 0) := by
  unfold recvTest at h
  split at h
  · cases h
    rw [if_pos ‹_›, decide_eq_true_eq, BitVec.and_comm]
  · rw [if_neg ‹_›]
    split at h
    · cases h
      rw [decide_eq_true_eq, BitVec.and_comm]
      exact ⟨fun hx => ⟨‹_›, hx⟩, fun hx => hx.2⟩
    · cases h

/-- The thread goes on the list with what it waits for, and it is not satisfied. -/
theorem recv_waits (h : NoneSatisfied s) (hi : ListInv s) (ht : t = s.kern.current)
    (hp : s.pc t = .user) (htest : recvTest (s.event e).set set option = some false)
    (hk : s.kern.waitOn e (s.event e).flag timeout = some k) :
    NoneSatisfied ((((s.setEventSet t set).setEventInfo t option).setKern k).goto t (.recv e)) ∧
      ListInv ((((s.setEventSet t set).setEventInfo t option).setKern k).goto t (.recv e)) := by
  have hoff : ∀ q, t ∉ s.kern.suspendThread q := fun q => hi.off (.inl (by simp [hp]))
  subst ht
  refine ⟨fun q u hu hw => ?_, fun u q hu => ?_, fun q => nodup_waitOn hk hi.nodup (hoff e) q⟩
  · rcases mem_waitOn hk hu with hu' | ⟨rfl, rfl⟩
    · have hut : u ≠ s.kern.current := by
        rintro rfl
        exact hoff q hu'
      refine h q u hu' ((Wants.congr ?_ ?_ _).mp hw)
      · exact Function.update_of_ne hut ..
      · exact Function.update_of_ne hut ..
    · -- the thread itself
      have hw' := (wants_iff _ s.kern.current _).mp hw
      simp only [goto, setKern, setEventInfo, setEventSet, Function.update_self] at hw'
      exact absurd ((recvTest_some htest).mpr hw') (by decide)
  · show Function.update s.pc s.kern.current (.recv e) u = .recv q ∧ (k.thread u).stat = .suspend
    rcases mem_waitOn hk hu with hu' | ⟨rfl, rfl⟩
    · have hut : u ≠ s.kern.current := by
        rintro rfl
        exact hoff q hu'
      rw [Function.update_of_ne hut, waitOn_thread hk hut]
      exact hi.on u q hu'
    · rw [Function.update_self]
      exact ⟨rfl, (waitOn_self hk).1⟩

theorem recv_keeps (h : NoneSatisfied s) (hi : ListInv s) (hp : s.pc s.kern.current = .user)
    (hs : rtEventRecv s e set option timeout = some s') : NoneSatisfied s' ∧ ListInv s' := by
  have hoff : ∀ q, s.kern.current ∉ s.kern.suspendThread q := fun q => hi.off (.inl (by simp [hp]))
  have hgo : ∀ (p : Pc) u, u ≠ s.kern.current → Function.update s.pc s.kern.current p u = s.pc u :=
    fun _ _ hu => Function.update_of_ne hu ..
  have herr : ∀ (x : Int) u, u ≠ s.kern.current →
      ((s.kern.setError s.kern.current x).thread u).stat = (s.kern.thread u).stat := by
    intro x u hu
    rw [setError_thread, if_neg hu]
  simp only [rtEventRecv] at hs
  split at hs
  · cases hs
    exact ⟨h, hi.own hoff (hgo _) rfl fun _ _ => rfl⟩
  split at hs
  · cases hs
  · -- received at once
    cases hs
    refine ⟨?_, ?_⟩
    · refine h.mono (fun q => ?_) (fun q => ?_) fun u q _ => ?_
      · exact List.Sublist.refl _
      · split
        · show bits (Function.update s.event e _ q).set ⊆ _
          by_cases hq : q = e
          · subst hq
            rw [Function.update_self]
            show bits ((s.event q).set &&& ~~~set) ⊆ _
            rw [bits_and_not]
            exact fun i hi => hi.1
          · rw [Function.update_of_ne hq]
        · exact subset_rfl
      · split <;> exact ⟨rfl, rfl⟩
    · split <;> exact hi.own hoff (hgo _) rfl (herr _)
  · next htest =>
    split at hs
    · cases hs
      refine ⟨h, hi.own hoff (hgo _) rfl fun u hu => ?_⟩
      show (((s.kern.setError _ _).setError _ _).thread u).stat = _
      rw [setError_thread, if_neg hu]
      exact herr _ u hu
    · obtain ⟨k, hk, rfl⟩ := Option.map_eq_some_iff.mp hs
      exact recv_waits h hi rfl hp htest hk

theorem recvEnd_keeps (h : NoneSatisfied s) (hi : ListInv s)
    (hr : (s.kern.thread s.kern.current).stat = .ready) :
    NoneSatisfied (rtEventRecvEnd s) ∧ ListInv (rtEventRecvEnd s) := by
  have hoff : ∀ q, s.kern.current ∉ s.kern.suspendThread q := fun q => hi.off (.inr hr)
  have hgo : ∀ p, ListInv (s.goto s.kern.current p) := fun p =>
    hi.own hoff (fun _ hu => Function.update_of_ne hu ..) rfl fun _ _ => rfl
  simp only [rtEventRecvEnd]
  split
  · exact ⟨h, hgo _⟩
  · exact ⟨h, hgo _⟩

/-! ## A reset and a timeout -/

/-- `rt_ipc_list_resume_all` takes its threads off every list, and leaves the other threads. -/
theorem foldl_resumeOne (us : List Nat) (k : Kern)
    (hsus : ∀ u ∈ us, (k.thread u).stat = .suspend) (hn : us.Nodup) :
    (∀ q, (us.foldl resumeOne k).suspendThread q = (k.suspendThread q).filter (· ∉ us)) ∧
      ∀ v, v ∉ us → (us.foldl resumeOne k).thread v = k.thread v := by
  induction us generalizing k with
  | nil => exact ⟨fun q => by simp, fun _ _ => rfl⟩
  | cons u us ih =>
    obtain ⟨hu, hn⟩ := List.nodup_cons.mp hn
    have hsu : ((k.setError u (-rtError)).thread u).stat = .suspend := by
      rw [setError_thread, if_pos rfl]
      exact hsus u List.mem_cons_self
    have hone : resumeOne k u = (k.setError u (-rtError)).unlinkReady u :=
      rtThreadResume_suspended hsu
    have hthr : ∀ v, v ≠ u → (resumeOne k u).thread v = k.thread v := by
      intro v hv
      rw [hone, unlinkReady_thread, if_neg hv, setError_thread, if_neg hv]
    have hsus' : ∀ v ∈ us, ((resumeOne k u).thread v).stat = .suspend := by
      intro v hv
      have hvu : v ≠ u := by
        rintro rfl
        exact hu hv
      rw [hthr v hvu]
      exact hsus v (List.mem_cons_of_mem _ hv)
    rw [List.foldl_cons]
    obtain ⟨hlist, hrest⟩ := ih (resumeOne k u) hsus' hn
    refine ⟨fun q => ?_, fun v hv => ?_⟩
    · rw [hlist, hone]
      show ((k.suspendThread q).filter (· ≠ u)).filter (· ∉ us) = _
      rw [List.filter_filter]
      apply List.filter_congr
      intro v _
      simp only [List.mem_cons, not_or, ne_eq, Bool.decide_and]
      exact Bool.and_comm ..
    · rw [List.mem_cons, not_or] at hv
      rw [hrest v hv.2, hthr v hv.1]

theorem reset_keeps (h : NoneSatisfied s) (hi : ListInv s) (e : Nat) :
    NoneSatisfied (rtEventReset s e) ∧ ListInv (rtEventReset s e) := by
  obtain ⟨hlist, hthr⟩ := foldl_resumeOne (s.kern.suspendThread e) s.kern
    (fun u hu => (hi.on u e hu).2) (hi.nodup e)
  have hmem : ∀ u q, u ∈ (rtEventReset s e).kern.suspendThread q →
      u ∈ s.kern.suspendThread q ∧ u ∉ s.kern.suspendThread e := by
    intro u q hu
    have hu' : u ∈ ((s.kern.suspendThread e).foldl resumeOne s.kern).suspendThread q := hu
    rw [hlist, List.mem_filter] at hu'
    exact ⟨hu'.1, of_decide_eq_true hu'.2⟩
  have hsub : ∀ q, ((rtEventReset s e).kern.suspendThread q).Sublist (s.kern.suspendThread q) := by
    intro q
    show (((s.kern.suspendThread e).foldl resumeOne s.kern).suspendThread q).Sublist _
    rw [hlist]
    exact List.filter_sublist
  refine ⟨fun q u hu hw => ?_, hi.mono rfl hsub fun u q hu => ?_⟩
  · obtain ⟨hin, hue⟩ := hmem u q hu
    have hq : q ≠ e := by
      rintro rfl
      exact hue hin
    have hev : (rtEventReset s e).event q = s.event q := Function.update_of_ne hq ..
    rw [hev] at hw
    exact h q u hin ((Wants.congr rfl rfl _).mp hw)
  · exact congrArg Thread.stat (hthr u (hmem u q hu).2)

theorem timeout_keeps (h : NoneSatisfied s) (hi : ListInv s)
    (hk : s.kern.rtThreadTimeout u = some k) :
    NoneSatisfied (s.setKern k) ∧ ListInv (s.setKern k) := by
  obtain ⟨-, -, -, hthr, hlist⟩ := rtThreadTimeout_some hk
  have hsub : ∀ q, (k.suspendThread q).Sublist (s.kern.suspendThread q) := by
    intro q
    rw [hlist]
    exact List.filter_sublist
  refine ⟨h.mono hsub (fun _ => subset_rfl) fun _ _ _ => ⟨rfl, rfl⟩, hi.mono rfl hsub fun v q hv => ?_⟩
  have hv' : v ∈ k.suspendThread q := hv
  rw [hlist] at hv'
  have hvu : v ≠ u := of_decide_eq_true (List.mem_filter.mp hv').2
  show (k.thread v).stat = _
  rw [hthr, if_neg hvu]

/-! ## Every step -/

theorem step_keeps (h : NoneSatisfied s) (hi : ListInv s) (hs : eventStep s act = some s') :
    NoneSatisfied s' ∧ ListInv s' := by
  cases act with
  | preempt u =>
    simp only [eventStep] at hs
    split at hs <;> cases hs
    exact ⟨h, ⟨hi.on, hi.nodup⟩⟩
  | send e set =>
    cases hs
    obtain ⟨h', hi', -⟩ := send_keeps h hi e set
    exact ⟨h', hi'⟩
  | recv e set option timeout =>
    simp only [eventStep] at hs
    split at hs
    · exact recv_keeps h hi ‹_› hs
    · cases hs
  | recvEnd =>
    simp only [eventStep] at hs
    split at hs
    · split at hs <;> cases hs
      exact recvEnd_keeps h hi ‹_›
    · cases hs
  | ret =>
    simp only [eventStep] at hs
    split at hs
    · next r recved hp =>
      cases hs
      refine ⟨h, hi.own (t := s.kern.current) (fun q => hi.off (.inl (by simp [hp]))) (fun u hu => ?_)
        rfl fun _ _ => rfl⟩
      exact Function.update_of_ne hu ..
    · cases hs
  | reset e =>
    cases hs
    exact reset_keeps h hi e
  | timeout u =>
    obtain ⟨k, hk, rfl⟩ := Option.map_eq_some_iff.mp hs
    exact timeout_keeps h hi hk

/-- **No listed thread is satisfied, and a send wakes in order.** In every reachable state no thread
on the list of an event is satisfied by its set, and a send from there wakes exactly the threads of
the list that are satisfied when it is their turn, after what the ones before them cleared. -/
theorem event_waiters_unsatisfied (flag priority : Nat → Nat) (acts : List EventAct) (s : EventSys)
    (hx : exec eventStep (eventInit flag priority) acts = some s) :
    NoneSatisfied s ∧ ∀ e set s', set ≠ 0 → eventStep s (.send e set) = some s' →
      SendServes s s' e set := by
  have hinv : NoneSatisfied s ∧ ListInv s := by
    refine exec_inv (I := fun s => NoneSatisfied s ∧ ListInv s)
      (fun s act s' h hs => step_keeps h.1 h.2 hs) hx ⟨fun e u hu => ?_, fun u e hu => ?_, fun e => ?_⟩
    · cases hu
    · cases hu
    · exact List.nodup_nil
  refine ⟨hinv.1, fun e set s' hne hs => ?_⟩
  cases hs
  exact (send_keeps hinv.1 hinv.2 e set).2.2 hne

/-- The thread 0 takes the bit 0 and clears it, so the thread 1, which wants both bits, waits on. -/
theorem event_waiters_compete : ∃ s s', exec eventStep (eventInit (fun _ => 0) fun _ => 10)
    [.recv 0 1 (rtEventFlagOr ||| rtEventFlagClear) (-1), .preempt 1, .recv 0 3 rtEventFlagAnd (-1),
      .preempt 2, .recv 0 2 rtEventFlagOr 5, .preempt 3] = some s ∧
    eventStep s (.send 0 3) = some s' ∧ (NoneSatisfied s ∧ SendServes s s' 0 3) ∧
      s'.kern.suspendThread 0 = [1] := by
  refine ⟨_, _, rfl, rfl, ?_, rfl⟩
  have h := event_waiters_unsatisfied (fun _ => 0) (fun _ => 10)
    [.recv 0 1 (rtEventFlagOr ||| rtEventFlagClear) (-1), .preempt 1, .recv 0 3 rtEventFlagAnd (-1),
      .preempt 2, .recv 0 2 rtEventFlagOr 5, .preempt 3] _ rfl
  exact ⟨h.1, h.2 0 3 _ (by decide) rfl⟩

end Tudu.Event
