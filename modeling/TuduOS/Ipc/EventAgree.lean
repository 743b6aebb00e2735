import TuduOS.Ipc.Event

/-!
# A receive at once and a receive after a wait

`rt_event_recv` tests the set and clears it itself if the thread need not wait, and `rt_event_send`
does both for a thread that waits. `recv_agrees_send`: the thread gets the same set either way, and
the same set is left.

* `Parked`: a thread on the list with what it waits for. It stays so in every step that leaves it on
  the list.
* `Resumed`: a thread that a send took off the list, with the set that it will report. It stays so
  until it runs.
-/

namespace Tudu.Event

open Kern Lts BitSet EventSys

variable {s s' : EventSys} {act : EventAct} {t e : Nat} {m x y : BitVec 32} {option : BitVec 8}

/-! ## The threads that a step is not about -/

/-- The fields of the thread `t`. -/
structure SameThread (s s' : EventSys) (t : Nat) : Prop where
  eventSet : s'.eventSet t = s.eventSet t
  eventInfo : s'.eventInfo t = s.eventInfo t
  thread : s'.kern.thread t = s.kern.thread t
  pc : s'.pc t = s.pc t

/-- A send is the loop over the threads of the list, or nothing. -/
theorem send_sent (hi : ListInv s) (e : Nat) (set : BitVec 32) :
    rtEventSend s e set = s ∨ ∃ woken,
      Sent (s.setSet e ((s.event e).set ||| set)) (rtEventSend s e set) e (s.kern.suspendThread e)
        woken := by
  unfold rtEventSend
  by_cases h0 : set = 0
  · rw [if_pos h0]
    exact .inl rfl
  · rw [if_neg h0]
    exact .inr (sendLoop_sent _ _ (hi.nodup e) fun u hu => (hi.on u e hu).2)

theorem recv_frame {timeout : Int} (hne : s.kern.current ≠ t)
    (hs : rtEventRecv s e m option timeout = some s') : SameThread s s' t := by
  have hgo : ∀ p : Pc, Function.update s.pc s.kern.current p t = s.pc t :=
    fun _ => Function.update_of_ne hne.symm ..
  have herr : ∀ (k : Kern) (r : Int), k.thread t = s.kern.thread t →
      (k.setError s.kern.current r).thread t = s.kern.thread t := by
    intro k r hk
    rw [setError_thread, if_neg hne.symm]
    exact hk
  simp only [rtEventRecv] at hs
  split at hs
  · cases hs
    exact ⟨rfl, rfl, rfl, hgo _⟩
  split at hs
  · cases hs
  · cases hs
    split <;> exact ⟨rfl, rfl, herr _ _ rfl, hgo _⟩
  · split at hs
    · cases hs
      exact ⟨rfl, rfl, herr _ _ (herr _ _ rfl), hgo _⟩
    · obtain ⟨k, hk, rfl⟩ := Option.map_eq_some_iff.mp hs
      exact ⟨Function.update_of_ne hne.symm .., Function.update_of_ne hne.symm ..,
        waitOn_thread hk hne.symm, hgo _⟩

/-- A thread in `rt_event_recv` that stays on the list, or is off it and does not run. -/
theorem step_frame (hi : ListInv s) (hp : s.pc t = .recv e)
    (hstay : t ∈ s.kern.suspendThread e ∧ t ∈ s'.kern.suspendThread e ∨ (s.kern.thread t).stat = .ready)
    (hend : act = .recvEnd → s.kern.current ≠ t) (hs : eventStep s act = some s') :
    SameThread s s' t := by
  have hcur : ∀ p : Pc, s.pc s.kern.current = p → p ≠ .recv e → s.kern.current ≠ t := by
    rintro p hq hpe rfl
    exact hpe (hq.symm.trans hp)
  have hgo : ∀ p : Pc, s.kern.current ≠ t → Function.update s.pc s.kern.current p t = s.pc t :=
    fun _ hne => Function.update_of_ne hne.symm ..
  have hoff : (s.kern.thread t).stat = .ready → ∀ q, t ∉ s.kern.suspendThread q :=
    fun hr q => hi.off (.inr hr)
  have heq : ∀ q, t ∈ s.kern.suspendThread q → q = e := by
    intro q hq
    have hpc := (hi.on t q hq).1
    rw [hp] at hpc
    cases hpc
    rfl
  cases act with
  | preempt u =>
    simp only [eventStep] at hs
    split at hs <;> cases hs
    exact ⟨rfl, rfl, rfl, rfl⟩
  | send q set =>
    cases hs
    rcases send_sent hi q set with heq | ⟨woken, hsent⟩
    · rw [heq]
      exact ⟨rfl, rfl, rfl, rfl⟩
    · have hnot : t ∉ woken := by
        intro hw
        rcases hstay with ⟨-, hin⟩ | hr
        · rw [hsent.list, List.mem_filter] at hin
          exact of_decide_eq_true hin.2 hw
        · exact hoff hr q (hsent.served.sublist.mem hw)
      exact ⟨hsent.eventSet t hnot, congrFun hsent.eventInfo t, hsent.thread t hnot,
        congrFun hsent.pc t⟩
  | recv q set opt timeout =>
    simp only [eventStep] at hs
    split at hs
    · exact recv_frame (hcur _ ‹_› Pc.noConfusion) hs
    · cases hs
  | recvEnd =>
    simp only [eventStep] at hs
    split at hs
    · split at hs <;> cases hs
      simp only [rtEventRecvEnd]
      split <;> exact ⟨rfl, rfl, rfl, hgo _ (hend rfl)⟩
    · cases hs
  | ret =>
    simp only [eventStep] at hs
    split at hs
    · cases hs
      exact ⟨rfl, rfl, rfl, hgo _ (hcur _ ‹_› Pc.noConfusion)⟩
    · cases hs
  | reset q =>
    cases hs
    obtain ⟨hlist, hthr⟩ := foldl_resumeOne (s.kern.suspendThread q) s.kern
      (fun u hu => (hi.on u q hu).2) (hi.nodup q)
    have hnot : t ∉ s.kern.suspendThread q := by
      intro hq
      rcases hstay with ⟨-, hin⟩ | hr
      · have hin' : t ∈ ((s.kern.suspendThread q).foldl resumeOne s.kern).suspendThread e := hin
        rw [hlist, List.mem_filter] at hin'
        exact of_decide_eq_true hin'.2 hq
      · exact hoff hr q hq
    exact ⟨rfl, rfl, hthr t hnot, rfl⟩
  | timeout u =>
    obtain ⟨k, hk, rfl⟩ := Option.map_eq_some_iff.mp hs
    obtain ⟨hsus, -, -, hthr, hlist⟩ := rtThreadTimeout_some hk
    have hne : t ≠ u := by
      rintro rfl
      rcases hstay with ⟨-, hin⟩ | hr
      · have hin' : t ∈ k.suspendThread e := hin
        rw [hlist, List.mem_filter] at hin'
        exact of_decide_eq_true hin'.2 rfl
      · rw [hr] at hsus
        cases hsus
    refine ⟨rfl, rfl, ?_, rfl⟩
    change k.thread t = _
    rw [hthr, if_neg hne]

/-! ## A thread that waits -/

/-- The thread `t` waits for the event `e`, with what it waits for. -/
structure Parked (s : EventSys) (t e : Nat) (m : BitVec 32) (option : BitVec 8) : Prop where
  listed : t ∈ s.kern.suspendThread e
  set : s.eventSet t = m
  info : s.eventInfo t = option
  error : (s.kern.thread t).error = rtEok

theorem Parked.step (h : Parked s t e m option) (hi : ListInv s) (hs : eventStep s act = some s')
    (hin : t ∈ s'.kern.suspendThread e) : Parked s' t e m option := by
  obtain ⟨hp, hsus⟩ := hi.on t e h.listed
  have hsame := step_frame hi hp (.inl ⟨h.listed, hin⟩) (fun hact hcur => ?_) hs
  · exact {
      listed := hin
      set := hsame.eventSet.trans h.set
      info := hsame.eventInfo.trans h.info
      error := hsame.thread ▸ h.error }
  · -- a thread that runs is not suspended
    subst hact
    simp only [eventStep] at hs
    split at hs
    · split at hs
      · next hr =>
        rw [hcur, hsus] at hr
        cases hr
      · cases hs
    · cases hs

/-- A receive of a set that does not satisfy the thread. -/
theorem recv_parks {timeout : Int} (hp : s.pc s.kern.current = .user)
    (hs : eventStep s (.recv e m option timeout) = some s')
    (hin : s.kern.current ∈ s'.kern.suspendThread e) (hi : ListInv s) :
    Parked s' s.kern.current e m option := by
  have hoff : s.kern.current ∉ s.kern.suspendThread e := hi.off (.inl (hp ▸ Pc.noConfusion))
  simp only [eventStep, hp, rtEventRecv] at hs
  split at hs
  · cases hs
    exact absurd hin hoff
  split at hs
  · cases hs
  · cases hs
    split at hin <;> exact absurd hin hoff
  · split at hs
    · cases hs
      exact absurd hin hoff
    · obtain ⟨k, hk, rfl⟩ := Option.map_eq_some_iff.mp hs
      exact {
        listed := hin
        set := Function.update_self ..
        info := Function.update_self ..
        error := (waitOn_self hk).2 }

/-! ## A thread that was woken -/

/-- The thread `t` will return from its wait for the event `e`, and report the set `y`. -/
structure Resumed (s : EventSys) (t e : Nat) (y : BitVec 32) : Prop where
  pc : s.pc t = .recv e
  ready : (s.kern.thread t).stat = .ready
  set : s.eventSet t = y
  error : (s.kern.thread t).error = rtEok

theorem Resumed.step (h : Resumed s t e y) (hi : ListInv s)
    (hend : act = .recvEnd → s.kern.current ≠ t) (hs : eventStep s act = some s') :
    Resumed s' t e y := by
  have hsame := step_frame hi h.pc (.inr h.ready) hend hs
  exact {
    pc := hsame.pc.trans h.pc
    ready := hsame.thread ▸ h.ready
    set := hsame.eventSet.trans h.set
    error := hsame.thread ▸ h.error }

/-! ## What a receive leaves of the set -/

/-- What is left of the set `x` behind a receive that it satisfies. -/
def remaining (x m : BitVec 32) (option : BitVec 8) : BitVec 32 :=
  if option &&& rtEventFlagClear ≠ 0 then x &&& ~~~m else x

/-- To clear what was received is to clear what was waited for. -/
theorem and_not_and (x m : BitVec 32) : x &&& ~~~(m &&& x) = x &&& ~~~m := by
  rw [← bits_injective.eq_iff, bits_and_not, bits_and_not, bits_and]
  ext i
  constructor
  · rintro ⟨hx, hno⟩
    exact ⟨hx, fun hm => hno ⟨hm, hx⟩⟩
  · rintro ⟨hx, hno⟩
    exact ⟨hx, fun h => hno h.1⟩

theorem recv_at_once {timeout : Int} (hm : m ≠ 0) (htest : recvTest (s.event e).set m option = some true)
    (hs : rtEventRecv s e m option timeout = some s') :
    s'.pc s.kern.current = .done rtEok ((s.event e).set &&& m) ∧
      (s'.event e).set = remaining (s.event e).set m option := by
  simp only [rtEventRecv, if_neg hm, htest] at hs
  cases hs
  refine ⟨Function.update_self .., ?_⟩
  unfold remaining
  by_cases hc : option &&& rtEventFlagClear ≠ 0
  · rw [if_pos hc]
    simp only [if_pos hc]
    change (Function.update s.event e _ e).set = _
    rw [Function.update_self]
  · rw [if_neg hc]
    simp only [if_neg hc]
    rfl

theorem wake_resumes (hi : ListInv s) (h : Parked s t e m option) (y x : BitVec 32)
    (hx : (s.event e).set = x) (hy : x &&& ~~~y = x &&& ~~~m) :
    Resumed (wake (s.setEventSet t y) e t) t e y ∧
      ((wake (s.setEventSet t y) e t).event e).set = remaining x m option := by
  obtain ⟨hp, hsus⟩ := hi.on t e h.listed
  have hself : (s.setEventSet t y).eventSet t = y := Function.update_self ..
  have hinfo : (s.setEventSet t y).eventInfo t = option := h.info
  have hset : ((s.setEventSet t y).event e).set = x := hx
  have hthr : (s.kern.rtThreadResume t).thread t =
      { s.kern.thread t with stat := .ready, timer := false, linked := false } := by
    rw [rtThreadResume_thread, if_pos ⟨rfl, hsus⟩]
  have hready : ((s.kern.rtThreadResume t).thread t).stat = .ready := by rw [hthr]
  have herr : ((s.kern.rtThreadResume t).thread t).error = rtEok := by
    rw [hthr]
    exact h.error
  unfold wake remaining
  rw [hinfo, hself, hset, hy]
  by_cases hc : option &&& rtEventFlagClear ≠ 0
  · simp only [if_pos hc]
    refine ⟨⟨hp, hready, hself, herr⟩, ?_⟩
    change (Function.update s.event e _ e).set = _
    rw [Function.update_self]
  · simp only [if_neg hc]
    exact ⟨⟨hp, hready, hself, herr⟩, hset⟩

/-- A send to the only thread that waits. -/
theorem send_resumes {set : BitVec 32} (hi : ListInv s) (h : Parked s t e m option)
    (honly : s.kern.suspendThread e = [t]) (hset : set ≠ 0) (hx : (s.event e).set ||| set = x)
    (htest : recvTest x m option = some true) :
    Resumed (rtEventSend s e set) t e (x &&& m) ∧
      ((rtEventSend s e set).event e).set = remaining x m option := by
  have hi' : ListInv (s.setSet e x) := ⟨hi.on, hi.nodup⟩
  have h' : Parked (s.setSet e x) t e m option := ⟨h.listed, h.set, h.info, h.error⟩
  have hset' : ((s.setSet e x).event e).set = x := by
    change (Function.update s.event e _ e).set = x
    rw [Function.update_self]
  have hinfo : (s.setSet e x).eventInfo t = option := h.info
  have hev : (s.setSet e x).eventSet t = m := h.set
  have hloop : rtEventSend s e set = sendOne e (s.setSet e x) t := by
    unfold rtEventSend
    rw [if_neg hset, honly, hx]
    rfl
  rw [hloop]
  unfold sendOne
  rw [hinfo, hev, hset']
  unfold recvTest at htest
  by_cases hand : option &&& rtEventFlagAnd ≠ 0
  · rw [if_pos hand] at htest
    have hall : x &&& m = m := of_decide_eq_true (Option.some.inj htest)
    rw [if_pos hand, if_pos ((BitVec.and_comm _ _).trans hall), hall]
    have hsame : (s.setSet e x).setEventSet t m = s.setSet e x := by
      rw [← hev, setEventSet_self]
    have hwake := wake_resumes hi' h' m x hset' rfl
    rwa [hsame] at hwake
  · rw [if_neg hand] at htest
    by_cases hor : option &&& rtEventFlagOr ≠ 0
    · rw [if_pos hor] at htest
      have hany : x &&& m ≠ 0 := of_decide_eq_true (Option.some.inj htest)
      rw [if_neg hand, if_pos hor, if_pos (BitVec.and_comm m x ▸ hany), BitVec.and_comm x m]
      exact wake_resumes hi' h' (m &&& x) x hset' (and_not_and x m)
    · rw [if_neg hor] at htest
      cases htest

/-! ## The two ways -/

/-- A run in which the thread `t` calls `rt_event_recv(e, m, option)`, waits, and is the only one that
waits when the bits of `x` that are not there are sent: the state behind that send, and the one in
which `t` has returned. Neither a timeout nor a reset ends the wait. -/
def WokenRun (flag priority : Nat → Nat) (t e : Nat) (m x s0 : BitVec 32) (option : BitVec 8)
    (sent back : EventSys) : Prop :=
  ∃ (before during after : List EventAct) (timeout : Int) (s s1 s2 s4 : EventSys),
    exec eventStep (eventInit flag priority) before = some s ∧ s.kern.current = t ∧
    eventStep s (.recv e m option timeout) = some s1 ∧
    exec eventStep s1 during = some s2 ∧
    Visits eventStep (fun s => t ∈ s.kern.suspendThread e) s1 during ∧
    s2.kern.suspendThread e = [t] ∧ (s2.event e).set = s0 ∧
    eventStep s2 (.send e (x &&& ~~~s0)) = some sent ∧
    exec eventStep sent after = some s4 ∧
    Along eventStep (fun s act => act = .recvEnd → s.kern.current ≠ t) sent after ∧
    s4.kern.current = t ∧ eventStep s4 .recvEnd = some back

theorem init_keeps (flag priority : Nat → Nat) {acts : List EventAct}
    (hx : exec eventStep (eventInit flag priority) acts = some s) : NoneSatisfied s ∧ ListInv s := by
  refine exec_inv (I := fun s => NoneSatisfied s ∧ ListInv s)
    (fun s act s' h hs => step_keeps h.1 h.2 hs) hx ⟨fun e u hu => ?_, fun u e hu => ?_, fun e => ?_⟩
  · cases hu
  · cases hu
  · exact List.nodup_nil

/-- A thread that stays on the list keeps what it waits for. -/
theorem parked_run {acts : List EventAct} (h : Parked s t e m option)
    (hk : NoneSatisfied s ∧ ListInv s) (hx : exec eventStep s acts = some s')
    (hv : Visits eventStep (fun s => t ∈ s.kern.suspendThread e) s acts) :
    Parked s' t e m option ∧ NoneSatisfied s' ∧ ListInv s' := by
  induction acts generalizing s with
  | nil =>
    cases hx
    exact ⟨h, hk⟩
  | cons act acts ih =>
    obtain ⟨s1, hs, hx'⟩ := exec_cons_some hx
    have hv' := ((visits_cons hs).mp hv).2
    exact ih (h.step hk.2 hs hv'.head) (step_keeps hk.1 hk.2 hs) hx' hv'

/-- **Both ways agree.** A thread that receives at once from a set that satisfies it, and a thread
that waits for the same at a set that does not and is woken when the other bits are sent, report the
same set and leave the same set. -/
theorem recv_agrees_send {flag priority : Nat → Nat} {t e e1 : Nat} {m x s0 : BitVec 32}
    {option : BitVec 8} {timeout : Int} {a a' sent back : EventSys} (hm : m ≠ 0)
    (htest : recvTest x m option = some true) (hsub : s0 &&& x = s0)
    (hno : recvTest s0 m option = some false) (hset : (a.event e1).set = x)
    (honce : rtEventRecv a e1 m option timeout = some a')
    (hwait : WokenRun flag priority t e m x s0 option sent back) :
    ∃ recved, a'.pc a.kern.current = .done rtEok recved ∧ back.pc t = .done rtEok recved ∧
      (a'.event e1).set = (sent.event e).set := by
  subst hset
  obtain ⟨hrec, hleft⟩ := recv_at_once hm htest honce
  refine ⟨_, hrec, ?_⟩
  obtain ⟨before, during, after, timeout', s, s1, s2, s4, hbefore, rfl, hcall, hduring, hstay, honly,
    hs0, hsend, hafter, hoff, hcur, hend⟩ := hwait
  have hk := init_keeps flag priority hbefore
  have hp : s.pc s.kern.current = .user := by
    simp only [eventStep] at hcall
    split at hcall
    · assumption
    · cases hcall
  have hparked := recv_parks hp hcall hstay.head hk.2
  obtain ⟨hparked, hk⟩ := parked_run hparked (step_keeps hk.1 hk.2 hcall) hduring hstay
  have hbits : s0 ||| ((a.event e1).set &&& ~~~s0) = (a.event e1).set := by
    rw [← bits_injective.eq_iff, bits_or, bits_and_not]
    exact Set.union_sdiff_cancel (and_eq_left_iff.mp hsub)
  have hne : (a.event e1).set &&& ~~~s0 ≠ 0 := by
    intro h0
    have hs : s0 = (a.event e1).set := by
      rw [← hbits, h0]
      exact BitVec.or_zero.symm
    rw [← hs, hno] at htest
    cases htest
  cases hsend
  obtain ⟨hres, hrem⟩ := send_resumes hk.2 hparked honly hne (hs0.symm ▸ hbits) htest
  have hk' := send_keeps hk.1 hk.2 e ((a.event e1).set &&& ~~~s0)
  have hlast := hoff.inv (I := fun s' => Resumed s' s.kern.current e ((a.event e1).set &&& m) ∧
      NoneSatisfied s' ∧ ListInv s')
    (fun s act s' h hc hs => ⟨h.1.step h.2.2 hc hs, step_keeps h.2.1 h.2.2 hs⟩) hafter
    ⟨hres, hk'.1, hk'.2.1⟩
  refine ⟨?_, hleft.trans hrem.symm⟩
  have hback := hlast.1
  rw [← hcur] at hback ⊢
  simp only [eventStep, hback.pc, if_pos hback.ready] at hend
  cases hend
  simp only [rtEventRecvEnd, hback.error, ne_eq, not_true_eq_false, if_false, hback.set]
  exact Function.update_self ..

/-- The bit 0 of the bits 0 and 1, taken and cleared. -/
theorem recv_agrees_send_one : ∃ a a' sent back : EventSys,
    WokenRun (fun _ => 0) (fun _ => 10) 0 0 1 3 2 (rtEventFlagOr ||| rtEventFlagClear) sent back ∧
    (a.event 0).set = 3 ∧
    rtEventRecv a 0 1 (rtEventFlagOr ||| rtEventFlagClear) 5 = some a' ∧
    ∃ recved, a'.pc a.kern.current = .done rtEok recved ∧ back.pc 0 = .done rtEok recved ∧
      (a'.event 0).set = (sent.event 0).set := by
  have hrun : WokenRun (fun _ => 0) (fun _ => 10) 0 0 1 3 2 (rtEventFlagOr ||| rtEventFlagClear)
      _ _ :=
    ⟨[.send 0 2], [.preempt 1], [.preempt 0], -1, _, _, _, _, rfl, rfl, rfl, rfl,
      ⟨List.mem_cons_self, List.mem_cons_self⟩, rfl, rfl, rfl, rfl, ⟨fun h => (by cases h), trivial⟩, rfl, rfl⟩
  obtain ⟨a', honce⟩ : ∃ a', rtEventRecv ((eventInit (fun _ => 0) fun _ => 10).setSet 0 3) 0 1
    (rtEventFlagOr ||| rtEventFlagClear) 5 = some a' := ⟨_, rfl⟩
  refine ⟨(eventInit (fun _ => 0) fun _ => 10).setSet 0 3, a', _, _, hrun, rfl, honce, ?_⟩
  exact recv_agrees_send (by decide) (by decide) (by decide) (by decide) rfl honce hrun

end Tudu.Event
