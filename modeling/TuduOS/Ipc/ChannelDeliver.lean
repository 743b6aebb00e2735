import TuduOS.Ipc.ChannelList

/-!
# Delivery of messages

Every message for which `bin_channel_send` returned `RT_EOK` was returned by a `bin_channel_recv`,
or is in the slot of a resumed receiver, which returns it next (`Delivered`). The code drops a
message where no listed thread takes it: the list is empty, or `thread->error` of each thread on it
is not `RT_EOK`, so that its `bin_channel_recv` returns the error.

* **The condition** (`SendsTaken`). On the list that a send goes through is a thread whose `error`
  is `RT_EOK`, before the first one with an unread message.
* **The invariant** (`DeliverInv`, with `ListInv`). A message that was sent, or whose send is not
  over, is received or about to be (`Got`). No step takes this back (`Kept`).
-/

namespace Tudu.Channel

open Kern ChannelSys Lts

/-- The thread `u` was resumed with the message `r`, and returns it next. -/
def Pending (s : ChannelSys) (r u : Nat) : Prop :=
  s.msgRet u = some r ∧ (∃ c, s.pc u = .recv c) ∧ (s.kern.thread u).stat = .ready ∧
    (s.kern.thread u).error = rtEok

def Got (s : ChannelSys) (r : Nat) : Prop := r ∈ s.log.recvd ∨ ∃ u, Pending s r u

/-- The property: no message that was sent with success is dropped. -/
def Delivered (s : ChannelSys) : Prop := ∀ r ∈ s.log.sent, Got s r

/-- A thread of `l` takes its message, and none before it has an unread one. -/
def Reaches (s : ChannelSys) : List Nat → Prop
  | [] => False
  | u :: us => s.msgRet u = none ∧ ((s.kern.thread u).error = rtEok ∨ Reaches s us)

instance (s : ChannelSys) : ∀ l, Decidable (Reaches s l)
  | [] => isFalse id
  | u :: us =>
    have := instDecidableReaches s us
    inferInstanceAs (Decidable (s.msgRet u = none ∧
      ((s.kern.thread u).error = rtEok ∨ Reaches s us)))

/-- A send that has a record reaches a thread that takes the message. -/
def SendsTaken (s : ChannelSys) : ChannelAct → Prop
  | .send c _ _ _ => s.ipcMsgPos < ipcMsgSize → Reaches s (s.kern.suspendThread c)
  | _ => True

instance (s : ChannelSys) : ∀ act, Decidable (SendsTaken s act)
  | .send c _ _ _ => inferInstanceAs (Decidable
      (s.ipcMsgPos < ipcMsgSize → Reaches s (s.kern.suspendThread c)))
  | .preempt _ | .recv .. | .reply .. | .resume | .timeout _ | .setError _ =>
    inferInstanceAs (Decidable True)

structure DeliverInv (s : ChannelSys) : Prop extends ListInv s where
  delivered : Delivered s
  sending : ∀ t, ∀ r ∈ (s.pc t).msg, Got s r

variable {s s' s'' : ChannelSys} {k : Kern} {t u v c q r : Nat} {needReply sched : Bool}

/-- The thread with the pending message runs on and returns it. -/
theorem Pending.receives (h : Pending s r s.kern.current) (hf : s.fault = false) :
    ∃ s', channelStep s .resume = some s' ∧ r ∈ s'.log.recvd := by
  obtain ⟨hm, ⟨c, hp⟩, hr, he⟩ := h
  refine ⟨recvMsg s c r, ?_, List.mem_cons_self⟩
  simp only [channelStep, hf, hp, hr, recvResume, he, hm]
  rfl

/-! ## What no step takes back -/

structure Kept (s s' : ChannelSys) : Prop where
  recvd : ∀ r ∈ s.log.recvd, r ∈ s'.log.recvd
  pending : ∀ r u, Pending s r u → Got s' r

theorem Kept.got (h : Kept s s') (hg : Got s r) : Got s' r := by
  rcases hg with hr | ⟨u, hu⟩
  · exact .inl (h.recvd r hr)
  · exact h.pending r u hu

theorem Kept.trans (h : Kept s s') (h' : Kept s' s'') : Kept s s'' :=
  ⟨fun r hr => h'.recvd r (h.recvd r hr), fun r u hu => h'.got (h.pending r u hu)⟩

/-- A step that changes no thread with a pending message. -/
theorem Kept.of_same (hrec : ∀ r ∈ s.log.recvd, r ∈ s'.log.recvd)
    (hu : ∀ r u, Pending s r u → s'.msgRet u = s.msgRet u ∧ s'.pc u = s.pc u ∧
      s'.kern.thread u = s.kern.thread u) : Kept s s' := by
  refine ⟨hrec, fun r u h => .inr ⟨u, ?_⟩⟩
  obtain ⟨hm, hp, hk⟩ := hu r u h
  unfold Pending
  rw [hm, hp, hk]
  exact h

/-- A step of a thread that has no pending message. -/
theorem Kept.own (t : Nat) (ht : ∀ r, ¬ Pending s r t)
    (hrec : ∀ r ∈ s.log.recvd, r ∈ s'.log.recvd)
    (hu : ∀ u, u ≠ t → s'.msgRet u = s.msgRet u ∧ s'.pc u = s.pc u ∧
      s'.kern.thread u = s.kern.thread u) : Kept s s' := by
  refine .of_same hrec fun r u h => hu u ?_
  rintro rfl
  exact ht r h

theorem not_pending (hp : ∀ c, s.pc t ≠ .recv c) (r : Nat) : ¬ Pending s r t :=
  fun h => h.2.1.elim hp

theorem not_pending_suspend (hs : (s.kern.thread t).stat = .suspend) (r : Nat) :
    ¬ Pending s r t := by
  intro h
  rw [h.2.2.1] at hs
  cases hs

/-- A listed thread gets the message. -/
theorem Kept.give (hu : (s.kern.thread u).stat = .suspend)
    (hk : s'.kern = s.kern.rtThreadResume u) (hm : s'.msgRet = Function.update s.msgRet u (some r))
    (hp : s'.pc = s.pc) (hl : s'.log.recvd = s.log.recvd) : Kept s s' := by
  refine .own u (not_pending_suspend hu) (fun _ h => hl ▸ h) fun v hv => ?_
  rw [hk, hm, hp, rtThreadResume_thread hv, Function.update_of_ne hv]
  exact ⟨rfl, rfl, rfl⟩

theorem Asked.log {b : Bool} (h : Asked s s' c u b) :
    s'.log.recvd = s.log.recvd ∧ s'.log.sent = s.log.sent := by
  cases b with
  | false =>
    rw [h.2.2.1]
    exact ⟨rfl, rfl⟩
  | true =>
    rw [h.2.2.2.1]
    exact ⟨rfl, rfl⟩

theorem Reaches.congr {l : List Nat} (h : Reaches s l)
    (hs : ∀ v ∈ l, s'.msgRet v = s.msgRet v ∧ s'.kern.thread v = s.kern.thread v) :
    Reaches s' l := by
  induction l with
  | nil => exact h
  | cons u us ih =>
    obtain ⟨hm, hk⟩ := hs u List.mem_cons_self
    refine ⟨hm.trans h.1, ?_⟩
    rw [hk]
    exact h.2.imp_right fun h' => ih h' fun v hv => hs v (List.mem_cons_of_mem _ hv)

/-! ## The loop of a send -/

/-- The loop of `bin_channel_send` in the run from `s0`: the message is taken, or reaches a thread
that takes it. -/
structure Sending (s0 : ChannelSys) (c r : Nat) (us : List Nat) (s : ChannelSys) : Prop extends
    Round s0.kern.current c us s where
  kept : Kept s0 s
  pc : s.pc = s0.pc
  sent : s.log.sent = s0.log.sent
  taken : Got s r ∨ Reaches s us

theorem Sending.one {s0 : ChannelSys} {us : List Nat} (h : Sending s0 c r (u :: us) s)
    (hs : SentOne s s' c r needReply u) : Sending s0 c r us s' := by
  obtain ⟨hpu, hsu⟩ := h.toRound.suspended List.mem_cons_self
  have hk : Kept s s' := .give hsu hs.kern hs.msgRet hs.pc hs.asked.log.1
  refine ⟨h.toRound.one hs, h.kept.trans hk, hs.pc.trans h.pc, hs.asked.log.2.trans h.sent, ?_⟩
  rcases h.taken with hg | ⟨-, he | hr⟩
  · exact .inl (hk.got hg)
  · -- `u` itself takes the message
    refine .inl (.inr ⟨u, ?_, ⟨c, ?_⟩, ?_, ?_⟩)
    · rw [hs.msgRet, Function.update_self]
    · rw [hs.pc]
      exact hpu
    · rw [hs.kern, rtThreadResume, if_pos hsu, unlinkReady_thread, if_pos rfl]
    · rw [hs.kern, rtThreadResume, if_pos hsu, unlinkReady_thread, if_pos rfl]
      exact he
  · refine .inr (hr.congr fun v hv => ?_)
    have hne : v ≠ u := by
      rintro rfl
      exact (List.nodup_cons.mp h.left).1 hv
    rw [hs.msgRet, hs.kern, Function.update_of_ne hne, rtThreadResume_thread hne]
    exact ⟨rfl, rfl⟩

/-- A step that goes on with what was sent before, and with `r`. -/
theorem DeliverInv.keep (h : DeliverInv s) (hl : ListInv s') (hk : Kept s s')
    (hsent : ∀ r ∈ s'.log.sent, r ∈ s.log.sent ∨ Got s' r)
    (hpc : ∀ t, ∀ r ∈ (s'.pc t).msg, r ∈ (s.pc t).msg ∨ Got s' r) : DeliverInv s' := by
  refine ⟨hl, fun r hr => ?_, fun t r hr => ?_⟩
  · exact (hsent r hr).elim (fun hr => hk.got (h.delivered r hr)) id
  · exact (hpc t r hr).elim (fun hr => hk.got (h.sending t r hr)) id

theorem DeliverInv.sendLoop {s0 : ChannelSys} {l : List Nat} (h0 : DeliverInv s0)
    (hp : ∀ q, s0.pc s0.kern.current ≠ .recv q) (h : Sending s0 c r l s) :
    DeliverInv (sendLoop c r needReply sched l s) := by
  have hlist : ListInv (Channel.sendLoop c r needReply sched l s) := by
    refine ListInv.sendLoop ?_
    rw [h.current]
    exact h.toRound
  have hnp : ∀ {s : ChannelSys} {us : List Nat}, Sending s0 c r us s → ∀ r,
      ¬ Pending s r s.kern.current := fun h' => not_pending fun q => by
    rw [h'.pc, h'.current]
    exact hp q
  suffices hrest : ListInv (Channel.sendLoop c r needReply sched l s) →
      DeliverInv (Channel.sendLoop c r needReply sched l s) from hrest hlist
  refine sendLoop_inv (I := Sending s0 c r) (J := fun s' => ListInv s' → DeliverInv s')
    (fun s h' hl => ?_) (fun u us s h' hm hl => ?_) (fun u us s h' _ _ _ hl => ?_)
    (fun u us s s' h' _ ho => h'.one (sendOne_some ho)) l s h
  · -- the end of the loop
    have hg : Got s r := h'.taken.elim id fun hr => hr.elim
    cases needReply with
    | true =>
      have hk : Kept s (sendDone s c r true sched) := by
        refine .own s.kern.current (hnp h') (fun _ h => h) fun u hu => ?_
        exact ⟨rfl, Function.update_of_ne hu .., rtThreadSuspend_thread hu⟩
      refine h0.keep hl (h'.kept.trans hk) (fun r' hr' => ?_) fun t r' hr' => ?_
      · exact .inl (h'.sent ▸ (show r' ∈ s.log.sent from hr'))
      · rcases mem_goto_msg hr' with hr' | hr'
        · cases hr'
          exact .inr (hk.got hg)
        · exact .inl (h'.pc ▸ hr')
    | false =>
      have hk : Kept s (sendDone s c r false sched) := by
        refine .own s.kern.current (hnp h') (fun _ h => h) fun u hu => ?_
        exact ⟨rfl, Function.update_of_ne hu .., rfl⟩
      refine h0.keep hl (h'.kept.trans hk) (fun r' hr' => ?_) fun t r' hr' => ?_
      · rcases List.mem_cons.mp hr' with rfl | hr'
        · exact .inr (hk.got hg)
        · exact .inl (h'.sent ▸ (show r' ∈ s.log.sent from hr'))
      · rcases mem_goto_msg (s := s) hr' with hr' | hr'
        · cases hr'
        · exact .inl (h'.pc ▸ hr')
  · -- an unread message
    have hg : Got s r := h'.taken.elim id fun hr => absurd hr.1 hm
    have hk : Kept s (s.mdelay.goto s.kern.current (.sendUnread c r needReply u)) := by
      refine .own s.kern.current (hnp h') (fun _ h => h) fun v hv => ?_
      exact ⟨rfl, Function.update_of_ne hv .., mdelay_thread s hv⟩
    refine h0.keep hl (h'.kept.trans hk) (fun r' hr' => ?_) fun t r' hr' => ?_
    · exact .inl (h'.sent ▸ (show r' ∈ s.log.sent from hr'))
    · rcases mem_goto_msg hr' with hr' | hr'
      · cases hr'
        exact .inr (hk.got hg)
      · exact .inl (h'.pc ▸ (show r' ∈ (s.pc t).msg from hr'))
  · -- no record for the reply
    have hk : Kept s { give s c r u with fault := true } :=
      .give (h'.toRound.suspended List.mem_cons_self).2 rfl rfl rfl rfl
    refine h0.keep hl (h'.kept.trans hk) (fun r' hr' => ?_) fun t r' hr' => ?_
    · exact .inl (h'.sent ▸ (show r' ∈ s.log.sent from hr'))
    · exact .inl (h'.pc ▸ (show r' ∈ (s.pc t).msg from hr'))

/-! ## Every step -/

/-- A step that is not a send, and ends none. -/
theorem DeliverInv.go (h : DeliverInv s) (hl : ListInv s') (hk : Kept s s')
    (hsent : s'.log.sent = s.log.sent) (hpc : ∀ t, ∀ r ∈ (s'.pc t).msg, r ∈ (s.pc t).msg) :
    DeliverInv s' :=
  h.keep hl hk (fun _ hr => .inl (hsent ▸ hr)) fun t r hr => .inl (hpc t r hr)

theorem Kept.resume (v : Nat) (hk : s'.kern = s.kern.rtThreadResume v)
    (hm : ∀ u, s.pc u ≠ .user → s'.msgRet u = s.msgRet u) (hp : s'.pc = s.pc)
    (hl : s'.log.recvd = s.log.recvd) : Kept s s' := by
  refine .of_same (fun _ h => hl ▸ h) fun r u hu => ⟨hm u ?_, by rw [hp], ?_⟩
  · obtain ⟨c, hc⟩ := hu.2.1
    rw [hc]
    simp
  · rw [hk, rtThreadResume_ready hu.2.2.1]

/-- The current thread takes its message. -/
theorem Kept.recvMsg (hm : s.msgRet s.kern.current = some r) : Kept s (recvMsg s c r) := by
  refine ⟨fun _ h => List.mem_cons_of_mem _ h, fun r' u hu => ?_⟩
  by_cases huc : u = s.kern.current
  · subst huc
    obtain rfl : r = r' := Option.some.inj (hm.symm.trans hu.1)
    exact .inl List.mem_cons_self
  · refine .inr ⟨u, ?_, ?_, hu.2.2.1, hu.2.2.2⟩
    · show (if _ then Function.update s.msgRet s.kern.current none else s.msgRet) u = some r'
      split
      · rw [Function.update_of_ne huc]
        exact hu.1
      · exact hu.1
    · show ∃ c, Function.update s.pc s.kern.current .user u = .recv c
      rw [Function.update_of_ne huc]
      exact hu.2.1

theorem DeliverInv.step (h : DeliverInv s) {act : ChannelAct} (hc : SendsTaken s act)
    (hs : channelStep s act = some s') : DeliverInv s' := by
  have hl := h.toListInv.step hs
  have hpcs : ∀ {p : Pc}, s.pc s.kern.current = p → (∀ q, p ≠ .recv q) →
      ∀ q, s.pc s.kern.current ≠ .recv q := fun hp hne q => hp ▸ hne q
  cases (channelStep_some hs).2 with
  | preempt u hu =>
    exact h.go hl (.of_same (fun _ h => h) fun _ _ _ => ⟨rfl, rfl, rfl⟩) rfl fun _ _ h => h
  | recv c timeout _ hp hs =>
    have hthr : ∀ u, u ≠ s.kern.current → _ := fun u hu => binChannelRecv_thread hs hu
    obtain ⟨k, hk, rfl⟩ := Option.map_eq_some_iff.mp hs
    refine h.go hl ?_ rfl fun t r hr => ?_
    · exact .own s.kern.current (not_pending (hpcs hp (by simp))) (fun _ h => h) fun u hu =>
        ⟨rfl, Function.update_of_ne hu .., hthr u hu⟩
    · rcases mem_goto_msg (s := s.setKern _) hr with hr | hr
      · cases hr
      · exact hr
  | send c type u needReply hp =>
    rcases binChannelSend_cases s c type u needReply with ⟨-, he⟩ | ⟨hpos, he⟩
    · rw [he] at hl ⊢
      exact h.go hl (.of_same (fun _ h => h) fun _ _ _ => ⟨rfl, rfl, rfl⟩) rfl fun _ _ h => h
    · rw [he]
      have hlog : (sendStart { s with ipcMsgPos := s.ipcMsgPos + 1 } c s.ipcMsgPos type u
          needReply).log = s.log := by
        cases needReply <;> rfl
      have hslot : (sendStart { s with ipcMsgPos := s.ipcMsgPos + 1 } c s.ipcMsgPos type u
          needReply).msgRet = s.msgRet := by
        cases needReply <;> rfl
      refine h.sendLoop (hpcs hp (by simp))
        ⟨h.toListInv.start hp c s.ipcMsgPos type u needReply, ?_, sendStart_pc .., ?_, .inr ?_⟩
      · refine .of_same (fun r hr => by rwa [hlog]) fun r v _ => ?_
        rw [hslot, sendStart_pc, sendStart_kern]
        exact ⟨rfl, rfl, rfl⟩
      · rw [hlog]
      · refine (hc hpos).congr fun v _ => ?_
        rw [hslot, sendStart_kern]
        exact ⟨rfl, rfl⟩
  | reply c type u hp =>
    rcases binChannelReply_cases s c type u with ⟨-, he⟩ | ⟨e, -, -, ⟨-, he⟩ | ⟨v, -, he⟩⟩
    · rwa [he]
    · rw [he] at hl ⊢
      refine h.go hl (.own s.kern.current (not_pending (hpcs hp (by simp))) (fun _ h => h)
        fun u hu => ⟨Function.update_of_ne hu .., rfl, rfl⟩) rfl fun _ _ h => h
    · rw [he] at hl ⊢
      refine h.go hl (.resume v rfl (fun u hu => ?_) rfl rfl) rfl fun _ _ h => h
      refine Function.update_of_ne ?_ ..
      rintro rfl
      exact hu hp
  | setError e hp =>
    refine h.go hl (.own s.kern.current (not_pending (hpcs hp (by simp))) (fun _ h => h)
      fun u hu => ⟨rfl, rfl, ?_⟩) rfl fun _ _ h => h
    rw [setKern_kern, setError, setThread_thread, if_neg hu]
  | recvResume c hp hr =>
    rcases recvResume_cases s c with ⟨hno, he⟩ | ⟨r, -, hm, he⟩
    · rw [he] at hl ⊢
      refine h.go hl (.own s.kern.current (fun r hr => ?_) (fun _ h => h) fun u hu =>
        ⟨rfl, Function.update_of_ne hu .., rfl⟩) rfl fun t r hr => ?_
      · rcases hno with hno | hno
        · exact hno hr.2.2.2
        · rw [hr.1] at hno
          cases hno
      · rcases mem_goto_msg hr with hr | hr
        · cases hr
        · exact hr
    · rw [he] at hl ⊢
      refine h.go hl (.recvMsg hm) rfl fun t r' hr' => ?_
      have hr' : r' ∈ ((s.goto s.kern.current .user).pc t).msg := hr'
      rcases mem_goto_msg hr' with hr' | hr'
      · cases hr'
      · exact hr'
  | sendRetry c r needReply u _ hp hr hs =>
    have hnp := not_pending (hpcs hp (by simp))
    have hka : Kept s (awake s) := .own s.kern.current hnp (fun _ h => h) fun u hu =>
      ⟨rfl, rfl, awake_thread s hu⟩
    rcases sendRetry_cases hs with ⟨-, rfl⟩ | ⟨-, -, rfl⟩
    · refine h.go hl (.own s.kern.current hnp (fun _ h => h) fun u hu => ?_) rfl fun _ _ h => h
      refine ⟨rfl, rfl, ?_⟩
      rw [mdelay_thread _ (by rwa [awake_current]), awake_thread s hu]
    · refine h.sendLoop (hpcs hp (by simp)) ⟨h.toListInv.retry hp, hka, rfl, rfl, .inl ?_⟩
      exact hka.got (h.sending s.kern.current r (by rw [hp]; rfl))
  | sendDrain c r sched hp hr =>
    have hg : Got s r := h.sending s.kern.current r (by rw [hp]; rfl)
    have hnp := not_pending (hpcs hp (by simp))
    rcases sendDrain_cases s c r with ⟨-, he⟩ | ⟨-, -, he⟩ | ⟨-, -, he⟩
    · rw [he] at hl ⊢
      refine h.go hl (.own s.kern.current hnp (fun _ h => h) fun u hu =>
        ⟨rfl, Function.update_of_ne hu .., rfl⟩) rfl fun t r hr => ?_
      rcases mem_goto_msg hr with hr | hr
      · cases hr
      · exact hr
    · rw [he] at hl ⊢
      have hk : Kept s (sendEnd (drainMsg s c) r) := .own s.kern.current hnp (fun _ h => h)
        fun u hu => ⟨rfl, Function.update_of_ne hu .., rfl⟩
      refine h.keep hl hk (fun r' hr' => ?_) fun t r' hr' => .inl ?_
      · rcases List.mem_cons.mp hr' with rfl | hr'
        · exact .inr (hk.got hg)
        · exact .inl hr'
      · have hr' : r' ∈ ((s.goto s.kern.current .user).pc t).msg := hr'
        rcases mem_goto_msg hr' with hr' | hr'
        · cases hr'
        · exact hr'
    · rw [he] at hl ⊢
      refine h.go hl (.own s.kern.current hnp (fun _ h => h) fun u hu =>
        ⟨rfl, Function.update_of_ne hu .., rtThreadSuspend_thread hu⟩) rfl fun t r' hr' => ?_
      rw [goto_pc, Function.update_apply] at hr'
      split at hr'
      · next ht => rw [ht, hp]; exact hr'
      · exact hr'
  | timeout u k hk =>
    unfold rtThreadTimeout at hk
    split at hk <;> cases hk
    next hu =>
    refine h.go hl (.own u (not_pending_suspend hu.1) (fun _ h => h) fun v hv =>
      ⟨rfl, rfl, ?_⟩) rfl fun _ _ h => h
    rw [setKern_kern, unlinkReady_thread, if_neg hv, setError, setThread_thread, if_neg hv]

theorem DeliverInv.init (flag priority : Nat → Nat) : DeliverInv (channelInit flag priority) :=
  ⟨.init flag priority, fun _ h => (List.not_mem_nil h).elim, fun _ _ h => by cases h⟩

/-- **Delivery.** In every run whose sends each reach a thread that takes the message, every message
for which `bin_channel_send` returned `RT_EOK` was returned by a `bin_channel_recv`, or is in the
slot of a resumed receiver that returns it next. -/
theorem channel_delivers (flag priority : Nat → Nat) (acts : List ChannelAct) (s : ChannelSys)
    (hx : exec channelStep (channelInit flag priority) acts = some s)
    (hc : Along channelStep SendsTaken (channelInit flag priority) acts) : Delivered s :=
  (hc.inv (I := DeliverInv) (fun _ _ _ h hk hs => h.step hk hs) hx
    (.init flag priority)).delivered

/-- The thread 1 receives, the thread 0 sends. -/
def sendOnce : List ChannelAct :=
  [.preempt 1, .recv 0 (-1), .preempt 0, .send 0 7 8 false, .preempt 1, .resume]

theorem channel_delivers_once : ∃ s, exec channelStep (channelInit (fun _ => 0) fun _ => 10)
    sendOnce = some s ∧ Delivered s ∧ s.log.sent = [0] ∧ s.log.recvd = [0] :=
  ⟨_, rfl, channel_delivers (fun _ => 0) (fun _ => 10) sendOnce _ rfl (by decide), rfl, rfl⟩

/-- A send with no thread on the list returns `RT_EOK`, and no later `bin_channel_recv` gets the
message. -/
theorem channel_drops : ¬ ∀ (flag priority : Nat → Nat) (acts : List ChannelAct) (s : ChannelSys),
    exec channelStep (channelInit flag priority) acts = some s → Delivered s := by
  intro h
  have hg := h (fun _ => 0) (fun _ => 10) [.send 0 7 8 false, .preempt 1, .recv 0 (-1)] _ rfl 0
    (by decide)
  rcases hg with hr | ⟨u, hm, -⟩
  · exact absurd hr (by decide)
  · cases hm

end Tudu.Channel
