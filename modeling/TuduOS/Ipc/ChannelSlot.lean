import TuduOS.Ipc.ChannelList

/-!
# The slot of a waiting receiver

A thread that is suspended in `bin_channel_recv` has an empty `msg_ret`, and no `bin_channel_send`
waits for an unread message (`SlotsEmpty`). Who empties the slot depends on `channel->reply`: if it
is `NULL`, `bin_channel_recv` does; else `bin_channel_reply` is to do it. The first send with
`need_reply` sets `channel->reply`, and nothing sets it to `NULL` again. From then on a message that
asks for no reply stays in the slot.

* **The condition** (`SlotKeeps`). A thread replies to each message that asks for it before its next
  `bin_channel_recv` (`Replied`). A message that asks for no reply is received where
  `channel->reply` is `NULL` (`PlainCleared`). A message goes to threads without an `error` only
  (`NoErrors`): the others return the error and leave it in the slot.
* **The invariant** (`SlotInv`, with `ListInv`). A thread with a message in its slot was resumed and
  takes it next, or is outside `bin_channel_recv` and has to reply to it.
-/

namespace Tudu.Channel

open Kern ChannelSys Lts

/-- The property: the slot of a suspended receiver is empty, and no send waits for one to be. -/
structure SlotsEmpty (s : ChannelSys) : Prop where
  recv : ∀ t c, s.pc t = .recv c → (s.kern.thread t).stat = .suspend → s.msgRet t = none
  send : ∀ t c r needReply u, s.pc t ≠ .sendUnread c r needReply u

/-! ## The condition -/

/-- A thread that calls `bin_channel_recv` has replied to what it had to reply to. -/
def Replied (s : ChannelSys) : ChannelAct → Prop
  | .recv _ _ => s.log.owes s.kern.current = false
  | _ => True

/-- The channel in whose `bin_channel_recv` the thread is. -/
def Pc.recvOf : Pc → Option Nat
  | .recv c => some c
  | _ => none

/-- A message that asks for no reply is received where `channel->reply` is `NULL`. -/
def PlainCleared (s : ChannelSys) : ChannelAct → Prop
  | .resume => ∀ c ∈ (s.pc s.kern.current).recvOf, s.msgRet s.kern.current ≠ none →
      s.log.owes s.kern.current = false → (s.channel c).reply = none
  | _ => True

/-- A send finds no error in the listed threads. -/
def NoErrors (s : ChannelSys) : ChannelAct → Prop
  | .send c _ _ _ => ∀ u ∈ s.kern.suspendThread c, (s.kern.thread u).error = rtEok
  | _ => True

structure SlotKeeps (s : ChannelSys) (act : ChannelAct) : Prop where
  replied : Replied s act
  plain : PlainCleared s act
  errors : NoErrors s act

instance (s : ChannelSys) : ∀ act, Decidable (Replied s act)
  | .recv _ _ => inferInstanceAs (Decidable (s.log.owes s.kern.current = false))
  | .preempt _ | .send .. | .reply .. | .resume | .timeout _ | .setError _ =>
    inferInstanceAs (Decidable True)

instance (s : ChannelSys) : ∀ act, Decidable (PlainCleared s act)
  | .resume => inferInstanceAs (Decidable (∀ c ∈ (s.pc s.kern.current).recvOf,
      s.msgRet s.kern.current ≠ none → s.log.owes s.kern.current = false →
        (s.channel c).reply = none))
  | .preempt _ | .recv .. | .send .. | .reply .. | .timeout _ | .setError _ =>
    inferInstanceAs (Decidable True)

instance (s : ChannelSys) : ∀ act, Decidable (NoErrors s act)
  | .send c _ _ _ => inferInstanceAs (Decidable
      (∀ u ∈ s.kern.suspendThread c, (s.kern.thread u).error = rtEok))
  | .preempt _ | .recv .. | .reply .. | .resume | .timeout _ | .setError _ =>
    inferInstanceAs (Decidable True)

instance (s : ChannelSys) (act : ChannelAct) : Decidable (SlotKeeps s act) :=
  decidable_of_iff (Replied s act ∧ PlainCleared s act ∧ NoErrors s act)
    ⟨fun h => ⟨h.1, h.2.1, h.2.2⟩, fun h => ⟨h.replied, h.plain, h.errors⟩⟩

/-! ## The invariant -/

/-- What is true of a thread with a message in its slot. -/
def SlotAt (s : ChannelSys) (t : Nat) : Prop :=
  s.msgRet t ≠ none →
    ((∃ c, s.pc t = .recv c) ∧ (s.kern.thread t).stat = .ready ∧
      (s.kern.thread t).error = rtEok) ∨
    (s.log.owes t = true ∧ ∀ c, s.pc t ≠ .recv c)

/-- Slots and places, without the lists. -/
structure SlotInv (s : ChannelSys) : Prop where
  slot : ∀ t, SlotAt s t
  unread : ∀ t c r needReply u, s.pc t ≠ .sendUnread c r needReply u

variable {s s' : ChannelSys} {k : Kern} {t u v c q r : Nat} {needReply sched : Bool}

theorem SlotAt.congr (h : SlotAt s t) (hm : s'.msgRet t = s.msgRet t) (hp : s'.pc t = s.pc t)
    (hk : s'.kern.thread t = s.kern.thread t) (ho : s'.log.owes t = s.log.owes t) :
    SlotAt s' t := by
  unfold SlotAt
  rw [hm, hp, hk, ho]
  exact h

/-- A thread outside `bin_channel_recv`, before and after. -/
theorem SlotAt.away (h : SlotAt s t) (hp : ∀ c, s.pc t ≠ .recv c) (hp' : ∀ c, s'.pc t ≠ .recv c)
    (hm : s'.msgRet t = s.msgRet t) (ho : s'.log.owes t = s.log.owes t) : SlotAt s' t := by
  intro hn
  rw [hm] at hn
  rcases h hn with ⟨⟨c, hc⟩, -⟩ | ⟨hw, -⟩
  · exact absurd hc (hp c)
  · exact .inr ⟨ho.trans hw, hp'⟩

/-- A thread that waits in `bin_channel_recv` has nothing in its slot. -/
theorem SlotAt.empty (h : SlotAt s t) (hp : s.pc t = .recv c)
    (hs : (s.kern.thread t).stat = .suspend) : s.msgRet t = none := by
  by_contra hn
  rcases h hn with ⟨-, hr, -⟩ | ⟨-, hne⟩
  · rw [hs] at hr
    cases hr
  · exact hne c hp

theorem SlotInv.slotsEmpty (h : SlotInv s) : SlotsEmpty s :=
  ⟨fun t _ hp hs => (h.slot t).empty hp hs, h.unread⟩

/-- A step that changes one thread. -/
theorem SlotInv.update (h : SlotInv s) (t : Nat)
    (hu : ∀ u, u ≠ t → s'.msgRet u = s.msgRet u ∧ s'.pc u = s.pc u ∧ s'.kern.thread u = s.kern.thread u ∧ s'.log.owes u = s.log.owes u)
    (ht : SlotAt s' t) (hn : ∀ c r needReply u, s'.pc t ≠ .sendUnread c r needReply u) :
    SlotInv s' := by
  constructor
  · intro u
    by_cases hut : u = t
    · subst hut; exact ht
    · obtain ⟨hm, hp, hk, ho⟩ := hu u hut
      exact (h.slot u).congr hm hp hk ho
  · intro u c r nr v
    by_cases hut : u = t
    · subst hut; exact hn c r nr v
    · rw [(hu u hut).2.1]
      exact h.unread u c r nr v

/-- A step of a thread outside `bin_channel_recv`. -/
theorem SlotInv.away (h : SlotInv s) (t : Nat) (hp : ∀ c, s.pc t ≠ .recv c)
    (hp' : ∀ c, s'.pc t ≠ .recv c) (hn : ∀ c r needReply u, s'.pc t ≠ .sendUnread c r needReply u)
    (hm : s'.msgRet = s.msgRet) (ho : s'.log.owes = s.log.owes)
    (hu : ∀ u, u ≠ t → s'.pc u = s.pc u ∧ s'.kern.thread u = s.kern.thread u) : SlotInv s' := by
  refine h.update t (fun u hut => ?_) ((h.slot t).away hp hp' (by rw [hm]) (by rw [ho])) hn
  rw [hm, ho]
  exact ⟨rfl, (hu u hut).1, (hu u hut).2, rfl⟩

/-! ## The loop of a send -/

/-- The loop of `bin_channel_send` by `t`. -/
structure Filling (t c : Nat) (us : List Nat) (s : ChannelSys) : Prop extends
    Round t c us s, SlotInv s where
  errors : ∀ v ∈ us, (s.kern.thread v).error = rtEok
  outside : ∀ c, s.pc t ≠ .recv c

theorem Filling.empty {us : List Nat} (h : Filling t c us s) (hv : v ∈ us) : s.msgRet v = none :=
  (h.slot v).empty (h.toRound.suspended hv).1 (h.toRound.suspended hv).2

/-- The listed thread has the message, and takes it next. -/
theorem SlotInv.give (h : SlotInv s) (hp : s.pc u = .recv c)
    (hs : (s.kern.thread u).stat = .suspend) (he : (s.kern.thread u).error = rtEok)
    (hk : s'.kern = s.kern.rtThreadResume u) (hm : s'.msgRet = Function.update s.msgRet u (some r))
    (hpc : s'.pc = s.pc) (ho : ∀ v, v ≠ u → s'.log.owes v = s.log.owes v) : SlotInv s' := by
  refine h.update u (fun v hv => ?_) (fun _ => .inl ?_) ?_
  · rw [hk, hm, hpc, Function.update_of_ne hv, rtThreadResume_thread hv]
    exact ⟨rfl, rfl, rfl, ho v hv⟩
  · rw [hpc, hk, rtThreadResume, if_pos hs, unlinkReady_thread, if_pos rfl]
    exact ⟨⟨c, hp⟩, rfl, he⟩
  · rw [hpc, hp]
    simp

theorem Asked.owes {b : Bool} (h : Asked s s' c u b) (hv : v ≠ u) :
    s'.log.owes v = s.log.owes v := by
  cases b with
  | false => rw [h.2.2.1]
  | true =>
    rw [h.2.2.2.1]
    exact Function.update_of_ne hv ..

theorem Filling.one {us : List Nat} (h : Filling t c (u :: us) s)
    (hs : SentOne s s' c r needReply u) : Filling t c us s' := by
  obtain ⟨hpu, hsu⟩ := h.toRound.suspended List.mem_cons_self
  refine ⟨h.toRound.one hs, h.toSlotInv.give hpu hsu (h.errors u List.mem_cons_self) hs.kern
    hs.msgRet hs.pc fun v hv => hs.asked.owes hv, fun v hv => ?_, ?_⟩
  · have hne : v ≠ u := by
      rintro rfl
      exact (List.nodup_cons.mp h.left).1 hv
    rw [hs.kern, rtThreadResume_thread hne]
    exact h.errors v (List.mem_cons_of_mem _ hv)
  · rw [hs.pc]
    exact h.outside

theorem SlotInv.sendLoop {l : List Nat} (h : Filling t c l s) :
    SlotInv (sendLoop c r needReply sched l s) := by
  refine sendLoop_inv (I := Filling t c) (fun s h' => ?_) (fun u us s h' hm => ?_)
    (fun u us s h' _ _ _ => ?_) (fun u us s s' h' _ ho => h'.one (sendOne_some ho)) l s h
  · have hp := h'.outside
    rw [← h'.current] at hp
    cases needReply with
    | true =>
      refine h'.toSlotInv.away s.kern.current hp (fun c' => ?_) (fun c' r' nr u => ?_) rfl rfl
        fun u hu => ⟨Function.update_of_ne hu .., rtThreadSuspend_thread hu⟩
      · simp [sendDone]
      · simp [sendDone]
    | false =>
      refine h'.toSlotInv.away s.kern.current hp (fun c' => ?_) (fun c' r' nr u => ?_) rfl rfl
        fun u hu => ⟨Function.update_of_ne hu .., rfl⟩
      · simp [sendDone]
      · simp [sendDone]
  · exact absurd (h'.empty List.mem_cons_self) hm
  · obtain ⟨hpu, hsu⟩ := h'.toRound.suspended List.mem_cons_self
    exact h'.toSlotInv.give hpu hsu (h'.errors u List.mem_cons_self) rfl rfl rfl fun _ _ => rfl

/-! ## Every step -/

theorem SlotInv.reply (h : SlotInv s) (hp : s.pc s.kern.current = .user) (type : Int) (d : Nat) :
    SlotInv (binChannelReply s c type d) := by
  rcases binChannelReply_cases s c type d with ⟨-, he⟩ | ⟨e, -, -, ⟨-, he⟩ | ⟨v, -, he⟩⟩
  · rwa [he]
  · rw [he]
    refine h.update s.kern.current (fun u hu => ⟨Function.update_of_ne hu .., rfl, rfl, rfl⟩)
      (fun hn => absurd ?_ hn) fun _ _ _ _ => ?_
    · exact Function.update_self ..
    · show s.pc s.kern.current ≠ _
      rw [hp]
      simp
  · rw [he]
    refine ⟨fun u => ?_, h.unread⟩
    by_cases hu : u = s.kern.current
    · subst hu
      exact fun hn => absurd (Function.update_self ..) hn
    · intro hn
      have hmu : (replyWake (replyMsg s c e type d) c e v).msgRet u = s.msgRet u :=
        Function.update_of_ne hu ..
      have hou : (replyWake (replyMsg s c e type d) c e v).log.owes u = s.log.owes u :=
        Function.update_of_ne hu ..
      rw [hmu] at hn
      rcases h.slot u hn with ⟨hc, hr, herr⟩ | ⟨ho, hne⟩
      · -- a ready thread is not resumed
        have hku : (replyWake (replyMsg s c e type d) c e v).kern.thread u =
            s.kern.thread u := rtThreadResume_ready hr
        rw [hku]
        exact .inl ⟨hc, hr, herr⟩
      · rw [hou]
        exact .inr ⟨ho, hne⟩

theorem SlotInv.recvResume (h : SlotInv s) (hp : s.pc s.kern.current = .recv c)
    (hpl : PlainCleared s .resume) : SlotInv (recvResume s c) := by
  rcases recvResume_cases s c with ⟨hno, he⟩ | ⟨r, -, hm, he⟩
  · -- nothing was in the slot
    have hempty : s.msgRet s.kern.current = none := by
      by_contra hn
      rcases h.slot s.kern.current hn with ⟨-, -, herr⟩ | ⟨-, hne⟩
      · exact hno.elim (fun hno => hno herr) hn
      · exact hne c hp
    rw [he]
    refine h.update s.kern.current (fun u hu => ⟨rfl, Function.update_of_ne hu .., rfl, rfl⟩)
      (fun hn => absurd hempty hn) fun _ _ _ _ => ?_
    simp
  · rw [he]
    refine h.update s.kern.current (fun u hu => ⟨?_, Function.update_of_ne hu .., rfl, rfl⟩)
      (fun hn => .inr ⟨?_, ?_⟩) fun _ _ _ _ => ?_
    · show (if _ then Function.update s.msgRet s.kern.current none else s.msgRet) u = s.msgRet u
      split
      · exact Function.update_of_ne hu ..
      · rfl
    · -- the message stays in the slot, so it asks for a reply
      by_contra hw
      have hw : s.log.owes s.kern.current = false := by simpa [recvMsg] using hw
      have hr := hpl c (by rw [hp]; rfl) (by rw [hm]; simp) hw
      refine hn ?_
      show (if _ then Function.update s.msgRet s.kern.current none else s.msgRet)
        s.kern.current = none
      rw [if_pos hr, Function.update_self]
    · simp [recvMsg]
    · simp [recvMsg]

theorem SlotInv.step (h : SlotInv s) (hl : ListInv s) {act : ChannelAct} (hc : SlotKeeps s act)
    (hs : channelStep s act = some s') : SlotInv s' := by
  cases (channelStep_some hs).2 with
  | preempt u hu => exact ⟨h.slot, h.unread⟩
  | recv c timeout _ hp hs =>
    have hthr : ∀ u, u ≠ s.kern.current → _ := fun u hu => binChannelRecv_thread hs hu
    obtain ⟨k, hk, rfl⟩ := Option.map_eq_some_iff.mp hs
    refine h.update s.kern.current
      (fun u hu => ⟨rfl, Function.update_of_ne hu .., hthr u hu, rfl⟩) (fun hn => ?_)
      fun _ _ _ _ => ?_
    · -- its slot was empty when it called
      rcases h.slot s.kern.current hn with ⟨⟨q, hq⟩, -⟩ | ⟨ho, -⟩
      · rw [hp] at hq
        cases hq
      · have hr : s.log.owes s.kern.current = false := hc.replied
        rw [hr] at ho
        cases ho
    · simp
  | send c type u needReply hp =>
    rcases binChannelSend_cases s c type u needReply with ⟨-, he⟩ | ⟨-, he⟩
    · rw [he]
      exact ⟨h.slot, h.unread⟩
    · rw [he]
      refine SlotInv.sendLoop (t := s.kern.current)
        ⟨hl.start hp c s.ipcMsgPos type u needReply, ?_, fun v hv => ?_, fun q => ?_⟩
      · cases needReply <;> exact ⟨h.slot, h.unread⟩
      · rw [sendStart_kern]
        exact hc.errors v hv
      · rw [sendStart_pc]
        exact (by rw [hp]; simp : s.pc s.kern.current ≠ .recv q)
  | reply c type u hp => exact h.reply hp type u
  | setError e hp =>
    refine h.away s.kern.current ?_ ?_ ?_ rfl rfl fun u hu => ⟨rfl, ?_⟩
    · rw [hp]
      simp
    · rw [setKern_pc, hp]
      simp
    · rw [setKern_pc, hp]
      simp
    · rw [setKern_kern, setError, setThread_thread, if_neg hu]
  | recvResume c hp hr => exact h.recvResume hp hc.plain
  | sendRetry c r needReply u _ hp hr hs => exact absurd hp (h.unread _ _ _ _ _)
  | sendDrain c r sched hp hr =>
    have hne : ∀ q, s.pc s.kern.current ≠ .recv q := by
      rw [hp]
      simp
    rcases sendDrain_cases s c r with ⟨-, he⟩ | ⟨-, -, he⟩ | ⟨-, -, he⟩
    · rw [he]
      refine h.away s.kern.current hne (fun q => ?_) (fun c' r' nr u => ?_) rfl rfl
        fun u hu => ⟨Function.update_of_ne hu .., rfl⟩
      · simp
      · simp
    · rw [he]
      refine h.away s.kern.current hne (fun q => ?_) (fun c' r' nr u => ?_) rfl rfl
        fun u hu => ⟨Function.update_of_ne hu .., rfl⟩
      · simp [sendEnd, drainMsg]
      · simp [sendEnd, drainMsg]
    · rw [he]
      refine h.away s.kern.current hne (fun q => ?_) (fun c' r' nr u => ?_) rfl rfl
        fun u hu => ⟨Function.update_of_ne hu .., rtThreadSuspend_thread hu⟩
      · simp
      · simp
  | timeout u k hk =>
    unfold rtThreadTimeout at hk
    split at hk <;> cases hk
    next hu =>
    refine h.update u (fun v hv => ⟨rfl, rfl, ?_, rfl⟩) (fun hn => ?_) (h.unread u)
    · rw [setKern_kern, unlinkReady_thread, if_neg hv, setError, setThread_thread, if_neg hv]
    · rcases h.slot u hn with ⟨-, hr, -⟩ | hw
      · rw [hu.1] at hr
        cases hr
      · exact .inr hw

theorem SlotInv.init (flag priority : Nat → Nat) : SlotInv (channelInit flag priority) :=
  ⟨fun _ hn => absurd rfl hn, fun _ _ _ _ _ => nofun⟩

/-- **Empty slots.** In every run that meets the condition, the slot of a thread that is suspended
in `bin_channel_recv` is empty, and no send waits for an unread message. -/
theorem channel_slots_empty (flag priority : Nat → Nat) (acts : List ChannelAct) (s : ChannelSys)
    (hx : exec channelStep (channelInit flag priority) acts = some s)
    (hc : Along channelStep SlotKeeps (channelInit flag priority) acts) : SlotsEmpty s := by
  have hinv : ListInv s ∧ SlotInv s := by
    refine hc.inv (I := fun s => ListInv s ∧ SlotInv s) (fun s act s' h hk hs => ?_) hx
      ⟨.init flag priority, .init flag priority⟩
    exact ⟨h.1.step hs, h.2.step h.1 hk hs⟩
  exact hinv.2.slotsEmpty

/-- A request from the thread 0 to the thread 1, with its reply. -/
def request : List ChannelAct :=
  [.preempt 1, .recv 0 (-1), .preempt 0, .send 0 7 8 true, .preempt 1, .resume, .reply 0 5 6,
    .recv 0 (-1), .preempt 0, .resume]

theorem channel_slots_empty_request : ∃ s,
    exec channelStep (channelInit (fun _ => 0) fun _ => 10) request = some s ∧ SlotsEmpty s ∧
      s.pc 1 = .recv 0 :=
  ⟨_, rfl, channel_slots_empty (fun _ => 0) (fun _ => 10) request _ rfl (by decide), rfl⟩

/-- After a request that was replied to, a message that asks for no reply stays in the slot. -/
theorem channel_slot_kept : ¬ ∀ (flag priority : Nat → Nat) (acts : List ChannelAct)
    (s : ChannelSys), exec channelStep (channelInit flag priority) acts = some s →
      Along channelStep Replied (channelInit flag priority) acts → SlotsEmpty s := by
  intro h
  have hslot := (h (fun _ => 0) (fun _ => 10)
    (request ++ [.send 0 7 8 false, .preempt 1, .resume, .recv 0 (-1)]) _ rfl (by decide)).recv 1 0
    rfl rfl
  cases hslot

end Tudu.Channel
