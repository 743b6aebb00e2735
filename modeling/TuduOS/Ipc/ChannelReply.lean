import TuduOS.Ipc.ChannelList

/-!
# Who gets a reply

Each `bin_channel_reply` that returns `RT_EOK` makes the thread runnable whose message the replier
had received, and that thread takes the reply (`Routed`). A channel has one `reply` thread, one
`waiting_list` and one `wait_msg` for all senders: a send with `need_reply` that starts while the
replies of another one are out overwrites `channel->reply`, and takes replies that are not its own.

* **The condition** (`RouteKeeps`). A send with `need_reply` starts on a channel without records for
  replies, and finds no unread message (`OneExchange`). A thread replies only if its last
  `bin_channel_recv` returned a message (`RepliesToMsg`).
* **The place of a record** (`Loc`). Each record is in one place: not taken yet, a message, on a
  `waiting_list`, on a `wait_msg`, or taken by a sender.
* **The invariant** (`RouteAt`, with `ListInv`). A channel with records for replies has its `reply`
  thread waiting in `bin_channel_send`, ready as soon as a reply is there. A record on
  `waiting_list` is that of a thread with a message from `channel->reply` in its slot (`Entry`).
-/

namespace Tudu.Channel

open Kern ChannelSys Lts

/-- The thread waits for replies on `c`. -/
def Waits (s : ChannelSys) (x c : Nat) : Prop := ∃ r sched, s.pc x = .sendWait c r sched

/-- The property. -/
def Routed (s : ChannelSys) : Prop :=
  ∀ ev ∈ s.log.replies, ev.asker = some ev.woke ∧
    ((ev.woke, ev.msg) ∈ s.log.drained ∨
      ev.msg ∈ (s.channel ev.channel).waitMsg ∧ Waits s ev.woke ev.channel ∧
        (s.kern.thread ev.woke).stat = .ready) ∧
    ∀ x, (x, ev.msg) ∈ s.log.drained → x = ev.woke

/-! ## The condition -/

/-- A send with `need_reply` starts on a channel without records for replies, and all the listed
threads have read their messages. -/
def OneExchange (s : ChannelSys) : ChannelAct → Prop
  | .send c _ _ needReply => needReply = true → (s.channel c).waitingList = [] ∧
      (s.channel c).waitMsg = [] ∧ ∀ u ∈ s.kern.suspendThread c, s.msgRet u = none
  | _ => True

/-- A thread replies only if its last `bin_channel_recv` returned a message. -/
def RepliesToMsg (s : ChannelSys) : ChannelAct → Prop
  | .reply _ _ _ => s.log.lastRecv s.kern.current ≠ none
  | _ => True

structure RouteKeeps (s : ChannelSys) (act : ChannelAct) : Prop where
  exchange : OneExchange s act
  reply : RepliesToMsg s act

instance (s : ChannelSys) : ∀ act, Decidable (OneExchange s act)
  | .send c _ _ needReply => inferInstanceAs (Decidable (needReply = true →
      (s.channel c).waitingList = [] ∧ (s.channel c).waitMsg = [] ∧
        ∀ u ∈ s.kern.suspendThread c, s.msgRet u = none))
  | .preempt _ | .recv .. | .reply .. | .resume | .timeout _ | .setError _ =>
    inferInstanceAs (Decidable True)

instance (s : ChannelSys) : ∀ act, Decidable (RepliesToMsg s act)
  | .reply _ _ _ => inferInstanceAs (Decidable (s.log.lastRecv s.kern.current ≠ none))
  | .preempt _ | .recv .. | .send .. | .resume | .timeout _ | .setError _ =>
    inferInstanceAs (Decidable True)

instance (s : ChannelSys) (act : ChannelAct) : Decidable (RouteKeeps s act) :=
  decidable_of_iff (OneExchange s act ∧ RepliesToMsg s act)
    ⟨fun h => ⟨h.1, h.2⟩, fun h => ⟨h.exchange, h.reply⟩⟩

/-! ## The invariant -/

/-- Where a record is. -/
inductive Loc where
  | fresh | msg
  | waiting (c : Nat)
  | replied (c : Nat)
  | drained (x : Nat)
  deriving DecidableEq

/-- What is true of a record `e` on the `waiting_list` of `c`. -/
structure Entry (s : ChannelSys) (c e r : Nat) : Prop where
  slot : s.msgRet (s.ipcMsg e).sender = some r
  reply : (s.channel c).reply = some (s.ipcMsg r).sender
  last : ∀ m, s.log.lastRecv (s.ipcMsg e).sender = some m → m.sender = (s.ipcMsg r).sender
  recv : ∀ q, s.pc (s.ipcMsg e).sender = .recv q →
    (s.kern.thread (s.ipcMsg e).sender).stat = .ready →
      (s.kern.thread (s.ipcMsg e).sender).error = rtEok → q = c

/-- What is true of a thread that waits for replies on `c`. -/
structure WaitAt (s : ChannelSys) (t c : Nat) (sched : Bool) : Prop where
  timer : (s.kern.thread t).stat = .suspend → (s.kern.thread t).timer = false
  mine : (s.channel c).reply = some t →
    ((s.kern.thread t).stat = .ready ↔ (s.channel c).waitMsg ≠ [])
  other : (s.channel c).reply ≠ some t →
    (s.kern.thread t).stat = .suspend ∧ t ≠ s.kern.current
  alone : sched = false → (s.channel c).reply = some t → (s.channel c).waitingList = []

/-- What is true of a thread. -/
def PcAt (s : ChannelSys) (t : Nat) : Pc → Prop
  | .user => (s.kern.thread t).stat = .ready
  | .recv _ => s.log.lastRecv t = none
  | .sendUnread _ _ needReply _ => needReply = false
  | .sendWait c _ sched => WaitAt s t c sched
  | .sendErr _ => True

/-- `w`: the channel in whose loop the current thread is, sending with `need_reply`. -/
structure RouteAt (w : Option Nat) (loc : Nat → Loc) (s : ChannelSys) : Prop where
  fresh : ∀ e, s.ipcMsgPos ≤ e → loc e = .fresh
  waiting : ∀ c e, e ∈ (s.channel c).waitingList ↔ loc e = .waiting c
  replied : ∀ c e, e ∈ (s.channel c).waitMsg ↔ loc e = .replied c
  nodup : ∀ c, (s.channel c).waitingList.Nodup
  slot : ∀ t r, s.msgRet t = some r → loc r = .msg
  msg : ∀ t, ∀ r ∈ (s.pc t).msg, loc r = .msg
  drained : ∀ x e, (x, e) ∈ s.log.drained → loc e = .drained x
  entry : ∀ c e, loc e = .waiting c → ∃ r, Entry s c e r
  one : ∀ c c' e e', loc e = .waiting c → loc e' = .waiting c' →
    (s.ipcMsg e).sender = (s.ipcMsg e').sender → e = e'
  opened : ∀ c e, loc e = .waiting c ∨ loc e = .replied c →
    ∃ x, (s.channel c).reply = some x ∧ (Waits s x c ∨ w = some c ∧ x = s.kern.current)
  busy : ∀ c, w = some c → (s.channel c).waitMsg = []
  thread : ∀ t, PcAt s t (s.pc t)
  event : ∀ ev ∈ s.log.replies, ev.asker = some ev.woke ∧
    ((ev.woke, ev.msg) ∈ s.log.drained ∨
      loc ev.msg = .replied ev.channel ∧ (s.channel ev.channel).reply = some ev.woke)

/-- A send whose loop is broken off leaves its channel open (`w`). -/
def RouteInv (s : ChannelSys) : Prop :=
  ∃ w loc, RouteAt w loc s ∧ (s.fault = false → w = none)

variable {s s' : ChannelSys} {k : Kern} {t u v c q r : Nat} {needReply sched : Bool}
  {w : Option Nat} {loc : Nat → Loc}

theorem RouteAt.routed (h : RouteAt w loc s) : Routed s := by
  intro ev hev
  obtain ⟨hask, hev⟩ := h.event ev hev
  refine ⟨hask, ?_, fun x hx => ?_⟩
  · rcases hev with hd | ⟨hl, hr⟩
    · exact .inl hd
    · have hm := (h.replied _ _).mpr hl
      obtain ⟨x, hx, hw⟩ := h.opened _ _ (.inr hl)
      obtain rfl : ev.woke = x := Option.some.inj (hr.symm.trans hx)
      rcases hw with hw | ⟨hw, -⟩
      · refine .inr ⟨hm, hw, ?_⟩
        obtain ⟨r, sched, hp⟩ := hw
        have hat := h.thread ev.woke
        rw [hp] at hat
        exact (hat.mine hr).mpr (List.ne_nil_of_mem hm)
      · rw [h.busy _ hw] at hm
        cases hm
  · have hx := h.drained x _ hx
    rcases hev with hd | ⟨hl, -⟩
    · have hw := h.drained _ _ hd
      rw [hx] at hw
      cases hw
      rfl
    · rw [hl] at hx
      cases hx

/-! ## What a step of one thread leaves -/

/-- The records and channels are the same. -/
structure SameData (s s' : ChannelSys) : Prop where
  msgRet : s'.msgRet = s.msgRet
  ipcMsg : s'.ipcMsg = s.ipcMsg
  pos : s'.ipcMsgPos = s.ipcMsgPos
  waiting : ∀ c, (s'.channel c).waitingList = (s.channel c).waitingList
  replied : ∀ c, (s'.channel c).waitMsg = (s.channel c).waitMsg
  reply : ∀ c, (s'.channel c).reply = (s.channel c).reply
  drained : s'.log.drained = s.log.drained
  replies : s'.log.replies = s.log.replies

/-- A thread that is as it was, in a step that leaves the current thread or switches to a ready
one. -/
theorem PcAt.congr {p : Pc} (h : PcAt s t p) (hk : s'.kern.thread t = s.kern.thread t)
    (hl : s'.log.lastRecv t = s.log.lastRecv t)
    (hreply : ∀ c, (s'.channel c).reply = (s.channel c).reply)
    (hmsg : ∀ c, (s'.channel c).waitMsg = (s.channel c).waitMsg)
    (hlist : ∀ c r sched, p = .sendWait c r sched → (s.channel c).reply = some t → (s'.channel c).waitingList = (s.channel c).waitingList)
    (hcur : s'.kern.current = s.kern.current ∨ (s'.kern.thread s'.kern.current).stat = .ready) :
    PcAt s' t p := by
  cases p with
  | user => exact (congrArg Thread.stat hk).trans h
  | recv => exact hl.trans h
  | sendUnread => exact h
  | sendErr => trivial
  | sendWait c r sched =>
    refine ⟨?_, ?_, ?_, fun hs hr => ?_⟩
    rotate_right
    · rw [hreply] at hr
      rw [hlist c r sched rfl hr]
      exact h.alone hs hr
    · rw [hk]
      exact h.timer
    · rw [hk, hreply, hmsg]
      exact h.mine
    · rw [hreply]
      intro hne
      obtain ⟨hs, hc⟩ := h.other hne
      rw [← hk] at hs
      refine ⟨hs, ?_⟩
      rcases hcur with hcur | hcur
      · rwa [hcur]
      · rintro rfl
        rw [hs] at hcur
        cases hcur

theorem RouteAt.not_empty (h : RouteAt w loc s) {e : Nat}
    (he : loc e = .waiting c ∨ loc e = .replied c) :
    ¬ ((s.channel c).waitingList = [] ∧ (s.channel c).waitMsg = []) := by
  rintro ⟨hwl, hwm⟩
  rcases he with he | he
  · exact List.not_mem_nil (hwl ▸ (h.waiting c e).mpr he)
  · exact List.not_mem_nil (hwm ▸ (h.replied c e).mpr he)

/-- A step of the thread `t` that leaves the records and channels. -/
theorem RouteAt.own (h : RouteAt w loc s) (t : Nat) (hd : SameData s s')
    (hcur : s'.kern.current = s.kern.current)
    (hu : ∀ u, u ≠ t → s'.pc u = s.pc u ∧ s'.kern.thread u = s.kern.thread u ∧ s'.log.lastRecv u = s.log.lastRecv u)
    (hwait : ∀ c, Waits s t c → Waits s' t c ∨ (s.channel c).waitingList = [] ∧ (s.channel c).waitMsg = [])
    (hlast : ∀ m, s'.log.lastRecv t = some m → s.log.lastRecv t = some m ∨ ∃ r, s.msgRet t = some r ∧ m = s.ipcMsg r)
    (hrecv : ∀ q, s'.pc t = .recv q → (s'.kern.thread t).stat = .ready → (s'.kern.thread t).error = rtEok → s.pc t = .recv q ∧ (s.kern.thread t).stat = .ready ∧ (s.kern.thread t).error = rtEok)
    (hmsg : ∀ r ∈ (s'.pc t).msg, loc r = .msg) (ht : PcAt s' t (s'.pc t)) : RouteAt w loc s' where
  msg u := by
    by_cases hut : u = t
    · subst hut; exact hmsg
    · rw [(hu u hut).1]
      exact h.msg u
  fresh := by rw [hd.pos]; exact h.fresh
  waiting c e := by rw [hd.waiting]; exact h.waiting c e
  replied c e := by rw [hd.replied]; exact h.replied c e
  nodup c := by rw [hd.waiting]; exact h.nodup c
  slot := by rw [hd.msgRet]; exact h.slot
  drained := by rw [hd.drained]; exact h.drained
  one := by rw [hd.ipcMsg]; exact h.one
  busy c hw := by rw [hd.replied]; exact h.busy c hw
  event := by
    simp only [hd.replies, hd.drained, hd.reply]
    exact h.event
  opened c e he := by
    obtain ⟨x, hx, hw⟩ := h.opened c e he
    refine ⟨x, (hd.reply c).trans hx, hw.imp (fun hw => ?_) fun hw => ⟨hw.1, hw.2.trans hcur.symm⟩⟩
    by_cases hxt : x = t
    · subst hxt
      exact (hwait c hw).resolve_right (h.not_empty he)
    · unfold Waits
      rwa [(hu x hxt).1]
  entry c e he := by
    obtain ⟨r, hr⟩ := h.entry c e he
    refine ⟨r, ?_, ?_, ?_, ?_⟩
    · rw [hd.msgRet, hd.ipcMsg]
      exact hr.slot
    · rw [hd.reply, hd.ipcMsg]
      exact hr.reply
    · rw [hd.ipcMsg]
      intro m hm
      by_cases hst : (s.ipcMsg e).sender = t
      · rw [hst] at hm
        rcases hlast m hm with hm | ⟨r', hr', rfl⟩
        · exact hr.last m (hst ▸ hm)
        · have hslot := hr.slot
          rw [hst, hr'] at hslot
          cases hslot
          rfl
      · rw [(hu _ hst).2.2] at hm
        exact hr.last m hm
    · rw [hd.ipcMsg]
      intro q hp hs herr
      by_cases hst : (s.ipcMsg e).sender = t
      · rw [hst] at hp hs herr
        obtain ⟨hp, hs, herr⟩ := hrecv q hp hs herr
        exact hr.recv q (hst ▸ hp) (hst ▸ hs) (hst ▸ herr)
      · rw [(hu _ hst).1] at hp
        rw [(hu _ hst).2.1] at hs herr
        exact hr.recv q hp hs herr
  thread u := by
    by_cases hut : u = t
    · subst hut; exact ht
    · obtain ⟨hp, hk, hl⟩ := hu u hut
      rw [hp]
      exact (h.thread u).congr hk hl hd.reply hd.replied (fun c _ _ _ _ => hd.waiting c) (.inl hcur)

/-! ## The loop of a send -/

theorem give_channel (s : ChannelSys) (c r u q : Nat) :
    ((give s c r u).channel q).waitingList = (s.channel q).waitingList ∧
      ((give s c r u).channel q).waitMsg = (s.channel q).waitMsg ∧
      ((give s c r u).channel q).reply = (s.channel q).reply := by
  by_cases hq : q = c
  · subst hq
    simp [give]
  · simp [give, hq]

/-- A thread with an empty slot has nothing to reply to. -/
theorem RouteAt.no_entry (h : RouteAt w loc s) (hm : s.msgRet u = none) {e : Nat}
    (he : loc e = .waiting c) : (s.ipcMsg e).sender ≠ u := by
  rintro rfl
  obtain ⟨r, hr⟩ := h.entry c e he
  rw [hr.slot] at hm
  cases hm

/-- A listed thread gets the message `r`. -/
theorem RouteAt.give (h : RouteAt w loc s) (hp : s.pc u = .recv c) (hm : s.msgRet u = none)
    (hr : loc r = .msg) : RouteAt w loc (give s c r u) where
  fresh := h.fresh
  waiting q e := by rw [(give_channel ..).1]; exact h.waiting q e
  replied q e := by rw [(give_channel ..).2.1]; exact h.replied q e
  nodup q := by rw [(give_channel ..).1]; exact h.nodup q
  slot t r' ht := by
    by_cases htu : t = u
    · subst htu
      simp only [Channel.give, Function.update_self, Option.some.injEq] at ht
      rwa [← ht]
    · simp only [Channel.give, Function.update_of_ne htu] at ht
      exact h.slot t r' ht
  msg := h.msg
  drained := h.drained
  one := h.one
  busy q hq := by rw [(give_channel ..).2.1]; exact h.busy q hq
  opened q e he := by
    rw [(give_channel ..).2.2]
    obtain ⟨x, hx, hw⟩ := h.opened q e he
    exact ⟨x, hx, hw.imp_right fun hw => ⟨hw.1, hw.2.trans (rtThreadResume_current ..).symm⟩⟩
  event := by
    simp only [(give_channel ..).2.2]
    exact h.event
  entry q e he := by
    obtain ⟨r', hr'⟩ := h.entry q e he
    have hne := h.no_entry hm he
    refine ⟨r', ?_, ?_, hr'.last, ?_⟩
    · simp only [Channel.give, Function.update_of_ne hne]
      exact hr'.slot
    · rw [(give_channel ..).2.2]
      exact hr'.reply
    · simp only [Channel.give, rtThreadResume_thread hne]
      exact hr'.recv
  thread t := by
    show PcAt _ t (s.pc t)
    by_cases htu : t = u
    · subst htu
      have hat := h.thread t
      rw [hp] at hat ⊢
      exact hat
    · exact (h.thread t).congr (rtThreadResume_thread htu) rfl (fun q => (give_channel ..).2.2)
        (fun q => (give_channel ..).2.1) (fun q _ _ _ _ => (give_channel ..).1)
        (.inl (rtThreadResume_current ..))

/-- The record that is taken next is in no place yet. -/
theorem RouteAt.next (h : RouteAt w loc s) {e : Nat} {l : Loc} (he : loc e = l)
    (hl : l ≠ .fresh) : e ≠ s.ipcMsgPos := by
  rintro rfl
  exact hl (he.symm.trans (h.fresh _ (Nat.le_refl _)))

theorem RouteAt.next_iff (h : RouteAt w loc s) {e : Nat} (l m : Loc) (hl : l ≠ m)
    (hf : l ≠ .fresh) : Function.update loc s.ipcMsgPos m e = l ↔ loc e = l := by
  by_cases he : e = s.ipcMsgPos
  · subst he
    rw [Function.update_self, h.fresh _ (Nat.le_refl _)]
    exact iff_of_false hl.symm hf.symm
  · rw [Function.update_of_ne he]

/-- The record for the reply of `u`, which has a message of `channel->reply` in its slot. -/
theorem RouteAt.ask (h : RouteAt (some c) loc s) (hs : addReplyMsg s c u = some s')
    (hno : ∀ q e, loc e = .waiting q → (s.ipcMsg e).sender ≠ u) (hp : s.pc u = .recv c)
    (hslot : s.msgRet u = some r) (hr : (s.channel c).reply = some (s.ipcMsg r).sender)
    (hcur : (s.channel c).reply = some s.kern.current) (hnw : ¬ Waits s s.kern.current c) :
    RouteAt (some c) (Function.update loc s.ipcMsgPos (.waiting c)) s' := by
  have hpos : loc s.ipcMsgPos = .fresh := h.fresh _ (Nat.le_refl _)
  have hrl : loc r = .msg := h.slot u r hslot
  unfold addReplyMsg ipcMsgAlloc at hs
  split at hs
  · cases hs
  next e s1 halloc =>
  split at halloc <;> cases halloc
  cases hs
  have hsender : ∀ {e l}, loc e = l → l ≠ .fresh →
      Function.update s.ipcMsg s.ipcMsgPos { s.ipcMsg s.ipcMsgPos with sender := u, type := 0 } e =
        s.ipcMsg e := fun he hl => Function.update_of_ne (h.next he hl) ..
  have hchan : ∀ q, (Function.update s.channel c { s.channel c with
      waitingList := s.ipcMsgPos :: (s.channel c).waitingList } q).waitMsg =
        (s.channel q).waitMsg ∧
      (Function.update s.channel c { s.channel c with
        waitingList := s.ipcMsgPos :: (s.channel c).waitingList } q).reply =
        (s.channel q).reply := by
    intro q
    by_cases hq : q = c
    · subst hq
      simp
    · simp [hq]
  constructor
  · intro e he
    rw [Function.update_of_ne (Nat.ne_of_gt he)]
    exact h.fresh e (Nat.le_of_lt he)
  · -- waiting
    intro q e
    by_cases hq : q = c
    · subst hq
      simp only [Function.update_self, List.mem_cons]
      by_cases he : e = s.ipcMsgPos
      · subst he
        simp
      · rw [Function.update_of_ne he, h.waiting]
        exact or_iff_right he
    · simp only [Function.update_of_ne hq]
      rw [h.waiting, h.next_iff (.waiting q) (.waiting c) (fun e => hq (Loc.waiting.inj e)) nofun]
  · intro q e
    rw [(hchan q).1, h.replied, h.next_iff (.replied q) (.waiting c) nofun nofun]
  · intro q
    by_cases hq : q = c
    · subst hq
      simp only [Function.update_self]
      refine List.nodup_cons.mpr ⟨fun hm => ?_, h.nodup q⟩
      rw [h.waiting, hpos] at hm
      cases hm
    · simp only [Function.update_of_ne hq]
      exact h.nodup q
  · intro t r' ht
    exact (h.next_iff .msg (.waiting c) nofun nofun).mpr (h.slot t r' ht)
  · intro t r' ht
    exact (h.next_iff .msg (.waiting c) nofun nofun).mpr (h.msg t r' ht)
  · intro x e hx
    exact (h.next_iff (.drained x) (.waiting c) nofun nofun).mpr (h.drained x e hx)
  · -- entry
    intro q e he
    by_cases hep : e = s.ipcMsgPos
    · subst hep
      rw [Function.update_self] at he
      obtain rfl := Loc.waiting.inj he
      have hat := h.thread u
      rw [hp] at hat
      have hrs := hsender hrl nofun
      refine ⟨r, ?_, ?_, ?_, ?_⟩
      · simpa using hslot
      · exact (hchan c).2.trans (hr.trans (congrArg (fun m => some m.sender) hrs.symm))
      · intro m hm
        simp only [Function.update_self] at hm
        rw [hat] at hm
        cases hm
      · intro q hq _ _
        simp only [Function.update_self] at hq
        rw [hp] at hq
        cases hq
        rfl
    · rw [Function.update_of_ne hep] at he
      obtain ⟨r', hr'⟩ := h.entry q e he
      have hrs := hsender (h.slot _ _ hr'.slot) nofun
      have hes := hsender he nofun
      refine ⟨r', ?_, ?_, ?_, ?_⟩
      · simp only [hes]
        exact hr'.slot
      · exact (hchan q).2.trans (hr'.reply.trans (congrArg (fun m => some m.sender) hrs.symm))
      · simp only [hes, hrs]
        exact hr'.last
      · simp only [hes]
        exact hr'.recv
  · -- one record for each thread
    intro q q' e e' he he' hsame
    by_cases hep : e = s.ipcMsgPos
    · by_cases hep' : e' = s.ipcMsgPos
      · rw [hep, hep']
      · rw [Function.update_of_ne hep'] at he'
        simp only [hep, Function.update_self, hsender he' nofun] at hsame
        exact absurd hsame.symm (hno q' e' he')
    · rw [Function.update_of_ne hep] at he
      by_cases hep' : e' = s.ipcMsgPos
      · simp only [hep', Function.update_self, hsender he nofun] at hsame
        exact absurd hsame (hno q e he)
      · rw [Function.update_of_ne hep'] at he'
        simp only [hsender he nofun, hsender he' nofun] at hsame
        exact h.one q q' e e' he he' hsame
  · intro q e he
    rw [(hchan q).2]
    by_cases hep : e = s.ipcMsgPos
    · subst hep
      simp only [Function.update_self, Loc.waiting.injEq, reduceCtorEq, or_false] at he
      subst he
      exact ⟨s.kern.current, hcur, .inr ⟨rfl, rfl⟩⟩
    · rw [Function.update_of_ne hep] at he
      exact h.opened q e he
  · intro q hq
    rw [(hchan q).1]
    exact h.busy q hq
  · intro t
    refine (h.thread t).congr rfl rfl (fun q => (hchan q).2) (fun q => (hchan q).1)
      (fun q r sched hpt hrt => ?_) (.inl rfl)
    by_cases hq : q = c
    · subst hq
      rw [hcur] at hrt
      cases hrt
      exact absurd ⟨r, sched, hpt⟩ hnw
    · simp [hq]
  · intro ev hev
    rw [(hchan _).2, h.next_iff (.replied _) (.waiting c) nofun nofun]
    exact h.event ev hev

/-- The sender waits for its replies, or has them all. -/
theorem RouteAt.close (h : RouteAt (some c) loc s)
    (hw : Waits s s.kern.current c ∨ (s.channel c).waitingList = [] ∧ (s.channel c).waitMsg = []) :
    RouteAt none loc s where
  fresh := h.fresh
  waiting := h.waiting
  replied := h.replied
  nodup := h.nodup
  slot := h.slot
  msg := h.msg
  drained := h.drained
  entry := h.entry
  one := h.one
  thread := h.thread
  event := h.event
  busy := nofun
  opened q e he := by
    obtain ⟨x, hx, hwx | ⟨hq, rfl⟩⟩ := h.opened q e he
    · exact ⟨x, hx, .inl hwx⟩
    · cases hq
      exact ⟨_, hx, .inl (hw.resolve_right (h.not_empty he))⟩

/-- The loop of `bin_channel_send` by `t`. -/
structure Routing (t c r : Nat) (needReply sched : Bool) (us : List Nat) (s : ChannelSys) :
    Prop extends Round t c us s where
  route : ∃ loc, RouteAt (if needReply then some c else none) loc s ∧ loc r = .msg
  ready : (s.kern.thread t).stat = .ready
  notRecv : ∀ q, s.pc t ≠ .recv q
  notWait : ∀ q, ¬ Waits s t q
  ask : needReply = true → (s.channel c).reply = some t ∧ (s.ipcMsg r).sender = t ∧
    ∀ v ∈ us, s.msgRet v = none
  alone : needReply = true → sched = false → us = [] ∧ (s.channel c).waitingList = []

theorem Routing.one {us : List Nat} (h : Routing t c r needReply sched (u :: us) s)
    (hm : s.msgRet u = none) (hs : sendOne s c r needReply u = some s') :
    Routing t c r needReply sched us s' := by
  have ho := sendOne_some hs
  obtain ⟨hpu, hsu⟩ := h.toRound.suspended List.mem_cons_self
  have hut : u ≠ t := h.toRound.ne List.mem_cons_self
  obtain ⟨loc, hat, hr⟩ := h.route
  have hgive := hat.give hpu hm hr
  refine ⟨h.toRound.one ho, ?_, ?_, ?_, fun q hq => ?_, fun hn => ?_, fun hn hs => ?_⟩
  rotate_right
  · cases (h.alone hn hs).1
  · cases needReply with
    | false =>
      cases hs
      exact ⟨loc, hgive, hr⟩
    | true =>
      obtain ⟨hrep, hsend, -⟩ := h.ask rfl
      have hrep' : ((give s c r u).channel c).reply = some t := by
        rw [(give_channel ..).2.2]
        exact hrep
      have hcur : (give s c r u).kern.current = t := (rtThreadResume_current ..).trans h.current
      refine ⟨_, hgive.ask hs (fun q e he => hat.no_entry hm he) hpu (r := r) ?_ ?_ ?_ ?_, ?_⟩
      · exact Function.update_self ..
      · rw [hrep']
        exact congrArg some hsend.symm
      · rw [hrep', hcur]
      · rw [hcur]
        exact h.notWait c
      · rw [Function.update_of_ne]
        · exact hr
        · intro e
          have hpos : loc (give s c r u).ipcMsgPos = .fresh := hat.fresh _ (Nat.le_refl _)
          rw [← e, hr] at hpos
          cases hpos
  · rw [ho.kern, rtThreadResume_thread hut.symm]
    exact h.ready
  · rw [ho.pc]
    exact h.notRecv
  · unfold Waits at hq
    rw [ho.pc] at hq
    exact h.notWait q hq
  · obtain ⟨hrep, hsend, hempty⟩ := h.ask hn
    subst hn
    have hpos : loc s.ipcMsgPos = .fresh := hat.fresh _ (Nat.le_refl _)
    obtain ⟨-, -, ⟨d, hip⟩, -, -⟩ := ho.asked
    refine ⟨ho.reply.trans hrep, ?_, fun v hv => ?_⟩
    · rw [hip, Function.update_of_ne]
      · exact hsend
      · rintro rfl
        rw [hr] at hpos
        cases hpos
    · rw [ho.msgRet, Function.update_of_ne]
      · exact hempty v (List.mem_cons_of_mem _ hv)
      · rintro rfl
        exact (List.nodup_cons.mp h.left).1 hv

theorem RouteAt.sendLoop {l : List Nat} (h : Routing t c r needReply sched l s) (hf : s.fault = false) :
    RouteInv (sendLoop c r needReply sched l s) := by
  refine sendLoop_inv (I := fun us s => Routing t c r needReply sched us s ∧ s.fault = false)
    (J := RouteInv) (fun s h' => ?_) (fun u us s h' hm => ?_) (fun u us s h' hm hr _ => ?_)
    (fun u us s s' h' hm ho => ⟨h'.1.one hm ho, (sendOne_some ho).fault.trans h'.2⟩) l s ⟨h, hf⟩
  · -- the end of the loop
    obtain ⟨h', -⟩ := h'
    obtain ⟨loc, hat, hrl⟩ := h'.route
    have hcur := h'.current
    have hready := h'.ready
    have hnw := h'.notWait
    rw [← hcur] at hready hnw
    cases needReply with
    | false =>
      refine ⟨none, loc, ?_, fun _ => rfl⟩
      refine hat.own s.kern.current ⟨rfl, rfl, rfl, fun _ => rfl, fun _ => rfl, fun _ => rfl, rfl,
        rfl⟩ rfl (fun u hu => ⟨Function.update_of_ne hu .., rfl, rfl⟩)
        (fun q hq => absurd hq (hnw q)) (fun m hm => .inl hm) (fun q hq => ?_) (fun r' hr' => ?_) ?_
      · simp [sendDone] at hq
      · simp [sendDone, Pc.msg] at hr'
      · simp only [sendDone, Bool.false_eq_true, if_false, goto_pc, Function.update_self]
        exact hready
    | true =>
      obtain ⟨hrep, -, -⟩ := h'.ask rfl
      have hsus : s.kern.rtThreadSuspend s.kern.current = s.kern.setThread s.kern.current
          { s.kern.thread s.kern.current with stat := .suspend, timer := false } := if_pos hready
      have hpc : (sendDone s c r true sched).pc s.kern.current = .sendWait c r sched :=
        Function.update_self ..
      have hthr : (sendDone s c r true sched).kern.thread s.kern.current =
          { s.kern.thread s.kern.current with stat := .suspend, timer := false } := by
        simp only [sendDone, if_true, goto_kern, setKern_kern, hsus, setThread_thread]
      have hkc : (sendDone s c r true sched).kern.current = s.kern.current :=
        rtThreadSuspend_current ..
      refine ⟨none, loc, RouteAt.close (c := c) ?_ ?_, fun _ => rfl⟩
      · refine hat.own s.kern.current ⟨rfl, rfl, rfl, fun _ => rfl, fun _ => rfl, fun _ => rfl,
          rfl, rfl⟩ hkc
          (fun u hu => ⟨Function.update_of_ne hu .., rtThreadSuspend_thread hu, rfl⟩)
          (fun q hq => absurd hq (hnw q)) (fun m hm => .inl hm) (fun q hq => ?_) (fun r' hr' => ?_) ?_
        · rw [hpc] at hq
          cases hq
        · rw [hpc] at hr'
          cases hr'
          exact hrl
        · rw [hpc]
          refine ⟨fun _ => by rw [hthr], fun _ => ?_, fun hne => absurd (hcur ▸ hrep) hne,
            fun hs _ => (h'.alone rfl hs).2⟩
          rw [hthr]
          exact iff_of_false nofun fun hne => hne (hat.busy c rfl)
      · rw [hkc]
        exact .inl ⟨r, sched, hpc⟩
  · -- an unread message
    obtain ⟨h', -⟩ := h'
    obtain ⟨loc, hat, hrl⟩ := h'.route
    have hnw := h'.notWait
    rw [← h'.current] at hnw
    cases needReply with
    | true => exact absurd ((h'.ask rfl).2.2 u List.mem_cons_self) hm
    | false =>
      refine ⟨none, loc, ?_, fun _ => rfl⟩
      refine hat.own s.kern.current ⟨rfl, rfl, rfl, fun _ => rfl, fun _ => rfl, fun _ => rfl, rfl,
        rfl⟩ (rtThreadSuspend_current ..)
        (fun v hv => ⟨Function.update_of_ne hv .., mdelay_thread s hv, rfl⟩)
        (fun q hq => absurd hq (hnw q)) (fun m hm => .inl hm) (fun q hq => ?_) (fun r' hr' => ?_) ?_
      · simp at hq
      · simp only [goto_pc, Function.update_self] at hr'
        cases hr'
        exact hrl
      · simp only [goto_pc, Function.update_self]
        rfl
  · -- no record for the reply
    obtain ⟨h', -⟩ := h'
    obtain ⟨loc, hat, hrl⟩ := h'.route
    obtain ⟨hpu, -⟩ := h'.toRound.suspended List.mem_cons_self
    have hgive := hat.give hpu hm hrl
    exact ⟨_, loc, ⟨hgive.fresh, hgive.waiting, hgive.replied, hgive.nodup, hgive.slot,
      hgive.msg, hgive.drained, fun q e he => (hgive.entry q e he).imp fun _ hr =>
        ⟨hr.slot, hr.reply, hr.last, hr.recv⟩, hgive.one, hgive.opened, hgive.busy,
      fun t => (hgive.thread t).congr rfl rfl (fun _ => rfl) (fun _ => rfl)
        (fun _ _ _ _ _ => rfl) (.inl rfl),
      hgive.event⟩, nofun⟩

/-! ## The start of a send -/

/-- The record of the message. -/
theorem RouteAt.take (h : RouteAt w loc s) (type : Int) (d : Nat) :
    RouteAt w (Function.update loc s.ipcMsgPos .msg)
      (ipcMsgInit { s with ipcMsgPos := s.ipcMsgPos + 1 } s.ipcMsgPos type d) where
  fresh e he := by
    rw [Function.update_of_ne (Nat.ne_of_gt he)]
    exact h.fresh e (Nat.le_of_lt he)
  waiting q e := (h.waiting q e).trans (h.next_iff (.waiting q) .msg nofun nofun).symm
  replied q e := (h.replied q e).trans (h.next_iff (.replied q) .msg nofun nofun).symm
  nodup := h.nodup
  slot t r ht := by
    have hr := h.slot t r ht
    rwa [Function.update_of_ne (h.next hr nofun)]
  msg t r ht := by
    have hr := h.msg t r ht
    rwa [Function.update_of_ne (h.next hr nofun)]
  drained x e hx := (h.next_iff (.drained x) .msg nofun nofun).mpr (h.drained x e hx)
  entry q e he := by
    have he := (h.next_iff (.waiting q) .msg nofun nofun).mp he
    obtain ⟨r, hr⟩ := h.entry q e he
    have hes := Function.update_of_ne (h.next he nofun) (⟨s.kern.current, type, d⟩ : BinChannelMsg)
      s.ipcMsg
    have hrs := Function.update_of_ne (h.next (h.slot _ _ hr.slot) nofun)
      (⟨s.kern.current, type, d⟩ : BinChannelMsg) s.ipcMsg
    refine ⟨r, ?_, ?_, ?_, ?_⟩
    · simp only [ipcMsgInit, hes]
      exact hr.slot
    · simp only [ipcMsgInit, hrs]
      exact hr.reply
    · simp only [ipcMsgInit, hes, hrs]
      exact hr.last
    · simp only [ipcMsgInit, hes]
      exact hr.recv
  one q q' e e' he he' hsame := by
    have he := (h.next_iff (.waiting q) .msg nofun nofun).mp he
    have he' := (h.next_iff (.waiting q') .msg nofun nofun).mp he'
    simp only [ipcMsgInit, Function.update_of_ne (h.next he nofun),
      Function.update_of_ne (h.next he' nofun)] at hsame
    exact h.one q q' e e' he he' hsame
  opened q e he := by
    rw [h.next_iff (.waiting q) .msg nofun nofun, h.next_iff (.replied q) .msg nofun nofun] at he
    exact h.opened q e he
  busy := h.busy
  thread t := (h.thread t).congr rfl rfl (fun _ => rfl) (fun _ => rfl) (fun _ _ _ _ _ => rfl)
    (.inl rfl)
  event ev hev := by
    rw [h.next_iff (.replied _) .msg nofun nofun]
    exact h.event ev hev

/-- A send with `need_reply` on a channel without records for replies. -/
theorem RouteAt.request (h : RouteAt none loc s) (hp : s.pc s.kern.current = .user)
    (hwl : (s.channel c).waitingList = []) (hwm : (s.channel c).waitMsg = []) :
    RouteAt (some c) loc (s.setChannel c { s.channel c with reply := some s.kern.current }) := by
  have hne : ∀ {q e}, loc e = .waiting q ∨ loc e = .replied q → q ≠ c := by
    rintro q e he rfl
    exact h.not_empty he ⟨hwl, hwm⟩
  have hchan : ∀ q,
      ((s.setChannel c { s.channel c with reply := some s.kern.current }).channel q).waitingList =
        (s.channel q).waitingList ∧
      ((s.setChannel c { s.channel c with reply := some s.kern.current }).channel q).waitMsg =
        (s.channel q).waitMsg := by
    intro q
    by_cases hq : q = c
    · subst hq
      simp
    · simp [hq]
  have hreply : ∀ q, q ≠ c →
      ((s.setChannel c { s.channel c with reply := some s.kern.current }).channel q).reply =
        (s.channel q).reply := fun q hq => by simp [hq]
  have hself :
      ((s.setChannel c { s.channel c with reply := some s.kern.current }).channel c).reply =
        some s.kern.current := by simp
  constructor
  · exact h.fresh
  · intro q e
    rw [(hchan q).1]
    exact h.waiting q e
  · intro q e
    rw [(hchan q).2]
    exact h.replied q e
  · intro q
    rw [(hchan q).1]
    exact h.nodup q
  · exact h.slot
  · exact h.msg
  · exact h.drained
  · intro q e he
    obtain ⟨r, hr⟩ := h.entry q e he
    exact ⟨r, hr.slot, (hreply q (hne (.inl he))).trans hr.reply, hr.last, hr.recv⟩
  · exact h.one
  · intro q e he
    obtain ⟨x, hx, hw⟩ := h.opened q e he
    exact ⟨x, (hreply q (hne he)).trans hx, .inl (hw.resolve_right nofun)⟩
  · rintro q ⟨⟩
    rw [(hchan c).2]
    exact hwm
  · intro t
    have hat := h.thread t
    show PcAt _ t (s.pc t)
    cases hpt : s.pc t with
    | user | recv | sendUnread | sendErr =>
      rw [hpt] at hat
      exact hat
    | sendWait q r sched =>
      rw [hpt] at hat
      by_cases hq : q = c
      · -- its replies can come no more
        subst hq
        have htc : t ≠ s.kern.current := by
          rintro rfl
          rw [hp] at hpt
          cases hpt
        have hst : (s.kern.thread t).stat = .suspend := by
          by_cases hr : (s.channel q).reply = some t
          · cases hs : (s.kern.thread t).stat with
            | suspend => rfl
            | ready => exact absurd hwm ((hat.mine hr).mp hs)
          · exact (hat.other hr).1
        refine ⟨hat.timer, fun hr => ?_, fun _ => ⟨hst, htc⟩, fun _ hr => ?_⟩
        · rw [hself] at hr
          exact absurd (Option.some.inj hr).symm htc
        · rw [hself] at hr
          exact absurd (Option.some.inj hr).symm htc
      · refine ⟨hat.timer, ?_, ?_, ?_⟩
        · rw [hreply q hq, (hchan q).2]
          exact hat.mine
        · rw [hreply q hq]
          exact hat.other
        · rw [hreply q hq, (hchan q).1]
          exact hat.alone
  · intro ev hev
    obtain ⟨hask, hev⟩ := h.event ev hev
    refine ⟨hask, hev.imp_right fun ⟨hl, hr⟩ => ⟨hl, ?_⟩⟩
    exact (hreply _ (hne (.inr hl))).trans hr

theorem RouteInv.send (h : RouteAt none loc s) (hl : ListInv s) (hf : s.fault = false)
    (hp : s.pc s.kern.current = .user) (type : Int) (d : Nat)
    (hc : OneExchange s (.send c type d needReply)) :
    RouteInv (binChannelSend s c type d needReply) := by
  have hready : (s.kern.thread s.kern.current).stat = .ready := by
    have hat := h.thread s.kern.current
    rwa [hp] at hat
  rcases binChannelSend_cases s c type d needReply with ⟨-, he⟩ | ⟨-, he⟩
  · rw [he]
    refine ⟨none, loc, ?_, fun _ => rfl⟩
    exact h.own s.kern.current ⟨rfl, rfl, rfl, fun _ => rfl, fun _ => rfl, fun _ => rfl, rfl, rfl⟩
      rfl (fun _ _ => ⟨rfl, rfl, rfl⟩) (fun _ hw => .inl hw) (fun _ hm => .inl hm)
      (fun _ hq hs herr => ⟨hq, hs, herr⟩) (h.msg s.kern.current)
      ((h.thread _).congr rfl rfl (fun _ => rfl) (fun _ => rfl) (fun _ _ _ _ _ => rfl) (.inl rfl))
  · rw [he]
    have htake := h.take type d
    have hloc : Function.update loc s.ipcMsgPos .msg s.ipcMsgPos = .msg := Function.update_self ..
    have hround := hl.start hp c s.ipcMsgPos type d needReply
    have hpc : (sendStart { s with ipcMsgPos := s.ipcMsgPos + 1 } c s.ipcMsgPos type d
        needReply).pc s.kern.current = .user := by
      rw [sendStart_pc]
      exact hp
    refine RouteAt.sendLoop (t := s.kern.current) ⟨hround, ?_, ?_, fun q => ?_, fun q hq => ?_, ?_,
      ?_⟩ ?_
    · cases needReply with
      | false => exact ⟨_, htake, hloc⟩
      | true =>
        obtain ⟨hwl, hwm, -⟩ := hc rfl
        exact ⟨_, htake.request hp hwl hwm, hloc⟩
    · rw [sendStart_kern]
      exact hready
    · rw [hpc]
      exact nofun
    · obtain ⟨r, sched, hq⟩ := hq
      rw [hpc] at hq
      cases hq
    · rintro rfl
      refine ⟨?_, ?_, (hc rfl).2.2⟩
      · simp [sendStart, ipcMsgInit]
      · simp [sendStart, ipcMsgInit]
    · rintro rfl hs
      refine ⟨by simpa using hs, ?_⟩
      simpa [sendStart, ipcMsgInit] using (hc rfl).1
    · cases needReply <;> exact hf

/-! ## A reply -/

theorem RouteAt.reply (h : RouteAt none loc s) (hlast : s.log.lastRecv s.kern.current ≠ none)
    (type : Int) (d : Nat) : ∃ loc, RouteAt none loc (binChannelReply s c type d) := by
  rcases binChannelReply_cases s c type d with ⟨-, he⟩ | ⟨e, hmem, hsend, ⟨hno, -⟩ | ⟨v, hv, he⟩⟩
  · rw [he]
    exact ⟨loc, h⟩
  · -- a record is on `waiting_list`, so there is a sender
    obtain ⟨x, hx, -⟩ := h.opened c e (.inl ((h.waiting c e).mp hmem))
    rw [hno] at hx
    cases hx
  rw [he]
  have hle := (h.waiting c e).mp hmem
  obtain ⟨r, hr⟩ := h.entry c e hle
  obtain ⟨x, hx, hw⟩ := h.opened c e (.inl hle)
  obtain rfl : v = x := Option.some.inj (hv.symm.trans hx)
  obtain ⟨r1, sched, hpv⟩ := hw.resolve_right (by simp)
  refine ⟨Function.update loc e (.replied c), ?_⟩
  have hloc : ∀ e' l, l ≠ .replied c →
      (Function.update loc e (.replied c) e' = l ↔ loc e' = l ∧ e' ≠ e) := by
    intro e' l hl
    by_cases he : e' = e
    · subst he
      rw [Function.update_self]
      exact iff_of_false hl.symm fun hn => hn.2 rfl
    · rw [Function.update_of_ne he, and_iff_left he]
  have hchan : ∀ q, q ≠ c → (replyWake (replyMsg s c e type d) c e v).channel q = s.channel q :=
    fun q hq => Function.update_of_ne hq ..
  have hself : (replyWake (replyMsg s c e type d) c e v).channel c = { s.channel c with
      waitingList := (s.channel c).waitingList.erase e
      waitMsg := e :: (s.channel c).waitMsg } := Function.update_self ..
  have hreply : ∀ q, ((replyWake (replyMsg s c e type d) c e v).channel q).reply =
      (s.channel q).reply := by
    intro q
    by_cases hq : q = c
    · subst hq
      rw [hself]
    · rw [hchan q hq]
  have hsender : ∀ e', ((replyWake (replyMsg s c e type d) c e v).ipcMsg e').sender =
      (s.ipcMsg e').sender := by
    intro e'
    show (Function.update s.ipcMsg e ⟨s.kern.current, type, d⟩ e').sender = _
    by_cases he : e' = e
    · subst he
      rw [Function.update_self, hsend]
    · rw [Function.update_of_ne he]
  have hthr : ∀ t, t ≠ v → (replyWake (replyMsg s c e type d) c e v).kern.thread t =
      s.kern.thread t := fun t ht => rtThreadResume_thread ht
  have hready : ((replyWake (replyMsg s c e type d) c e v).kern.thread v).stat = .ready := by
    show ((s.kern.rtThreadResume v).thread v).stat = .ready
    cases hs : (s.kern.thread v).stat with
    | ready => rw [rtThreadResume_ready hs, hs]
    | suspend => rw [rtThreadResume, if_pos hs, unlinkReady_thread, if_pos rfl]
  have hcur : (replyWake (replyMsg s c e type d) c e v).kern.current = s.kern.current :=
    rtThreadResume_current ..
  constructor
  · intro e' he'
    have hf := h.fresh e' he'
    exact (hloc e' .fresh (by simp)).mpr ⟨hf, by rintro rfl; rw [hle] at hf; cases hf⟩
  · intro q e'
    rw [hloc e' (.waiting q) (by simp), ← h.waiting]
    by_cases hq : q = c
    · subst hq
      rw [hself]
      exact ((h.nodup q).mem_erase_iff).trans and_comm
    · rw [hchan q hq]
      refine (and_iff_left_of_imp ?_).symm
      rintro hm rfl
      rw [h.waiting, hle] at hm
      exact hq (Loc.waiting.inj hm).symm
  · intro q e'
    by_cases hq : q = c
    · subst hq
      rw [hself]
      by_cases hee : e' = e
      · subst hee
        simp
      · rw [Function.update_of_ne hee, List.mem_cons, h.replied]
        exact or_iff_right hee
    · rw [hchan q hq, h.replied, hloc e' (.replied q) fun hl => hq (Loc.replied.inj hl)]
      refine (and_iff_left_of_imp ?_).symm
      rintro hl rfl
      rw [hle] at hl
      cases hl
  · intro q
    by_cases hq : q = c
    · subst hq
      rw [hself]
      exact (h.nodup q).erase e
    · rw [hchan q hq]
      exact h.nodup q
  · intro t r' ht
    have ht : s.msgRet t = some r' := by
      by_cases htc : t = s.kern.current
      · subst htc
        exact absurd ht (by simp [replyWake, replyMsg, ipcMsgInit])
      · simpa [replyWake, replyMsg, ipcMsgInit, htc] using ht
    have hl := h.slot t r' ht
    exact (hloc r' .msg (by simp)).mpr ⟨hl, by rintro rfl; rw [hle] at hl; cases hl⟩
  · intro t r' ht
    have hl := h.msg t r' ht
    exact (hloc r' .msg (by simp)).mpr ⟨hl, by rintro rfl; rw [hle] at hl; cases hl⟩
  · intro x e' hx
    have hl := h.drained x e' hx
    exact (hloc e' (.drained x) (by simp)).mpr ⟨hl, by rintro rfl; rw [hle] at hl; cases hl⟩
  · -- the other records on `waiting_list` are those of other threads
    intro q e' he'
    obtain ⟨hl, hee⟩ := (hloc e' (.waiting q) (by simp)).mp he'
    obtain ⟨r', hr'⟩ := h.entry q e' hl
    have hne : (s.ipcMsg e').sender ≠ s.kern.current := fun hs =>
      hee (h.one q c e' e hl hle (hs.trans hsend.symm))
    refine ⟨r', ?_, ?_, ?_, ?_⟩
    · rw [hsender]
      exact (Function.update_of_ne hne ..).trans hr'.slot
    · rw [hreply, hsender]
      exact hr'.reply
    · rw [hsender, hsender]
      exact hr'.last
    · rw [hsender]
      intro p hpc
      by_cases hev : (s.ipcMsg e').sender = v
      · rw [hev] at hpc
        have hpc : s.pc v = .recv p := hpc
        rw [hpv] at hpc
        cases hpc
      · rw [hthr _ hev]
        exact hr'.recv p hpc
  · intro q q' e1 e2 h1 h2 hs
    rw [hsender, hsender] at hs
    exact h.one q q' e1 e2 ((hloc _ (.waiting q) (by simp)).mp h1).1
      ((hloc _ (.waiting q') (by simp)).mp h2).1 hs
  · intro q e' he'
    rw [hreply]
    by_cases hee : e' = e
    · subst hee
      rw [Function.update_self] at he'
      obtain rfl : c = q := by simpa using he'
      exact ⟨v, hv, .inl ⟨r1, sched, hpv⟩⟩
    · rw [Function.update_of_ne hee] at he'
      obtain ⟨x, hx, hw⟩ := h.opened q e' he'
      exact ⟨x, hx, .inl (hw.resolve_right (by simp))⟩
  · simp
  · intro t
    have hat := h.thread t
    show PcAt _ t (s.pc t)
    cases hpt : s.pc t with
    | user =>
      rw [hpt] at hat
      show ((s.kern.rtThreadResume v).thread t).stat = .ready
      rw [rtThreadResume_ready hat]
      exact hat
    | recv | sendUnread | sendErr =>
      rw [hpt] at hat
      exact hat
    | sendWait q r' sched' =>
      rw [hpt] at hat
      by_cases htv : t = v
      · -- the sender, resumed
        subst htv
        rw [hpv] at hpt
        cases hpt
        refine ⟨fun hs => ?_, fun _ => ⟨fun _ => ?_, fun _ => hready⟩, fun hne => ?_, fun hs _ => ?_⟩
        · rw [hready] at hs
          cases hs
        · rw [hself]
          exact List.cons_ne_nil _ _
        · rw [hreply] at hne
          exact absurd hv hne
        · rw [hat.alone hs hv] at hmem
          cases hmem
      · have hne : q = c → (s.channel q).reply ≠ some t := by
          rintro rfl hr
          rw [hv] at hr
          exact htv (Option.some.inj hr).symm
        refine ⟨?_, fun hrt => ?_, ?_, fun hs hrt => ?_⟩
        · rw [hthr t htv]
          exact hat.timer
        · rw [hreply] at hrt
          rw [hthr t htv, hchan q fun hq => hne hq hrt]
          exact hat.mine hrt
        · rw [hreply, hthr t htv, hcur]
          exact hat.other
        · rw [hreply] at hrt
          rw [hchan q fun hq => hne hq hrt]
          exact hat.alone hs hrt
  · intro ev hev
    rcases List.mem_cons.mp hev with rfl | hev
    · -- the new reply
      refine ⟨?_, .inr ⟨Function.update_self .., (hreply c).trans hv⟩⟩
      obtain ⟨m, hm⟩ := Option.ne_none_iff_exists'.mp hlast
      have hms := hr.last m (by rw [hsend]; exact hm)
      show (s.log.lastRecv s.kern.current).map (·.sender) = some v
      rw [hm, Option.map_some, hms, ← hr.reply, hv]
    · obtain ⟨hask, hev⟩ := h.event ev hev
      refine ⟨hask, hev.imp_right fun hl => ⟨?_, (hreply _).trans hl.2⟩⟩
      have hee : ev.msg ≠ e := by
        intro hee
        rw [hee, hle] at hl
        cases hl.1
      rw [Function.update_of_ne hee]
      exact hl.1

/-! ## The replies are taken -/

/-- The sender has taken the replies. -/
theorem RouteAt.drain (h : RouteAt none loc s) (hp : s.pc s.kern.current = .sendWait c r sched)
    (hrep : (s.channel c).reply = some s.kern.current)
    (hr : (s.kern.thread s.kern.current).stat = .ready) :
    ∃ loc', RouteAt (some c) loc' ((drainMsg s c).goto s.kern.current .user) ∧
      ∀ e, loc e = .msg → loc' e = .msg := by
  let loc' : Nat → Loc := fun e => if loc e = .replied c then .drained s.kern.current else loc e
  have htaken : ∀ e, loc e = .replied c → loc' e = .drained s.kern.current := fun e he => if_pos he
  have hold : ∀ e l, loc e = l → l ≠ .replied c → loc' e = l := by
    rintro e l rfl hl
    exact if_neg hl
  have hloc : ∀ e l, l ≠ .replied c → l ≠ .drained s.kern.current → (loc' e = l ↔ loc e = l) := by
    intro e l hl hd
    by_cases he : loc e = .replied c
    · rw [htaken e he, he]
      exact iff_of_false hd.symm hl.symm
    · rw [hold e _ rfl he]
  have hchan : ∀ q, q ≠ c → ((drainMsg s c).goto s.kern.current .user).channel q = s.channel q :=
    fun q hq => Function.update_of_ne hq ..
  have hself : ((drainMsg s c).goto s.kern.current .user).channel c =
      { s.channel c with waitMsg := [] } := Function.update_self ..
  have hsame : ∀ q, (((drainMsg s c).goto s.kern.current .user).channel q).waitingList =
        (s.channel q).waitingList ∧
      (((drainMsg s c).goto s.kern.current .user).channel q).reply = (s.channel q).reply := by
    intro q
    by_cases hq : q = c
    · subst hq
      rw [hself]
      exact ⟨rfl, rfl⟩
    · rw [hchan q hq]
      exact ⟨rfl, rfl⟩
  refine ⟨loc', ?_, fun e he => hold e _ he nofun⟩
  constructor
  · exact fun e he => (hloc e .fresh nofun nofun).mpr (h.fresh e he)
  · intro q e
    rw [(hsame q).1, hloc e (.waiting q) nofun nofun]
    exact h.waiting q e
  · intro q e
    by_cases hq : q = c
    · subst hq
      rw [hself]
      refine iff_of_false List.not_mem_nil fun he => ?_
      by_cases hl : loc e = .replied q
      · rw [htaken e hl] at he
        cases he
      · rw [hold e _ rfl hl] at he
        exact hl he
    · rw [hchan q hq, hloc e (.replied q) (fun hl => hq (Loc.replied.inj hl)) nofun]
      exact h.replied q e
  · intro q
    rw [(hsame q).1]
    exact h.nodup q
  · exact fun t r' ht => (hloc r' .msg nofun nofun).mpr (h.slot t r' ht)
  · intro t r' ht
    exact (hloc r' .msg nofun nofun).mpr (h.msg t r' ((mem_goto_msg ht).resolve_left (by simp [Pc.msg])))
  · intro x e hx
    rcases List.mem_append.mp hx with hx | hx
    · obtain ⟨e', he', hxe⟩ := List.mem_map.mp hx
      cases hxe
      exact htaken e ((h.replied c e).mp he')
    · exact hold e _ (h.drained x e hx) nofun
  · intro q e he
    obtain ⟨r', hr'⟩ := h.entry q e ((hloc e (.waiting q) nofun nofun).mp he)
    refine ⟨r', hr'.slot, (hsame q).2.trans hr'.reply, hr'.last, fun p hpc => ?_⟩
    simp only [goto_pc, Function.update_apply] at hpc
    split at hpc
    · cases hpc
    · exact hr'.recv p hpc
  · exact fun q q' e e' he he' => h.one q q' e e' ((hloc e (.waiting q) nofun nofun).mp he)
      ((hloc e' (.waiting q') nofun nofun).mp he')
  · intro q e he
    have he : loc e = .waiting q ∨ loc e = .replied q := by
      refine he.imp (hloc e (.waiting q) nofun nofun).mp fun he => ?_
      by_cases hl : loc e = .replied c
      · rw [htaken e hl] at he
        cases he
      · rwa [hold e _ rfl hl] at he
    obtain ⟨x, hx, hw⟩ := h.opened q e he
    refine ⟨x, (hsame q).2.trans hx, ?_⟩
    obtain ⟨r', sched', hw⟩ := hw.resolve_right (by simp)
    by_cases hxc : x = s.kern.current
    · subst hxc
      rw [hp] at hw
      cases hw
      exact .inr ⟨rfl, rfl⟩
    · exact .inl ⟨r', sched', (Function.update_of_ne hxc ..).trans hw⟩
  · rintro q ⟨⟩
    rw [hself]
  · intro t
    by_cases htc : t = s.kern.current
    · subst htc
      rw [goto_pc, Function.update_self]
      exact hr
    · rw [goto_pc, Function.update_of_ne htc]
      have hat := h.thread t
      show PcAt _ t (s.pc t)
      cases hpt : s.pc t with
      | user | recv | sendUnread | sendErr =>
        rw [hpt] at hat
        exact hat
      | sendWait q r' sched' =>
        rw [hpt] at hat
        have hne : q = c → (s.channel q).reply ≠ some t := by
          rintro rfl hrt
          rw [hrep] at hrt
          exact htc (Option.some.inj hrt).symm
        refine ⟨hat.timer, fun hrt => ?_, fun hrt => ?_, fun hs hrt => ?_⟩
        · rw [(hsame q).2] at hrt
          rw [hchan q fun hq => hne hq hrt]
          exact hat.mine hrt
        · rw [(hsame q).2] at hrt
          exact hat.other hrt
        · rw [(hsame q).2] at hrt
          rw [(hsame q).1]
          exact hat.alone hs hrt
  · intro ev hev
    obtain ⟨hask, hev⟩ := h.event ev hev
    refine ⟨hask, ?_⟩
    rcases hev with hd | ⟨hl, hrv⟩
    · exact .inl (List.mem_append_right _ hd)
    · by_cases hq : ev.channel = c
      · rw [hq, hrep] at hrv
        rw [hq] at hl
        rw [← Option.some.inj hrv]
        exact .inl (List.mem_append_left _ (List.mem_map_of_mem ((h.replied c _).mpr hl)))
      · exact .inr ⟨hold _ _ hl fun hl => hq (Loc.replied.inj hl), (hsame _).2.trans hrv⟩

theorem RouteAt.sendDrain (h : RouteAt none loc s) (hp : s.pc s.kern.current = .sendWait c r sched)
    (hr : sched = false ∨ (s.kern.thread s.kern.current).stat = .ready) :
    ∃ loc, RouteAt none loc (sendDrain s c r) := by
  have hat := h.thread s.kern.current
  rw [hp] at hat
  have hrep : (s.channel c).reply = some s.kern.current := by
    by_contra hne
    exact (hat.other hne).2 rfl
  rcases sendDrain_cases s c r with ⟨hwm, he⟩ | ⟨hwm, hwl, he⟩ | ⟨hwm, hwl, he⟩
  · -- not resumed: there is no record for a reply
    have hnr : ¬ (s.kern.thread s.kern.current).stat = .ready := fun hs => (hat.mine hrep).mp hs hwm
    have hwl := hat.alone (hr.resolve_right hnr) hrep
    rw [he]
    refine ⟨loc, h.own s.kern.current ⟨rfl, rfl, rfl, fun _ => rfl, fun _ => rfl, fun _ => rfl,
      rfl, rfl⟩ rfl (fun u hu => ⟨Function.update_of_ne hu .., rfl, rfl⟩)
      (fun q hq => ?_) (fun m hm => .inl hm) (fun q hq => ?_) (fun r' hr' => ?_) ?_⟩
    · obtain ⟨r', sched', hq⟩ := hq
      rw [hp] at hq
      cases hq
      exact .inr ⟨hwl, hwm⟩
    · simp at hq
    · simp [Pc.msg] at hr'
    · simp only [goto_pc, Function.update_self]
      trivial
  · -- all replies are there
    obtain ⟨loc', hd, -⟩ := h.drain hp hrep ((hat.mine hrep).mpr hwm)
    rw [he]
    refine ⟨loc', RouteAt.close (c := c) (hd.own s.kern.current ⟨rfl, rfl, rfl, fun _ => rfl,
      fun _ => rfl, fun _ => rfl, rfl, rfl⟩ rfl (fun _ _ => ⟨rfl, rfl, rfl⟩)
      (fun _ hw => .inl hw) (fun m hm => .inl hm) (fun _ hq hs herr => ⟨hq, hs, herr⟩)
      (hd.msg s.kern.current) ?_) ?_⟩
    · exact (hd.thread _).congr rfl rfl (fun _ => rfl) (fun _ => rfl) (fun _ _ _ _ _ => rfl)
        (.inl rfl)
    · refine .inr ⟨?_, ?_⟩
      · simpa [sendEnd, drainMsg] using hwl
      · simp [sendEnd, drainMsg]
  · have hready := (hat.mine hrep).mpr hwm
    obtain ⟨loc', hd, hmsg⟩ := h.drain hp hrep hready
    rw [he]
    have hsus : s.kern.rtThreadSuspend s.kern.current = s.kern.setThread s.kern.current
        { s.kern.thread s.kern.current with stat := .suspend, timer := false } := if_pos hready
    have hcur := rtThreadSuspend_current s.kern s.kern.current
    refine ⟨loc', RouteAt.close (c := c) (hd.own s.kern.current ⟨rfl, rfl, rfl, fun _ => rfl,
      fun _ => rfl, fun _ => rfl, rfl, rfl⟩ hcur (fun u hu => ⟨?_, rtThreadSuspend_thread hu, rfl⟩)
      (fun q hq => ?_) (fun m hm => .inl hm) (fun q hq => ?_) (fun r' hr' => ?_) ?_)
      ?_⟩
    · simp [hu]
    · obtain ⟨r', sched', hq⟩ := hq
      simp at hq
    · simp at hq
    · -- the record of its message
      simp only [goto_pc, Function.update_self] at hr'
      cases hr'
      exact hmsg r (h.msg s.kern.current r (by rw [hp]; rfl))
    · have hstat := rtThreadSuspend_stat s.kern s.kern.current
      simp only [goto_pc, Function.update_self]
      refine ⟨fun _ => ?_, fun _ => iff_of_false ?_ ?_, fun hne => absurd ?_ hne, by simp⟩
      · simp [hsus]
      · simp only [goto_kern, setKern_kern]
        rw [hstat]
        simp
      · simp [drainMsg]
      · simpa [drainMsg] using hrep
    · refine .inl ⟨r, true, ?_⟩
      simp only [goto_kern, setKern_kern, goto_pc, hcur]
      exact Function.update_self ..

/-! ## Every step -/

theorem RouteAt.preempt (h : RouteAt none loc s) (hu : (s.kern.thread u).stat = .ready) :
    RouteAt none loc (s.setKern { s.kern with current := u }) where
  fresh := h.fresh
  waiting := h.waiting
  replied := h.replied
  nodup := h.nodup
  slot := h.slot
  msg := h.msg
  drained := h.drained
  entry q e he := (h.entry q e he).imp fun _ hr => ⟨hr.slot, hr.reply, hr.last, hr.recv⟩
  one := h.one
  opened q e he := (h.opened q e he).imp fun _ hx => ⟨hx.1, .inl (hx.2.resolve_right (by simp))⟩
  busy := nofun
  thread t := (h.thread t).congr rfl rfl (fun _ => rfl) (fun _ => rfl) (fun _ _ _ _ _ => rfl)
    (.inr hu)
  event := h.event

theorem RouteAt.recv (h : RouteAt none loc s) (hp : s.pc s.kern.current = .user) {timeout : Int}
    (hs : binChannelRecv s c timeout = some s') : RouteAt none loc s' := by
  have hthr : ∀ u, u ≠ s.kern.current → s'.kern.thread u = s.kern.thread u :=
    fun u hu => binChannelRecv_thread hs hu
  have hstat := binChannelRecv_stat hs
  obtain ⟨k, hk, rfl⟩ := Option.map_eq_some_iff.mp hs
  obtain ⟨hcur, -⟩ := rtIpcListInsert_some hk
  refine h.own s.kern.current ⟨rfl, rfl, rfl, fun _ => rfl, fun _ => rfl, fun _ => rfl, rfl, rfl⟩
    ?_ (fun u hu => ⟨Function.update_of_ne hu .., hthr u hu, Function.update_of_ne hu ..⟩)
    (fun q hq => ?_) (fun m hm => ?_) (fun q _ hs => ?_) (fun r hr => ?_) ?_
  · rw [rtThreadSuspend_current] at hcur
    simp only [goto_kern, setKern_kern]
    split
    · exact hcur
    · exact hcur
  · obtain ⟨r, sched, hq⟩ := hq
    rw [hp] at hq
    cases hq
  · simp at hm
  · rw [hstat] at hs
    cases hs
  · simp [Pc.msg] at hr
  · simp only [goto_pc, Function.update_self]
    exact Function.update_self ..

/-- A thread whose slot no reply needs empties it. -/
theorem RouteAt.clear (h : RouteAt w loc s)
    (hno : ∀ q e, loc e = .waiting q → (s.ipcMsg e).sender ≠ t) :
    RouteAt w loc { s with msgRet := Function.update s.msgRet t none } where
  fresh := h.fresh
  waiting := h.waiting
  replied := h.replied
  nodup := h.nodup
  slot u r hu := by
    by_cases hut : u = t
    · subst hut
      simp at hu
    · simp only [Function.update_of_ne hut] at hu
      exact h.slot u r hu
  msg := h.msg
  drained := h.drained
  entry q e he := by
    obtain ⟨r, hr⟩ := h.entry q e he
    exact ⟨r, (Function.update_of_ne (hno q e he) ..).trans hr.slot, hr.reply, hr.last, hr.recv⟩
  one := h.one
  opened := h.opened
  busy := h.busy
  thread t := (h.thread t).congr rfl rfl (fun _ => rfl) (fun _ => rfl) (fun _ _ _ _ _ => rfl)
    (.inl rfl)
  event := h.event

theorem RouteAt.recvResume (h : RouteAt none loc s) (hp : s.pc s.kern.current = .recv c)
    (hr : (s.kern.thread s.kern.current).stat = .ready) : RouteAt none loc (recvResume s c) := by
  have hnw : ∀ q, ¬ Waits s s.kern.current q := by
    rintro q ⟨r, sched, hq⟩
    rw [hp] at hq
    cases hq
  rcases recvResume_cases s c with ⟨-, he⟩ | ⟨r, herr, hm, he⟩
  · rw [he]
    refine h.own s.kern.current ⟨rfl, rfl, rfl, fun _ => rfl, fun _ => rfl, fun _ => rfl, rfl,
      rfl⟩ rfl (fun u hu => ⟨Function.update_of_ne hu .., rfl, rfl⟩)
      (fun q hq => absurd hq (hnw q)) (fun m hm => .inl hm) (fun q hq => ?_) (fun r' hr' => ?_) ?_
    · simp at hq
    · simp [Pc.msg] at hr'
    · simp only [goto_pc, Function.update_self]
      exact hr
  · rw [he]
    have hchan : ∀ q, ((recvMsg s c r).channel q).waitingList = (s.channel q).waitingList ∧
        ((recvMsg s c r).channel q).waitMsg = (s.channel q).waitMsg ∧
        ((recvMsg s c r).channel q).reply = (s.channel q).reply := by
      intro q
      by_cases hq : q = c
      · subst hq
        simp [recvMsg]
      · simp [recvMsg, hq]
    have hkeep : RouteAt none loc { recvMsg s c r with msgRet := s.msgRet } := by
      refine h.own s.kern.current ⟨rfl, rfl, rfl, fun q => (hchan q).1, fun q => (hchan q).2.1,
        fun q => (hchan q).2.2, rfl, rfl⟩ rfl
        (fun u hu => ⟨Function.update_of_ne hu .., rfl, Function.update_of_ne hu ..⟩)
        (fun q hq => absurd hq (hnw q)) (fun m hl => .inr ⟨r, hm, ?_⟩) (fun q hq => ?_)
        (fun r' hr' => ?_) ?_
      · simpa [recvMsg] using hl.symm
      · simp [recvMsg] at hq
      · simp [recvMsg, Pc.msg] at hr'
      · simp only [recvMsg, goto_pc, Function.update_self]
        exact hr
    by_cases hrep : (s.channel c).reply = none
    · -- a record on `waiting_list` would be one of `c`, which has a `reply` thread then
      have hclear := hkeep.clear (t := s.kern.current) fun q e he hsend => by
        obtain ⟨r', hr'⟩ := h.entry q e he
        have hsend : (s.ipcMsg e).sender = s.kern.current := hsend
        have hqc := hr'.recv c (hsend ▸ hp) (hsend ▸ hr) (hsend ▸ herr)
        rw [hqc, hr'.reply] at hrep
        cases hrep
      have hslot : recvMsg s c r = { recvMsg s c r with
          msgRet := Function.update s.msgRet s.kern.current none } := by
        simp [recvMsg, hrep, goto, setChannel]
      rw [hslot]
      exact hclear
    · have hslot : recvMsg s c r = { recvMsg s c r with msgRet := s.msgRet } := by
        simp [recvMsg, hrep, goto, setChannel]
      rw [hslot]
      exact hkeep

theorem RouteAt.timeout (h : RouteAt none loc s) (hk : s.kern.rtThreadTimeout u = some k) :
    RouteAt none loc (s.setKern k) := by
  unfold rtThreadTimeout at hk
  split at hk <;> cases hk
  next hu =>
  have herr : ((s.setKern ((s.kern.setError u (-rtEtimeout)).unlinkReady u)).kern.thread
      u).error = -rtEtimeout := by
    rw [setKern_kern, unlinkReady_thread, if_pos rfl, setError, setThread_thread, if_pos rfl]
  refine h.own u ⟨rfl, rfl, rfl, fun _ => rfl, fun _ => rfl, fun _ => rfl, rfl, rfl⟩ rfl
    (fun v hv => ⟨rfl, ?_, rfl⟩) (fun _ hw => .inl hw) (fun m hm => .inl hm) (fun q _ _ he => ?_)
    (h.msg u) ?_
  · rw [setKern_kern, unlinkReady_thread, if_neg hv, setError, setThread_thread, if_neg hv]
  · rw [herr] at he
    cases he
  · have hat := h.thread u
    show PcAt _ u (s.pc u)
    cases hp : s.pc u with
    | user =>
      rw [hp] at hat
      rw [show (s.kern.thread u).stat = .ready from hat] at hu
      cases hu.1
    | recv | sendUnread | sendErr =>
      rw [hp] at hat
      exact hat
    | sendWait q r sched =>
      -- the sender waits without a timer
      rw [hp] at hat
      rw [hat.timer hu.1] at hu
      cases hu.2

theorem RouteAt.awake (h : RouteAt none loc s)
    (hp : s.pc s.kern.current = .sendUnread c r needReply u) : RouteAt none loc (awake s) := by
  have hat := h.thread s.kern.current
  rw [hp] at hat
  refine h.own s.kern.current ⟨rfl, rfl, rfl, fun _ => rfl, fun _ => rfl, fun _ => rfl, rfl, rfl⟩
    (awake_current s) (fun v hv => ⟨rfl, awake_thread s hv, rfl⟩) (fun _ hw => .inl hw)
    (fun m hm => .inl hm) (fun q hq => ?_) (h.msg s.kern.current) ?_
  · have hq : s.pc s.kern.current = .recv q := hq
    rw [hp] at hq
    cases hq
  · show PcAt _ _ (s.pc s.kern.current)
    rw [hp]
    exact hat

/-- A send goes on after its sleep: one that asks for no reply. -/
theorem RouteInv.retry (h : RouteAt none loc s) (hl : ListInv s) (hf : s.fault = false)
    (hp : s.pc s.kern.current = .sendUnread c r needReply u)
    (hr : (s.kern.thread s.kern.current).stat = .ready)
    (hs : sendRetry s c r needReply u = some s') : RouteInv s' := by
  have hat := h.thread s.kern.current
  have hmsg : loc r = .msg := h.msg s.kern.current r (by rw [hp]; rfl)
  rw [hp] at hat
  obtain rfl : needReply = false := hat
  have hawake := h.awake hp
  have hcur := awake_current s
  have hpc : (Channel.awake s).pc s.kern.current = .sendUnread c r false u := hp
  rcases sendRetry_cases hs with ⟨-, rfl⟩ | ⟨-, -, rfl⟩
  · refine ⟨none, loc, ?_, fun _ => rfl⟩
    refine hawake.own s.kern.current ⟨rfl, rfl, rfl, fun _ => rfl, fun _ => rfl, fun _ => rfl, rfl,
      rfl⟩ (rtThreadSuspend_current ..) (fun v hv => ⟨rfl, mdelay_thread _ (hcur ▸ hv), rfl⟩)
      (fun _ hw => .inl hw) (fun m hm => .inl hm) (fun q hq => ?_) (hawake.msg s.kern.current) ?_
    · rw [show (Channel.awake s).mdelay.pc s.kern.current = _ from hpc] at hq
      cases hq
    · rw [show (Channel.awake s).mdelay.pc s.kern.current = _ from hpc]
      rfl
  · refine RouteAt.sendLoop (t := s.kern.current) ⟨hl.retry hp, ⟨loc, hawake, hmsg⟩, ?_,
      fun q => ?_, fun q hq => ?_, by simp, by simp⟩ hf
    · simp only [Channel.awake, setKern_kern]
      split
      · simpa [setError] using hr
      · exact hr
    · rw [hpc]
      simp
    · obtain ⟨r', sched', hq⟩ := hq
      rw [hpc] at hq
      cases hq

theorem RouteInv.step (h : RouteInv s) (hl : ListInv s) {act : ChannelAct}
    (hc : RouteKeeps s act) (hs : channelStep s act = some s') : RouteInv s' := by
  obtain ⟨hf, hs⟩ := channelStep_some hs
  obtain ⟨w, loc, h, hw⟩ := h
  obtain rfl := hw hf
  cases hs with
  | preempt u hu => exact ⟨none, loc, h.preempt hu, fun _ => rfl⟩
  | recv c timeout _ hp hs => exact ⟨none, loc, h.recv hp hs, fun _ => rfl⟩
  | send c type u needReply hp => exact .send h hl hf hp type u hc.exchange
  | reply c type u hp =>
    obtain ⟨loc', h'⟩ := h.reply (c := c) hc.reply type u
    exact ⟨none, loc', h', fun _ => rfl⟩
  | setError e hp =>
    refine ⟨none, loc, ?_, fun _ => rfl⟩
    have hat := h.thread s.kern.current
    rw [hp] at hat
    refine h.own s.kern.current ⟨rfl, rfl, rfl, fun _ => rfl, fun _ => rfl, fun _ => rfl, rfl,
      rfl⟩ rfl (fun u hu => ⟨rfl, ?_, rfl⟩) (fun _ hw => .inl hw) (fun m hm => .inl hm)
      (fun q hq => ?_) (h.msg _) ?_
    · rw [setKern_kern, setError, setThread_thread, if_neg hu]
    · rw [setKern_pc, hp] at hq
      cases hq
    · rw [setKern_pc, hp]
      show ((s.kern.setError s.kern.current e).thread s.kern.current).stat = .ready
      rw [setError, setThread_thread, if_pos rfl]
      exact hat
  | recvResume c hp hr => exact ⟨none, loc, h.recvResume hp hr, fun _ => rfl⟩
  | sendRetry c r needReply u _ hp hr hs => exact .retry h hl hf hp hr hs
  | sendDrain c r sched hp hr =>
    obtain ⟨loc', h'⟩ := h.sendDrain hp hr
    exact ⟨none, loc', h', fun _ => rfl⟩
  | timeout u k hk => exact ⟨none, loc, h.timeout hk, fun _ => rfl⟩

theorem RouteInv.init (flag priority : Nat → Nat) : RouteInv (channelInit flag priority) := by
  refine ⟨none, fun _ => .fresh, ?_, fun _ => rfl⟩
  constructor
  · exact fun _ _ => rfl
  · exact fun _ _ => iff_of_false List.not_mem_nil nofun
  · exact fun _ _ => iff_of_false List.not_mem_nil nofun
  · exact fun _ => .nil
  · exact nofun
  · exact nofun
  · exact nofun
  · exact nofun
  · exact nofun
  · rintro _ _ (he | he) <;> cases he
  · exact nofun
  · exact fun _ => rfl
  · exact nofun

/-- **The routing of replies.** In every run that meets the condition, each reply makes the thread
runnable whose message the replier had received, and that thread takes the reply. -/
theorem channel_reply_routed (flag priority : Nat → Nat) (acts : List ChannelAct) (s : ChannelSys)
    (hx : exec channelStep (channelInit flag priority) acts = some s)
    (hc : Along channelStep RouteKeeps (channelInit flag priority) acts) : Routed s := by
  have hinv : ListInv s ∧ RouteInv s := by
    refine hc.inv (I := fun s => ListInv s ∧ RouteInv s) (fun s act s' h hk hs => ?_) hx
      ⟨.init flag priority, .init flag priority⟩
    exact ⟨h.1.step hs, h.2.step h.1 hk hs⟩
  obtain ⟨w, loc, hat, -⟩ := hinv.2
  exact hat.routed

/-- The thread 0 asks the thread 1, which replies. -/
def ask : List ChannelAct :=
  [.preempt 1, .recv 0 (-1), .preempt 0, .send 0 7 8 true, .preempt 1, .resume, .reply 0 5 6]

theorem channel_reply_routed_ask : ∃ s,
    exec channelStep (channelInit (fun _ => 0) fun _ => 10) ask = some s ∧ Routed s ∧
      s.log.replies.length = 1 :=
  ⟨_, rfl, channel_reply_routed (fun _ => 0) (fun _ => 10) ask _ rfl (by decide), rfl⟩

/-- Two threads ask on one channel; the reply to the thread 0 resumes the thread 3. -/
def askTwice : List ChannelAct :=
  [.preempt 1, .recv 0 (-1), .preempt 0, .send 0 7 8 true, .preempt 2, .recv 0 (-1), .preempt 3,
    .send 0 9 8 true, .preempt 1, .resume, .reply 0 5 6]

theorem channel_reply_misrouted : ¬ ∀ (flag priority : Nat → Nat) (acts : List ChannelAct)
    (s : ChannelSys), exec channelStep (channelInit flag priority) acts = some s → Routed s := by
  intro h
  have hask := (h (fun _ => 0) (fun _ => 10) askTwice _ rfl _ List.mem_cons_self).1
  cases hask

end Tudu.Channel
