import TuduOS.Ipc.Channel

/-!
# The threads on the suspend list of a channel

* `ListInv`: a thread on the suspend list of a channel is suspended, and in `bin_channel_recv` of
  that channel; it is on the list once. Every step keeps this (`ListInv.step`).
* `SentOne`: what the loop of `bin_channel_send` does for one listed thread.
* `sendLoop_inv`: the induction over that loop, once. `Round` is what is left of the list.
* `ChannelStep`: the steps, one constructor for each way that `channelStep` can go.
-/

namespace Tudu.Channel

open Kern ChannelSys

structure ListInv (s : ChannelSys) : Prop where
  on : ∀ u q, u ∈ s.kern.suspendThread q →
    s.pc u = .recv q ∧ (s.kern.thread u).stat = .suspend
  nodup : ∀ q, (s.kern.suspendThread q).Nodup

variable {s s' : ChannelSys} {k : Kern} {t u v c q r : Nat} {needReply sched : Bool}

/-! ## One listed thread -/

/-- One round of the loop of `bin_channel_send`, for a thread with an empty slot. -/
def sendOne (s : ChannelSys) (c r : Nat) (needReply : Bool) (u : Nat) : Option ChannelSys :=
  if needReply then addReplyMsg (give s c r u) c u else some (give s c r u)

/-- The record for a reply, if one is asked for. -/
def Asked (s s' : ChannelSys) (c u : Nat) : Bool → Prop
  | false => s'.ipcMsgPos = s.ipcMsgPos ∧ s'.ipcMsg = s.ipcMsg ∧ s'.log = s.log ∧
      (s'.channel c).waitingList = (s.channel c).waitingList
  | true => s.ipcMsgPos < ipcMsgSize ∧ s'.ipcMsgPos = s.ipcMsgPos + 1 ∧
      (∃ d, s'.ipcMsg = Function.update s.ipcMsg s.ipcMsgPos ⟨u, 0, d⟩) ∧
      s'.log = { s.log with owes := Function.update s.log.owes u true } ∧
      (s'.channel c).waitingList = s.ipcMsgPos :: (s.channel c).waitingList

structure SentOne (s s' : ChannelSys) (c r : Nat) (needReply : Bool) (u : Nat) : Prop where
  kern : s'.kern = s.kern.rtThreadResume u
  msgRet : s'.msgRet = Function.update s.msgRet u (some r)
  pc : s'.pc = s.pc
  fault : s'.fault = s.fault
  other : ∀ q, q ≠ c → s'.channel q = s.channel q
  waitMsg : (s'.channel c).waitMsg = (s.channel c).waitMsg
  reply : (s'.channel c).reply = (s.channel c).reply
  asked : Asked s s' c u needReply

theorem sendOne_some (h : sendOne s c r needReply u = some s') : SentOne s s' c r needReply u := by
  cases needReply with
  | false =>
    cases h
    refine ⟨rfl, rfl, rfl, rfl, fun q hq => ?_, ?_, ?_, rfl, rfl, rfl, ?_⟩
    · simp [give, hq]
    · simp [give]
    · simp [give]
    · simp [give]
  | true =>
    simp only [sendOne, if_pos, addReplyMsg, ipcMsgAlloc] at h
    by_cases hp : s.ipcMsgPos < ipcMsgSize
    · rw [if_pos (show (give s c r u).ipcMsgPos < ipcMsgSize from hp)] at h
      cases h
      refine ⟨rfl, rfl, rfl, rfl, fun q hq => ?_, ?_, ?_, hp, rfl, ⟨_, rfl⟩, rfl, ?_⟩
      · simp [give, hq]
      · simp [give]
      · simp [give]
      · simp [give]
    · rw [if_neg (show ¬ (give s c r u).ipcMsgPos < ipcMsgSize from hp)] at h
      cases h

theorem sendOne_none (h : sendOne s c r needReply u = none) :
    needReply = true ∧ ¬ s.ipcMsgPos < ipcMsgSize := by
  cases needReply with
  | false => cases h
  | true =>
    simp only [sendOne, if_pos, addReplyMsg, ipcMsgAlloc] at h
    by_cases hp : s.ipcMsgPos < ipcMsgSize
    · rw [if_pos (show (give s c r u).ipcMsgPos < ipcMsgSize from hp)] at h
      cases h
    · exact ⟨rfl, hp⟩

theorem sendLoop_cons (us : List Nat) : sendLoop c r needReply sched (u :: us) s =
    if s.msgRet u ≠ none then s.mdelay.goto s.kern.current (.sendUnread c r needReply u)
    else
      match sendOne s c r needReply u with
      | none => { give s c r u with fault := true }
      | some s' => sendLoop c r needReply sched us s' := by
  cases needReply <;> simp only [sendLoop, sendOne] <;> rfl

/-- The induction over the loop of `bin_channel_send`: `I us` holds where `us` is left of the list,
and `J` at the end. -/
theorem sendLoop_inv {I : List Nat → ChannelSys → Prop} {J : ChannelSys → Prop}
    (hdone : ∀ s, I [] s → J (sendDone s c r needReply sched))
    (hunread : ∀ u us s, I (u :: us) s → s.msgRet u ≠ none → J (s.mdelay.goto s.kern.current (.sendUnread c r needReply u)))
    (hnull : ∀ u us s, I (u :: us) s → s.msgRet u = none → needReply = true → ¬ s.ipcMsgPos < ipcMsgSize → J { give s c r u with fault := true })
    (hone : ∀ u us s s', I (u :: us) s → s.msgRet u = none → sendOne s c r needReply u = some s' → I us s')
    (l : List Nat) (s : ChannelSys) (h : I l s) : J (sendLoop c r needReply sched l s) := by
  induction l generalizing s with
  | nil => exact hdone s h
  | cons u us ih =>
    rw [sendLoop_cons]
    split
    · exact hunread u us s h ‹_›
    · next hn =>
      have hn := not_not.mp hn
      split
      · next hs =>
        obtain ⟨hr, hp⟩ := sendOne_none hs
        exact hnull u us s h hn hr hp
      · next s' hs => exact ih s' (hone u us s s' h hn hs)

/-! ## The lists -/

theorem ListInv.off (h : ListInv s) (ht : s.pc t ≠ .recv q ∨ (s.kern.thread t).stat = .ready) :
    t ∉ s.kern.suspendThread q := by
  intro hq
  obtain ⟨hp, hs⟩ := h.on t q hq
  rcases ht with ht | ht
  · exact ht hp
  · rw [hs] at ht
    cases ht

/-- A step that puts no thread on a list, and changes no listed thread. -/
theorem ListInv.mono (h : ListInv s)
    (hsub : ∀ q, (s'.kern.suspendThread q).Sublist (s.kern.suspendThread q))
    (hthr : ∀ u q, u ∈ s'.kern.suspendThread q → s'.pc u = s.pc u ∧
      (s'.kern.thread u).stat = (s.kern.thread u).stat) : ListInv s' := by
  refine ⟨fun u q hu => ?_, fun q => (h.nodup q).sublist (hsub q)⟩
  obtain ⟨hp, hs⟩ := hthr u q hu
  rw [hp, hs]
  exact h.on u q ((hsub q).mem hu)

theorem rtThreadResume_sublist (k : Kern) (t q : Nat) :
    ((k.rtThreadResume t).suspendThread q).Sublist (k.suspendThread q) := by
  unfold rtThreadResume
  split
  · exact List.filter_sublist
  · exact .refl _

theorem rtThreadResume_thread (hu : u ≠ t) : (k.rtThreadResume t).thread u = k.thread u := by
  unfold rtThreadResume
  split
  · rw [unlinkReady_thread, if_neg hu]
  · rfl

theorem rtThreadResume_ready (hu : (k.thread u).stat = .ready) :
    (k.rtThreadResume v).thread u = k.thread u := by
  by_cases huv : u = v
  · subst huv
    unfold rtThreadResume
    rw [if_neg (by rw [hu]; decide)]
  · exact rtThreadResume_thread huv

/-- A thread that is not suspended on a list anymore. -/
theorem not_mem_rtThreadResume (ht : (k.thread t).stat = .suspend) :
    t ∉ (k.rtThreadResume t).suspendThread q := by
  unfold rtThreadResume
  rw [if_pos ht]
  exact fun h => (mem_unlinkReady.mp h).2 rfl

/-- A thread is resumed. -/
theorem ListInv.resume (h : ListInv s) (t : Nat) (hk : s'.kern = s.kern.rtThreadResume t)
    (hpc : s'.pc = s.pc) : ListInv s' := by
  refine h.mono (fun q => ?_) fun u q hu => ?_
  · rw [hk]
    exact rtThreadResume_sublist ..
  · rw [hk] at hu ⊢
    have hon := h.on u q ((rtThreadResume_sublist ..).mem hu)
    have hne : u ≠ t := by
      rintro rfl
      exact not_mem_rtThreadResume hon.2 hu
    rw [hpc, rtThreadResume_thread hne]
    exact ⟨rfl, rfl⟩

/-- A step of a thread that is on no list, which puts it on none. -/
theorem ListInv.own (h : ListInv s) (t : Nat) (ht : ∀ q, t ∉ s.kern.suspendThread q)
    (hsus : s'.kern.suspendThread = s.kern.suspendThread)
    (hthr : ∀ u, u ≠ t → s'.pc u = s.pc u ∧ s'.kern.thread u = s.kern.thread u) : ListInv s' := by
  refine h.mono (fun q => ?_) fun u q hu => ?_
  · rw [hsus]
  · rw [hsus] at hu
    have hne : u ≠ t := by
      rintro rfl
      exact ht q hu
    rw [(hthr u hne).1, (hthr u hne).2]
    exact ⟨rfl, rfl⟩

/-! ## The steps -/

/-- What `channelStep` does, case by case. -/
inductive ChannelStep (s : ChannelSys) : ChannelAct → ChannelSys → Prop
  | preempt (u : Nat) (hu : (s.kern.thread u).stat = .ready) :
    ChannelStep s (.preempt u) (s.setKern { s.kern with current := u })
  | recv (c : Nat) (timeout : Int) (s' : ChannelSys) (hp : s.pc s.kern.current = .user)
    (hs : binChannelRecv s c timeout = some s') : ChannelStep s (.recv c timeout) s'
  | send (c : Nat) (type : Int) (u : Nat) (needReply : Bool)
    (hp : s.pc s.kern.current = .user) :
    ChannelStep s (.send c type u needReply) (binChannelSend s c type u needReply)
  | reply (c : Nat) (type : Int) (u : Nat) (hp : s.pc s.kern.current = .user) :
    ChannelStep s (.reply c type u) (binChannelReply s c type u)
  | setError (e : Int) (hp : s.pc s.kern.current = .user) :
    ChannelStep s (.setError e) (s.setKern (s.kern.setError s.kern.current e))
  | recvResume (c : Nat) (hp : s.pc s.kern.current = .recv c)
    (hr : (s.kern.thread s.kern.current).stat = .ready) :
    ChannelStep s .resume (recvResume s c)
  | sendRetry (c r : Nat) (needReply : Bool) (u : Nat) (s' : ChannelSys)
    (hp : s.pc s.kern.current = .sendUnread c r needReply u)
    (hr : (s.kern.thread s.kern.current).stat = .ready)
    (hs : sendRetry s c r needReply u = some s') : ChannelStep s .resume s'
  | sendDrain (c r : Nat) (sched : Bool) (hp : s.pc s.kern.current = .sendWait c r sched)
    (hr : sched = false ∨ (s.kern.thread s.kern.current).stat = .ready) :
    ChannelStep s .resume (sendDrain s c r)
  | timeout (u : Nat) (k : Kern) (hk : s.kern.rtThreadTimeout u = some k) :
    ChannelStep s (.timeout u) (s.setKern k)

theorem channelStep_some {act : ChannelAct} (h : channelStep s act = some s') :
    s.fault = false ∧ ChannelStep s act s' := by
  unfold channelStep at h
  split at h
  · cases h
  refine ⟨by simpa using ‹¬ s.fault = true›, ?_⟩
  split at h
  · split at h <;> cases h
    exact .preempt _ ‹_›
  · exact .recv _ _ _ ‹_› h
  · cases h
    exact .send _ _ _ _ ‹_›
  · cases h
    exact .reply _ _ _ ‹_›
  · cases h
    exact .setError _ ‹_›
  · split at h <;> cases h
    exact .recvResume _ ‹_› ‹_›
  · split at h
    · exact .sendRetry _ _ _ _ _ ‹_› ‹_› h
    · cases h
  · split at h <;> cases h
    exact .sendDrain _ _ _ ‹_› ‹_›
  · obtain ⟨k, hk, rfl⟩ := Option.map_eq_some_iff.mp h
    exact .timeout _ k hk
  · cases h

/-- What is left of the list, in the loop of a `bin_channel_send` by `t`. -/
structure Round (t c : Nat) (us : List Nat) (s : ChannelSys) : Prop extends ListInv s where
  left : us.Nodup
  listed : ∀ v ∈ us, v ∈ s.kern.suspendThread c
  current : s.kern.current = t
  offList : ∀ q, t ∉ s.kern.suspendThread q

theorem rtThreadResume_current (k : Kern) (t : Nat) : (k.rtThreadResume t).current = k.current := by
  unfold rtThreadResume
  split <;> rfl

theorem mem_rtThreadResume (hu : u ≠ t) :
    u ∈ (k.rtThreadResume t).suspendThread q ↔ u ∈ k.suspendThread q := by
  unfold rtThreadResume
  split
  · rw [mem_unlinkReady, and_iff_left hu]
  · rfl

theorem Round.one {us : List Nat} (h : Round t c (u :: us) s)
    (hs : SentOne s s' c r needReply u) : Round t c us s' := by
  obtain ⟨hu, hus⟩ := List.nodup_cons.mp h.left
  refine ⟨h.toListInv.resume u hs.kern hs.pc, hus, fun v hv => ?_, ?_, fun q hq => ?_⟩
  · have hne : v ≠ u := by
      rintro rfl
      exact hu hv
    rw [hs.kern, mem_rtThreadResume hne]
    exact h.listed v (List.mem_cons_of_mem _ hv)
  · rw [hs.kern, rtThreadResume_current]
    exact h.current
  · rw [hs.kern] at hq
    exact h.offList q ((rtThreadResume_sublist ..).mem hq)

theorem Round.suspended {us : List Nat} (h : Round t c us s) (hv : v ∈ us) :
    s.pc v = .recv c ∧ (s.kern.thread v).stat = .suspend :=
  h.on v c (h.listed v hv)

/-- The thread that sends is not one of those that it sends to. -/
theorem Round.ne {us : List Nat} (h : Round t c us s) (hv : v ∈ us) : v ≠ t := by
  rintro rfl
  exact h.offList c (h.listed v hv)

theorem rtThreadSuspend_suspendThread (k : Kern) (t : Nat) :
    (k.rtThreadSuspend t).suspendThread = k.suspendThread := by
  unfold rtThreadSuspend
  split <;> rfl

theorem rtThreadSuspend_current (k : Kern) (t : Nat) :
    (k.rtThreadSuspend t).current = k.current := by
  unfold rtThreadSuspend
  split <;> rfl

theorem rtThreadSuspend_thread (hu : u ≠ t) : (k.rtThreadSuspend t).thread u = k.thread u := by
  unfold rtThreadSuspend
  split
  · rw [setThread_thread, if_neg hu]
  · rfl

theorem rtThreadSuspend_stat (k : Kern) (t : Nat) :
    ((k.rtThreadSuspend t).thread t).stat = .suspend := by
  unfold rtThreadSuspend
  split
  · rw [setThread_thread, if_pos rfl]
  · next hs =>
    cases hst : (k.thread t).stat with
    | ready => exact absurd hst hs
    | suspend => rfl

theorem startTimer_stat (k : Kern) (t u : Nat) :
    ((k.startTimer t).thread u).stat = (k.thread u).stat := by
  rw [startTimer, setThread_thread]
  split
  · next hu => rw [hu]
  · rfl

theorem mdelay_thread (s : ChannelSys) (hu : u ≠ s.kern.current) :
    s.mdelay.kern.thread u = s.kern.thread u := by
  simp only [mdelay, setKern_kern, startTimer, setThread_thread, if_neg hu,
    rtThreadSuspend_thread hu]

theorem mdelay_suspendThread (s : ChannelSys) :
    s.mdelay.kern.suspendThread = s.kern.suspendThread :=
  rtThreadSuspend_suspendThread ..

theorem ListInv.mdelay (h : ListInv s) (ht : ∀ q, s.kern.current ∉ s.kern.suspendThread q)
    (p : Pc) : ListInv (s.mdelay.goto s.kern.current p) :=
  h.own s.kern.current ht (mdelay_suspendThread s) fun _ hu =>
    ⟨Function.update_of_ne hu .., mdelay_thread s hu⟩

theorem ListInv.sendDone (h : ListInv s) (ht : ∀ q, s.kern.current ∉ s.kern.suspendThread q) :
    ListInv (sendDone s c r needReply sched) := by
  cases needReply with
  | true =>
    exact h.own s.kern.current ht (rtThreadSuspend_suspendThread ..) fun _ hu =>
      ⟨Function.update_of_ne hu .., rtThreadSuspend_thread hu⟩
  | false => exact h.own s.kern.current ht rfl fun _ hu => ⟨Function.update_of_ne hu .., rfl⟩

/-- The message of a send that is not over. -/
def Pc.msg : Pc → Option Nat
  | .sendUnread _ r _ _ | .sendWait _ r _ => some r
  | _ => none

theorem mem_goto_msg {p : Pc} (h : r ∈ ((s.goto t p).pc u).msg) : r ∈ p.msg ∨ r ∈ (s.pc u).msg := by
  rw [goto_pc, Function.update_apply] at h
  split at h
  · exact .inl h
  · exact .inr h

/-- The whole loop. -/
theorem ListInv.sendLoop {l : List Nat} (h : Round s.kern.current c l s) :
    ListInv (sendLoop c r needReply sched l s) := by
  refine sendLoop_inv (I := Round s.kern.current c) (fun s' h' => ?_) (fun u us s' h' _ => ?_)
    (fun u us s' h' _ _ _ => ?_) (fun u us s' s'' h' _ ho => h'.one (sendOne_some ho)) l s h
  · have ht := h'.offList
    rw [← h'.current] at ht
    exact h'.toListInv.sendDone ht
  · have ht := h'.offList
    rw [← h'.current] at ht
    exact h'.toListInv.mdelay ht _
  · exact h'.toListInv.resume u rfl rfl

/-- The loop at the start of a send, or where a sleep ends. -/
theorem ListInv.round (h : ListInv s) {l : List Nat} (hl : l.Sublist (s.kern.suspendThread c))
    (ht : ∀ q, s.pc s.kern.current ≠ .recv q) : Round s.kern.current c l s :=
  ⟨h, (h.nodup c).sublist hl, fun _ hv => hl.mem hv, rfl, fun q => h.off (.inl (ht q))⟩

/-- `bin_channel_recv` changes no other thread. -/
theorem binChannelRecv_thread {timeout : Int} (hs : binChannelRecv s c timeout = some s')
    (hu : u ≠ s.kern.current) : s'.kern.thread u = s.kern.thread u := by
  obtain ⟨k, hk, rfl⟩ := Option.map_eq_some_iff.mp hs
  obtain ⟨-, hthr, -⟩ := rtIpcListInsert_some hk
  have hrest : k.thread u = s.kern.thread u := by
    rw [hthr, if_neg hu, rtThreadSuspend_thread hu]
  show (if timeout > 0 then k.startTimer s.kern.current else k).thread u = s.kern.thread u
  split
  · rw [startTimer, setThread_thread, if_neg hu, hrest]
  · exact hrest

/-- `bin_channel_recv` suspends the thread. -/
theorem binChannelRecv_stat {timeout : Int} (hs : binChannelRecv s c timeout = some s') :
    (s'.kern.thread s.kern.current).stat = .suspend := by
  obtain ⟨k, hk, rfl⟩ := Option.map_eq_some_iff.mp hs
  obtain ⟨-, hthr, -⟩ := rtIpcListInsert_some hk
  have hstat : (k.thread s.kern.current).stat = .suspend := by
    rw [hthr, if_pos rfl]
    exact rtThreadSuspend_stat ..
  show ((if timeout > 0 then k.startTimer s.kern.current else k).thread s.kern.current).stat = _
  split
  · rw [startTimer_stat, hstat]
  · exact hstat

theorem ListInv.recv (h : ListInv s) (hp : s.pc s.kern.current = .user) {timeout : Int}
    (hs : binChannelRecv s c timeout = some s') : ListInv s' := by
  obtain ⟨k, hk, rfl⟩ := Option.map_eq_some_iff.mp hs
  obtain ⟨-, hthr, hon, hnd⟩ := rtIpcListInsert_some hk
  have hoff : ∀ q, s.kern.current ∉ s.kern.suspendThread q := fun q =>
    h.off (.inl (by rw [hp]; exact nofun))
  have htimer : ∀ u, ((if timeout > 0 then k.startTimer s.kern.current else k).thread u).stat =
      (k.thread u).stat := by
    intro u
    split
    · exact startTimer_stat ..
    · rfl
  have hlist : (if timeout > 0 then k.startTimer s.kern.current else k).suspendThread =
      k.suspendThread := by
    split <;> rfl
  rw [rtThreadSuspend_suspendThread] at hon hnd
  constructor
  · intro u q hu
    simp only [goto_kern, setKern_kern, hlist] at hu
    simp only [goto_pc, goto_kern, setKern_kern, htimer]
    by_cases hut : u = s.kern.current
    · subst hut
      rw [Function.update_self, hthr, if_pos rfl]
      obtain ⟨-, rfl⟩ := (hon _ q hu).resolve_left (hoff q)
      exact ⟨rfl, rtThreadSuspend_stat ..⟩
    · rw [Function.update_of_ne hut, hthr, if_neg hut, rtThreadSuspend_thread hut]
      exact h.on u q ((hon u q hu).resolve_right fun e => hut e.1)
  · intro q
    simp only [goto_kern, setKern_kern, hlist]
    exact hnd h.nodup hoff q

/-! ## The ways through each function -/

theorem recvResume_cases (s : ChannelSys) (c : Nat) :
    (((s.kern.thread s.kern.current).error ≠ rtEok ∨ s.msgRet s.kern.current = none) ∧
      recvResume s c = s.goto s.kern.current .user) ∨
    ∃ r, (s.kern.thread s.kern.current).error = rtEok ∧ s.msgRet s.kern.current = some r ∧
      recvResume s c = recvMsg s c r := by
  unfold recvResume
  simp only
  split
  · exact .inl ⟨.inl ‹_›, rfl⟩
  · next he =>
    cases hm : s.msgRet s.kern.current with
    | none => exact .inl ⟨.inr rfl, rfl⟩
    | some r => exact .inr ⟨r, not_not.mp he, rfl, rfl⟩

theorem binChannelReply_cases (s : ChannelSys) (c : Nat) (type : Int) (u : Nat) :
    ((∀ e ∈ (s.channel c).waitingList, (s.ipcMsg e).sender ≠ s.kern.current) ∧
      binChannelReply s c type u = s) ∨
    ∃ e ∈ (s.channel c).waitingList, (s.ipcMsg e).sender = s.kern.current ∧
      (((s.channel c).reply = none ∧
          binChannelReply s c type u = { replyMsg s c e type u with fault := true }) ∨
        ∃ v, (s.channel c).reply = some v ∧
          binChannelReply s c type u = replyWake (replyMsg s c e type u) c e v) := by
  unfold binChannelReply
  simp only
  cases hf : (s.channel c).waitingList.find? fun e => (s.ipcMsg e).sender = s.kern.current with
  | none =>
    refine .inl ⟨fun e he => ?_, rfl⟩
    simpa using List.find?_eq_none.mp hf e he
  | some e =>
    refine .inr ⟨e, List.mem_of_find?_eq_some hf, by simpa using List.find?_some hf, ?_⟩
    have hsame : ((replyMsg s c e type u).channel c).reply = (s.channel c).reply := by
      simp [replyMsg]
    simp only [hsame]
    cases hr : (s.channel c).reply with
    | none => exact .inl ⟨rfl, rfl⟩
    | some v => exact .inr ⟨v, rfl, rfl⟩

theorem sendDrain_cases (s : ChannelSys) (c r : Nat) :
    ((s.channel c).waitMsg = [] ∧ sendDrain s c r = s.goto s.kern.current (.sendErr c)) ∨
    ((s.channel c).waitMsg ≠ [] ∧ (s.channel c).waitingList = [] ∧
      sendDrain s c r = sendEnd (drainMsg s c) r) ∨
    ((s.channel c).waitMsg ≠ [] ∧ (s.channel c).waitingList ≠ [] ∧
      sendDrain s c r = ((drainMsg s c).setKern (s.kern.rtThreadSuspend s.kern.current)).goto
        s.kern.current (.sendWait c r true)) := by
  have hsame : ((drainMsg s c).channel c).waitingList = (s.channel c).waitingList := by
    simp [drainMsg]
  unfold sendDrain
  simp only [hsame]
  split
  · exact .inl ⟨‹_›, rfl⟩
  · split
    · exact .inr (.inl ⟨‹_›, ‹_›, rfl⟩)
    · exact .inr (.inr ⟨‹_›, ‹_›, rfl⟩)

theorem sendRetry_cases (h : sendRetry s c r needReply u = some s') :
    (s.msgRet u ≠ none ∧ s' = (awake s).mdelay) ∨
    (s.msgRet u = none ∧ u ∈ s.kern.suspendThread c ∧ s' = sendLoop c r needReply true
      ((s.kern.suspendThread c).dropWhile (· ≠ u)) (awake s)) := by
  have hlist : (awake s).kern.suspendThread = s.kern.suspendThread := by
    simp only [awake, setKern_kern]
    split <;> rfl
  unfold sendRetry at h
  simp only [hlist] at h
  split at h
  · cases h
    exact .inl ⟨‹_›, rfl⟩
  · next hm =>
    split at h <;> cases h
    exact .inr ⟨not_not.mp hm, ‹_›, rfl⟩

theorem binChannelSend_cases (s : ChannelSys) (c : Nat) (type : Int) (u : Nat)
    (needReply : Bool) :
    (¬ s.ipcMsgPos < ipcMsgSize ∧
      binChannelSend s c type u needReply = { s with log := { s.log with nomem := true } }) ∨
    (s.ipcMsgPos < ipcMsgSize ∧ binChannelSend s c type u needReply =
      sendLoop c s.ipcMsgPos needReply (decide (s.kern.suspendThread c ≠ []))
        (s.kern.suspendThread c)
        (sendStart { s with ipcMsgPos := s.ipcMsgPos + 1 } c s.ipcMsgPos type u needReply)) := by
  unfold binChannelSend ipcMsgAlloc
  by_cases hp : s.ipcMsgPos < ipcMsgSize
  · refine .inr ⟨hp, ?_⟩
    rw [if_pos hp]
  · refine .inl ⟨hp, ?_⟩
    rw [if_neg hp]

theorem sendStart_kern (s : ChannelSys) (type : Int) :
    (sendStart s c r type u needReply).kern = s.kern := by
  cases needReply <;> rfl

theorem sendStart_pc (s : ChannelSys) (type : Int) :
    (sendStart s c r type u needReply).pc = s.pc := by
  cases needReply <;> rfl

theorem awake_current (s : ChannelSys) : (awake s).kern.current = s.kern.current := by
  simp only [awake, setKern_kern]
  split <;> rfl

theorem awake_suspendThread (s : ChannelSys) :
    (awake s).kern.suspendThread = s.kern.suspendThread := by
  simp only [awake, setKern_kern]
  split <;> rfl

theorem awake_thread (s : ChannelSys) (hu : u ≠ s.kern.current) :
    (awake s).kern.thread u = s.kern.thread u := by
  simp only [awake, setKern_kern]
  split
  · rw [setError, setThread_thread, if_neg hu]
  · rfl

/-! ## Every step keeps the lists -/

theorem ListInv.start (h : ListInv s) (hp : s.pc s.kern.current = .user) (c r : Nat) (type : Int)
    (d : Nat) (needReply : Bool) :
    Round s.kern.current c (s.kern.suspendThread c)
      (sendStart { s with ipcMsgPos := s.ipcMsgPos + 1 } c r type d needReply) := by
  have h' : ListInv (sendStart { s with ipcMsgPos := s.ipcMsgPos + 1 } c r type d needReply) :=
    h.mono (fun q => by rw [sendStart_kern]) fun u q _ => by
      rw [sendStart_kern, sendStart_pc]
      exact ⟨rfl, rfl⟩
  have hround := h'.round (c := c) (l := s.kern.suspendThread c)
    (by rw [sendStart_kern]) fun q => by
      rw [sendStart_kern, sendStart_pc, hp]
      exact nofun
  rwa [sendStart_kern] at hround

theorem ListInv.awake (h : ListInv s) (ht : ∀ q, s.kern.current ∉ s.kern.suspendThread q) :
    ListInv (awake s) :=
  h.own s.kern.current ht (awake_suspendThread s) fun _ hu => ⟨rfl, awake_thread s hu⟩

/-- The loop where a sleep ends. -/
theorem ListInv.retry (h : ListInv s) (hp : s.pc s.kern.current = .sendUnread c r needReply u) :
    Round s.kern.current c ((s.kern.suspendThread c).dropWhile (· ≠ u)) (Channel.awake s) := by
  have ht : ∀ q, s.kern.current ∉ s.kern.suspendThread q := fun q =>
    h.off (.inl (by rw [hp]; exact nofun))
  have hround := (h.awake ht).round (c := c)
    (l := (s.kern.suspendThread c).dropWhile (· ≠ u))
    (by rw [awake_suspendThread]; exact List.dropWhile_sublist _) fun q => by
      rw [awake_current]
      exact (by rw [hp]; exact nofun : s.pc s.kern.current ≠ .recv q)
  rwa [awake_current] at hround

theorem ListInv.step (h : ListInv s) {act : ChannelAct} (hs : channelStep s act = some s') :
    ListInv s' := by
  have hoff : (∀ q, s.pc s.kern.current ≠ .recv q) ∨
      (s.kern.thread s.kern.current).stat = .ready →
        ∀ q, s.kern.current ∉ s.kern.suspendThread q := fun ht q =>
    h.off (ht.imp_left fun hp => hp q)
  cases (channelStep_some hs).2 with
  | preempt u hu => exact ⟨h.on, h.nodup⟩
  | recv c timeout _ hp hs => exact h.recv hp hs
  | send c type u needReply hp =>
    rcases binChannelSend_cases s c type u needReply with ⟨-, he⟩ | ⟨-, he⟩
    · rw [he]
      exact ⟨h.on, h.nodup⟩
    · rw [he]
      have hround := h.start hp c s.ipcMsgPos type u needReply
      refine ListInv.sendLoop ?_
      rwa [sendStart_kern]
  | reply c type u hp =>
    rcases binChannelReply_cases s c type u with ⟨-, he⟩ | ⟨e, -, -, ⟨-, he⟩ | ⟨v, -, he⟩⟩
    · rwa [he]
    · rw [he]
      exact ⟨h.on, h.nodup⟩
    · rw [he]
      exact h.resume v rfl rfl
  | setError e hp =>
    refine h.own s.kern.current (hoff (.inl fun q => by rw [hp]; exact nofun)) rfl fun u hu => ?_
    refine ⟨rfl, ?_⟩
    rw [setKern_kern, setError, setThread_thread, if_neg hu]
  | recvResume c hp hr =>
    have ht := hoff (.inr hr)
    rcases recvResume_cases s c with ⟨-, he⟩ | ⟨r, -, -, he⟩
    · rw [he]
      exact h.own s.kern.current ht rfl fun u hu => ⟨Function.update_of_ne hu .., rfl⟩
    · rw [he]
      exact h.own s.kern.current ht rfl fun u hu => ⟨Function.update_of_ne hu .., rfl⟩
  | sendRetry c r needReply u _ hp hr hs =>
    rcases sendRetry_cases hs with ⟨-, rfl⟩ | ⟨-, -, rfl⟩
    · have ht := hoff (.inr hr)
      refine (h.awake ht).own s.kern.current (by rwa [awake_suspendThread])
        (mdelay_suspendThread _) fun u hu => ⟨rfl, mdelay_thread _ ?_⟩
      rwa [awake_current]
    · refine ListInv.sendLoop ?_
      rw [awake_current]
      exact h.retry hp
  | sendDrain c r sched hp hr =>
    have ht := hoff (.inl fun q => by rw [hp]; exact nofun)
    rcases sendDrain_cases s c r with ⟨-, he⟩ | ⟨-, -, he⟩ | ⟨-, -, he⟩
    · rw [he]
      exact h.own s.kern.current ht rfl fun u hu => ⟨Function.update_of_ne hu .., rfl⟩
    · rw [he]
      exact h.own s.kern.current ht rfl fun u hu => ⟨Function.update_of_ne hu .., rfl⟩
    · rw [he]
      exact h.own s.kern.current ht (rtThreadSuspend_suspendThread ..) fun u hu =>
        ⟨Function.update_of_ne hu .., rtThreadSuspend_thread hu⟩
  | timeout u k hk =>
    unfold rtThreadTimeout at hk
    split at hk <;> cases hk
    refine h.mono (fun q => List.filter_sublist) fun v q hv => ?_
    have hne := (mem_unlinkReady.mp hv).2
    refine ⟨rfl, ?_⟩
    rw [setKern_kern, unlinkReady_thread, if_neg hne, setError, setThread_thread, if_neg hne]

theorem ListInv.init (flag priority : Nat → Nat) : ListInv (channelInit flag priority) :=
  ⟨fun _ _ h => (List.not_mem_nil h).elim, fun _ => List.nodup_nil⟩

end Tudu.Channel
