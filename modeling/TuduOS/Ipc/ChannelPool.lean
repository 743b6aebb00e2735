import TuduOS.Ipc.ChannelList

/-!
# The pool of message records

`ipc_msg_alloc` takes one record for each send, and one more for each listed thread of a send with
`need_reply`; `ipc_msg_free` gives none back. So a completed exchange leaves fewer free records than
before it, and `ipc_msg_alloc` returns `NULL` as soon as the sends have needed 100. For the record
of the message that is an error; for that of a reply it is a write through `NULL` (`fault`).

* `PoolHas`: the step finds the records that it takes. In the runs along it, and in no others,
  `ipc_msg_alloc` never returns `NULL` (`NoNull`).
* `PoolKeeps`: with it, no exchange completes. In the runs along it, and in no others, the free
  records after each exchange are those before it as well (`PoolOk`).
* **The invariant** (`PoolInv`, with `ListInv`). The record of a send that is not over has been
  taken; a channel with records for replies has a thread to reply to.
-/

namespace Tudu.Channel

open Kern ChannelSys Lts

/-- `ipc_msg_alloc` has not returned `NULL`, and nothing was written through `NULL`. -/
def NoNull (s : ChannelSys) : Prop := s.log.nomem = false ∧ s.fault = false

/-- The property: no `NULL`, and every exchange left as many free records as before it. -/
def PoolOk (s : ChannelSys) : Prop := NoNull s ∧ ∀ x ∈ s.log.exchanges, x.2 = x.1

/-! ## The condition -/

/-- The records for replies that the loop of a send takes. -/
def needs (s : ChannelSys) (needReply : Bool) : List Nat → Nat
  | [] => 0
  | u :: us => if needReply = true ∧ s.msgRet u = none then needs s needReply us + 1 else 0

/-- The step finds the records that it takes. -/
def PoolHas (s : ChannelSys) : ChannelAct → Prop
  | .send c _ _ needReply =>
    s.ipcMsgPos + 1 + needs s needReply (s.kern.suspendThread c) ≤ ipcMsgSize
  | .resume =>
    match s.pc s.kern.current with
    | .sendUnread c _ needReply u => s.msgRet u = none →
        s.ipcMsgPos + needs s needReply ((s.kern.suspendThread c).dropWhile (· ≠ u)) ≤ ipcMsgSize
    | _ => True
  | _ => True

/-- The step completes an exchange: the sender takes the last reply. -/
def Completes (s : ChannelSys) : ChannelAct → Prop
  | .resume =>
    match s.pc s.kern.current with
    | .sendWait c _ _ => (s.channel c).waitMsg ≠ [] ∧ (s.channel c).waitingList = []
    | _ => False
  | _ => False

def PoolKeeps (s : ChannelSys) (act : ChannelAct) : Prop := PoolHas s act ∧ ¬ Completes s act

instance (s : ChannelSys) : ∀ act, Decidable (PoolHas s act)
  | .send c _ _ needReply => inferInstanceAs (Decidable
      (s.ipcMsgPos + 1 + needs s needReply (s.kern.suspendThread c) ≤ ipcMsgSize))
  | .resume =>
    match hp : s.pc s.kern.current with
    | .sendUnread c _ needReply u => decidable_of_iff (s.msgRet u = none →
        s.ipcMsgPos + needs s needReply ((s.kern.suspendThread c).dropWhile (· ≠ u)) ≤ ipcMsgSize)
        (by simp only [PoolHas, hp])
    | .user | .recv _ | .sendWait .. | .sendErr _ => isTrue (by simp only [PoolHas, hp])
  | .preempt _ | .recv .. | .reply .. | .timeout _ | .setError _ =>
    inferInstanceAs (Decidable True)

instance (s : ChannelSys) : ∀ act, Decidable (Completes s act)
  | .resume =>
    match hp : s.pc s.kern.current with
    | .sendWait c _ _ => decidable_of_iff
        ((s.channel c).waitMsg ≠ [] ∧ (s.channel c).waitingList = []) (by simp only [Completes, hp])
    | .user | .recv _ | .sendUnread .. | .sendErr _ =>
      isFalse (by simp only [Completes, hp, not_false_eq_true])
  | .preempt _ | .recv .. | .send .. | .reply .. | .timeout _ | .setError _ =>
    inferInstanceAs (Decidable False)

instance (s : ChannelSys) (act : ChannelAct) : Decidable (PoolKeeps s act) :=
  inferInstanceAs (Decidable (PoolHas s act ∧ ¬ Completes s act))

/-! ## The invariant -/

structure PoolInv (s : ChannelSys) : Prop where
  size : s.ipcMsgPos ≤ ipcMsgSize
  taken : ∀ t, ∀ r ∈ (s.pc t).msg, r < s.ipcMsgPos
  waiting : ∀ c, (s.channel c).waitingList ≠ [] → (s.channel c).reply ≠ none
  unread : ∀ t c r u, s.pc t = .sendUnread c r true u → (s.channel c).reply ≠ none

variable {s s' : ChannelSys} {k : Kern} {t u v c q r n : Nat} {needReply sched : Bool}

theorem needs_congr {l : List Nat} (h : ∀ v ∈ l, s'.msgRet v = s.msgRet v) :
    needs s' needReply l = needs s needReply l := by
  induction l with
  | nil => rfl
  | cons u us ih =>
    simp only [needs, h u List.mem_cons_self]
    rw [ih fun v hv => h v (List.mem_cons_of_mem _ hv)]

/-- A step that takes no record. -/
theorem PoolInv.mono (h : PoolInv s) (hpos : s'.ipcMsgPos = s.ipcMsgPos)
    (hpc : ∀ t, ∀ r ∈ (s'.pc t).msg, r ∈ (s.pc t).msg)
    (hwait : ∀ c, (s'.channel c).waitingList ≠ [] → (s'.channel c).reply ≠ none)
    (hun : ∀ t c r u, s'.pc t = .sendUnread c r true u → (s'.channel c).reply ≠ none) :
    PoolInv s' :=
  ⟨hpos ▸ h.size, fun t r hr => hpos ▸ h.taken t r (hpc t r hr), hwait, hun⟩

/-- A step that takes no record and changes no channel; the thread `t` goes to `p`. -/
theorem PoolInv.goto (h : PoolInv s) (t : Nat) {p : Pc} (hpos : s'.ipcMsgPos = s.ipcMsgPos)
    (hch : s'.channel = s.channel) (hpc : s'.pc = Function.update s.pc t p)
    (hp : ∀ r ∈ p.msg, r < s.ipcMsgPos)
    (hun : ∀ c r u, p = .sendUnread c r true u → (s.channel c).reply ≠ none) : PoolInv s' := by
  refine ⟨hpos ▸ h.size, fun u r hr => ?_, hch ▸ h.waiting, fun u c r v hu => ?_⟩
  · rw [hpc] at hr
    rw [hpos]
    exact (mem_goto_msg (s := s) hr).elim (hp r) (h.taken u r)
  · rw [hpc, Function.update_apply] at hu
    rw [hch]
    split at hu
    · exact hun c r v hu
    · exact h.unread u c r v hu

/-! ## The loop of a send -/

/-- The loop of a send that takes `n` records in all. -/
structure Taking (t c r : Nat) (needReply : Bool) (n : Nat) (us : List Nat) (s : ChannelSys) :
    Prop extends Round t c us s, PoolInv s where
  fault : s.fault = false
  own : r < s.ipcMsgPos
  ask : needReply = true → (s.channel c).reply ≠ none
  sum : s.ipcMsgPos + needs s needReply us = n

theorem Taking.one {us : List Nat} (h : Taking t c r needReply n (u :: us) s)
    (hm : s.msgRet u = none) (hs : SentOne s s' c r needReply u) :
    Taking t c r needReply n us s' := by
  have hsame : needs s' needReply us = needs s needReply us := by
    refine needs_congr fun v hv => ?_
    rw [hs.msgRet, Function.update_of_ne]
    rintro rfl
    exact (List.nodup_cons.mp h.left).1 hv
  have hsum := h.sum
  have hsize := h.size
  have hown := h.own
  have hask := hs.asked
  have hreply : ∀ q, (s'.channel q).reply = (s.channel q).reply := by
    intro q
    by_cases hq : q = c
    · rw [hq, hs.reply]
    · rw [hs.other q hq]
  cases needReply with
  | false =>
    simp only [Asked] at hask
    simp only [needs, Bool.false_eq_true, false_and, if_false] at hsum
    have hzero : needs s false us = 0 := by
      cases us <;> simp [needs]
    refine ⟨h.toRound.one hs, h.toPoolInv.mono hask.1 (fun t r hr => hs.pc ▸ hr) (fun q hq => ?_)
      (fun t q r v ht => ?_), hs.fault.trans h.fault, by omega, (by simp), ?_⟩
    · rw [hreply]
      refine h.waiting q ?_
      by_cases hqc : q = c
      · subst hqc
        rwa [hask.2.2.2] at hq
      · rwa [hs.other q hqc] at hq
    · rw [hreply]
      exact h.unread t q r v (hs.pc ▸ ht)
    · rw [hsame, hzero, hask.1]
      omega
  | true =>
    simp only [Asked] at hask
    obtain ⟨hlt, hpos, -, -, -⟩ := hask
    simp only [needs, hm, and_self, if_true] at hsum
    refine ⟨h.toRound.one hs, ⟨by omega, fun t r hr => ?_, fun q hq => ?_, fun t q r v ht => ?_⟩,
      hs.fault.trans h.fault, by omega, fun _ => ?_, ?_⟩
    · rw [hs.pc] at hr
      have := h.taken t r hr
      omega
    · rw [hreply]
      by_cases hqc : q = c
      · subst hqc
        exact h.ask rfl
      · rw [hs.other q hqc] at hq
        exact h.waiting q hq
    · rw [hreply]
      exact h.unread t q r v (hs.pc ▸ ht)
    · rw [hreply]
      exact h.ask rfl
    · rw [hsame, hpos]
      omega

/-- The loop: there are enough records if and only if none is written through `NULL`. -/
theorem Taking.sendLoop {l : List Nat} (h : Taking t c r needReply n l s) (sched : Bool) :
    PoolInv (sendLoop c r needReply sched l s) ∧
      ((sendLoop c r needReply sched l s).fault = false ↔ n ≤ ipcMsgSize) := by
  refine sendLoop_inv (I := Taking t c r needReply n)
    (J := fun s' => PoolInv s' ∧ (s'.fault = false ↔ n ≤ ipcMsgSize))
    (fun s h' => ?_) (fun u us s h' hm => ?_) (fun u us s h' hm hr hp => ?_)
    (fun u us s s' h' hm ho => h'.one hm (sendOne_some ho)) l s h
  · have hn : n ≤ ipcMsgSize := by
      have := h'.sum
      have := h'.size
      simp only [needs] at *
      omega
    cases needReply with
    | true =>
      refine ⟨h'.toPoolInv.goto s.kern.current rfl rfl rfl (fun r' hr' => ?_) (by simp),
        iff_of_true h'.fault hn⟩
      cases hr'
      exact h'.own
    | false =>
      exact ⟨h'.toPoolInv.goto s.kern.current rfl rfl rfl (by simp [Pc.msg]) (by simp),
        iff_of_true h'.fault hn⟩
  · have hn : n ≤ ipcMsgSize := by
      have hsum := h'.sum
      have := h'.size
      simp only [needs, hm, and_false, if_false] at hsum
      omega
    refine ⟨h'.toPoolInv.goto s.kern.current rfl rfl rfl (fun r' hr' => ?_) fun c' r' u' e => ?_,
      iff_of_true h'.fault hn⟩
    · cases hr'
      exact h'.own
    · cases e
      exact h'.ask rfl
  · have hn : ¬ n ≤ ipcMsgSize := by
      have hsum := h'.sum
      simp only [needs, hm, hr, and_self, if_true] at hsum
      omega
    refine ⟨h'.toPoolInv.mono rfl (fun _ _ h => h) (fun q hq => ?_) fun t q r' v ht => ?_,
      iff_of_false (by simp) hn⟩
    · by_cases hqc : q = c
      · subst hqc
        simp only [give, Function.update_self] at hq ⊢
        exact h'.waiting q hq
      · simp only [give, Function.update_of_ne hqc] at hq ⊢
        exact h'.waiting q hq
    · have hu := h'.unread t q r' v ht
      by_cases hqc : q = c
      · subst hqc
        simpa [give] using hu
      · simpa [give, hqc] using hu

theorem sendLoop_log (c r : Nat) (needReply sched : Bool) (l : List Nat) (s : ChannelSys) :
    (sendLoop c r needReply sched l s).log.nomem = s.log.nomem ∧
      (sendLoop c r needReply sched l s).log.exchanges = s.log.exchanges := by
  refine sendLoop_inv (I := fun _ s' => s'.log.nomem = s.log.nomem ∧
      s'.log.exchanges = s.log.exchanges) (J := fun s' => s'.log.nomem = s.log.nomem ∧
      s'.log.exchanges = s.log.exchanges) (fun s' h => ?_) (fun _ _ _ h _ => h)
    (fun _ _ _ h _ _ _ => h) (fun u us s1 s2 h _ ho => ?_) l s ⟨rfl, rfl⟩
  · cases needReply <;> exact h
  · have hask := (sendOne_some ho).asked
    cases needReply with
    | false => rwa [hask.2.2.1]
    | true => rwa [hask.2.2.2.1]

/-! ## Every step -/

/-- The loop at the start of a send. -/
theorem PoolInv.start (h : PoolInv s) (hl : ListInv s) (hf : s.fault = false)
    (hp : s.pc s.kern.current = .user) (hpos : s.ipcMsgPos < ipcMsgSize) (c : Nat) (type : Int)
    (d : Nat) (needReply : Bool) :
    Taking s.kern.current c s.ipcMsgPos needReply
      (s.ipcMsgPos + 1 + needs s needReply (s.kern.suspendThread c)) (s.kern.suspendThread c)
      (sendStart { s with ipcMsgPos := s.ipcMsgPos + 1 } c s.ipcMsgPos type d needReply) := by
  have hround := hl.start hp c s.ipcMsgPos type d needReply
  have htaken : ∀ t, ∀ r ∈ (s.pc t).msg, r < s.ipcMsgPos + 1 := fun t r hr =>
    Nat.lt_succ_of_lt (h.taken t r hr)
  cases needReply with
  | false =>
    exact ⟨hround, ⟨hpos, htaken, h.waiting, h.unread⟩, hf, Nat.lt_succ_self _, (by simp),
      congrArg _ (needs_congr fun _ _ => rfl)⟩
  | true =>
    refine ⟨hround, ⟨hpos, htaken, fun q hq => ?_, fun t q r v ht => ?_⟩, hf, Nat.lt_succ_self _,
      fun _ => ?_, congrArg _ (needs_congr fun _ _ => rfl)⟩
    · by_cases hqc : q = c
      · subst hqc
        simp [sendStart]
      · simp only [sendStart, if_true, setChannel_channel, Function.update_of_ne hqc] at hq ⊢
        exact h.waiting q hq
    · by_cases hqc : q = c
      · subst hqc
        simp [sendStart]
      · simp only [sendStart, if_true, setChannel_channel, Function.update_of_ne hqc]
        exact h.unread t q r v ht
    · simp [sendStart]

/-- The loop where a sleep ends. -/
theorem PoolInv.retry (h : PoolInv s) (hl : ListInv s) (hf : s.fault = false)
    (hp : s.pc s.kern.current = .sendUnread c r needReply u) :
    Taking s.kern.current c r needReply
      (s.ipcMsgPos + needs s needReply ((s.kern.suspendThread c).dropWhile (· ≠ u)))
      ((s.kern.suspendThread c).dropWhile (· ≠ u)) (awake s) := by
  refine ⟨hl.retry hp, ⟨h.size, h.taken, h.waiting, h.unread⟩, hf, ?_, fun hr => ?_,
    congrArg _ (needs_congr fun _ _ => rfl)⟩
  · exact h.taken s.kern.current r (by rw [hp]; rfl)
  · subst hr
    exact h.unread s.kern.current c r u hp

theorem PoolInv.reply (h : PoolInv s) (type : Int) (d : Nat) :
    PoolInv (binChannelReply s c type d) ∧
      ((binChannelReply s c type d).fault = s.fault) ∧
      (binChannelReply s c type d).log.nomem = s.log.nomem ∧
      (binChannelReply s c type d).log.exchanges = s.log.exchanges := by
  rcases binChannelReply_cases s c type d with ⟨-, he⟩ | ⟨e, hm, -, ⟨hr, -⟩ | ⟨v, hr, he⟩⟩
  · rw [he]
    exact ⟨h, rfl, rfl, rfl⟩
  · exact absurd hr (h.waiting c (List.ne_nil_of_mem hm))
  · rw [he]
    refine ⟨h.mono rfl (fun _ _ h => h) (fun q hq => ?_) fun t q r w ht => ?_, rfl, rfl, rfl⟩
    · by_cases hqc : q = c
      · subst hqc
        simp [replyWake, replyMsg, hr]
      · simp only [replyWake, replyMsg, setKern_channel, setChannel_channel,
          Function.update_of_ne hqc] at hq ⊢
        exact h.waiting q hq
    · by_cases hqc : q = c
      · subst hqc
        simp [replyWake, replyMsg, hr]
      · simp only [replyWake, replyMsg, setKern_channel, setChannel_channel,
          Function.update_of_ne hqc]
        exact h.unread t q r w ht

/-- The last round of the loop in which a sender takes the replies, and the others. -/
theorem PoolInv.drain (h : PoolInv s) (hp : s.pc s.kern.current = .sendWait c r sched) :
    PoolInv (sendDrain s c r) ∧ (sendDrain s c r).fault = s.fault ∧
      (sendDrain s c r).log.nomem = s.log.nomem ∧
      ((¬ Completes s .resume ∧ (sendDrain s c r).log.exchanges = s.log.exchanges) ∨
        (Completes s .resume ∧ (sendDrain s c r).log.exchanges =
          (ipcMsgSize - r, ipcMsgSize - s.ipcMsgPos) :: s.log.exchanges)) := by
  have hdrain : PoolInv (drainMsg s c) := by
    refine h.mono rfl (fun _ _ h => h) (fun q hq => ?_) fun t q r v ht => ?_
    · by_cases hqc : q = c
      · subst hqc
        simp only [drainMsg, setChannel_channel, Function.update_self] at hq ⊢
        exact h.waiting q hq
      · simp only [drainMsg, setChannel_channel, Function.update_of_ne hqc] at hq ⊢
        exact h.waiting q hq
    · have hu := h.unread t q r v ht
      by_cases hqc : q = c
      · subst hqc
        simpa [drainMsg] using hu
      · simpa [drainMsg, hqc] using hu
  have hcomp : Completes s .resume ↔
      (s.channel c).waitMsg ≠ [] ∧ (s.channel c).waitingList = [] := by
    simp only [Completes, hp]
  rcases sendDrain_cases s c r with ⟨hm, he⟩ | ⟨hm, hw, he⟩ | ⟨hm, hw, he⟩
  · rw [he]
    exact ⟨h.goto s.kern.current rfl rfl rfl (by simp [Pc.msg]) (by simp), rfl, rfl,
      .inl ⟨fun hc => (hcomp.mp hc).1 hm, rfl⟩⟩
  · rw [he]
    exact ⟨hdrain.goto s.kern.current rfl rfl rfl (by simp [Pc.msg]) (by simp), rfl, rfl,
      .inr ⟨hcomp.mpr ⟨hm, hw⟩, rfl⟩⟩
  · rw [he]
    refine ⟨hdrain.goto s.kern.current rfl rfl rfl (fun r' hr' => ?_) (by simp), rfl, rfl,
      .inl ⟨fun hc => hw (hcomp.mp hc).2, rfl⟩⟩
    cases hr'
    exact h.taken s.kern.current r (by rw [hp]; rfl)

/-- One step: the records that are left, whether `NULL` came up, and whether an exchange ended. -/
theorem PoolInv.step (h : PoolInv s) (hl : ListInv s) (hn : NoNull s) {act : ChannelAct}
    (hs : channelStep s act = some s') :
    PoolInv s' ∧ (NoNull s' ↔ PoolHas s act) ∧
      ((¬ Completes s act ∧ s'.log.exchanges = s.log.exchanges) ∨
        ∃ r, r < s.ipcMsgPos ∧ Completes s act ∧
          s'.log.exchanges = (ipcMsgSize - r, ipcMsgSize - s.ipcMsgPos) :: s.log.exchanges) := by
  obtain ⟨hf, hstep⟩ := channelStep_some hs
  cases hstep with
  | preempt _ _ | setError _ _ | timeout _ _ _ =>
    exact ⟨h.mono rfl (fun _ _ h => h) h.waiting h.unread, iff_of_true hn trivial,
      .inl ⟨id, rfl⟩⟩
  | recv c timeout _ hp hs =>
    obtain ⟨k, -, rfl⟩ := Option.map_eq_some_iff.mp hs
    exact ⟨h.goto s.kern.current rfl rfl rfl (by simp [Pc.msg]) (by simp), iff_of_true hn trivial,
      .inl ⟨id, rfl⟩⟩
  | send c type u needReply hp =>
    rcases binChannelSend_cases s c type u needReply with ⟨hpos, he⟩ | ⟨hpos, he⟩
    · rw [he]
      refine ⟨h.mono rfl (fun _ _ h => h) h.waiting h.unread, iff_of_false (fun hn' => ?_) ?_,
        .inl ⟨id, rfl⟩⟩
      · cases hn'.1
      · simp only [PoolHas]
        omega
    · rw [he]
      have htake := h.start hl hf hp hpos c type u needReply
      obtain ⟨hinv, hfault⟩ := htake.sendLoop (decide (s.kern.suspendThread c ≠ []))
      have hlog := sendLoop_log c s.ipcMsgPos needReply
        (decide (s.kern.suspendThread c ≠ [])) (s.kern.suspendThread c)
        (sendStart { s with ipcMsgPos := s.ipcMsgPos + 1 } c s.ipcMsgPos type u needReply)
      have hstart : (sendStart { s with ipcMsgPos := s.ipcMsgPos + 1 } c s.ipcMsgPos type u
          needReply).log = s.log := by
        cases needReply <;> rfl
      rw [hstart] at hlog
      refine ⟨hinv, ⟨fun hn' => hfault.mp hn'.2, fun hc => ⟨hlog.1.trans hn.1, hfault.mpr hc⟩⟩,
        .inl ⟨id, hlog.2⟩⟩
  | reply c type u hp =>
    obtain ⟨hinv, hfault, hnomem, hex⟩ := h.reply (c := c) type u
    exact ⟨hinv, iff_of_true ⟨hnomem.trans hn.1, hfault.trans hn.2⟩ trivial, .inl ⟨id, hex⟩⟩
  | recvResume c hp hr =>
    have hcomp : ¬ Completes s .resume := by simp [Completes, hp]
    have hhas : PoolHas s .resume := by simp [PoolHas, hp]
    rcases recvResume_cases s c with ⟨-, he⟩ | ⟨r, -, -, he⟩
    · rw [he]
      exact ⟨h.goto s.kern.current rfl rfl rfl (by simp [Pc.msg]) (by simp), iff_of_true hn hhas,
        .inl ⟨hcomp, rfl⟩⟩
    · rw [he]
      refine ⟨⟨h.size, fun t r' hr' => ?_, fun q hq => ?_, fun t q r' v ht => ?_⟩,
        iff_of_true hn hhas, .inl ⟨hcomp, rfl⟩⟩
      · have hr' : r' ∈ ((s.goto s.kern.current .user).pc t).msg := hr'
        exact (mem_goto_msg hr').elim (by simp [Pc.msg]) (h.taken t r')
      · by_cases hqc : q = c
        · subst hqc
          simp only [recvMsg, goto_channel, setChannel_channel, Function.update_self] at hq ⊢
          exact h.waiting q hq
        · simp only [recvMsg, goto_channel, setChannel_channel, Function.update_of_ne hqc] at hq ⊢
          exact h.waiting q hq
      · have ht : Function.update s.pc s.kern.current .user t = .sendUnread q r' true v := ht
        rw [Function.update_apply] at ht
        split at ht
        · cases ht
        · have hu := h.unread t q r' v ht
          by_cases hqc : q = c
          · subst hqc
            simpa [recvMsg] using hu
          · simpa [recvMsg, hqc] using hu
  | sendRetry c r needReply u _ hp hr hs =>
    have hcomp : ¬ Completes s .resume := by simp [Completes, hp]
    rcases sendRetry_cases hs with ⟨hm, rfl⟩ | ⟨hm, -, rfl⟩
    · refine ⟨h.mono rfl (fun _ _ h => h) h.waiting h.unread, iff_of_true hn ?_,
        .inl ⟨hcomp, rfl⟩⟩
      simp only [PoolHas, hp]
      exact fun hm' => absurd hm' hm
    · have htake := h.retry hl hf hp
      obtain ⟨hinv, hfault⟩ := htake.sendLoop true
      have hlog := sendLoop_log c r needReply true
        ((s.kern.suspendThread c).dropWhile (· ≠ u)) (awake s)
      refine ⟨hinv, ?_, .inl ⟨hcomp, hlog.2⟩⟩
      simp only [PoolHas, hp, hm, true_implies]
      exact ⟨fun hn' => hfault.mp hn'.2, fun hc => ⟨hlog.1.trans hn.1, hfault.mpr hc⟩⟩
  | sendDrain c r sched hp hr =>
    obtain ⟨hinv, hfault, hnomem, hex⟩ := h.drain hp
    have hhas : PoolHas s .resume := by simp [PoolHas, hp]
    refine ⟨hinv, iff_of_true ⟨hnomem.trans hn.1, hfault.trans hn.2⟩ hhas,
      hex.imp_right fun hx => ⟨r, ?_, hx⟩⟩
    exact h.taken s.kern.current r (by rw [hp]; rfl)

/-! ## Every run -/

/-- The states of the runs without `NULL`: every exchange that is over has left fewer records. -/
structure PoolRun (s : ChannelSys) : Prop extends ListInv s, PoolInv s where
  noNull : NoNull s
  less : ∀ x ∈ s.log.exchanges, x.2 < x.1

theorem PoolRun.step (h : PoolRun s) {act : ChannelAct} (hc : PoolHas s act)
    (hs : channelStep s act = some s') : PoolRun s' := by
  obtain ⟨hinv, hn, hex⟩ := h.toPoolInv.step h.toListInv h.noNull hs
  refine ⟨h.toListInv.step hs, hinv, hn.mpr hc, fun x hx => ?_⟩
  rcases hex with ⟨-, he⟩ | ⟨r, hr, -, he⟩
  · exact h.less x (he ▸ hx)
  · rw [he] at hx
    rcases List.mem_cons.mp hx with rfl | hx
    · have := h.size
      simp only
      omega
    · exact h.less x hx

theorem PoolRun.init (flag priority : Nat → Nat) : PoolRun (channelInit flag priority) :=
  ⟨.init flag priority, ⟨Nat.zero_le _, nofun, fun _ h => absurd rfl h, nofun⟩, ⟨rfl, rfl⟩, nofun⟩

/-- **The pool.** A run has no `NULL` record if and only if each step finds the records that it
takes; then every completed exchange has left fewer free records than before it. The free records
after each exchange are those before it if and only if, moreover, no exchange completes. -/
theorem ipc_msg_pool_iff (flag priority : Nat → Nat) (acts : List ChannelAct) (s : ChannelSys)
    (hx : exec channelStep (channelInit flag priority) acts = some s) :
    (Along channelStep PoolHas (channelInit flag priority) acts ↔
      Visits channelStep NoNull (channelInit flag priority) acts) ∧
    (Along channelStep PoolHas (channelInit flag priority) acts →
      ∀ x ∈ s.log.exchanges, x.2 < x.1) ∧
    (Along channelStep PoolKeeps (channelInit flag priority) acts ↔
      Visits channelStep PoolOk (channelInit flag priority) acts) := by
  refine ⟨?_, fun hc => ?_, ?_⟩
  · refine along_iff_visits (I := PoolRun) (fun _ h => h.noNull) (fun _ _ _ h hc hs => h.step hc hs)
      (fun _ _ _ h hc hs hn => hc ?_) hx (.init flag priority)
    exact (h.toPoolInv.step h.toListInv h.noNull hs).2.1.mp hn
  · exact (hc.inv (fun _ _ _ h hk hs => h.step hk hs) hx (PoolRun.init flag priority)).less
  · refine along_iff_visits (I := fun s => PoolRun s ∧ s.log.exchanges = [])
      (fun s h => ⟨h.1.noNull, by simp [h.2]⟩) (fun s act s' h hc hs => ⟨h.1.step hc.1 hs, ?_⟩)
      (fun s act s' h hc hs hok => hc ?_) hx ⟨.init flag priority, rfl⟩
    · rcases (h.1.toPoolInv.step h.1.toListInv h.1.noNull hs).2.2 with ⟨-, he⟩ | ⟨r, -, hd, -⟩
      · exact he.trans h.2
      · exact absurd hd hc.2
    · obtain ⟨-, hn, hex⟩ := h.1.toPoolInv.step h.1.toListInv h.1.noNull hs
      have hhas := hn.mp hok.1
      refine ⟨hhas, fun hd => ?_⟩
      -- the exchange that ends has taken records
      rcases hex with ⟨hnd, -⟩ | ⟨r, hr, -, he⟩
      · exact hnd hd
      · have hmem : (ipcMsgSize - r, ipcMsgSize - s.ipcMsgPos) ∈ s'.log.exchanges := by
          rw [he]
          exact List.mem_cons_self
        have hlt := (h.1.step hhas hs).less _ hmem
        have heq := hok.2 _ hmem
        simp only at hlt heq
        omega

/-- A request whose receiver has not replied yet. -/
theorem ipc_msg_pool_iff_open : Visits channelStep PoolOk (channelInit (fun _ => 0) fun _ => 10)
    [.preempt 1, .recv 0 (-1), .preempt 0, .send 0 7 8 true, .preempt 1, .resume] :=
  (ipc_msg_pool_iff (fun _ => 0) (fun _ => 10) _ _ rfl).2.2.mp (by decide)

/-- One request and its reply leave two records fewer. -/
theorem ipc_msg_leaks : ¬ ∀ (flag priority : Nat → Nat) (acts : List ChannelAct) (s : ChannelSys),
    exec channelStep (channelInit flag priority) acts = some s → PoolOk s := by
  intro h
  have hex := (h (fun _ => 0) (fun _ => 10) [.preempt 1, .recv 0 (-1), .preempt 0, .send 0 7 8 true,
    .preempt 1, .resume, .reply 0 5 6, .preempt 0, .resume] _ rfl).2 (100, 98) (by decide)
  cases hex

end Tudu.Channel
