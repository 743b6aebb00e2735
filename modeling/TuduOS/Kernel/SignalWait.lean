import TuduOS.Kernel.SignalPending

/-!
# Waiting for signals

`rt_signal_wait` looks for a signal of its set behind `rt_schedule`, whoever has resumed the
thread; `_signal_deliver` asks for an enabled signal, not for one of the set.

* `InWait`: the target is suspended in `rt_signal_wait`; `killEnds`: a `rt_thread_kill` returns.
* `waited_iff`: `rt_signal_wait` returns `RT_EOK` with a pending signal of its set only, and a
  `rt_thread_kill` of such a signal makes the target ready, iff the steps meet `FoundOk` and
  `WakeOk`.
-/

namespace Tudu.Signal

open BitSet Lts

/-- The target is suspended in `rt_signal_wait(set, _, _)`. -/
def InWait (s : SigSys) (set : BitVec 32) : Prop :=
  s.tid.stat = .suspend ∧ ∃ frames, s.frames = .waiting set :: frames

/-- The signal of the `rt_thread_kill` that returns in the step with `RT_EOK`; of one that appended
its node before the last `rt_signal_wait` of the target, none. -/
def killEnds (s : SigSys) : Act → Option Nat
  | .kill _ sig => if sig < 32 ∧ (killCheck s.tid sig).isSome = true then some sig else none
  | .deliver k =>
    match s.kills k with
    | some ⟨sig, some w⟩ => if w = s.waits then some sig.val else none
    | _ => none
  | .irqKill sig _ => if sig < 32 then some sig else none
  | _ => none

/-- `rt_thread_kill` number `k` of the signal has still to come to `_signal_deliver`. -/
def Due (s : SigSys) (k sig : Nat) : Prop :=
  ∃ kill, s.kills k = some kill ∧ kill.sig.val = sig ∧ kill.appended = some s.waits

/-- `rt_signal_wait` returns `RT_EOK` with a pending signal of its set, which it removes; and at
the end of a `rt_thread_kill` of a signal that the target waits for, the target is ready, or
another `rt_thread_kill` of the signal goes on. -/
structure WaitOk (s : SigSys) (act : Act) : Prop where
  found : ∀ s' w, sigStep s act = some s' → s'.ret = some w → w.ret = rtEok →
    ∃ l1 n l2, s.tid.siList = l1 ++ n :: l2 ∧ w.si = n.si ∧
      w.set.getLsbD n.si.siSigno = true ∧ s.tid.sigPending.getLsbD n.si.siSigno = true ∧
      s'.tid.siList = l1 ++ l2 ∧
      s'.tid.sigPending = s.tid.sigPending &&& ~~~sigBit n.si.siSigno
  wakes : ∀ s' sig set, sigStep s act = some s' → killEnds s act = some sig → InWait s set →
    set.getLsbD sig = true → s'.tid.stat = .ready ∨ ∃ k, Due s' k sig

/-- The step comes to `__done` of `rt_signal_wait(set, _, _)`. -/
def looks (s : SigSys) : Act → Option (BitVec 32)
  | .wait set _ => if s.tid.sigPending &&& set ≠ 0 then some set else none
  | .goOn b =>
    match s.frames with
    | .waiting set :: _ =>
      if b ∧ s.tid.signalPending = true then none
      else if s.tid.error = -rtEtimeout then none else some set
    | _ => none
  | _ => none

/-- At `__done`, a signal of the set is pending, and so is that of the first node of the set. -/
def FoundOk (s : SigSys) (act : Act) : Prop :=
  ∀ set, looks s act = some set → s.tid.sigPending &&& set ≠ 0 ∧
    ∀ l1 n l2, s.tid.siList = l1 ++ n :: l2 → (∀ m ∈ l1, sigBit m.si.siSigno &&& set = 0) →
      sigBit n.si.siSigno &&& set ≠ 0 → s.tid.sigPending.getLsbD n.si.siSigno = true

/-- The step comes to `_signal_deliver` with an enabled signal that is pending. -/
def delivers (s : SigSys) : Act → Bool
  | .deliver _ => decide (s.tid.sigPending &&& s.tid.sigMask ≠ 0)
  | .irqKill sig ok => (killCheck s.tid sig).isNone &&
      decide ((killAppend s sig ok).tid.sigPending &&& s.tid.sigMask ≠ 0)
  | _ => false

/-- A `rt_thread_kill` of a signal that the target waits for comes to `_signal_deliver` with an
enabled signal pending, or another one of the signal goes on. -/
def WakeOk (s : SigSys) (act : Act) : Prop :=
  ∀ sig set, killEnds s act = some sig → InWait s set → set.getLsbD sig = true →
    delivers s act = true ∨ ∃ k, act ≠ .deliver k ∧ Due s k sig

variable {s s' s1 : SigSys} {act : Act} {n : SiginfoNode} {l1 l2 : List SiginfoNode}
  {set : BitVec 32} {sig : Nat} {t : RtThread} {cleanState irq ok b : Bool} {w : WaitRet}

/-! ## Bits and nodes -/

/-- Each signal whose bit is set has a node. -/
structure Backed (s : SigSys) : Prop where
  node : ∀ signo, s.tid.sigPending.getLsbD signo = true → ∃ n ∈ s.tid.siList, n.si.siSigno = signo
  valid : ∀ n ∈ s.tid.siList, n.si.siSigno < 32

namespace Backed

theorem of_keys (h : Backed s) (hp : s'.tid.sigPending = s.tid.sigPending)
    (hl : s'.tid.siList.map key = s.tid.siList.map key) : Backed s' := by
  have hmem : ∀ signo, (∃ n ∈ s'.tid.siList, n.si.siSigno = signo) ↔
      ∃ n ∈ s.tid.siList, n.si.siSigno = signo := fun signo => by
    have hfst := congrArg (List.map Prod.fst) hl
    rw [List.map_map, List.map_map] at hfst
    have hiff : signo ∈ s'.tid.siList.map (Prod.fst ∘ key) ↔
        signo ∈ s.tid.siList.map (Prod.fst ∘ key) := by rw [hfst]
    rw [List.mem_map, List.mem_map] at hiff
    exact hiff
  refine ⟨fun signo hb => ?_, fun n hn => ?_⟩
  · rw [hp] at hb
    exact (hmem signo).mpr (h.node signo hb)
  · obtain ⟨m, hm, he⟩ := (hmem _).mp ⟨n, hn, rfl⟩
    rw [← he]
    exact h.valid m hm

theorem remove (h : Backed s) (hl : s.tid.siList = l1 ++ n :: l2) (hl' : s'.tid.siList = l1 ++ l2)
    (hp : s'.tid.sigPending = s.tid.sigPending &&& ~~~sigBit n.si.siSigno) : Backed s' := by
  have hn : n.si.siSigno < 32 := h.valid n (by rw [hl]; simp)
  refine ⟨fun signo hb => ?_, fun m hm => ?_⟩
  · rw [hp, ← mem_bits, bits_and_not, Set.mem_sdiff, mem_sigBit hn, mem_bits] at hb
    obtain ⟨m, hm, rfl⟩ := h.node signo hb.1
    refine ⟨m, ?_, rfl⟩
    rw [hl] at hm
    rw [hl']
    rcases List.mem_append.mp hm with hm | hm
    · exact List.mem_append_left _ hm
    · rcases List.mem_cons.mp hm with rfl | hm
      · exact absurd rfl hb.2
      · exact List.mem_append_right _ hm
  · rw [hl'] at hm
    refine h.valid m ?_
    rw [hl]
    rcases List.mem_append.mp hm with hm | hm
    · exact List.mem_append_left _ hm
    · exact List.mem_append_right _ (List.mem_cons_of_mem _ hm)

theorem append (h : Backed s) {sig : Fin 32} (hn : n.si.siSigno = sig)
    (hl : s'.tid.siList = s.tid.siList ++ [n])
    (hp : s'.tid.sigPending = s.tid.sigPending ||| sigBit sig) : Backed s' := by
  refine ⟨fun signo hb => ?_, fun m hm => ?_⟩
  · rw [hp, ← mem_bits, bits_or, Set.mem_union, mem_sigBit sig.isLt, mem_bits] at hb
    rw [hl]
    rcases hb with hb | rfl
    · obtain ⟨m, hm, he⟩ := h.node signo hb
      exact ⟨m, List.mem_append_left _ hm, he⟩
    · exact ⟨n, List.mem_append_right _ (List.mem_singleton_self n), hn⟩
  · rw [hl] at hm
    rcases List.mem_append.mp hm with hm | hm
    · exact h.valid m hm
    · rw [List.mem_singleton.mp hm, hn]
      exact sig.isLt

theorem step (h : Backed s) (hs : sigStep s act = some s') : Backed s' := by
  have h₀ : Backed { s with ret := none } := ⟨h.node, h.valid⟩
  cases move_change hs with
  | same hp _ hl => exact h₀.of_keys hp hl
  | masks _ _ _ hp hl => exact h₀.of_keys hp (congrArg _ hl)
  | append sig _ hp _ hl => exact h₀.append rfl hl hp
  | take node _ _ _ hl _ hp =>
    have hl' : s.tid.siList = [] ++ node :: s'.tid.siList := hl
    exact h₀.remove hl' rfl hp
  | found set node ht _ hp =>
    obtain ⟨l1, l2, hl, hl', -⟩ := takeMatch_some ht
    exact h₀.remove hl hl' hp

end Backed

theorem sigInit_backed : Backed sigInit := by
  refine ⟨fun signo hb => ?_, fun n hn => absurd hn List.not_mem_nil⟩
  simp [sigInit] at hb

/-! ## What `rt_signal_wait` returns -/

/-- A step comes to `__done`, or returns nothing that is `RT_EOK`. -/
inductive Looked (s : SigSys) (act : Act) (s' : SigSys) : Prop where
  | done (set : BitVec 32) (s1 : SigSys) (hlook : looks s act = some set) (hk : Kept s s1)
      (hs : s' = waitDone s1 set)
  | other (hlook : looks s act = none)
      (hret : s'.ret = s.ret ∨ ∃ w, s'.ret = some w ∧ w.ret ≠ rtEok)

theorem etimeout_ne_eok : -rtEtimeout ≠ rtEok := by decide

theorem einval_ne_eok : -rtEinval ≠ rtEok := by decide

theorem signalDeliver_ret : (signalDeliver s irq).ret = s.ret := by
  simp only [signalDeliver]
  split
  · rfl
  · split
    · rfl
    · split
      · rfl
      · split <;> rfl

theorem killAppend_ret : (killAppend s sig ok).ret = s.ret := by
  cases ok <;> rfl

theorem handleLoop_ret (h : handleLoop s cleanState = some s') : s'.ret = s.ret := by
  have hdone : (if cleanState then
      { s with tid := { s.tid with signal := false } } else s).ret = s.ret := by
    split <;> rfl
  simp only [handleLoop] at h
  split at h
  · rw [← Option.some.inj h]
    exact hdone
  · split at h
    · rw [← Option.some.inj h]
      exact hdone
    · obtain ⟨vectors, -, rfl⟩ := Option.map_eq_some_iff.mp h
      rfl

theorem handleSig_ret (h : rtThreadHandleSig s cleanState = some s') : s'.ret = s.ret := by
  unfold rtThreadHandleSig at h
  split at h
  · rw [← Option.some.inj h]
  · exact handleLoop_ret h

theorem goOn_looked (h : goOn s b = some s') : Looked s (.goOn b) s' := by
  have hother : (∀ set frames, s.frames ≠ .waiting set :: frames) → s'.ret = s.ret →
      Looked s (.goOn b) s' := fun hf hr => by
    refine .other ?_ (.inl hr)
    simp only [looks]
  simp only [goOn] at h
  split at h
  · cases h
  · next hf =>
    refine hother (fun _ _ he => by rw [hf] at he; cases he) ?_
    have hr := handleLoop_ret h
    exact hr
  · next hf =>
    refine hother (fun _ _ he => by rw [hf] at he; cases he) ?_
    have hr := handleSig_ret h
    exact hr
  · next hf =>
    refine hother (fun _ _ he => by rw [hf] at he; cases he) ?_
    rw [← Option.some.inj h]
    exact signalDeliver_ret
  · next hf =>
    refine hother (fun _ _ he => by rw [hf] at he; cases he) ?_
    rw [← Option.some.inj h]
    exact killAppend_ret
  · next hf =>
    refine hother (fun _ _ he => by rw [hf] at he; cases he) ?_
    split at h
    · rw [← Option.some.inj h]
    · cases h
  · next hf =>
    refine hother (fun _ _ he => by rw [hf] at he; cases he) ?_
    split at h
    · have hr := handleSig_ret h
      exact hr
    · rw [← Option.some.inj h]
  · next set frames hf =>
    have hlook : looks s (.goOn b) = if b ∧ s.tid.signalPending = true then none
        else if s.tid.error = -rtEtimeout then none else some set := by
      simp only [looks, hf]
    split at h
    · next hb =>
      rw [if_pos hb] at hlook
      have hr := handleSig_ret h
      exact .other hlook (.inl hr)
    · next hb =>
      rw [if_neg hb] at hlook
      obtain rfl := Option.some.inj h
      by_cases he : s.tid.error = -rtEtimeout
      · rw [if_pos he] at hlook
        refine .other hlook (.inr ⟨⟨set, -rtEtimeout, ⟨0, 0, 0⟩⟩, ?_, etimeout_ne_eok⟩)
        simp only [waitReturn, he, if_true]
      · rw [if_neg he] at hlook
        refine .done set
          { s with tid := { s.tid with signalWait := false }, frames := frames } hlook ?_ ?_
        · exact ⟨rfl, rfl, rfl, rfl, rfl, rfl⟩
        · simp only [waitReturn, he, if_false]

theorem move_looked (h : move s act = some s') : Looked s act s' := by
  cases act with
  | wait set timeout =>
    simp only [move, rtSignalWait] at h
    split at h
    · obtain rfl := Option.some.inj h
      have hlook : looks s (.wait set timeout) =
          if s.tid.sigPending &&& set ≠ 0 then some set else none := rfl
      split
      · next h0 =>
        refine .other ?_ (.inr ⟨_, rfl, einval_ne_eok⟩)
        rw [hlook, if_neg]
        rw [h0]
        exact not_not.mpr BitVec.and_zero
      · split
        · next hp =>
          rw [if_pos hp] at hlook
          exact .done set s hlook (Kept.refl s) rfl
        · next hp =>
          rw [if_neg hp] at hlook
          split
          · exact .other hlook (.inr ⟨_, rfl, etimeout_ne_eok⟩)
          · exact .other hlook (.inl rfl)
    · cases h
  | goOn b =>
    simp only [move] at h
    split at h
    · exact goOn_looked h
    · cases h
  | install signo handler =>
    simp only [move] at h
    split at h
    · rw [← Option.some.inj h]
      split <;> exact .other rfl (.inl rfl)
    · cases h
  | mask _ | block _ | setErrno _ | switchOut | timeout | resume =>
    simp only [move] at h
    split at h
    · rw [← Option.some.inj h]
      exact .other rfl (.inl rfl)
    · cases h
  | unmask signo =>
    simp only [move, rtSignalUnmask] at h
    split at h
    · rw [← Option.some.inj h]
      split <;> exact .other rfl (.inl rfl)
    · cases h
  | killSelf _ | kill _ _ =>
    simp only [move] at h
    split at h
    · split at h
      · split at h <;> rw [← Option.some.inj h] <;> exact .other rfl (.inl rfl)
      · rw [← Option.some.inj h]
        exact .other rfl (.inl rfl)
    · cases h
  | switchIn =>
    simp only [move] at h
    split at h
    · split at h
      · have hr := handleSig_ret h
        exact .other rfl (.inl hr)
      · rw [← Option.some.inj h]
        exact .other rfl (.inl rfl)
    · cases h
  | append k ok =>
    simp only [move] at h
    split at h
    · split at h
      · rw [← Option.some.inj h]
        exact .other rfl (.inl killAppend_ret)
      · cases h
    · cases h
  | deliver k =>
    simp only [move] at h
    split at h
    · split at h
      · rw [← Option.some.inj h]
        exact .other rfl (.inl signalDeliver_ret)
      · cases h
    · cases h
  | irqKill sig ok =>
    simp only [move] at h
    split at h
    · split at h
      · rw [← Option.some.inj h]
        exact .other rfl (.inl rfl)
      · rw [← Option.some.inj h]
        exact .other rfl (.inl (signalDeliver_ret.trans killAppend_ret))
    · rw [← Option.some.inj h]
      exact .other rfl (.inl rfl)

theorem takeMatch_of_first {n : SiginfoNode} (hno : ∀ m ∈ l1, sigBit m.si.siSigno &&& set = 0)
    (hn : sigBit n.si.siSigno &&& set ≠ 0) : takeMatch set (l1 ++ n :: l2) = some (n, l1 ++ l2) := by
  induction l1 with
  | nil =>
    rw [List.nil_append, takeMatch, if_pos hn]
    rfl
  | cons m l1 ih =>
    obtain ⟨hm, hno⟩ := List.forall_mem_cons.mp hno
    rw [List.cons_append, takeMatch, if_neg (not_not.mpr hm), ih hno]
    rfl

theorem waitDone_some {rest : List SiginfoNode} (h : takeMatch set s.tid.siList = some (n, rest)) :
    (waitDone s set).ret = some ⟨set, rtEok, n.si⟩ ∧ (waitDone s set).tid.siList = rest ∧
      (waitDone s set).tid.sigPending = s.tid.sigPending &&& ~~~sigBit n.si.siSigno := by
  simp only [waitDone, h]
  exact ⟨trivial, trivial, trivial⟩

theorem waitDone_ret (s : SigSys) (set : BitVec 32) : ∃ si, (waitDone s set).ret = some ⟨set, rtEok, si⟩ := by
  simp only [waitDone]
  split
  · exact ⟨_, rfl⟩
  · exact ⟨_, rfl⟩

/-- A signal of the set is pending, so its node is found. -/
theorem Backed.takeMatch_ne (h : Backed s) (hp : s.tid.sigPending &&& set ≠ 0) :
    takeMatch set s.tid.siList ≠ none := by
  obtain ⟨signo, hb, hset⟩ := and_ne_zero_iff.mp hp
  obtain ⟨n, hn, rfl⟩ := h.node signo (mem_bits.mp hb)
  intro hnone
  exact (sigBit_and (h.valid n hn)).mpr hset (takeMatch_none.mp hnone n hn)

theorem FoundOk.found (hc : FoundOk s act) (h : Backed s) (hs : sigStep s act = some s')
    (hw : s'.ret = some w) (hok : w.ret = rtEok) :
    ∃ l1 n l2, s.tid.siList = l1 ++ n :: l2 ∧ w.si = n.si ∧
      w.set.getLsbD n.si.siSigno = true ∧ s.tid.sigPending.getLsbD n.si.siSigno = true ∧
      s'.tid.siList = l1 ++ l2 ∧
      s'.tid.sigPending = s.tid.sigPending &&& ~~~sigBit n.si.siSigno := by
  have hlooked : Looked { s with ret := none } act s' := move_looked hs
  cases hlooked with
  | other hlook hret =>
    rcases hret with hr | ⟨w', hr, hne⟩
    · rw [hr] at hw
      cases hw
    · rw [hr] at hw
      rw [Option.some.inj hw] at hne
      exact absurd hok hne
  | done set s1 hlook hk hs' =>
    obtain ⟨hp, hfirst⟩ := hc set hlook
    have hl1 : s1.tid.siList = s.tid.siList := hk.list
    have hp1 : s1.tid.sigPending = s.tid.sigPending := hk.pending
    obtain ⟨⟨n, rest⟩, ht⟩ := Option.ne_none_iff_exists'.mp (h.takeMatch_ne hp)
    obtain ⟨l1, l2, hl, rfl, hin, hno⟩ := takeMatch_some ht
    obtain ⟨hr, hl', hp'⟩ := waitDone_some (s := s1) (hl1 ▸ ht)
    have hn : n.si.siSigno < 32 := h.valid n (by rw [hl]; simp)
    rw [hs', hr] at hw
    obtain rfl := Option.some.inj hw
    refine ⟨l1, n, l2, hl, rfl, (sigBit_and hn).mp hin, hfirst l1 n l2 hl hno hin, ?_, ?_⟩
    · rw [hs']
      exact hl'
    · rw [hs', hp', hp1]

theorem WaitOk.foundOk (h : WaitOk s act) (hs : sigStep s act = some s') : FoundOk s act := by
  intro set hlook
  have hlooked : Looked { s with ret := none } act s' := move_looked hs
  cases hlooked with
  | other hlook' _ =>
    rw [show looks { s with ret := none } act = looks s act from rfl, hlook] at hlook'
    cases hlook'
  | done set' s1 hlook' hk hs' =>
    obtain rfl : set = set' := Option.some.inj (hlook.symm.trans hlook')
    have hl1 : s1.tid.siList = s.tid.siList := hk.list
    constructor
    · obtain ⟨si, hr⟩ := waitDone_ret s1 set
      obtain ⟨_, n, _, _, _, hset, hb, -⟩ := h.found s' _ hs (hs' ▸ hr) rfl
      exact and_ne_zero_iff.mpr ⟨n.si.siSigno, mem_bits.mpr hb, mem_bits.mpr hset⟩
    · intro l1 n l2 hl hno hin
      have ht : takeMatch set s1.tid.siList = some (n, l1 ++ l2) := by
        rw [hl1, hl]
        exact takeMatch_of_first hno hin
      obtain ⟨hr, -, -⟩ := waitDone_some ht
      obtain ⟨_, m, _, _, hsi, _, hb, -⟩ := h.found s' _ hs (hs' ▸ hr) rfl
      have hsi' : n.si = m.si := hsi
      rw [hsi']
      exact hb

/-! ## Who wakes the target -/

/-- The target is suspended: `_signal_deliver` makes it ready iff it finds an enabled signal. -/
theorem signalDeliver_ready (hst : s.tid.stat = .suspend) :
    (signalDeliver s irq).tid.stat = .ready ↔ s.tid.sigPending &&& s.tid.sigMask ≠ 0 := by
  simp only [signalDeliver, hst, if_true]
  split
  · next h0 =>
    rw [hst]
    exact iff_of_false (fun he => by cases he) (not_not.mpr h0)
  · next hne => exact iff_of_true rfl hne

theorem signalDeliver_kills (s : SigSys) (irq : Bool) : (signalDeliver s irq).kills = s.kills ∧
    (signalDeliver s irq).waits = s.waits := by
  simp only [signalDeliver]
  split
  · exact ⟨rfl, rfl⟩
  · split
    · exact ⟨rfl, rfl⟩
    · split
      · exact ⟨rfl, rfl⟩
      · split <;> exact ⟨rfl, rfl⟩

theorem killCheck_stat (h : killCheck s.tid sig = some t) (hst : s.tid.stat = .suspend) :
    t.stat ≠ .ready := by
  unfold killCheck at h
  split at h
  · obtain rfl := Option.some.inj h
    exact fun he => by cases he
  · split at h
    · obtain ⟨l, -, rfl⟩ := Option.map_eq_some_iff.mp h
      exact fun he => by
        rw [hst] at he
        cases he
    · cases h

/-- At the end of a `rt_thread_kill`, the target is ready iff there was an enabled signal for
`_signal_deliver`; and the other `rt_thread_kill`s go on. -/
theorem kill_ends (hk : killEnds s act = some sig) (hst : s.tid.stat = .suspend)
    (hs : sigStep s act = some s') : (s'.tid.stat = .ready ↔ delivers s act = true) ∧
      ((∃ k, Due s' k sig) ↔ ∃ k, act ≠ .deliver k ∧ Due s k sig) := by
  have hsame : s'.kills = s.kills → s'.waits = s.waits → (∀ k, act ≠ .deliver k) →
      ((∃ k, Due s' k sig) ↔ ∃ k, act ≠ .deliver k ∧ Due s k sig) := fun hkills hwaits hne => by
    simp only [Due, hkills, hwaits]
    exact exists_congr fun k => (and_iff_right (hne k)).symm
  cases act with
  | kill k sig' =>
    simp only [killEnds] at hk
    split at hk
    · next hc =>
      obtain rfl := Option.some.inj hk
      obtain ⟨t, ht⟩ := Option.isSome_iff_exists.mp hc.2
      simp only [sigStep, move, hc.1, dite_true, ht] at hs
      split at hs
      · obtain rfl := Option.some.inj hs
        refine ⟨iff_of_false (killCheck_stat ht hst) (fun he => by cases he), ?_⟩
        exact hsame rfl rfl fun k he => by cases he
      · cases hs
    · cases hk
  | deliver k =>
    simp only [killEnds] at hk
    split at hk
    · next sig' w hkill =>
      simp only [sigStep, move, hkill] at hs
      split at hs
      · obtain rfl := Option.some.inj hs
        refine ⟨(signalDeliver_ready (s := { s with ret := none }) hst).trans ?_, ?_⟩
        · exact decide_eq_true_iff.symm
        · obtain ⟨hkills, hwaits⟩ := signalDeliver_kills { s with ret := none } false
          simp only [Due, setKill, hkills, hwaits, Function.update_apply]
          refine exists_congr fun k' => ?_
          by_cases he : k' = k
          · subst he
            simp
          · have hne : Act.deliver k ≠ .deliver k' := fun h => he (Act.deliver.inj h).symm
            rw [if_neg he]
            exact (and_iff_right hne).symm
      · cases hs
    · cases hk
  | irqKill sig' ok =>
    simp only [killEnds] at hk
    split at hk
    · next hlt =>
      simp only [sigStep, move, hlt, if_true] at hs
      split at hs
      · next t ht =>
        obtain rfl := Option.some.inj hs
        have hd : delivers s (.irqKill sig' ok) = false := by
          have ht' : killCheck s.tid sig' = some t := ht
          simp only [delivers, ht']
          rfl
        rw [hd]
        refine ⟨iff_of_false (killCheck_stat (s := s) ht hst) (fun he => by cases he), ?_⟩
        exact hsame rfl rfl fun k he => by cases he
      · next ht =>
        obtain rfl := Option.some.inj hs
        have ht' : killCheck s.tid sig' = none := ht
        have hst' : (killAppend { s with ret := none } sig' ok).tid.stat = .suspend := by
          cases ok <;> exact hst
        obtain ⟨hkills, hwaits⟩ :=
          signalDeliver_kills (killAppend { s with ret := none } sig' ok) true
        constructor
        · rw [signalDeliver_ready hst']
          simp only [delivers, ht', Option.isNone_none, Bool.true_and, decide_eq_true_eq]
          cases ok <;> exact Iff.rfl
        · refine hsame (hkills.trans ?_) (hwaits.trans ?_) fun k he => by cases he
          · cases ok <;> rfl
          · cases ok <;> rfl
    · cases hk
  | _ => cases hk

theorem waitOk_iff (h : Backed s) (hs : sigStep s act = some s') :
    WaitOk s act ↔ FoundOk s act ∧ WakeOk s act := by
  constructor
  · intro hok
    refine ⟨hok.foundOk hs, fun sig set hk hw hset => ?_⟩
    obtain ⟨hready, hdue⟩ := kill_ends hk hw.1 hs
    rw [← hready, ← hdue]
    exact hok.wakes s' sig set hs hk hw hset
  · rintro ⟨hf, hwake⟩
    refine ⟨fun s2 w h2 hw hok => ?_, fun s2 sig set h2 hk hw hset => ?_⟩
    · exact hf.found h h2 hw hok
    · obtain ⟨hready, hdue⟩ := kill_ends hk hw.1 h2
      rw [hready, hdue]
      exact hwake sig set hk hw hset

/-- **Waiting for signals.** In every run, `rt_signal_wait` returns `RT_EOK` with a pending signal
of its set that it removes, and a `rt_thread_kill` of a signal that the target waits for makes it
ready, if and only if a signal of the set is pending at `__done`, and each such `rt_thread_kill`
finds an enabled signal in `_signal_deliver`. -/
theorem waited_iff (acts : List Act) (s : SigSys) (hx : exec sigStep sigInit acts = some s) :
    Along sigStep WaitOk sigInit acts ↔
      Along sigStep (fun s act => FoundOk s act ∧ WakeOk s act) sigInit acts :=
  along_congr (I := Backed) (fun _ _ _ h hs => waitOk_iff h hs) (fun _ _ _ h _ hs => h.step hs) hx
    sigInit_backed

/-- The target waits for signal 14, and 16 is enabled; another thread sends 16. -/
def otherSignal : List Act :=
  [.switchIn, .unmask 16, .wait (sigBit 14) (-1), .switchOut, .kill 0 16, .append 0 true,
    .deliver 0, .switchIn, .goOn true, .goOn true]

theorem waited_iff_other : ∃ s, exec sigStep sigInit otherSignal = some s ∧
    (Along sigStep WaitOk sigInit otherSignal ↔
      Along sigStep (fun s act => FoundOk s act ∧ WakeOk s act) sigInit otherSignal) := by
  have hrun : (exec sigStep sigInit otherSignal).isSome = true := by decide +kernel
  obtain ⟨s, hx⟩ := Option.isSome_iff_exists.mp hrun
  exact ⟨s, hx, waited_iff otherSignal s hx⟩

/-- The target waits for signal 14, which it masks; another thread sends it. -/
def maskedSignal : List Act :=
  [.switchIn, .wait (sigBit 14) (-1), .switchOut, .kill 0 14, .append 0 true, .deliver 0]

theorem otherSignal_nothing : ∃ s s', exec sigStep sigInit otherSignal.dropLast = some s ∧
    sigStep s (.goOn true) = some s' ∧ s'.ret = some ⟨sigBit 14, rtEok, ⟨0, 0, 0⟩⟩ ∧
    ¬ WaitOk s (.goOn true) := by
  have hrun : ((exec sigStep sigInit otherSignal.dropLast).bind fun s =>
      (sigStep s (.goOn true)).map fun s' => (s.tid.sigPending, s'.ret)) =
        some (sigBit 16, some ⟨sigBit 14, rtEok, ⟨0, 0, 0⟩⟩) := by
    decide +kernel
  obtain ⟨s, hx, hr⟩ := Option.bind_eq_some_iff.mp hrun
  obtain ⟨s', hs, hp⟩ := Option.map_eq_some_iff.mp hr
  obtain ⟨hp, hret⟩ := Prod.mk.inj hp
  refine ⟨s, s', hx, hs, hret, fun hok => ?_⟩
  obtain ⟨_, n, _, _, _, hset, hb, -⟩ := hok.found s' _ hs hret rfl
  rw [hp] at hb
  have h1 := (mem_sigBit (by decide)).mp (mem_bits.mpr hb)
  have h2 := (mem_sigBit (by decide)).mp (mem_bits.mpr hset)
  omega

theorem maskedSignal_asleep : ∃ s s', exec sigStep sigInit maskedSignal.dropLast = some s ∧
    sigStep s (.deliver 0) = some s' ∧ s'.tid.stat = .suspend ∧ ¬ WaitOk s (.deliver 0) := by
  have hrun : ((exec sigStep sigInit maskedSignal.dropLast).bind fun s =>
      (sigStep s (.deliver 0)).map fun s' => (s.tid.stat, s.frames, s'.tid.stat)) =
        some (.suspend, [.waiting (sigBit 14)], .suspend) := by
    decide +kernel
  have hends : (exec sigStep sigInit maskedSignal.dropLast).map
      (fun s => killEnds s (.deliver 0)) = some (some 14) := by
    decide +kernel
  have hkills : (exec sigStep sigInit maskedSignal).map (fun s => s.kills) =
      some (Function.update (Function.update (Function.update (fun _ => none) 0
        (some ⟨14, none⟩)) 0 (some ⟨14, some 1⟩)) 0 none) := rfl
  obtain ⟨s, hx, hr⟩ := Option.bind_eq_some_iff.mp hrun
  obtain ⟨s', hs, hp⟩ := Option.map_eq_some_iff.mp hr
  obtain ⟨hst, hf, hst'⟩ : s.tid.stat = .suspend ∧ s.frames = [.waiting (sigBit 14)] ∧
      s'.tid.stat = .suspend := by simpa using hp
  refine ⟨s, s', hx, hs, hst', fun hok => ?_⟩
  rw [hx, Option.map_some, Option.some_inj] at hends
  rcases hok.wakes s' 14 _ hs hends ⟨hst, [], hf⟩ (by decide) with hready | ⟨k, kill, hk, -⟩
  · rw [hst'] at hready
    cases hready
  · have hx' : exec sigStep sigInit maskedSignal = some s' := by
      rw [show maskedSignal = maskedSignal.dropLast ++ [.deliver 0] from rfl, exec_append hx,
        exec_cons hs]
      rfl
    rw [hx', Option.map_some, Option.some_inj] at hkills
    rw [hkills] at hk
    simp only [Function.update_apply] at hk
    split at hk <;> cases hk

/-- `rt_signal_wait` returns `RT_EOK` without a signal, and a `rt_thread_kill` of a signal that the
target waits for leaves it suspended. -/
theorem waited_fails : ¬ Along sigStep WaitOk sigInit otherSignal ∧
    ¬ Along sigStep WaitOk sigInit maskedSignal := by
  obtain ⟨s1, _, hx1, -, -, hno1⟩ := otherSignal_nothing
  obtain ⟨s2, _, hx2, -, -, hno2⟩ := maskedSignal_asleep
  exact ⟨fun h => hno1 (along_at otherSignal.dropLast h hx1),
    fun h => hno2 (along_at maskedSignal.dropLast h hx2)⟩

end Tudu.Signal
