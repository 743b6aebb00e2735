import TuduOS.Kernel.Signal
import TuduOS.Lib.BitSet

/-!
# Pending signals

* `Change`: what a step does to the pending signals, their list and the mask; `sigStep_change`.
* `pending_iff`: `sig_pending` and `si_list` agree in every state of a run iff no node is appended
  for a signal that is pending then.
-/

namespace Tudu.Signal

open BitSet Lts

/-- The signal for which a step appends a node. -/
def appends (s : SigSys) : Act → Option (Fin 32)
  | .append k true =>
    match s.kills k with
    | some ⟨sig, none⟩ => some sig
    | _ => none
  | .goOn true =>
    match s.frames with
    | .killing sig :: _ => some sig
    | _ => none
  | .irqKill sig true =>
    if h : sig < 32 then if (killCheck s.tid sig).isNone then some ⟨sig, h⟩ else none else none
  | _ => none

/-- The step comes to the loop of `rt_thread_handle_sig`. -/
def atLoop (s : SigSys) : Act → Bool
  | .goOn b =>
    match s.frames with
    | .handling _ _ :: _ => true
    | .handle :: _ => !s.tid.signalWait
    | .blocked :: _ => b && s.tid.signalPending && !s.tid.signalWait
    | .waiting _ :: _ => b && s.tid.signalPending && !s.tid.signalWait
    | _ => false
  | .switchIn => s.tid.atEntry && !s.tid.signalWait
  | _ => false

/-- A node by its signal and the number of its `rt_thread_kill`. -/
def key (n : SiginfoNode) : Nat × Nat := (n.si.siSigno, n.number)

/-- What a step does to the pending signals. -/
inductive Change (s : SigSys) (act : Act) (s' : SigSys) : Prop where
  | same (hp : s'.tid.sigPending = s.tid.sigPending) (hm : s'.tid.sigMask = s.tid.sigMask)
      (hl : s'.tid.siList.map key = s.tid.siList.map key) (hg : s'.log = s.log)
      (ha : ∃ l, s'.accepted = s.accepted ++ l)
  | masks (signo : Nat) (hs : signo < 32)
      (hact : act = .mask signo ∧ s'.tid.sigMask = s.tid.sigMask &&& ~~~sigBit signo ∨
        act = .unmask signo ∧ s'.tid.sigMask = s.tid.sigMask ||| sigBit signo)
      (hp : s'.tid.sigPending = s.tid.sigPending) (hl : s'.tid.siList = s.tid.siList)
      (hg : s'.log = s.log) (ha : s'.accepted = s.accepted)
  | append (sig : Fin 32) (hact : appends s act = some sig)
      (hp : s'.tid.sigPending = s.tid.sigPending ||| sigBit sig)
      (hm : s'.tid.sigMask = s.tid.sigMask)
      (hl : s'.tid.siList = s.tid.siList ++ [⟨siUser sig, s.accepted.length⟩])
      (hg : s'.log = s.log) (ha : s'.accepted = s.accepted ++ [sig.val])
  | take (node : SiginfoNode) (vectors : Nat → Option Sighandler) (hact : atLoop s act = true)
      (hpm : s.tid.sigPending &&& s.tid.sigMask ≠ 0)
      (hl : s.tid.siList = node :: s'.tid.siList) (hv : s.tid.sigVectors = some vectors)
      (hp : s'.tid.sigPending = s.tid.sigPending &&& ~~~sigBit node.si.siSigno)
      (hm : s'.tid.sigMask = s.tid.sigMask)
      (hg : s'.log = if (vectors node.si.siSigno).isSome then
        ⟨node.number, node.si.siSigno, s.tid.sigMask.getLsbD node.si.siSigno⟩ :: s.log else s.log)
      (ha : s'.accepted = s.accepted)
  | found (set : BitVec 32) (node : SiginfoNode)
      (ht : takeMatch set s.tid.siList = some (node, s'.tid.siList))
      (hret : s'.ret = some ⟨set, rtEok, node.si⟩)
      (hp : s'.tid.sigPending = s.tid.sigPending &&& ~~~sigBit node.si.siSigno)
      (hm : s'.tid.sigMask = s.tid.sigMask) (hg : s'.log = s.log) (ha : s'.accepted = s.accepted)

variable {s s' : SigSys} {act : Act} {sig k : Nat} {set : BitVec 32} {l l' : List SiginfoNode}
  {n : SiginfoNode} {t : RtThread} {b cleanState irq ok : Bool}

/-! ## One step -/

theorem updateSi_key {si : Siginfo} (h : updateSi si l = some l') : l'.map key = l.map key := by
  induction l generalizing l' with
  | nil => cases h
  | cons n l ih =>
    rw [updateSi] at h
    split at h
    · next hn =>
      obtain rfl := Option.some.inj h
      rw [List.map_cons, List.map_cons]
      exact congrArg (· :: l.map key) (Prod.ext hn.symm rfl)
    · obtain ⟨m, hm, rfl⟩ := Option.map_eq_some_iff.mp h
      rw [List.map_cons, List.map_cons, ih hm]

theorem killCheck_some (h : killCheck s.tid sig = some t) : t.sigPending = s.tid.sigPending ∧
    t.sigMask = s.tid.sigMask ∧ t.siList.map key = s.tid.siList.map key := by
  unfold killCheck at h
  split at h
  · obtain rfl := Option.some.inj h
    exact ⟨rfl, rfl, rfl⟩
  · split at h
    · obtain ⟨l, hl, rfl⟩ := Option.map_eq_some_iff.mp h
      exact ⟨rfl, rfl, updateSi_key hl⟩
    · cases h

/-- The signals are as they were. -/
structure Kept (s s' : SigSys) : Prop where
  pending : s'.tid.sigPending = s.tid.sigPending
  mask : s'.tid.sigMask = s.tid.sigMask
  list : s'.tid.siList = s.tid.siList
  vectors : s'.tid.sigVectors = s.tid.sigVectors
  log : s'.log = s.log
  accepted : s'.accepted = s.accepted

theorem Kept.refl (s : SigSys) : Kept s s := ⟨rfl, rfl, rfl, rfl, rfl, rfl⟩

theorem Kept.trans {s1 : SigSys} (h : Kept s s1) (h' : Kept s1 s') : Kept s s' :=
  ⟨h'.pending.trans h.pending, h'.mask.trans h.mask, h'.list.trans h.list,
    h'.vectors.trans h.vectors, h'.log.trans h.log, h'.accepted.trans h.accepted⟩

theorem Kept.change (h : Kept s s') : Change s act s' :=
  .same h.pending h.mask (congrArg (List.map key) h.list) h.log
    ⟨[], by rw [h.accepted, List.append_nil]⟩

theorem signalDeliver_kept : Kept s (signalDeliver s irq) := by
  simp only [signalDeliver]
  split
  · exact Kept.refl s
  · split
    · exact ⟨rfl, rfl, rfl, rfl, rfl, rfl⟩
    · split
      · exact ⟨rfl, rfl, rfl, rfl, rfl, rfl⟩
      · split
        · exact ⟨rfl, rfl, rfl, rfl, rfl, rfl⟩
        · exact Kept.refl s

theorem handleLoop_change {s1 : SigSys} (h : handleLoop s1 cleanState = some s')
    (hk : Kept s s1) (hact : atLoop s act = true) : Change s act s' := by
  have hdone : Kept s1 (if cleanState then
      { s1 with tid := { s1.tid with signal := false } } else s1) := by
    split
    · exact ⟨rfl, rfl, rfl, rfl, rfl, rfl⟩
    · exact Kept.refl s1
  simp only [handleLoop] at h
  split at h
  · rw [← Option.some.inj h]
    exact (hk.trans hdone).change
  · next hne =>
    split at h
    · rw [← Option.some.inj h]
      exact (hk.trans hdone).change
    · next node rest hl =>
      obtain ⟨vectors, hv, rfl⟩ := Option.map_eq_some_iff.mp h
      refine .take node vectors hact ?_ ?_ ?_ ?_ hk.mask ?_ hk.accepted
      · rw [← hk.pending, ← hk.mask]
        exact hne
      · rw [← hk.list]
        exact hl
      · rw [← hk.vectors]
        exact hv
      · rw [← hk.pending]
      · rw [← hk.mask, ← hk.log]

theorem handleSig_change {s1 : SigSys} (h : rtThreadHandleSig s1 cleanState = some s')
    (hk : Kept s s1) (hact : s1.tid.signalWait = false → atLoop s act = true) :
    Change s act s' := by
  unfold rtThreadHandleSig at h
  split at h
  · rw [← Option.some.inj h]
    exact hk.change
  · next hn =>
    have hw : s1.tid.signalWait = false := Bool.eq_false_iff.mpr fun he => hn (.inr he)
    exact handleLoop_change h hk (hact hw)

theorem waitDone_change {s1 : SigSys} (hk : Kept s s1) : Change s act (waitDone s1 set) := by
  simp only [waitDone]
  split
  · next n rest ht =>
    refine .found set n ?_ rfl ?_ hk.mask hk.log hk.accepted
    · rw [← hk.list]
      exact ht
    · rw [← hk.pending]
  · exact Kept.change ⟨hk.pending, hk.mask, hk.list, hk.vectors, hk.log, hk.accepted⟩

theorem killAppend_change {s1 : SigSys} (sig : Fin 32) (ok : Bool) (hact : ok = true → appends s act = some sig)
    (hk : Kept (killAppend s sig ok) s1) : Change s act s1 := by
  cases ok with
  | false => exact Kept.change hk
  | true => exact .append sig (hact rfl) hk.pending hk.mask hk.list hk.log hk.accepted

theorem accept_change (h : killCheck s.tid sig = some t) : Change s act (accept (setTid s t) sig) := by
  obtain ⟨hp, hm, hl⟩ := killCheck_some h
  exact .same hp hm hl rfl ⟨[sig], rfl⟩

theorem waitReturn_change {s1 : SigSys} (hk : Kept s s1) : Change s act (waitReturn s1 set) := by
  have hk' : Kept s { s1 with tid := { s1.tid with signalWait := false } } :=
    ⟨hk.pending, hk.mask, hk.list, hk.vectors, hk.log, hk.accepted⟩
  simp only [waitReturn]
  split
  · exact Kept.change ⟨hk.pending, hk.mask, hk.list, hk.vectors, hk.log, hk.accepted⟩
  · exact waitDone_change hk'

theorem goOn_change (h : goOn s b = some s') : Change s (.goOn b) s' := by
  have hloop : ∀ {p : Bool}, b ∧ s.tid.signalPending = true → s.tid.signalWait = false →
      p = (b && s.tid.signalPending && !s.tid.signalWait) → p = true := fun hb hw hp => by
    rw [hp, hb.1, hb.2, hw]
    rfl
  simp only [goOn] at h
  split at h
  · cases h
  · next hf =>
    exact handleLoop_change h ⟨rfl, rfl, rfl, rfl, rfl, rfl⟩ (by simp only [atLoop, hf])
  · next hf =>
    refine handleSig_change h ⟨rfl, rfl, rfl, rfl, rfl, rfl⟩ (fun hw => ?_)
    have hw' : s.tid.signalWait = false := hw
    simp only [atLoop, hf, hw']
    rfl
  · rw [← Option.some.inj h]
    refine Kept.change (Kept.trans ?_ signalDeliver_kept)
    exact ⟨rfl, rfl, rfl, rfl, rfl, rfl⟩
  · next sig _ hf =>
    rw [← Option.some.inj h]
    refine killAppend_change sig b (fun hb => ?_) ?_
    · rw [hb]
      simp only [appends, hf]
    · cases b <;> exact ⟨rfl, rfl, rfl, rfl, rfl, rfl⟩
  · split at h
    · rw [← Option.some.inj h]
      exact Kept.change ⟨rfl, rfl, rfl, rfl, rfl, rfl⟩
    · cases h
  · next hf =>
    split at h
    · next hb =>
      refine handleSig_change h ⟨rfl, rfl, rfl, rfl, rfl, rfl⟩ (fun hw => ?_)
      exact hloop hb hw (by simp only [atLoop, hf])
    · rw [← Option.some.inj h]
      exact Kept.change ⟨rfl, rfl, rfl, rfl, rfl, rfl⟩
  · next set _ hf =>
    split at h
    · next hb =>
      refine handleSig_change h ⟨rfl, rfl, rfl, rfl, rfl, rfl⟩ (fun hw => ?_)
      exact hloop hb hw (by simp only [atLoop, hf])
    · rw [← Option.some.inj h]
      exact waitReturn_change ⟨rfl, rfl, rfl, rfl, rfl, rfl⟩

/-- What a step does to the pending signals. -/
theorem move_change (h : move s act = some s') : Change s act s' := by
  cases act with
  | install signo handler =>
    simp only [move] at h
    split at h
    · rw [← Option.some.inj h]
      split
      · exact .same rfl rfl rfl rfl ⟨[], (List.append_nil _).symm⟩
      · exact (Kept.refl s).change
    · cases h
  | mask signo =>
    simp only [move] at h
    split at h
    · next hu =>
      rw [← Option.some.inj h]
      exact .masks signo hu.2 (.inl ⟨rfl, rfl⟩) rfl rfl rfl rfl
    · cases h
  | unmask signo =>
    simp only [move, rtSignalUnmask] at h
    split at h
    · next hu =>
      rw [← Option.some.inj h]
      split
      · exact .masks signo hu.2 (.inr ⟨rfl, rfl⟩) rfl rfl rfl rfl
      · exact .masks signo hu.2 (.inr ⟨rfl, rfl⟩) rfl rfl rfl rfl
    · cases h
  | wait set timeout =>
    simp only [move, rtSignalWait] at h
    split at h
    · rw [← Option.some.inj h]
      split
      · exact Kept.change ⟨rfl, rfl, rfl, rfl, rfl, rfl⟩
      · split
        · exact waitDone_change (Kept.refl s)
        · split
          · exact Kept.change ⟨rfl, rfl, rfl, rfl, rfl, rfl⟩
          · exact Kept.change ⟨rfl, rfl, rfl, rfl, rfl, rfl⟩
    · cases h
  | killSelf _ | kill _ _ =>
    simp only [move] at h
    split at h
    · split at h
      · split at h
        · next t ht =>
          rw [← Option.some.inj h]
          exact accept_change ht
        · rw [← Option.some.inj h]
          exact Kept.change ⟨rfl, rfl, rfl, rfl, rfl, rfl⟩
      · rw [← Option.some.inj h]
        exact (Kept.refl s).change
    · cases h
  | block _ | setErrno _ | switchOut | timeout | resume =>
    simp only [move] at h
    split at h
    · rw [← Option.some.inj h]
      exact Kept.change ⟨rfl, rfl, rfl, rfl, rfl, rfl⟩
    · cases h
  | goOn b =>
    simp only [move] at h
    split at h
    · exact goOn_change h
    · cases h
  | switchIn =>
    simp only [move] at h
    split at h
    · split at h
      · next he =>
        refine handleSig_change h ?_ (fun hw => ?_)
        · exact ⟨rfl, rfl, rfl, rfl, rfl, rfl⟩
        · have hw' : s.tid.signalWait = false := hw
          have he' : s.tid.atEntry = true := he
          simp only [atLoop, he', hw']
          rfl
      · rw [← Option.some.inj h]
        exact Kept.change ⟨rfl, rfl, rfl, rfl, rfl, rfl⟩
    · cases h
  | append k ok =>
    simp only [move] at h
    split at h
    · next sig hk =>
      split at h
      · rw [← Option.some.inj h]
        refine killAppend_change sig ok (fun ho => ?_) ⟨rfl, rfl, rfl, rfl, rfl, rfl⟩
        rw [ho]
        simp only [appends, hk]
      · cases h
    · cases h
  | deliver k =>
    simp only [move] at h
    split at h
    · split at h
      · rw [← Option.some.inj h]
        exact Kept.change (signalDeliver_kept.trans ⟨rfl, rfl, rfl, rfl, rfl, rfl⟩)
      · cases h
    · cases h
  | irqKill sig ok =>
    simp only [move] at h
    split at h
    · next hs =>
      split at h
      · next t ht =>
        rw [← Option.some.inj h]
        exact accept_change ht
      · next ht =>
        rw [← Option.some.inj h]
        refine killAppend_change ⟨sig, hs⟩ ok (fun ho => ?_) signalDeliver_kept
        rw [ho]
        simp only [appends, ht]
        rw [dif_pos hs]
        rfl
    · rw [← Option.some.inj h]
      exact (Kept.refl s).change

/-- A step that appends a node does append it. -/
theorem move_append {sig : Fin 32} (hact : appends s act = some sig) (h : move s act = some s') :
    s'.tid.siList = s.tid.siList ++ [⟨siUser sig, s.accepted.length⟩] := by
  unfold appends at hact
  split at hact
  · split at hact
    · next k _ hk =>
      obtain rfl := Option.some.inj hact
      simp only [move, hk] at h
      split at h
      · rw [← Option.some.inj h]
        rfl
      · cases h
    · cases hact
  · split at hact
    · next hf =>
      obtain rfl := Option.some.inj hact
      simp only [move, goOn, hf] at h
      split at h
      · rw [← Option.some.inj h]
        rfl
      · cases h
    · cases hact
  · next sig' =>
    split at hact
    · next hs =>
      split at hact
      · next hn =>
        obtain rfl := Option.some.inj hact
        simp only [move, hs, if_true, Option.isNone_iff_eq_none.mp hn] at h
        rw [← Option.some.inj h, signalDeliver_kept.list]
        rfl
      · cases hact
    · cases hact
  · cases hact

/-! ## The bits and the list -/

/-- `sig_pending` has the signals of the list, and the list each signal once. -/
structure PendingOk (s : SigSys) : Prop where
  iff : ∀ signo, signo < 32 →
    (s.tid.sigPending.getLsbD signo = true ↔ ∃ n ∈ s.tid.siList, n.si.siSigno = signo)
  once : (s.tid.siList.map fun n => n.si.siSigno).Nodup

/-- A node is appended only for a signal that is not pending. -/
def Fresh (s : SigSys) (act : Act) : Prop :=
  ∀ sig, appends s act = some sig → s.tid.sigPending.getLsbD sig = false

structure PendInv (s : SigSys) : Prop extends PendingOk s where
  valid : ∀ n ∈ s.tid.siList, n.si.siSigno < 32

theorem mem_sigBit {i signo : Nat} (h : signo < 32) : i ∈ bits (sigBit signo) ↔ i = signo :=
  mem_bits_one_shiftLeft h

/-- A set of signals has a signal. -/
theorem sigBit_and {signo : Nat} (h : signo < 32) : sigBit signo &&& set ≠ 0 ↔ signo ∈ bits set := by
  rw [and_ne_zero_iff]
  constructor
  · rintro ⟨i, hi, hs⟩
    rw [mem_sigBit h] at hi
    rw [← hi]
    exact hs
  · intro hs
    exact ⟨signo, (mem_sigBit h).mpr rfl, hs⟩

theorem takeMatch_some {rest : List SiginfoNode} (h : takeMatch set l = some (n, rest)) :
    ∃ l1 l2, l = l1 ++ n :: l2 ∧ rest = l1 ++ l2 ∧ sigBit n.si.siSigno &&& set ≠ 0 ∧
      ∀ m ∈ l1, sigBit m.si.siSigno &&& set = 0 := by
  induction l generalizing rest with
  | nil => cases h
  | cons m l ih =>
    rw [takeMatch] at h
    split at h
    · next hm =>
      obtain ⟨rfl, rfl⟩ := Prod.mk.inj (Option.some.inj h)
      exact ⟨[], l, rfl, rfl, hm, fun _ hx => absurd hx List.not_mem_nil⟩
    · next hm =>
      obtain ⟨⟨x, r⟩, hr, he⟩ := Option.map_eq_some_iff.mp h
      obtain ⟨rfl, rfl⟩ := Prod.mk.inj he
      obtain ⟨l1, l2, rfl, rfl, hx, hno⟩ := ih hr
      exact ⟨m :: l1, l2, rfl, rfl, hx, List.forall_mem_cons.mpr ⟨not_not.mp hm, hno⟩⟩

theorem takeMatch_none : takeMatch set l = none ↔ ∀ n ∈ l, sigBit n.si.siSigno &&& set = 0 := by
  induction l with
  | nil => exact ⟨fun _ _ hn => absurd hn List.not_mem_nil, fun _ => rfl⟩
  | cons m l ih =>
    rw [takeMatch, List.forall_mem_cons, ← ih]
    split
    · next hm => exact ⟨fun h => (by cases h), fun h => absurd h.1 hm⟩
    · next hm =>
      rw [Option.map_eq_none_iff]
      exact ⟨fun h => ⟨not_not.mp hm, h⟩, fun h => h.2⟩

namespace PendInv

theorem of_keys (h : PendInv s) (hp : s'.tid.sigPending = s.tid.sigPending)
    (hl : s'.tid.siList.map key = s.tid.siList.map key) : PendInv s' := by
  have hs : s'.tid.siList.map (fun n => n.si.siSigno) =
      s.tid.siList.map fun n => n.si.siSigno := by
    have hfst := congrArg (List.map Prod.fst) hl
    rw [List.map_map, List.map_map] at hfst
    exact hfst
  have hex : ∀ signo, (∃ n ∈ s'.tid.siList, n.si.siSigno = signo) ↔
      ∃ n ∈ s.tid.siList, n.si.siSigno = signo := fun signo => by
    rw [← List.mem_map, ← List.mem_map, hs]
  refine ⟨⟨fun signo hlt => ?_, ?_⟩, fun n hn => ?_⟩
  · rw [hp, hex]
    exact h.iff signo hlt
  · rw [hs]
    exact h.once
  · obtain ⟨m, hm, he⟩ := (hex _).mp ⟨n, hn, rfl⟩
    rw [← he]
    exact h.valid m hm

/-- One node goes, and its bit. -/
theorem remove {l1 l2 : List SiginfoNode} (h : PendInv s) (hl : s.tid.siList = l1 ++ n :: l2)
    (hl' : s'.tid.siList = l1 ++ l2)
    (hp : s'.tid.sigPending = s.tid.sigPending &&& ~~~sigBit n.si.siSigno) : PendInv s' := by
  have hn : n.si.siSigno < 32 := h.valid n (by rw [hl]; simp)
  have honce := h.once
  rw [hl, List.map_append, List.map_cons] at honce
  have hnot : ∀ m ∈ l1 ++ l2, m.si.siSigno ≠ n.si.siSigno := fun m hm he => by
    have hno := (List.nodup_middle.mp honce)
    rw [← List.map_append] at hno
    exact (List.nodup_cons.mp hno).1 (List.mem_map.mpr ⟨m, hm, he⟩)
  refine ⟨⟨fun signo hlt => ?_, ?_⟩, fun m hm => ?_⟩
  · rw [hp, ← mem_bits, bits_and_not, Set.mem_sdiff, mem_sigBit hn, mem_bits, h.iff signo hlt, hl,
      hl']
    constructor
    · rintro ⟨⟨m, hm, rfl⟩, hne⟩
      refine ⟨m, ?_, rfl⟩
      rcases List.mem_append.mp hm with hm | hm
      · exact List.mem_append_left _ hm
      · rcases List.mem_cons.mp hm with rfl | hm
        · exact absurd rfl hne
        · exact List.mem_append_right _ hm
    · rintro ⟨m, hm, rfl⟩
      refine ⟨⟨m, ?_, rfl⟩, hnot m hm⟩
      rcases List.mem_append.mp hm with hm | hm
      · exact List.mem_append_left _ hm
      · exact List.mem_append_right _ (List.mem_cons_of_mem _ hm)
  · rw [hl', List.map_append]
    exact (List.nodup_cons.mp (List.nodup_middle.mp honce)).2
  · rw [hl'] at hm
    refine h.valid m ?_
    rw [hl]
    rcases List.mem_append.mp hm with hm | hm
    · exact List.mem_append_left _ hm
    · exact List.mem_append_right _ (List.mem_cons_of_mem _ hm)

/-- One node comes, and its bit. -/
theorem append (h : PendInv s) {sig : Fin 32} (hfresh : s.tid.sigPending.getLsbD sig = false)
    (hn : n.si.siSigno = sig) (hl : s'.tid.siList = s.tid.siList ++ [n])
    (hp : s'.tid.sigPending = s.tid.sigPending ||| sigBit sig) : PendInv s' := by
  have hno : ∀ m ∈ s.tid.siList, m.si.siSigno ≠ sig := fun m hm he => by
    have hb := (h.iff sig sig.isLt).mpr ⟨m, hm, he⟩
    rw [hfresh] at hb
    cases hb
  refine ⟨⟨fun signo hlt => ?_, ?_⟩, fun m hm => ?_⟩
  · rw [hp, ← mem_bits, bits_or, Set.mem_union, mem_sigBit sig.isLt, mem_bits, h.iff signo hlt, hl]
    constructor
    · rintro (⟨m, hm, rfl⟩ | rfl)
      · exact ⟨m, List.mem_append_left _ hm, rfl⟩
      · exact ⟨n, List.mem_append_right _ (List.mem_singleton_self n), hn⟩
    · rintro ⟨m, hm, rfl⟩
      rcases List.mem_append.mp hm with hm | hm
      · exact .inl ⟨m, hm, rfl⟩
      · rw [List.mem_singleton.mp hm]
        exact .inr hn
  · rw [hl, List.map_append, List.map_singleton]
    refine List.nodup_append.mpr ⟨h.once, List.nodup_singleton _, fun a ha b hb he => ?_⟩
    obtain ⟨m, hm, rfl⟩ := List.mem_map.mp ha
    rw [List.mem_singleton.mp hb, hn] at he
    exact hno m hm he
  · rw [hl] at hm
    rcases List.mem_append.mp hm with hm | hm
    · exact h.valid m hm
    · rw [List.mem_singleton.mp hm, hn]
      exact sig.isLt

theorem step (h : PendInv s) (hc : Fresh s act) (hs : sigStep s act = some s') : PendInv s' := by
  have h0 : PendInv { s with ret := none } := ⟨⟨h.iff, h.once⟩, h.valid⟩
  cases move_change hs with
  | same hp _ hl => exact h0.of_keys hp hl
  | masks _ _ _ hp hl => exact h0.of_keys hp (congrArg _ hl)
  | append sig hact hp _ hl => exact h0.append (hc sig hact) rfl hl hp
  | take node _ _ _ hl _ hp =>
    have hl' : s.tid.siList = [] ++ node :: s'.tid.siList := hl
    exact h0.remove hl' rfl hp
  | found set node ht _ hp =>
    obtain ⟨l1, l2, hl, hl', -⟩ := takeMatch_some ht
    exact h0.remove hl hl' hp

end PendInv

/-- A node for a signal that is pending is a second one. -/
theorem append_twice (h : PendInv s) (hc : ¬ Fresh s act) (hs : sigStep s act = some s') :
    ¬ PendingOk s' := by
  intro hok
  refine hc fun sig hact => Bool.eq_false_iff.mpr fun hb => ?_
  obtain ⟨m, hm, he⟩ := (h.iff sig sig.isLt).mp hb
  have hl : s'.tid.siList = s.tid.siList ++ [⟨siUser sig, s.accepted.length⟩] :=
    move_append (s := { s with ret := none }) hact hs
  have honce := hok.once
  rw [hl, List.map_append, List.map_singleton] at honce
  exact (List.nodup_append.mp honce).2.2 _ (List.mem_map_of_mem hm) _ (List.mem_singleton_self _) he

theorem sigInit_pendInv : PendInv sigInit := by
  refine ⟨⟨fun signo _ => ?_, List.nodup_nil⟩, fun n hn => absurd hn List.not_mem_nil⟩
  exact iff_of_false (by simp [sigInit]) fun ⟨n, hn, _⟩ => absurd hn List.not_mem_nil

/-- **The pending signals and their list.** In every run, the bit of each signal is set iff the
list has a node of it, and then one, in every state, if and only if every node is appended for a
signal whose bit is not set. -/
theorem pending_iff (acts : List Act) (s : SigSys) (hx : exec sigStep sigInit acts = some s) :
    Visits sigStep PendingOk sigInit acts ↔ Along sigStep Fresh sigInit acts :=
  (along_iff_visits (I := PendInv) (fun _ h => h.toPendingOk) (fun _ _ _ h hc hs => h.step hc hs)
    (fun _ _ _ h hc hs => append_twice h hc hs) hx sigInit_pendInv).symm

/-- Two threads send the same signal at a time. -/
def twoKills : List Act :=
  [.kill 0 14, .kill 1 14, .append 0 true, .deliver 0, .append 1 true, .deliver 1]

theorem pending_iff_two : ∃ s, exec sigStep sigInit twoKills = some s ∧
    (Visits sigStep PendingOk sigInit twoKills ↔ Along sigStep Fresh sigInit twoKills) := by
  have hrun : (exec sigStep sigInit twoKills).isSome = true := by decide +kernel
  obtain ⟨s, hx⟩ := Option.isSome_iff_exists.mp hrun
  exact ⟨s, hx, pending_iff twoKills s hx⟩

/-- Both threads append a node. -/
theorem twoKills_twice : ∃ s, exec sigStep sigInit twoKills = some s ∧ ¬ PendingOk s := by
  have hrun : (exec sigStep sigInit twoKills).map
      (fun s => s.tid.siList.map fun n => n.si.siSigno) = some [14, 14] := by
    decide +kernel
  obtain ⟨s, hx, hl⟩ := Option.map_eq_some_iff.mp hrun
  refine ⟨s, hx, fun hok => ?_⟩
  have honce := hok.once
  rw [hl] at honce
  exact absurd honce (by decide)

end Tudu.Signal
