import TuduOS.Kernel.SignalPending

/-!
# Masked signals

`rt_thread_handle_sig` goes on while any enabled signal is pending, but takes the first node of the
list, whatever its signal.

* `once`: in every run, an accepted `rt_thread_kill` leads to one call of a handler at most.
* `masked_iff`: no handler is called for a masked signal, and a masked signal stays pending, iff
  the loop finds an enabled signal at the head of the list each time.
-/

namespace Tudu.Signal

open BitSet Lts

/-- A step calls handlers of enabled signals only, and a masked signal that is pending stays so
until it is unmasked or waited for. -/
structure MaskOk (s : SigSys) (act : Act) : Prop where
  calls : ∀ s' c, sigStep s act = some s' → s'.log = c :: s.log → c.enabled = true
  stays : ∀ s' signo, sigStep s act = some s' → signo < 32 →
    s.tid.sigPending.getLsbD signo = true → s.tid.sigMask.getLsbD signo = false →
    act = .unmask signo ∨
      (∃ w, s'.ret = some w ∧ w.ret = rtEok ∧ w.si.siSigno = signo ∧
        w.set.getLsbD signo = true) ∨
      s'.tid.sigPending.getLsbD signo = true

/-- The loop of `rt_thread_handle_sig` finds an enabled signal at the head of the list; or one
whose handler is `NULL` and whose bit is not set. -/
def HeadOk (s : SigSys) (act : Act) : Prop :=
  atLoop s act = true → s.tid.sigPending &&& s.tid.sigMask ≠ 0 →
    ∀ node rest, s.tid.siList = node :: rest → s.tid.sigMask.getLsbD node.si.siSigno = true ∨
      (∀ vectors, s.tid.sigVectors = some vectors → vectors node.si.siSigno = none) ∧
        s.tid.sigPending.getLsbD node.si.siSigno = false

/-- The handlers were called for signals of accepted `rt_thread_kill`s, once for each. -/
structure Once (s : SigSys) : Prop where
  once : (s.log.map Call.number).Nodup
  accepted : ∀ c ∈ s.log, s.accepted[c.number]? = some c.signo

variable {s s' s1 : SigSys} {act : Act} {node : SiginfoNode} {rest : List SiginfoNode}
  {cleanState b : Bool}

/-! ## The numbers -/

/-- The nodes and the calls have the numbers of accepted `rt_thread_kill`s, each its own. -/
structure NumInv (s : SigSys) : Prop where
  nodup : (s.log.map Call.number ++ s.tid.siList.map SiginfoNode.number).Nodup
  calls : ∀ c ∈ s.log, s.accepted[c.number]? = some c.signo
  nodes : ∀ n ∈ s.tid.siList, s.accepted[n.number]? = some n.si.siSigno

theorem getElem?_append_of_some {l m : List Nat} {i x : Nat} (h : l[i]? = some x) :
    (l ++ m)[i]? = some x := by
  rw [List.getElem?_append_left (List.getElem?_eq_some_iff.mp h).1]
  exact h

namespace NumInv

theorem toOnce (h : NumInv s) : Once s := ⟨(List.nodup_append.mp h.nodup).1, h.calls⟩

/-- The nodes with the same keys. -/
theorem of_keys (h : NumInv s) (hl : s'.tid.siList.map key = s.tid.siList.map key)
    (hg : s'.log = s.log) (ha : ∃ l, s'.accepted = s.accepted ++ l) : NumInv s' := by
  obtain ⟨l, ha⟩ := ha
  have hnum : s'.tid.siList.map SiginfoNode.number = s.tid.siList.map SiginfoNode.number := by
    have hsnd := congrArg (List.map Prod.snd) hl
    rw [List.map_map, List.map_map] at hsnd
    exact hsnd
  have hkey : ∀ n ∈ s'.tid.siList, ∃ m ∈ s.tid.siList, key m = key n := fun n hn => by
    have hm : key n ∈ s.tid.siList.map key := by
      rw [← hl]
      exact List.mem_map_of_mem hn
    exact List.mem_map.mp hm
  refine ⟨?_, fun c hc => ?_, fun n hn => ?_⟩
  · rw [hg, hnum]
    exact h.nodup
  · rw [hg] at hc
    rw [ha]
    exact getElem?_append_of_some (h.calls c hc)
  · obtain ⟨m, hm, he⟩ := hkey n hn
    have hs : m.si.siSigno = n.si.siSigno := congrArg Prod.fst he
    have hn' : m.number = n.number := congrArg Prod.snd he
    rw [ha, ← hs, ← hn']
    exact getElem?_append_of_some (h.nodes m hm)

/-- A node with a new number. -/
theorem append (h : NumInv s) {sig : Nat}
    (hl : s'.tid.siList = s.tid.siList ++ [⟨siUser sig, s.accepted.length⟩])
    (hg : s'.log = s.log) (ha : s'.accepted = s.accepted ++ [sig]) : NumInv s' := by
  have hlt : ∀ {i x : Nat}, s.accepted[i]? = some x → i ≠ s.accepted.length := fun hi =>
    Nat.ne_of_lt (List.getElem?_eq_some_iff.mp hi).1
  refine ⟨?_, fun c hc => ?_, fun n hn => ?_⟩
  · rw [hg, hl, List.map_append, ← List.append_assoc, List.map_singleton]
    refine List.nodup_append.mpr ⟨h.nodup, List.nodup_singleton _, fun a hm b hb he => ?_⟩
    rw [List.mem_singleton.mp hb] at he
    rcases List.mem_append.mp hm with hm | hm
    · obtain ⟨c, hc, rfl⟩ := List.mem_map.mp hm
      exact hlt (h.calls c hc) he
    · obtain ⟨n, hn, rfl⟩ := List.mem_map.mp hm
      exact hlt (h.nodes n hn) he
  · rw [hg] at hc
    rw [ha]
    exact getElem?_append_of_some (h.calls c hc)
  · rw [hl] at hn
    rw [ha]
    rcases List.mem_append.mp hn with hn | hn
    · exact getElem?_append_of_some (h.nodes n hn)
    · rw [List.mem_singleton.mp hn, List.getElem?_append_right (Nat.le_refl _), Nat.sub_self]
      rfl

/-- Nodes that stay. -/
theorem of_sublist (h : NumInv s) (hl : s'.tid.siList.Sublist s.tid.siList) (hg : s'.log = s.log)
    (ha : s'.accepted = s.accepted) : NumInv s' := by
  refine ⟨?_, fun c hc => ?_, fun n hn => ?_⟩
  · rw [hg]
    exact h.nodup.sublist ((List.Sublist.refl _).append (hl.map _))
  · rw [hg] at hc
    rw [ha]
    exact h.calls c hc
  · rw [ha]
    exact h.nodes n (hl.subset hn)

/-- The number of the first node goes to the calls. -/
theorem call (h : NumInv s) {e : Bool} (hl : s.tid.siList = node :: s'.tid.siList)
    (hg : s'.log = ⟨node.number, node.si.siSigno, e⟩ :: s.log) (ha : s'.accepted = s.accepted) :
    NumInv s' := by
  have hnode := h.nodes node (by rw [hl]; exact List.mem_cons_self)
  refine ⟨?_, fun c hc => ?_, fun n hn => ?_⟩
  · have hd := h.nodup
    rw [hl, List.map_cons] at hd
    rw [hg, List.map_cons, List.cons_append]
    exact List.nodup_middle.mp hd
  · rw [ha]
    rw [hg] at hc
    rcases List.mem_cons.mp hc with rfl | hc
    · exact hnode
    · exact h.calls c hc
  · rw [ha]
    refine h.nodes n ?_
    rw [hl]
    exact List.mem_cons_of_mem _ hn

theorem step (h : NumInv s) (hs : sigStep s act = some s') : NumInv s' := by
  have h₀ : NumInv { s with ret := none } := ⟨h.nodup, h.calls, h.nodes⟩
  cases move_change hs with
  | same _ _ hl hg ha => exact h₀.of_keys hl hg ha
  | masks _ _ _ _ hl hg ha => exact h₀.of_keys (congrArg _ hl) hg ⟨[], by rw [ha, List.append_nil]⟩
  | append sig _ _ _ hl hg ha => exact h₀.append hl hg ha
  | take node vectors _ _ hl _ _ _ hg ha =>
    split at hg
    · exact h₀.call hl hg ha
    · refine h₀.of_sublist ?_ hg ha
      rw [hl]
      exact List.sublist_cons_self _ _
  | found set node ht _ _ _ hg ha =>
    obtain ⟨l1, l2, hl, hl', -⟩ := takeMatch_some ht
    refine h₀.of_sublist ?_ hg ha
    rw [hl, hl']
    exact (List.Sublist.refl l1).append (List.sublist_cons_self _ _)

end NumInv

theorem sigInit_numInv : NumInv sigInit :=
  ⟨List.nodup_nil, fun _ hc => absurd hc List.not_mem_nil, fun _ hn => absurd hn List.not_mem_nil⟩

/-- **Calls for accepted signals.** In every state of every run, each call of a handler is for an
accepted `rt_thread_kill` of its signal, each for another one. -/
theorem visits_once (acts : List Act) : Visits sigStep Once sigInit acts :=
  visits_inv (I := NumInv) (fun _ h => h.toOnce) (fun _ _ _ h hs => h.step hs) sigInit_numInv

/-! ## The loop -/

theorem handleSig_loop (h : rtThreadHandleSig s1 cleanState = some s')
    (hne : s1.tid.sigPending &&& s1.tid.sigMask ≠ 0) (hw : s1.tid.signalWait = false) :
    handleLoop s1 cleanState = some s' := by
  rw [rtThreadHandleSig, if_neg] at h
  · exact h
  · rintro (he | he)
    · exact hne he
    · rw [hw] at he
      cases he

/-- A step that comes to the loop with an enabled signal is a turn of the loop. -/
theorem move_atLoop (hact : atLoop s act = true) (hne : s.tid.sigPending &&& s.tid.sigMask ≠ 0)
    (h : move s act = some s') :
    ∃ s1 cleanState, handleLoop s1 cleanState = some s' ∧ Kept s s1 ∧ s1.ret = s.ret := by
  unfold atLoop at hact
  split at hact
  · next b =>
    simp only [move] at h
    split at h
    · simp only [goOn] at h
      split at hact
      · next hf =>
        simp only [hf] at h
        exact ⟨_, _, h, ⟨rfl, rfl, rfl, rfl, rfl, rfl⟩, rfl⟩
      · next hf =>
        simp only [hf] at h
        exact ⟨_, _, handleSig_loop h hne (by simpa using hact), ⟨rfl, rfl, rfl, rfl, rfl, rfl⟩, rfl⟩
      · next hf =>
        simp only [Bool.and_eq_true, Bool.not_eq_true'] at hact
        simp only [hf, hact.1, and_self, if_true] at h
        exact ⟨_, _, handleSig_loop h hne hact.2, ⟨rfl, rfl, rfl, rfl, rfl, rfl⟩, rfl⟩
      · next hf =>
        simp only [Bool.and_eq_true, Bool.not_eq_true'] at hact
        simp only [hf, hact.1, and_self, if_true] at h
        exact ⟨_, _, handleSig_loop h hne hact.2, ⟨rfl, rfl, rfl, rfl, rfl, rfl⟩, rfl⟩
      · cases hact
    · cases h
  · simp only [Bool.and_eq_true, Bool.not_eq_true'] at hact
    simp only [move] at h
    split at h
    · simp only [hact.1, if_true] at h
      exact ⟨_, _, handleSig_loop h hne hact.2, ⟨rfl, rfl, rfl, rfl, rfl, rfl⟩, rfl⟩
    · cases h
  · cases hact

theorem move_turn (hact : atLoop s act = true) (hne : s.tid.sigPending &&& s.tid.sigMask ≠ 0)
    (hl : s.tid.siList = node :: rest) (h : move s act = some s') :
    ∃ vectors, s.tid.sigVectors = some vectors ∧
      s'.tid.sigPending = s.tid.sigPending &&& ~~~sigBit node.si.siSigno ∧
      s'.log = (if (vectors node.si.siSigno).isSome then
        ⟨node.number, node.si.siSigno, s.tid.sigMask.getLsbD node.si.siSigno⟩ :: s.log
        else s.log) ∧
      s'.ret = s.ret := by
  obtain ⟨s1, cleanState, hloop, hk, hr⟩ := move_atLoop hact hne h
  have hl1 : s1.tid.siList = node :: rest := hk.list.trans hl
  have hne1 : s1.tid.sigPending &&& s1.tid.sigMask ≠ 0 := by
    rw [hk.pending, hk.mask]
    exact hne
  simp only [handleLoop, hne1, if_false, hl1] at hloop
  obtain ⟨vectors, hv, rfl⟩ := Option.map_eq_some_iff.mp hloop
  refine ⟨vectors, hk.vectors.symm.trans hv, ?_, ?_, hr⟩
  · rw [← hk.pending]
  · rw [← hk.mask, ← hk.log]

/-- A signal other than the one whose bit is cleared. -/
theorem getLsbD_clear {p : BitVec 32} {signo n : Nat} (h : signo < 32) :
    (p &&& ~~~sigBit n).getLsbD signo = true ↔ p.getLsbD signo = true ∧ signo ≠ n := by
  by_cases hn : n < 32
  · rw [← mem_bits, bits_and_not, Set.mem_sdiff, mem_sigBit hn, mem_bits]
  · have h0 : sigBit n = 0 := BitVec.shiftLeft_eq_zero (Nat.not_lt.mp hn)
    have hne : signo ≠ n := by omega
    rw [h0]
    simp only [BitVec.ofNat_eq_ofNat, BitVec.not_zero, BitVec.and_allOnes]
    exact (and_iff_left hne).symm

/-- A step with an enabled signal at the head of the list. -/
theorem HeadOk.maskOk (hc : HeadOk s act) (hs : sigStep s act = some s') : MaskOk s act := by
  have hch : Change { s with ret := none } act s' := move_change hs
  refine ⟨fun s2 c h2 hlog => ?_, fun s2 signo h2 hlt hp hm => ?_⟩
  · obtain rfl := Option.some.inj (hs.symm.trans h2)
    have hne : s'.log ≠ s.log := fun he => by
      rw [he] at hlog
      exact absurd (congrArg List.length hlog) (by simp)
    cases hch with
    | same _ _ _ hg _ => exact absurd hg hne
    | masks _ _ _ _ _ hg _ => exact absurd hg hne
    | append _ _ _ _ _ hg _ => exact absurd hg hne
    | found _ _ _ _ _ _ hg _ => exact absurd hg hne
    | take node vectors hact hpm hl hv _ _ hg =>
      split at hg
      · next hsome =>
        rw [hlog] at hg
        obtain ⟨rfl, -⟩ := List.cons.inj hg
        rcases hc hact hpm node _ hl with h | ⟨h, -⟩
        · exact h
        · rw [h vectors hv] at hsome
          cases hsome
      · exact absurd hg hne
  · obtain rfl := Option.some.inj (hs.symm.trans h2)
    cases hch with
    | same hp' => exact .inr (.inr (by rw [hp']; exact hp))
    | masks _ _ _ hp' => exact .inr (.inr (by rw [hp']; exact hp))
    | append _ _ hp' =>
      refine .inr (.inr ?_)
      rw [hp', BitVec.getLsbD_or, Bool.or_eq_true]
      exact .inl hp
    | take node vectors hact hpm hl hv hp' =>
      refine .inr (.inr ?_)
      rw [hp']
      refine (getLsbD_clear hlt).mpr ⟨hp, ?_⟩
      rintro rfl
      rcases hc hact hpm node _ hl with h | ⟨-, h⟩
      · rw [hm] at h
        cases h
      · rw [hp] at h
        cases h
    | found set node ht hret hp' =>
      by_cases hn : signo = node.si.siSigno
      · obtain ⟨_, _, _, _, hin, _⟩ := takeMatch_some ht
        subst hn
        exact .inr (.inl ⟨_, hret, rfl, rfl, (sigBit_and hlt).mp hin⟩)
      · refine .inr (.inr ?_)
        rw [hp']
        exact (getLsbD_clear hlt).mpr ⟨hp, hn⟩

/-- The first node is of a masked signal, and the loop takes it. -/
theorem MaskOk.headOk (h : MaskOk s act) (hs : sigStep s act = some s') : HeadOk s act := by
  intro hact hpm node rest hl
  obtain ⟨vectors, hv, hp', hlog, hret⟩ := move_turn (s := { s with ret := none }) hact hpm hl hs
  by_cases hm : s.tid.sigMask.getLsbD node.si.siSigno = true
  · exact .inl hm
  · refine .inr ⟨fun vectors' hv' => ?_, Bool.eq_false_iff.mpr fun hp => ?_⟩
    · obtain rfl := Option.some.inj (hv.symm.trans hv')
      by_contra hsome
      rw [if_pos (Option.isSome_iff_ne_none.mpr hsome)] at hlog
      exact hm (h.calls s' _ hs hlog)
    · have hlt : node.si.siSigno < 32 := BitVec.lt_of_getLsbD hp
      rcases h.stays s' node.si.siSigno hs hlt hp (Bool.eq_false_iff.mpr hm) with rfl | hw | hp2
      · cases hact
      · obtain ⟨w, hw, -⟩ := hw
        rw [hret] at hw
        cases hw
      · rw [hp'] at hp2
        exact ((getLsbD_clear hlt).mp hp2).2 rfl

/-- **Masked signals.** In every run, the handlers are called for enabled signals only, once at
most for each accepted `rt_thread_kill`, and a masked signal stays pending until it is unmasked
or waited for, if and only if the loop of `rt_thread_handle_sig` finds a node of an enabled
signal at the head of the list whenever an enabled signal is pending. -/
theorem masked_iff (acts : List Act) (s : SigSys) (hx : exec sigStep sigInit acts = some s) :
    (Along sigStep MaskOk sigInit acts ∧ Visits sigStep Once sigInit acts) ↔
      Along sigStep HeadOk sigInit acts := by
  rw [and_iff_left (visits_once acts)]
  refine along_congr (I := fun _ => True) (fun s act s' _ hs => ?_) (fun _ _ _ _ _ _ => trivial) hx
    trivial
  exact ⟨fun h => h.headOk hs, fun h => h.maskOk hs⟩

/-- The target has a handler for signal 14, which it masks, and enables signal 16; another thread
sends both. -/
def maskedFirst : List Act :=
  [.switchIn, .install 14 (.fn 1), .unmask 16, .switchOut, .kill 0 14, .append 0 true, .deliver 0,
    .kill 0 16, .append 0 true, .deliver 0, .switchIn]

theorem masked_iff_first : ∃ s, exec sigStep sigInit maskedFirst = some s ∧
    ((Along sigStep MaskOk sigInit maskedFirst ∧ Visits sigStep Once sigInit maskedFirst) ↔
      Along sigStep HeadOk sigInit maskedFirst) := by
  have hrun : (exec sigStep sigInit maskedFirst).isSome = true := by decide +kernel
  obtain ⟨s, hx⟩ := Option.isSome_iff_exists.mp hrun
  exact ⟨s, hx, masked_iff maskedFirst s hx⟩

/-- The handler of 14 is called while 14 is masked, and 14 is not pending any more. -/
theorem maskedFirst_called : ∃ s s', exec sigStep sigInit maskedFirst.dropLast = some s ∧
    sigStep s .switchIn = some s' ∧ ¬ MaskOk s .switchIn := by
  have hrun : ((exec sigStep sigInit maskedFirst.dropLast).bind fun s =>
      (sigStep s .switchIn).map fun s' => (s.log, s'.log)) = some ([], [⟨0, 14, false⟩]) := by
    decide +kernel
  obtain ⟨s, hx, hr⟩ := Option.bind_eq_some_iff.mp hrun
  obtain ⟨s', hs, hlog⟩ := Option.map_eq_some_iff.mp hr
  refine ⟨s, s', hx, hs, fun hok => ?_⟩
  obtain ⟨h1, h2⟩ := Prod.mk.inj hlog
  have he := hok.calls s' ⟨0, 14, false⟩ hs (by rw [h1, h2])
  cases he

end Tudu.Signal
