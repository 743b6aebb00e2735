import Mathlib.Algebra.Group.Nat.Defs
import Mathlib.Data.Finset.Card
import TuduOS.Kernel.Wait
import TuduOS.Lib.Lts

/-!
# Semaphores (`rt_sem_take`, `rt_sem_trytake`, `rt_sem_release` of `ipc.c`)

Any number of threads and semaphores. A section with interrupts disabled is one step, and any
ready thread may run between two steps. A thread that waits is at `take q` until it returns from
`rt_sem_take(q)`.

The ghosts `takes q` and `releases q` count the calls on `q` that returned `RT_EOK` from
`rt_sem_take` (or `rt_sem_trytake`), and the calls of `rt_sem_release`.

* **The property** (`Conserved`). The takes, the value and the releases that were handed to threads
  that have not run since are as many as the first value and the releases.
* **The condition** (`NotFull`). `rt_sem_release` does `value ++` on 16 bits without a test, so it
  must not find the value 65535 and no thread on the list.
-/

namespace Tudu.Sem

open Kern Lts

structure RtSem where
  /-- `rt_uint16_t` -/
  value : Nat
  flag : Nat
  deriving DecidableEq

inductive Pc where
  | user
  /-- On its way through `rt_schedule` in `rt_sem_take(q)`. -/
  | take (q : Nat)
  deriving DecidableEq

structure SemSys where
  kern : Kern
  sem : Nat → RtSem
  pc : Nat → Pc
  takes : Nat → Nat
  releases : Nat → Nat

namespace SemSys

def setKern (s : SemSys) (k : Kern) : SemSys := { s with kern := k }

def setValue (s : SemSys) (q v : Nat) : SemSys :=
  { s with sem := Function.update s.sem q { s.sem q with value := v } }

def goto (s : SemSys) (t : Nat) (p : Pc) : SemSys := { s with pc := Function.update s.pc t p }

/-- A take has returned `RT_EOK`. -/
def took (s : SemSys) (q : Nat) : SemSys :=
  { s with takes := Function.update s.takes q (s.takes q + 1) }

def released (s : SemSys) (q : Nat) : SemSys :=
  { s with releases := Function.update s.releases q (s.releases q + 1) }

end SemSys

open SemSys

/-- `rt_sem_take(q, time)`, called by the current thread. -/
def rtSemTake (s : SemSys) (q : Nat) (time : Int) : Option SemSys :=
  if (s.sem q).value > 0 then some ((s.setValue q ((s.sem q).value - 1)).took q)
  else if time = 0 then some s
  else
    (s.kern.waitOn q (s.sem q).flag time).map fun k =>
      (s.setKern k).goto s.kern.current (.take q)

/-- `rt_sem_take(q, time)` behind `rt_schedule`. -/
def rtSemTakeEnd (s : SemSys) (q : Nat) : SemSys :=
  let t := s.kern.current
  if (s.kern.thread t).error ≠ rtEok then s.goto t .user
  else (s.goto t .user).took q

/-- `rt_sem_trytake(q)`, also from an interrupt. -/
def rtSemTrytake (s : SemSys) (q : Nat) : Option SemSys := rtSemTake s q 0

/-- `rt_sem_release(q)` -/
def rtSemRelease (s : SemSys) (q : Nat) : SemSys :=
  match s.kern.suspendThread q with
  | u :: _ => (s.setKern (s.kern.rtThreadResume u)).released q
  | [] => (s.setValue q (((s.sem q).value + 1) % 2 ^ 16)).released q

inductive SemAct where
  /-- An interrupt, or `rt_schedule`, switches to the ready thread `u`. -/
  | preempt (u : Nat)
  /-- The current thread calls `rt_sem_take(q, time)`. -/
  | take (q : Nat) (time : Int)
  /-- The current thread, back from `rt_schedule`, ends its `rt_sem_take`. -/
  | takeEnd
  /-- The current thread or an interrupt calls `rt_sem_trytake(q)`. -/
  | trytake (q : Nat)
  /-- The current thread or an interrupt calls `rt_sem_release(q)`. -/
  | release (q : Nat)
  /-- The timer of the thread `u` expires. -/
  | timeout (u : Nat)
  deriving DecidableEq

def semStep (s : SemSys) : SemAct → Option SemSys
  | .preempt u =>
    if (s.kern.thread u).stat = .ready then some (s.setKern { s.kern with current := u }) else none
  | .take q time =>
    match s.pc s.kern.current with
    | .user => rtSemTake s q time
    | .take _ => none
  | .takeEnd =>
    match s.pc s.kern.current with
    | .user => none
    | .take q =>
      if (s.kern.thread s.kern.current).stat = .ready then some (rtSemTakeEnd s q) else none
  | .trytake q => rtSemTrytake s q
  | .release q => some (rtSemRelease s q)
  | .timeout u => (s.kern.rtThreadTimeout u).map s.setKern

/-- `rt_sem_init` of every semaphore. -/
def semInit (value flag priority : Nat → Nat) : SemSys where
  kern := ⟨0, fun t => ⟨.ready, rtEok, priority t, false, false, false⟩, fun _ => []⟩
  sem := fun q => ⟨value q % 2 ^ 16, flag q⟩
  pc := fun _ => .user
  takes := fun _ => 0
  releases := fun _ => 0

/-! ## The property and the condition -/

/-- A release was handed to `t`, which has not run since. -/
def Handed (s : SemSys) (q t : Nat) : Prop :=
  s.pc t = .take q ∧ (s.kern.thread t).stat = .ready ∧ (s.kern.thread t).error = rtEok

/-- The property; `value` are the values that the semaphores were initialised with. -/
def Conserved (value : Nat → Nat) (s : SemSys) : Prop :=
  ∀ q, ∃ l : Finset Nat, (∀ t, t ∈ l ↔ Handed s q t) ∧
    s.takes q + (s.sem q).value + l.card = value q + s.releases q

/-- A release that hands its unit to no thread finds room in the counter. -/
def NotFull (s : SemSys) : SemAct → Prop
  | .release q => s.kern.suspendThread q = [] → (s.sem q).value ≠ 2 ^ 16 - 1
  | _ => True

instance (s : SemSys) : ∀ act, Decidable (NotFull s act)
  | .release q => inferInstanceAs
      (Decidable (s.kern.suspendThread q = [] → (s.sem q).value ≠ 2 ^ 16 - 1))
  | .preempt _ | .take .. | .takeEnd | .trytake _ | .timeout _ => inferInstanceAs (Decidable True)

/-! ## The invariant -/

/-- A thread on a list waits there, without an error. -/
structure ListInv (s : SemSys) : Prop where
  on : ∀ u q, u ∈ s.kern.suspendThread q → s.pc u = .take q ∧
    (s.kern.thread u).stat = .suspend ∧ (s.kern.thread u).error = rtEok
  value : ∀ q, (s.sem q).value < 2 ^ 16

variable {s s' : SemSys} {k : Kern} {act : SemAct} {t u q p : Nat} {value : Nat → Nat} {time : Int}

/-- The same threads are handed a unit. -/
theorem Conserved.congr (h : Conserved value s) (hh : ∀ q t, Handed s' q t ↔ Handed s q t)
    (hsum : ∀ q, s'.takes q + (s'.sem q).value + s.releases q =
      s.takes q + (s.sem q).value + s'.releases q) : Conserved value s' := by
  intro q
  obtain ⟨l, hl, hc⟩ := h q
  refine ⟨l, fun t => (hl t).trans (hh q t).symm, ?_⟩
  have := hsum q
  omega

/-- A thread that does not run and is not resumed stays as it is. -/
theorem Handed.congr (hp : s'.pc t = s.pc t) (hs : (s'.kern.thread t).stat = (s.kern.thread t).stat)
    (he : (s'.kern.thread t).error = (s.kern.thread t).error) : Handed s' q t ↔ Handed s q t := by
  constructor
  · rintro ⟨h1, h2, h3⟩
    exact ⟨hp ▸ h1, hs ▸ h2, he ▸ h3⟩
  · rintro ⟨h1, h2, h3⟩
    exact ⟨hp.trans h1, hs.trans h2, he.trans h3⟩

/-! ## A take -/

theorem ListInv.shrink (h : ListInv s) (hpc : s'.pc = s.pc)
    (hsub : ∀ u q, u ∈ s'.kern.suspendThread q → u ∈ s.kern.suspendThread q)
    (hthr : ∀ u q, u ∈ s'.kern.suspendThread q → s'.kern.thread u = s.kern.thread u)
    (hv : ∀ q, (s'.sem q).value < 2 ^ 16) : ListInv s' := by
  refine ⟨fun u q hu => ?_, hv⟩
  rw [hpc, hthr u q hu]
  exact h.on u q (hsub u q hu)

/-- A thread outside `rt_sem_take` is on no list. -/
theorem ListInv.off (h : ListInv s) (hp : s.pc t ≠ .take q) : t ∉ s.kern.suspendThread q :=
  fun hq => hp (h.on t q hq).1

/-- A take of a semaphore with a unit. -/
theorem Conserved.takeNow (h : Conserved value s) (hv : (s.sem q).value > 0) :
    Conserved value ((s.setValue q ((s.sem q).value - 1)).took q) := by
  refine h.congr (fun p t => Handed.congr rfl rfl rfl) fun p => ?_
  simp only [took, setValue, Function.update_apply]
  by_cases hp : p = q
  · subst hp
    simp only [if_true]
    omega
  · simp only [if_neg hp]

theorem ListInv.takeNow (h : ListInv s) (q : Nat) :
    ListInv ((s.setValue q ((s.sem q).value - 1)).took q) := by
  refine h.shrink rfl (fun _ _ hu => hu) (fun _ _ _ => rfl) fun p => ?_
  simp only [took, setValue, Function.update_apply]
  have hp := h.value p
  have hq := h.value q
  split
  · show (s.sem q).value - 1 < 2 ^ 16
    omega
  · exact hp

/-- A take that waits: the thread is on the list, and nobody else changes. -/
theorem ListInv.takeWait (h : ListInv s) (hp : s.pc s.kern.current = .user)
    (hk : s.kern.waitOn q (s.sem q).flag time = some k) :
    ListInv ((s.setKern k).goto s.kern.current (.take q)) := by
  refine ⟨fun u p hu => ?_, h.value⟩
  have hu' := mem_waitOn hk hu
  simp only [goto, setKern, Function.update_apply]
  split
  · next hut =>
    subst hut
    -- the thread was on no list before
    have hpq : p = q := by
      rcases hu' with hu' | hu'
      · refine absurd hu' (h.off ?_)
        rw [hp]
        simp
      · exact hu'.2
    rw [hpq]
    exact ⟨rfl, waitOn_self hk⟩
  · next hut =>
    rw [waitOn_thread hk hut]
    exact h.on u p (hu'.resolve_right fun e => hut e.1)

theorem Conserved.takeWait (h : Conserved value s) (hp : s.pc s.kern.current = .user)
    (hk : s.kern.waitOn q (s.sem q).flag time = some k) :
    Conserved value ((s.setKern k).goto s.kern.current (.take q)) := by
  refine h.congr (fun p u => ?_) fun p => rfl
  by_cases hu : u = s.kern.current
  · subst hu
    refine iff_of_false (fun hh => ?_) fun hh => ?_
    · have hst := hh.2.1
      have hsus := (waitOn_self hk).1
      exact absurd (hsus.symm.trans hst) (by decide)
    · have hpc := hh.1
      rw [hp] at hpc
      cases hpc
  · have hthr := waitOn_thread hk hu
    refine Handed.congr (Function.update_of_ne hu ..) ?_ ?_
    · exact congrArg Thread.stat hthr
    · exact congrArg Thread.error hthr

/-- The three ends of the first section of `rt_sem_take`. -/
theorem take_keeps (h : Conserved value s) (hi : ListInv s) (hp : time ≠ 0 → s.pc s.kern.current = .user)
    (hs : rtSemTake s q time = some s') : Conserved value s' ∧ ListInv s' := by
  unfold rtSemTake at hs
  split at hs
  · next hv =>
    cases hs
    exact ⟨h.takeNow hv, hi.takeNow q⟩
  split at hs
  · cases hs
    exact ⟨h, hi⟩
  · next ht =>
    obtain ⟨k, hk, rfl⟩ := Option.map_eq_some_iff.mp hs
    exact ⟨h.takeWait (hp ht) hk, hi.takeWait (hp ht) hk⟩

/-! ## The end of a take -/

theorem ListInv.takeEnd (h : ListInv s) (hr : (s.kern.thread s.kern.current).stat = .ready) (q : Nat) :
    ListInv (rtSemTakeEnd s q) := by
  have hgo : ListInv (s.goto s.kern.current .user) := by
    refine ⟨fun u p hu => ?_, h.value⟩
    obtain ⟨hp, hst, he⟩ := h.on u p hu
    have hne : u ≠ s.kern.current := by
      rintro rfl
      rw [hr] at hst
      cases hst
    exact ⟨(Function.update_of_ne hne ..).trans hp, hst, he⟩
  simp only [rtSemTakeEnd]
  split
  · exact hgo
  · exact ⟨hgo.on, hgo.value⟩

/-- A thread that was handed a unit returns with it; another one returns its error. -/
theorem Conserved.takeEnd (h : Conserved value s) (hp : s.pc s.kern.current = .take q)
    (hr : (s.kern.thread s.kern.current).stat = .ready) : Conserved value (rtSemTakeEnd s q) := by
  have hother : ∀ p u, u ≠ s.kern.current →
      (Handed (s.goto s.kern.current .user) p u ↔ Handed s p u) := fun p u hu =>
    Handed.congr (Function.update_of_ne hu ..) rfl rfl
  have hself : ∀ p, ¬ Handed (s.goto s.kern.current .user) p s.kern.current := by
    intro p hh
    have hpc : Function.update s.pc s.kern.current .user s.kern.current = .take p := hh.1
    rw [Function.update_self] at hpc
    cases hpc
  -- off `q` nobody was handed anything else
  have hoff : ∀ p, p ≠ q → ¬ Handed s p s.kern.current := by
    intro p hpq hh
    have hpc := hh.1
    rw [hp] at hpc
    exact hpq (Pc.take.inj hpc).symm
  simp only [rtSemTakeEnd]
  split
  · next he =>
    refine h.congr (fun p u => ?_) fun p => rfl
    by_cases hu : u = s.kern.current
    · subst hu
      exact iff_of_false (hself p) fun hh => he hh.2.2
    · exact hother p u hu
  · next he =>
    intro p
    obtain ⟨l, hl, hc⟩ := h p
    by_cases hpq : p = q
    · subst hpq
      have hmem : s.kern.current ∈ l := (hl _).mpr ⟨hp, hr, not_not.mp he⟩
      refine ⟨l.erase s.kern.current, fun u => ?_, ?_⟩
      · rw [Finset.mem_erase]
        constructor
        · rintro ⟨hu, hul⟩
          exact (hother p u hu).mpr ((hl u).mp hul)
        · intro hh
          have hu : u ≠ s.kern.current := by
            rintro rfl
            exact hself p hh
          exact ⟨hu, (hl u).mpr ((hother p u hu).mp hh)⟩
      · have hcard := Finset.card_erase_add_one hmem
        simp only [took, goto, Function.update_self]
        omega
    · refine ⟨l, fun u => (hl u).trans ?_, ?_⟩
      · by_cases hu : u = s.kern.current
        · subst hu
          exact iff_of_false (hoff p hpq) (hself p)
        · exact (hother p u hu).symm
      · simp only [took, goto, Function.update_of_ne hpq]
        exact hc

/-! ## A release and a timeout -/

/-- What a release does to a thread that it resumes. -/
theorem resume_thread (h : ListInv s) (hu : u ∈ s.kern.suspendThread q) (v : Nat) :
    (s.kern.rtThreadResume u).thread v = if v = u then
      { s.kern.thread u with stat := .ready, timer := false, linked := false }
      else s.kern.thread v := by
  rw [rtThreadResume_thread, (h.on u q hu).2.1]
  simp

theorem ListInv.resume (h : ListInv s) (hu : u ∈ s.kern.suspendThread q) :
    ListInv ((s.setKern (s.kern.rtThreadResume u)).released q) := by
  refine h.shrink rfl (fun v p hv => (mem_rtThreadResume.mp hv).1) (fun v p hv => ?_) h.value
  have hvu : v ≠ u := by
    rintro rfl
    exact (mem_rtThreadResume.mp hv).2 rfl (h.on v q hu).2.1
  show (s.kern.rtThreadResume u).thread v = _
  rw [resume_thread h hu, if_neg hvu]

/-- A release that finds a waiting thread hands its unit to it. -/
theorem Conserved.hand (h : Conserved value s) (hi : ListInv s) (hu : u ∈ s.kern.suspendThread q) :
    Conserved value ((s.setKern (s.kern.rtThreadResume u)).released q) := by
  obtain ⟨hpc, hst, herr⟩ := hi.on u q hu
  have hthr := resume_thread hi hu
  have hother : ∀ p v, v ≠ u →
      (Handed ((s.setKern (s.kern.rtThreadResume u)).released q) p v ↔ Handed s p v) := by
    intro p v hv
    have hv' : (s.kern.rtThreadResume u).thread v = s.kern.thread v := by rw [hthr, if_neg hv]
    exact Handed.congr rfl (congrArg Thread.stat hv') (congrArg Thread.error hv')
  have hnot : ∀ p, ¬ Handed s p u := by
    intro p hh
    exact absurd (hst.symm.trans hh.2.1) (by decide)
  have hself : Handed ((s.setKern (s.kern.rtThreadResume u)).released q) q u := by
    refine ⟨hpc, ?_, ?_⟩
    · show ((s.kern.rtThreadResume u).thread u).stat = .ready
      rw [hthr, if_pos rfl]
    · show ((s.kern.rtThreadResume u).thread u).error = rtEok
      rw [hthr, if_pos rfl]
      exact herr
  intro p
  obtain ⟨l, hl, hc⟩ := h p
  by_cases hpq : p = q
  · subst hpq
    have hmem : u ∉ l := fun hm => hnot p ((hl u).mp hm)
    refine ⟨insert u l, fun v => ?_, ?_⟩
    · rw [Finset.mem_insert]
      by_cases hv : v = u
      · subst hv
        exact iff_of_true (.inl rfl) hself
      · rw [hother p v hv, ← hl v]
        exact ⟨fun hm => hm.resolve_left hv, .inr⟩
    · rw [Finset.card_insert_of_notMem hmem]
      simp only [released, setKern, Function.update_self]
      omega
  · refine ⟨l, fun v => (hl v).trans ?_, ?_⟩
    · by_cases hv : v = u
      · subst hv
        refine iff_of_false (hnot p) fun hh => hpq ?_
        have hpc' : s.pc v = .take p := hh.1
        rw [hpc] at hpc'
        exact (Pc.take.inj hpc').symm
      · exact (hother p v hv).symm
    · simp only [released, setKern, Function.update_of_ne hpq]
      exact hc

/-- A release that finds no waiting thread is kept in the counter if and only if there is room. -/
theorem Conserved.count_iff (h : Conserved value s) (hi : ListInv s) (q : Nat) :
    Conserved value ((s.setValue q (((s.sem q).value + 1) % 2 ^ 16)).released q) ↔
      (s.sem q).value ≠ 2 ^ 16 - 1 := by
  have hv := hi.value q
  constructor
  · intro h' he
    obtain ⟨l, hl, hc⟩ := h q
    obtain ⟨l', hl', hc'⟩ := h' q
    -- the same threads are handed a unit before and after
    have hll : l' = l := Finset.ext fun t =>
      (hl' t).trans (hl t).symm
    simp only [released, setValue, Function.update_self, he, hll] at hc'
    omega
  · intro hne
    refine h.congr (fun p t => Handed.congr rfl rfl rfl) fun p => ?_
    simp only [released, setValue, Function.update_apply]
    by_cases hp : p = q
    · subst hp
      simp only [if_true]
      omega
    · simp only [if_neg hp]

theorem ListInv.count (h : ListInv s) (q : Nat) :
    ListInv ((s.setValue q (((s.sem q).value + 1) % 2 ^ 16)).released q) := by
  refine h.shrink rfl (fun _ _ hu => hu) (fun _ _ _ => rfl) fun p => ?_
  simp only [released, setValue, Function.update_apply]
  split
  · exact Nat.mod_lt _ (by decide)
  · exact h.value p

theorem timeout_keeps (h : Conserved value s) (hi : ListInv s)
    (hk : s.kern.rtThreadTimeout u = some k) :
    Conserved value (s.setKern k) ∧ ListInv (s.setKern k) := by
  obtain ⟨hst, -, -, hthr, hlist⟩ := rtThreadTimeout_some hk
  have hthr' : ∀ v, v ≠ u → k.thread v = s.kern.thread v := by
    intro v hv
    rw [hthr, if_neg hv]
  refine ⟨h.congr (fun p v => ?_) fun p => rfl, hi.shrink rfl (fun v p hv => ?_) (fun v p hv => ?_)
    hi.value⟩
  · by_cases hv : v = u
    · subst hv
      refine iff_of_false (fun hh => ?_) fun hh => ?_
      · have he : (k.thread v).error = rtEok := hh.2.2
        rw [hthr, if_pos rfl] at he
        exact absurd he (show ¬ -rtEtimeout = rtEok by decide)
      · exact absurd (hst.symm.trans hh.2.1) (by decide)
    · exact Handed.congr rfl (congrArg Thread.stat (hthr' v hv)) (congrArg Thread.error (hthr' v hv))
  · have hv' : v ∈ k.suspendThread p := hv
    rw [hlist] at hv'
    exact (List.mem_filter.mp hv').1
  · have hv' : v ∈ k.suspendThread p := hv
    rw [hlist] at hv'
    exact hthr' v (of_decide_eq_true (List.mem_filter.mp hv').2)

/-! ## Every step -/

theorem step_keeps (h : Conserved value s) (hi : ListInv s) (hc : NotFull s act)
    (hs : semStep s act = some s') : Conserved value s' ∧ ListInv s' := by
  cases act with
  | preempt u =>
    simp only [semStep] at hs
    split at hs <;> cases hs
    exact ⟨h.congr (fun p v => Handed.congr rfl rfl rfl) fun p => rfl, ⟨hi.on, hi.value⟩⟩
  | take q time =>
    simp only [semStep] at hs
    split at hs
    · exact take_keeps h hi (fun _ => ‹_›) hs
    · cases hs
  | takeEnd =>
    simp only [semStep] at hs
    split at hs
    · cases hs
    · split at hs <;> cases hs
      exact ⟨h.takeEnd ‹_› ‹_›, hi.takeEnd ‹_› _⟩
  | trytake q => exact take_keeps h hi (fun h0 => absurd rfl h0) hs
  | release q =>
    cases hs
    unfold rtSemRelease
    split
    · next u us hl =>
      have hu : u ∈ s.kern.suspendThread q := by
        rw [hl]
        exact List.mem_cons_self
      exact ⟨h.hand hi hu, hi.resume hu⟩
    · next hl => exact ⟨(h.count_iff hi q).mpr (hc hl), hi.count q⟩
  | timeout u =>
    obtain ⟨k, hk, rfl⟩ := Option.map_eq_some_iff.mp hs
    exact timeout_keeps h hi hk

/-- A release that finds the counter full is lost. -/
theorem step_loses (h : Conserved value s) (hi : ListInv s) (hc : ¬ NotFull s act)
    (hs : semStep s act = some s') : ¬ Conserved value s' := by
  cases act with
  | release q =>
    simp only [NotFull, Classical.not_imp] at hc
    cases hs
    unfold rtSemRelease
    rw [hc.1]
    exact fun h' => hc.2 ((h.count_iff hi q).mp h')
  | _ => exact absurd trivial hc

/-- **No release is lost exactly where the counter is never full.** All steps of a run meet the
condition if and only if in every state of it the takes, the value and the units handed to threads
that have not run are as many as the first value and the releases. -/
theorem sem_conserved_iff (value flag priority : Nat → Nat) (acts : List SemAct) (s : SemSys)
    (hv : ∀ q, value q < 2 ^ 16)
    (hx : exec semStep (semInit value flag priority) acts = some s) :
    Along semStep NotFull (semInit value flag priority) acts ↔
      Visits semStep (Conserved value) (semInit value flag priority) acts := by
  refine along_iff_visits (I := fun s => Conserved value s ∧ ListInv s) (fun s h => h.1)
    (fun s act s' h hc hs => step_keeps h.1 h.2 hc hs)
    (fun s act s' h hc hs => step_loses h.1 h.2 hc hs) hx ⟨fun q => ⟨∅, fun t => ?_, ?_⟩, ?_⟩
  · refine iff_of_false (Finset.notMem_empty t) fun hh => ?_
    cases hh.1
  · show 0 + value q % 2 ^ 16 + 0 = value q + 0
    rw [Nat.mod_eq_of_lt (hv q)]
    omega
  · exact ⟨fun u q hu => absurd hu List.not_mem_nil, fun q => Nat.mod_lt _ (by decide)⟩

/-- Two threads wait; one release goes to the first of them, the timer of the other one expires, and
a second release goes to the counter. -/
theorem sem_conserved_iff_two : Visits semStep (Conserved fun _ => 0)
    (semInit (fun _ => 0) (fun _ => 0) fun _ => 10)
    [.take 0 (-1), .preempt 1, .take 0 5, .preempt 2, .release 0, .timeout 1, .release 0, .preempt 0,
      .takeEnd, .trytake 0, .preempt 1, .takeEnd] :=
  (sem_conserved_iff (fun _ => 0) (fun _ => 0) (fun _ => 10) _ _ (fun _ => by decide) rfl).mp
    (by decide)

/-- A release of a semaphore with the value 65535 sets it to 0. -/
theorem sem_release_wraps : ¬ ∀ (value flag priority : Nat → Nat) (acts : List SemAct) (s : SemSys),
    (∀ q, value q < 2 ^ 16) → exec semStep (semInit value flag priority) acts = some s →
      Conserved value s := by
  intro h
  have hc := h (fun _ => 65535) (fun _ => 0) (fun _ => 10) [.release 0] _ (fun _ => by decide) rfl
  obtain ⟨l, hl, hsum⟩ := hc 0
  have hempty : l = ∅ := by
    refine Finset.eq_empty_of_forall_notMem fun t ht => ?_
    cases ((hl t).mp ht).1
  rw [hempty] at hsum
  exact absurd hsum (by decide)

end Tudu.Sem
