import TuduOS.Ipc.MutexPlain
import TuduOS.Lib.Lts

/-!
# Priority inheritance of mutexes

A take that has to wait raises the owner to at least its own priority, and the last release sets
the owner back to the priority that it had when it got the mutex.

* **It is undone** (`Restored`): a thread that owns no mutex has its `init_priority`. The code
  breaks this where mutexes are not released in the reverse order of their takes: the second take
  keeps the raised priority in `original_priority`, and its release, the last one, brings it back.
  `RestoresInit` says exactly when it does not.
* **No inversion** (`NoInversion`): the owner runs at least at the priority of each waiting thread.
  The code raises only where a take starts to wait. A hand-over to a thread of lower priority than
  one that waits on (the list is in order of arrival, or priorities changed), a release that goes
  below the threads that wait for another mutex of the owner, and a raised owner that waits itself
  break this. `KeepsOrder` says exactly when a step does not.

Both conditions are exact for whole runs.
-/

namespace Tudu.Mutex

open Kern MutexSys Lts

variable {s s' : MutexSys} {t u m q p : Nat}

/-! ## Priorities after the last release -/

/-- The property: every thread that owns no mutex has its `init_priority`. -/
def Restored (priority : Nat → Nat) (s : MutexSys) : Prop :=
  ∀ t, (∀ m, ¬ s.Owns t m) → s.priority t = priority t

/-- The release of the only mutex of a thread finds the `init_priority` in `original_priority`. -/
def RestoresInit (priority : Nat → Nat) (s : MutexSys) : MutexAct → Prop
  | .release m => LastRelease s m → (∀ q, q ≠ m → ¬ s.Owns s.kern.current q) →
      (s.mutex m).originalPriority = priority s.kern.current
  | _ => True

theorem Restored.congr {priority : Nat → Nat} (h : Restored priority s)
    (hprio : ∀ u, (∀ q, ¬ s'.Owns u q) → s'.priority u = s.priority u)
    (hown : ∀ u q, s.Owns u q → ∃ q, s'.Owns u q) : Restored priority s' := by
  intro u hu
  rw [hprio u hu]
  refine h u fun q hq => ?_
  obtain ⟨q', hq'⟩ := hown u q hq
  exact hu q' hq'

/-- A step that meets the condition. -/
theorem Restored.step {priority : Nat → Nat} {act : MutexAct} (h : Restored priority s)
    (hc : RestoresInit priority s act) (he : Effect s s' (.mutex act)) : Restored priority s' := by
  generalize ha : PrioAct.mutex act = a at he
  cases he with
  | quiet a htake hrel hset hprio hown hon =>
    exact h.congr (fun u _ => hprio u) fun u q hq => ⟨q, (hown u q).mpr hq⟩
  | got m time hfree hempty hprio hown hon =>
    refine h.congr (fun u _ => hprio u) fun u q hq => ⟨q, (hown u q).mpr ?_⟩
    split
    · next hqm =>
      subst hqm
      rw [Owns, hfree] at hq
      cases hq
    · exact hq
  | wait m time o hw hprio hown hin hon =>
    refine h.congr (fun u hu => ?_) fun u q hq => ⟨q, (hown u q).mpr hq⟩
    rw [hprio, if_neg]
    rintro rfl
    exact hu m ((hown u m).mpr hw.1)
  | handed m hl hoff hprio hown hon =>
    cases ha
    intro u hu
    rw [hprio]
    split
    · next hut =>
      subst hut
      refine hc hl fun q hq ho => hu q ((hown _ q).mpr ?_)
      rwa [if_neg hq]
    · next hut =>
      refine h u fun q hq => hu q ((hown u q).mpr ?_)
      split
      · next hqm =>
        -- the owner of `m` is the thread that releases it
        subst hqm
        exact absurd (Option.some.inj (hq.symm.trans hl.1)) hut
      · exact hq
  | changed v p => cases ha

/-- A step that does not meet it. -/
theorem Restored.lost {priority : Nat → Nat} {act : MutexAct} (hc : ¬ RestoresInit priority s act)
    (he : Effect s s' (.mutex act)) : ¬ Restored priority s' := by
  cases act with
  | release m =>
    simp only [RestoresInit, Classical.not_imp] at hc
    obtain ⟨hl, hno, hne⟩ := hc
    intro h
    cases he with
    | quiet _ _ hrel => exact hrel m rfl hl
    | handed _ _ hoff hprio hown hon =>
      have hp := hprio s.kern.current
      rw [if_pos rfl] at hp
      refine hne (hp.symm.trans (h _ fun q ho => ?_))
      have ho := (hown _ q).mp ho
      split at ho
      · refine hoff m ?_
        exact List.mem_of_mem_head? ho
      · exact hno q ‹_› ho
  | _ => exact absurd trivial hc

theorem plainStep_effect {act : MutexAct} (h : PlainInv s) (hs : plainStep s act = some s') :
    PlainInv s' ∧ Effect s s' (.mutex act) :=
  prioStep_effect h (show prioStep s (.mutex act) = some s' from hs)

/-- **Priority inheritance is undone exactly where the condition holds.** All steps of a run of
takes, waits, timeouts and releases meet the condition if and only if in every state of it each
thread that owns no mutex has its `init_priority`. -/
theorem priority_restored_iff (flag priority : Nat → Nat) (acts : List MutexAct) (s : MutexSys)
    (hx : exec plainStep (mutexInit flag priority) acts = some s) :
    Along plainStep (RestoresInit priority) (mutexInit flag priority) acts ↔
      Visits plainStep (Restored priority) (mutexInit flag priority) acts := by
  refine along_iff_visits (I := fun s => PlainInv s ∧ Restored priority s) (fun s h => h.2)
    (fun s act s' h hc hs => ?_) (fun s act s' h hc hs => ?_) hx
    ⟨.init flag priority, fun t _ => rfl⟩
  · obtain ⟨hinv, he⟩ := plainStep_effect h.1 hs
    exact ⟨hinv, h.2.step hc he⟩
  · exact Restored.lost hc (plainStep_effect h.1 hs).2

theorem priority_restored_handOver : Visits plainStep (Restored fun t => if t = 0 then 20 else 10)
    (mutexInit (fun _ => 0) fun t => if t = 0 then 20 else 10) handOver := by
  refine (priority_restored_iff (fun _ => 0) _ handOver _ rfl).mp ?_
  exact ⟨trivial, trivial, trivial, trivial, trivial, fun _ _ => rfl, trivial, trivial, trivial,
    trivial⟩

/-- The thread 0 takes a second mutex at the priority of the thread that waits for its first, and
releases the first one first. -/
def nestedTakes : List MutexAct :=
  [.take 0 (-1), .ret, .preempt 1, .take 0 (-1), .schedule (some 0), .take 1 (-1), .ret, .release 0,
    .release 1]

theorem priority_stays_raised : ¬ ∀ (flag priority : Nat → Nat) (acts : List MutexAct)
    (s : MutexSys), exec plainStep (mutexInit flag priority) acts = some s →
      Restored priority s := by
  intro h
  have hr := h (fun _ => 0) (fun t => if t = 0 then 20 else 10) nestedTakes _ rfl 0 fun m hm => ?_
  · exact absurd hr (by decide)
  · rcases m with _ | _ | m
    · exact absurd hm (by decide)
    · exact absurd hm (by decide)
    · cases hm

/-! ## Priorities while threads wait -/

/-- The property: the owner of a mutex runs at least at the priority of each waiting thread. -/
def NoInversion (s : MutexSys) : Prop :=
  ∀ m o w, s.Owns o m → s.On w m → s.priority o ≤ s.priority w

/-- Where a step keeps every owner at the priority of its waiting threads.

* A take that raises an owner: if that one waits itself, the thread it waits for has the new
  priority.
* The last release: no thread waits for another mutex of the thread with a higher priority than the
  one it goes back to, nor for this mutex with a higher one than the first of the list.
* A change of a priority: it does not cross that of the threads on the other side. -/
def KeepsOrder (s : MutexSys) : PrioAct → Prop
  | .mutex (.take m time) => ∀ o q v, WaitsFor s m time o →
      s.priority s.kern.current < s.priority o → s.On o q → s.Owns v q → v ≠ o →
        s.priority v ≤ s.priority s.kern.current
  | .mutex (.release m) => LastRelease s m →
      (∀ q w, q ≠ m → s.Owns s.kern.current q → s.On w q →
        (s.mutex m).originalPriority ≤ s.priority w) ∧
      ∀ u w, (s.kern.suspendThread m).head? = some u → s.On w m → s.priority u ≤ s.priority w
  | .mutex _ => True
  | .changePriority u p =>
    (∀ m w, s.Owns u m → s.On w m → w ≠ u → p ≤ s.priority w) ∧
      ∀ m o, s.On u m → s.Owns o m → o ≠ u → s.priority o ≤ p

theorem NoInversion.step {act : PrioAct} (h : NoInversion s) (hc : KeepsOrder s act)
    (he : Effect s s' act) : NoInversion s' := by
  intro q v w hv hw
  cases he with
  | quiet a htake hrel hset hprio hown hon =>
    rw [hprio, hprio]
    exact h q v w ((hown v q).mp hv) (hon w q hw)
  | got m time hfree hempty hprio hown hon =>
    rw [hprio, hprio]
    have hv := (hown v q).mp hv
    have hw := (hon w q).mp hw
    split at hv
    · next hqm =>
      subst hqm
      exact absurd hw (hempty w)
    · exact h q v w hv hw
  | wait m time o hwait hprio hown hin hon =>
    have hv := (hown v q).mp hv
    -- the owner is never above its waiting threads, nor above the new one
    have hle : s'.priority v ≤ s.priority v := by
      rw [hprio]
      split
      · next hvo => rw [hvo]; omega
      · exact Nat.le_refl _
    rcases hon w q hw with hw | ⟨rfl, rfl⟩
    · have hvw := h q v w hv hw
      rw [hprio w]
      split
      · next hwo =>
        subst hwo
        by_cases hvo : v = w
        · have hself := (hprio w).trans (if_pos rfl)
          exact Nat.le_of_eq ((congrArg s'.priority hvo).trans hself)
        by_cases hlt : s.priority s.kern.current < s.priority w
        · have := hc w q v hwait hlt hw hv hvo
          omega
        · omega
      · omega
    · have hvo : v = o := Option.some.inj (hv.symm.trans hwait.1)
      rw [hprio v, if_pos hvo, hprio, if_neg (Ne.symm hwait.2.1)]
      omega
  | handed m hl hoff hprio hown hon =>
    obtain ⟨hother, hfirst⟩ := hc hl
    have hv := (hown v q).mp hv
    obtain ⟨hw, -⟩ := (hon w q).mp hw
    have hwc : w ≠ s.kern.current := by
      rintro rfl
      exact hoff q hw
    rw [hprio w, if_neg hwc, hprio]
    split at hv
    · next hqm =>
      subst hqm
      rw [if_neg]
      · exact hfirst v w hv hw
      · rintro rfl
        exact hoff q (List.mem_of_mem_head? hv)
    · next hqm =>
      split
      · next hvc =>
        subst hvc
        exact hother q w hqm hv hw
      · exact h q v w hv hw
  | changed u p hprio hown hon =>
    obtain ⟨hup, hdown⟩ := hc
    have hv := (hown v q).mp hv
    have hw := (hon w q).mp hw
    have hvw := h q v w hv hw
    rw [hprio, hprio]
    split
    · next hvu =>
      subst hvu
      split
      · exact Nat.le_refl _
      · next hwu => exact hup q w hv hw hwu
    · next hvu =>
      split
      · next hwu =>
        subst hwu
        exact hdown q v hw hv hvu
      · exact hvw

theorem NoInversion.lost {act : PrioAct} (hi : PlainInv s) (hc : ¬ KeepsOrder s act)
    (he : Effect s s' act) : ¬ NoInversion s' := by
  intro h
  refine hc ?_
  cases he with
  | quiet _ htake hrel hset hprio hown hon =>
    cases act with
    | changePriority u p => exact absurd rfl (hset u p)
    | mutex a =>
      cases a with
      | take m time => exact fun o q v hw => absurd hw (htake m time o rfl)
      | release m => exact fun hl => absurd hl (hrel m rfl)
      | _ => trivial
  | got m time hfree hempty hprio hown hon =>
    intro o q v hw
    have ho := hw.1
    rw [Owns, hfree] at ho
    cases ho
  | wait m time o hwait hprio hown hin hon =>
    intro o' q v hw hlt hon' hv hvo
    have hoo : o' = o := Option.some.inj (hw.1.symm.trans hwait.1)
    subst hoo
    have := h q v o' ((hown v q).mpr hv) (hin o' q hon')
    rw [hprio, if_neg hvo, hprio, if_pos rfl] at this
    omega
  | handed m hl hoff hprio hown hon =>
    have hne : ∀ w q, s.On w q → w ≠ s.kern.current := by
      rintro w q hw rfl
      exact hoff q hw
    refine fun _ => ⟨fun q w hqm hown' hw => ?_, fun u w hu hw => ?_⟩
    · have hstay : s'.On w q := by
        refine (hon w q).mpr ⟨hw, fun hh => hqm ?_⟩
        exact hi.on_unique hw (List.mem_of_mem_head? hh)
      have := h q s.kern.current w ((hown _ q).mpr (by rwa [if_neg hqm])) hstay
      rwa [hprio, if_pos rfl, hprio, if_neg (hne w q hw)] at this
    · by_cases huw : u = w
      · exact Nat.le_of_eq (congrArg s.priority huw)
      have hstay : s'.On w m := by
        refine (hon w m).mpr ⟨hw, fun hh => huw ?_⟩
        exact Option.some.inj (hu.symm.trans hh)
      have := h m u w ((hown u m).mpr (by rwa [if_pos rfl])) hstay
      rwa [hprio, if_neg (hne u m (List.mem_of_mem_head? hu)), hprio, if_neg (hne w m hw)] at this
  | changed u p hprio hown hon =>
    refine ⟨fun m w ho hw hwu => ?_, fun m o hw ho hou => ?_⟩
    · have := h m u w ((hown u m).mpr ho) ((hon w m).mpr hw)
      rwa [hprio, if_pos rfl, hprio, if_neg hwu] at this
    · have := h m o u ((hown o m).mpr ho) ((hon u m).mpr hw)
      rwa [hprio, if_neg hou, hprio, if_pos rfl] at this

/-- **There is no priority inversion exactly where the condition holds.** All steps of a run meet
the condition if and only if in every state of it each owner runs at least at the priority of each
thread that waits for the mutex. -/
theorem no_inversion_iff (flag priority : Nat → Nat) (acts : List PrioAct) (s : MutexSys)
    (hx : exec prioStep (mutexInit flag priority) acts = some s) :
    Along prioStep KeepsOrder (mutexInit flag priority) acts ↔
      Visits prioStep NoInversion (mutexInit flag priority) acts := by
  refine along_iff_visits (I := fun s => PlainInv s ∧ NoInversion s) (fun s h => h.2)
    (fun s act s' h hc hs => ?_) (fun s act s' h hc hs => ?_) hx
    ⟨.init flag priority, fun m o w hw => ?_⟩
  · obtain ⟨hinv, he⟩ := prioStep_effect h.1 hs
    exact ⟨hinv, h.2.step hc he⟩
  · exact NoInversion.lost h.1 hc (prioStep_effect h.1 hs).2
  · cases hw

/-- The hand-over of `handOver`, with the waiting thread above the owner. -/
theorem no_inversion_handOver : Visits prioStep NoInversion
    (mutexInit (fun _ => 0) fun t => if t = 0 then 20 else 10) (handOver.map .mutex) := by
  refine (no_inversion_iff (fun _ => 0) _ (handOver.map .mutex) _ rfl).mp ?_
  refine ⟨fun o q v hw => ?_, trivial, trivial, fun o q v hw hlt hon => ?_, trivial,
    fun hl => ⟨fun q w hq ho hw => ?_, fun u w hu hw => ?_⟩, trivial, trivial, trivial, trivial⟩
  · cases hw.1
  · rcases q with _ | q <;> cases hon
  · rcases q with _ | q
    · exact absurd rfl hq
    · cases hw
  · cases hu
    exact Nat.le_of_eq (congrArg _ (List.mem_singleton.mp hw).symm)

/-- The threads 1 and 2 wait for the mutex, in this order, when the thread 0 releases it. -/
def twoWaiters : List MutexAct :=
  [.take 0 (-1), .ret, .preempt 1, .take 0 (-1), .schedule (some 2), .take 0 (-1),
    .schedule (some 0), .release 0]

/-- The thread 1 has priority 15, the thread 2 priority 10, and the mutex is a FIFO: the release
hands it to the thread 1, which keeps its priority. -/
theorem owner_below_waiter : ¬ ∀ (flag priority : Nat → Nat) (acts : List PrioAct) (s : MutexSys),
    exec prioStep (mutexInit flag priority) acts = some s → NoInversion s := by
  intro h
  have hle := h (fun _ => 0) (fun t => if t = 0 then 20 else if t = 1 then 15 else 10)
    (twoWaiters.map .mutex) _ rfl 0 1 2 rfl (by decide)
  exact absurd hle (by decide)

end Tudu.Mutex
