import Mathlib.Data.List.Nodup
import Mathlib.Logic.Function.Basic
import TuduOS.Kernel.Def
import TuduOS.Lib.Lts

/-!
# Work queues (`workqueue.c`)

One queue, its worker thread, and any number of works, each named by a number.

* `work_list` is the list of the works; `rt_list_remove` of a work that is on no list changes
  nothing.
* The worker takes what is first on the list without a look at it: on an empty list this is the head
  of the list, and the worker is then `wild`.
* A call that is made while the work function runs may be one of the work function.
* A call without a next state: a `NULL` queue, or `rt_timer_init` of a timer that runs.

Here each call is one step, but for the wait of `rt_workqueue_cancel_work_sync`. `flag_iff`: the
flag `RT_WORK_STATE_PENDING` and the list agree as long as no call links or unlinks a work without
it (`KeepsFlag`).
-/

namespace Tudu.Workqueue

open Lts

def rtEbusy : Int := 7
/-- `EINVAL` -/
def einval : Int := 22

structure RtWork where
  /-- `RT_WORK_STATE_PENDING` -/
  pending : Bool
  /-- `RT_WORK_STATE_SUBMITTING` -/
  submitting : Bool
  /-- `RT_WORK_TYPE_DELAYED` -/
  delayed : Bool
  /-- `workqueue` is not `NULL`. -/
  attached : Bool
  /-- `timer` runs. -/
  timer : Bool
  deriving DecidableEq

inductive WorkerPc where
  /-- Before the test of `work_list`. -/
  | test
  /-- Before `rt_thread_suspend`. -/
  | suspend
  /-- Suspended. -/
  | sleep
  | dequeue
  /-- In `work_func`. -/
  | run (w : Nat)
  /-- Before `_workqueue_work_completion`. -/
  | complete
  /-- The head of the list was taken for a work. -/
  | wild
  deriving DecidableEq

structure Wq where
  work : Nat → RtWork
  workList : List Nat
  workCurrent : Option Nat
  /-- `sem`: its value, and the works that the threads on it wait for. -/
  semValue : Nat
  waiters : List Nat
  /-- The works whose waiting threads have been resumed. -/
  woken : List Nat
  worker : WorkerPc

namespace Wq

def setWork (q : Wq) (w : Nat) (x : RtWork) : Wq := { q with work := Function.update q.work w x }

/-- `work->flags |= RT_WORK_STATE_PENDING`, or `&= ~` -/
def setPending (q : Wq) (w : Nat) (b : Bool) : Wq := q.setWork w { q.work w with pending := b }

/-- `rt_list_remove(&(work->list))` -/
def unlink (q : Wq) (w : Nat) : Wq := { q with workList := q.workList.erase w }

/-- The work is removed, and linked at the end of the list. -/
def relink (q : Wq) (w : Nat) : Wq := { q with workList := q.workList.erase w ++ [w] }

/-- `rt_thread_resume(queue->work_thread)` -/
def resumeWorker (q : Wq) : Wq := if q.worker = .sleep then { q with worker := .dequeue } else q

/-- The section of `_workqueue_submit_work`: the result, and whether the worker is to be resumed. -/
def submitSection (q : Wq) (w : Nat) : Wq × Int × Bool :=
  if (q.work w).pending then (q, -rtEbusy, false)
  else if q.workCurrent = some w then (q, -rtEbusy, false)
  else ((q.relink w).setPending w true, rtEok, q.workCurrent.isNone)

/-- `_workqueue_submit_work` -/
def submitNow (q : Wq) (w : Nat) : Wq × Int :=
  let r := q.submitSection w
  (if r.2.2 then r.1.resumeWorker else r.1, r.2.1)

/-- `_workqueue_cancel_work` -/
def cancelNow (q : Wq) (w : Nat) : Wq × Int :=
  if q.workCurrent = some w then (q, -rtEbusy) else ((q.unlink w).setPending w false, rtEok)

/-- The end of `_workqueue_cancel_delayed_work`. -/
def detach (q : Wq) (w : Nat) : Wq :=
  q.setWork w { q.work w with attached := false, pending := false }

/-- `_workqueue_cancel_delayed_work` -/
def cancelDelayed (q : Wq) (w : Nat) : Wq × Int :=
  if (q.work w).attached = false then (q, -einval)
  else if (q.work w).pending then
    let r := q.cancelNow w
    if r.2 ≠ 0 then r else (r.1.detach w, rtEok)
  else if (q.work w).submitting then
    ((q.setWork w { q.work w with timer := false, submitting := false }).detach w, rtEok)
  else (q.detach w, rtEok)

/-- `_workqueue_submit_delayed_work` behind its tests. -/
def submitTicks (q : Wq) (w ticks : Nat) : Option (Wq × Int) :=
  let q := q.setWork w { q.work w with attached := true }
  if ticks = 0 then some (q.submitNow w)
  else if (q.work w).timer then none
  else some (q.setWork w { q.work w with submitting := true, timer := true }, rtEok)

/-- `_workqueue_submit_delayed_work` -/
def submitDelayed (q : Wq) (w ticks : Nat) : Option (Wq × Int) :=
  if (q.work w).attached then
    let r := q.cancelDelayed w
    if r.2 < 0 then some r else r.1.submitTicks w ticks
  else q.submitTicks w ticks

/-- `_delayed_work_timeout_handler` -/
def timeoutHandler (q : Wq) (w : Nat) : Option Wq :=
  let q := q.setWork w { q.work w with timer := false, submitting := false, delayed := false }
  if (q.work w).attached = false ∧ (q.work w).pending = false then none
  else some (q.submitNow w).1

def rtWorkqueueDowork (q : Wq) (w : Nat) : Wq × Int := q.submitNow w

def rtWorkqueueSubmitWork (q : Wq) (w time : Nat) : Option (Wq × Int) :=
  let q := if time > 0 then q.setWork w { q.work w with delayed := true } else q
  if (q.work w).delayed then q.submitDelayed w time else some (q.submitNow w)

def rtWorkqueueCriticalWork (q : Wq) (w : Nat) : Wq × Int :=
  if q.workCurrent = some w then (q, -rtEbusy)
  else
    (if q.workCurrent = none then (q.relink w).resumeWorker else q.relink w, rtEok)

def rtWorkqueueCancelWork (q : Wq) (w : Nat) : Wq × Int :=
  if (q.work w).delayed then q.cancelDelayed w else q.cancelNow w

/-- `rt_workqueue_cancel_work_sync`, up to the wait for the work that runs. -/
def rtWorkqueueCancelWorkSync (q : Wq) (w : Nat) : Wq :=
  if q.workCurrent = some w then
    if q.semValue = 0 then { q with waiters := q.waiters ++ [w] }
    else { q with semValue := q.semValue - 1 }.setPending w false
  else (q.unlink w).setPending w false

/-- `rt_workqueue_cancel_work_sync`, behind the wait. -/
def cancelSyncEnd (q : Wq) (w : Nat) : Option Wq :=
  if w ∈ q.woken then some ({ q with woken := q.woken.erase w }.setPending w false) else none

def rtWorkqueueCancelAllWork (q : Wq) : Wq := { q with workList := [] }

/-- The loop of `_workqueue_work_completion`, over the threads on the semaphore: it takes the
semaphore if it can, and releases it otherwise. -/
def completionLoop : List Nat → Nat → List Nat → List Nat × Nat × List Nat
  | waiters, value + 1, woken => (waiters, value, woken)
  | [], 0, woken => ([], 0, woken)
  | w :: waiters, 0, woken => completionLoop waiters 0 (woken ++ [w])

def workCompletion (q : Wq) : Wq :=
  let r := completionLoop q.waiters q.semValue q.woken
  { q with waiters := r.1, semValue := r.2.1, woken := r.2.2 }

/-- `_workqueue_thread_entry` -/
def workerStep (q : Wq) : Option Wq :=
  match q.worker with
  | .test => some { q with worker := if q.workList = [] then .suspend else .dequeue }
  | .suspend => some { q with worker := .sleep }
  | .sleep => none
  | .dequeue =>
    match q.workList with
    | [] => some { q with worker := .wild }
    | w :: l =>
      some { q.setWork w { q.work w with pending := false, attached := false } with
        workList := l, workCurrent := some w, worker := .run w }
  | .run _ => some { q with workCurrent := none, worker := .complete }
  | .complete => some { q.workCompletion with worker := .test }
  | .wild => none

end Wq

open Wq

inductive WqAct where
  | dowork (w : Nat)
  | submit (w time : Nat)
  | critical (w : Nat)
  | cancel (w : Nat)
  | cancelSync (w : Nat)
  | cancelSyncEnd (w : Nat)
  | cancelAll
  /-- The timer of a delayed work expires. -/
  | expire (w : Nat)
  | worker
  deriving DecidableEq

def wqStep (q : Wq) : WqAct → Option Wq
  | .dowork w => some (q.rtWorkqueueDowork w).1
  | .submit w time => (q.rtWorkqueueSubmitWork w time).map Prod.fst
  | .critical w => some (q.rtWorkqueueCriticalWork w).1
  | .cancel w => some (q.rtWorkqueueCancelWork w).1
  | .cancelSync w => some (q.rtWorkqueueCancelWorkSync w)
  | .cancelSyncEnd w => q.cancelSyncEnd w
  | .cancelAll => some q.rtWorkqueueCancelAllWork
  | .expire w => if (q.work w).timer then q.timeoutHandler w else none
  | .worker => q.workerStep

/-- `rt_workqueue_create`, and `rt_work_init` of every work. -/
def wqInit : Wq where
  work := fun _ => ⟨false, false, false, false, false⟩
  workList := []
  workCurrent := none
  semValue := 0
  waiters := []
  woken := []
  worker := .test

/-! ## The property and the condition -/

/-- The flag says who is on the list. -/
structure FlagInv (q : Wq) : Prop where
  pending : ∀ w, (q.work w).pending = true ↔ w ∈ q.workList
  nodup : q.workList.Nodup

/-- What every step keeps that meets the condition. -/
structure Inv (q : Wq) : Prop where
  flag : FlagInv q
  sem : q.semValue = 0

/-- The property: the flag says who is on the list, and a work that is not queued, delayed or
running can be submitted. -/
structure FlagOk (q : Wq) : Prop where
  flag : FlagInv q
  dowork : ∀ w, w ∉ q.workList → q.workCurrent ≠ some w →
    ∃ q', q.rtWorkqueueDowork w = (q', rtEok)
  submit : ∀ w time, w ∉ q.workList → (q.work w).timer = false → q.workCurrent ≠ some w →
    ∃ q', q.rtWorkqueueSubmitWork w time = some (q', rtEok)

/-- The step does not link a work without the flag, or unlink one that has it; and a thread that
waited for a work does not clear the flag of one that is linked again. -/
def KeepsFlag (q : Wq) : WqAct → Prop
  | .critical w => (q.work w).pending = true ∨ q.workCurrent = some w
  | .cancelAll => q.workList = []
  | .cancelSyncEnd w => w ∈ q.woken → w ∉ q.workList
  | _ => True

variable {q q' : Wq} {w v : Nat} {act : WqAct}

@[simp] theorem setWork_work {x : RtWork} : (q.setWork w x).work v =
    if v = w then x else q.work v := by
  simp only [setWork, Function.update_apply]

@[simp] theorem setWork_workList {x : RtWork} : (q.setWork w x).workList = q.workList := rfl

@[simp] theorem resumeWorker_work : q.resumeWorker.work = q.work := by
  unfold resumeWorker
  split <;> rfl

@[simp] theorem resumeWorker_workList : q.resumeWorker.workList = q.workList := by
  unfold resumeWorker
  split <;> rfl

@[simp] theorem resumeWorker_workCurrent : q.resumeWorker.workCurrent = q.workCurrent := by
  unfold resumeWorker
  split <;> rfl

namespace FlagInv

theorem congr (h : FlagInv q) (hl : q'.workList = q.workList)
    (hp : ∀ v, (q'.work v).pending = (q.work v).pending) : FlagInv q' := by
  refine ⟨fun v => ?_, ?_⟩
  · rw [hl, hp]
    exact h.pending v
  · rw [hl]
    exact h.nodup

/-- A work is linked at the end, with the flag. -/
theorem link (h : FlagInv q) (hl : q'.workList = q.workList.erase w ++ [w])
    (hp : ∀ v, (q'.work v).pending = if v = w then true else (q.work v).pending) : FlagInv q' := by
  refine ⟨fun v => ?_, ?_⟩
  · rw [hl, hp, List.mem_append, List.mem_singleton, h.nodup.mem_erase_iff]
    by_cases hv : v = w
    · simp [hv]
    · simp [hv, h.pending v]
  · rw [hl]
    refine List.nodup_append.mpr ⟨h.nodup.erase w, List.nodup_singleton w, fun v hv x hx he => ?_⟩
    rw [he, List.mem_singleton.mp hx] at hv
    exact (h.nodup.mem_erase_iff.mp hv).1 rfl

/-- A work is removed, with its flag. -/
theorem unlink (h : FlagInv q) (hl : q'.workList = q.workList.erase w)
    (hp : ∀ v, (q'.work v).pending = if v = w then false else (q.work v).pending) : FlagInv q' := by
  refine ⟨fun v => ?_, ?_⟩
  · rw [hl, hp, h.nodup.mem_erase_iff]
    by_cases hv : v = w
    · simp [hv]
    · simp [hv, h.pending v]
  · rw [hl]
    exact h.nodup.erase w

variable (h : FlagInv q)
include h

/-- Other data of a work. -/
theorem setWork {x : RtWork} (hx : x.pending = (q.work w).pending) : FlagInv (q.setWork w x) := by
  refine h.congr rfl fun v => ?_
  rw [setWork_work]
  split
  · next hv => rw [hv, hx]
  · rfl

theorem submitNow (w : Nat) : FlagInv (q.submitNow w).1 := by
  have hlink : ∀ b : Bool, FlagInv (if b then ((q.relink w).setPending w true).resumeWorker
      else (q.relink w).setPending w true) := fun b => by
    refine h.link (w := w) ?_ fun v => ?_
    · cases b
      · rfl
      · simp [setPending, relink]
    · cases b <;> simp only [setPending, relink, Bool.false_eq_true, if_true, if_false,
        resumeWorker_work, setWork_work] <;> split <;> rfl
  unfold Wq.submitNow submitSection
  split
  · exact h
  · split
    · exact h
    · exact hlink _

theorem cancelNow (w : Nat) : FlagInv (q.cancelNow w).1 := by
  unfold Wq.cancelNow
  split
  · exact h
  · refine h.unlink rfl fun v => ?_
    simp only [setPending, setWork_work]
    split <;> rfl

/-- A work without the flag is detached. -/
theorem detach (hp : (q.work w).pending = false) : FlagInv (q.detach w) :=
  h.setWork hp.symm

theorem cancelDelayed (w : Nat) : FlagInv (q.cancelDelayed w).1 := by
  unfold Wq.cancelDelayed
  split
  · exact h
  · split
    · have hcancel := h.cancelNow w
      simp only
      split
      · exact hcancel
      · next hr =>
        refine hcancel.detach ?_
        unfold Wq.cancelNow at hr ⊢
        split
        · next hc => simp [hc, rtEbusy] at hr
        · simp [setPending]
    · next hp =>
      have hfree := Bool.eq_false_iff.mpr hp
      split
      · refine FlagInv.detach (h.setWork rfl) ?_
        simp [hfree]
      · exact h.detach hfree

theorem submitTicks {r : Wq × Int} {ticks : Nat} (hs : q.submitTicks w ticks = some r) :
    FlagInv r.1 := by
  have hat : FlagInv (q.setWork w { q.work w with attached := true }) := h.setWork rfl
  simp only [Wq.submitTicks] at hs
  split at hs
  · cases hs
    exact hat.submitNow w
  · split at hs
    · cases hs
    · cases hs
      refine hat.setWork rfl

theorem submitDelayed {r : Wq × Int} {ticks : Nat} (hs : q.submitDelayed w ticks = some r) :
    FlagInv r.1 := by
  simp only [Wq.submitDelayed] at hs
  split at hs
  · split at hs
    · cases hs
      exact h.cancelDelayed w
    · exact (h.cancelDelayed w).submitTicks hs
  · exact h.submitTicks hs

theorem submitWork {r : Wq × Int} {time : Nat} (hs : q.rtWorkqueueSubmitWork w time = some r) :
    FlagInv r.1 := by
  have hdel : FlagInv (if time > 0 then q.setWork w { q.work w with delayed := true } else q) := by
    split
    · exact h.setWork rfl
    · exact h
  unfold rtWorkqueueSubmitWork at hs
  generalize (if time > 0 then q.setWork w { q.work w with delayed := true } else q) = p at hdel hs
  simp only at hs
  split at hs
  · exact hdel.submitDelayed hs
  · cases hs
    exact hdel.submitNow w

theorem worker (hs : q.workerStep = some q') : FlagInv q' := by
  unfold workerStep at hs
  split at hs
  · cases hs
    exact h.congr rfl fun _ => rfl
  · cases hs
    exact h.congr rfl fun _ => rfl
  · cases hs
  · split at hs
    · cases hs
      exact h.congr rfl fun _ => rfl
    · next w l hl =>
      cases hs
      refine h.unlink (w := w) ?_ fun v => ?_
      · rw [hl, List.erase_cons_head]
      · show ((q.setWork w _).work v).pending = _
        rw [setWork_work]
        split <;> rfl
  · cases hs
    exact h.congr rfl fun _ => rfl
  · cases hs
    exact h.congr rfl fun _ => rfl
  · cases hs

end FlagInv

/-! ## The steps -/

theorem Inv.flag_step (hi : Inv q) (hc : KeepsFlag q act) (hs : wqStep q act = some q') :
    FlagInv q' := by
  have h := hi.flag
  cases act with
  | dowork w =>
    cases hs
    exact h.submitNow w
  | submit w time =>
    obtain ⟨r, hr, rfl⟩ := Option.map_eq_some_iff.mp hs
    exact h.submitWork hr
  | critical w =>
    cases hs
    unfold rtWorkqueueCriticalWork
    split
    · exact h
    · next hcur =>
      have hp := Or.resolve_right hc hcur
      refine h.link (w := w) ?_ fun v => ?_
      · simp only
        split
        · simp [relink]
        · rfl
      · have hsame : (q.work v).pending = if v = w then true else (q.work v).pending := by
          split
          · next hv => rw [hv, hp]
          · rfl
        simp only
        split
        · rw [resumeWorker_work]
          exact hsame
        · exact hsame
  | cancel w =>
    cases hs
    unfold rtWorkqueueCancelWork
    split
    · exact h.cancelDelayed w
    · exact h.cancelNow w
  | cancelSync w =>
    cases hs
    unfold rtWorkqueueCancelWorkSync
    split
    · rw [if_pos hi.sem]
      exact h.congr rfl fun _ => rfl
    · refine h.unlink rfl fun v => ?_
      simp only [setPending, setWork_work]
      split <;> rfl
  | cancelSyncEnd w =>
    simp only [wqStep, Wq.cancelSyncEnd] at hs
    split at hs
    · next hw =>
      cases hs
      have hno := hc hw
      refine h.congr rfl fun v => ?_
      simp only [setPending, setWork_work]
      split
      · next hv =>
        subst hv
        exact (Bool.eq_false_iff.mpr fun hp => hno ((h.pending v).mp hp)).symm
      · rfl
    · cases hs
  | cancelAll =>
    cases hs
    have hnil : q.workList = [] := hc
    exact h.congr hnil.symm fun _ => rfl
  | expire w =>
    simp only [wqStep] at hs
    split at hs
    · simp only [timeoutHandler] at hs
      split at hs
      · cases hs
      · cases hs
        have hset : FlagInv (q.setWork w
            { q.work w with timer := false, submitting := false, delayed := false }) :=
          h.setWork rfl
        exact hset.submitNow w
    · cases hs
  | worker => exact h.worker hs

/-- The semaphore is 0 again when all the threads on it have been resumed. -/
theorem completionLoop_zero (l m : List Nat) : (completionLoop l 0 m).2.1 = 0 := by
  induction l generalizing m with
  | nil => rfl
  | cons w l ih => exact ih _

theorem submitNow_sem : (q.submitNow w).1.semValue = q.semValue := by
  have hr : ∀ p : Wq, p.resumeWorker.semValue = p.semValue := fun p => by
    unfold resumeWorker
    split <;> rfl
  unfold submitNow submitSection
  split
  · rfl
  · split
    · rfl
    · simp only
      split
      · exact hr _
      · rfl

theorem cancelDelayed_sem : (q.cancelDelayed w).1.semValue = q.semValue := by
  have hc : (q.cancelNow w).1.semValue = q.semValue := by
    unfold cancelNow
    split <;> rfl
  unfold cancelDelayed
  split
  · rfl
  · split
    · simp only
      split
      · exact hc
      · exact hc
    · split <;> rfl

theorem submitTicks_sem {r : Wq × Int} {ticks : Nat} (hs : q.submitTicks w ticks = some r) :
    r.1.semValue = q.semValue := by
  simp only [submitTicks] at hs
  split at hs
  · cases hs
    exact submitNow_sem
  · split at hs <;> cases hs
    rfl

theorem submitWork_sem {r : Wq × Int} {time : Nat}
    (hs : q.rtWorkqueueSubmitWork w time = some r) : r.1.semValue = q.semValue := by
  have hdel : (if time > 0 then q.setWork w { q.work w with delayed := true } else q).semValue =
      q.semValue := by
    split <;> rfl
  unfold rtWorkqueueSubmitWork at hs
  rw [← hdel]
  generalize (if time > 0 then q.setWork w { q.work w with delayed := true } else q) = p at hs
  simp only at hs
  split at hs
  · simp only [submitDelayed] at hs
    split at hs
    · split at hs
      · cases hs
        exact cancelDelayed_sem
      · exact (submitTicks_sem hs).trans cancelDelayed_sem
    · exact submitTicks_sem hs
  · cases hs
    exact submitNow_sem

theorem sem_step (h : q.semValue = 0) (hs : wqStep q act = some q') : q'.semValue = 0 := by
  have hr : ∀ p : Wq, p.resumeWorker.semValue = p.semValue := fun p => by
    unfold resumeWorker
    split <;> rfl
  cases act with
  | dowork w =>
    cases hs
    exact submitNow_sem.trans h
  | submit w time =>
    obtain ⟨r, hr, rfl⟩ := Option.map_eq_some_iff.mp hs
    exact (submitWork_sem hr).trans h
  | critical w =>
    cases hs
    unfold rtWorkqueueCriticalWork
    split
    · exact h
    · simp only
      split
      · exact (hr _).trans h
      · exact h
  | cancel w =>
    cases hs
    unfold rtWorkqueueCancelWork
    split
    · exact cancelDelayed_sem.trans h
    · unfold cancelNow
      split <;> exact h
  | cancelSync w =>
    cases hs
    unfold rtWorkqueueCancelWorkSync
    split <;> exact h
  | cancelSyncEnd w =>
    simp only [wqStep, Wq.cancelSyncEnd] at hs
    split at hs <;> cases hs
    exact h
  | cancelAll =>
    cases hs
    exact h
  | expire w =>
    simp only [wqStep, timeoutHandler] at hs
    split at hs
    · split at hs <;> cases hs
      exact submitNow_sem.trans h
    · cases hs
  | worker =>
    simp only [wqStep, workerStep] at hs
    split at hs
    · cases hs; exact h
    · cases hs; exact h
    · cases hs
    · split at hs <;> cases hs <;> exact h
    · cases hs; exact h
    · cases hs
      show (completionLoop q.waiters q.semValue q.woken).2.1 = 0
      rw [h]
      exact completionLoop_zero _ _
    · cases hs

/-- A step without the condition leaves a work whose flag is wrong. -/
theorem FlagInv.lost (h : FlagInv q) (hc : ¬ KeepsFlag q act) (hs : wqStep q act = some q') :
    ¬ FlagInv q' := by
  intro h'
  cases act with
  | critical w =>
    obtain ⟨hp, hcur⟩ := not_or.mp hc
    cases hs
    have hin : w ∈ (q.rtWorkqueueCriticalWork w).1.workList ∧
        ((q.rtWorkqueueCriticalWork w).1.work w).pending = (q.work w).pending := by
      unfold rtWorkqueueCriticalWork
      rw [if_neg hcur]
      simp only
      split <;> simp [relink]
    exact hp (hin.2.symm.trans ((h'.pending w).mpr hin.1))
  | cancelAll =>
    cases hs
    obtain ⟨w, hw⟩ := List.exists_mem_of_ne_nil q.workList hc
    exact List.not_mem_nil ((h'.pending w).mp ((h.pending w).mpr hw))
  | cancelSyncEnd w =>
    simp only [wqStep, Wq.cancelSyncEnd] at hs
    obtain ⟨hw, hin⟩ := Classical.not_imp.mp hc
    rw [if_pos hw] at hs
    cases hs
    have hp := (h'.pending w).mpr (Classical.not_not.mp hin)
    simp [setPending] at hp
  | _ => exact hc trivial

/-! ## A work that may be submitted -/

theorem submitNow_ok (hp : (q.work w).pending = false) (hc : q.workCurrent ≠ some w) :
    (q.submitNow w).2 = rtEok := by
  unfold submitNow submitSection
  rw [if_neg (by rw [hp]; decide), if_neg hc]

theorem submitTicks_ok {ticks : Nat} (hp : (q.work w).pending = false)
    (ht : (q.work w).timer = false) (hc : q.workCurrent ≠ some w) :
    ∃ q', q.submitTicks w ticks = some (q', rtEok) := by
  have hp' : ((q.setWork w { q.work w with attached := true }).work w).pending = false := by
    simp [hp]
  have ht' : ((q.setWork w { q.work w with attached := true }).work w).timer = false := by
    simp [ht]
  simp only [submitTicks, ht', Bool.false_eq_true, if_false]
  split
  · exact ⟨_, congrArg some (Prod.ext rfl (submitNow_ok hp' hc))⟩
  · exact ⟨_, rfl⟩

/-- The cancel of a work that is not queued leaves one that is not delayed. -/
theorem cancelDelayed_ok (ha : (q.work w).attached = true) (hp : (q.work w).pending = false)
    (ht : (q.work w).timer = false) : (q.cancelDelayed w).2 = rtEok ∧
      ((q.cancelDelayed w).1.work w).pending = false ∧
      ((q.cancelDelayed w).1.work w).timer = false ∧
      (q.cancelDelayed w).1.workCurrent = q.workCurrent := by
  unfold cancelDelayed
  rw [if_neg (by rw [ha]; decide), if_neg (by rw [hp]; decide)]
  split <;> simp [detach, ht, setWork]

theorem submitDelayed_ok {ticks : Nat} (hp : (q.work w).pending = false)
    (ht : (q.work w).timer = false) (hc : q.workCurrent ≠ some w) :
    ∃ q', q.submitDelayed w ticks = some (q', rtEok) := by
  unfold submitDelayed
  split
  · next ha =>
    obtain ⟨hr, hp', ht', hc'⟩ := cancelDelayed_ok ha hp ht
    simp only
    rw [if_neg (by rw [hr]; decide)]
    exact submitTicks_ok hp' ht' (by rw [hc']; exact hc)
  · exact submitTicks_ok hp ht hc

theorem FlagInv.flagOk (h : FlagInv q) : FlagOk q := by
  have hfree : ∀ w, w ∉ q.workList → (q.work w).pending = false := fun w hw =>
    Bool.eq_false_iff.mpr fun hp => hw ((h.pending w).mp hp)
  refine ⟨h, fun w hw hc => ⟨_, Prod.ext rfl (submitNow_ok (hfree w hw) hc)⟩,
    fun w time hw ht hc => ?_⟩
  have hdel : ∀ p : Wq, (p.work w).pending = false → (p.work w).timer = false →
      p.workCurrent ≠ some w → ∃ q', (if (p.work w).delayed then p.submitDelayed w time
        else some (p.submitNow w)) = some (q', rtEok) := by
    intro p hp ht hc
    split
    · exact submitDelayed_ok hp ht hc
    · exact ⟨_, congrArg some (Prod.ext rfl (submitNow_ok hp hc))⟩
  unfold rtWorkqueueSubmitWork
  simp only
  split
  · exact hdel _ (by simp [hfree w hw]) (by simp [ht]) hc
  · exact hdel q (hfree w hw) ht hc

/-- A work is queued when all works are cancelled. -/
def cancelAllRun : List WqAct := [.dowork 0, .cancelAll]

end Tudu.Workqueue
