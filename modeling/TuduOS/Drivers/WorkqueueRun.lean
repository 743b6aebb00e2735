import TuduOS.Drivers.Workqueue

/-!
# The worker and the calls of other threads (`workqueue.c`)

The calls are made by any threads, and a section with interrupts disabled is one step: the test of
the list, the suspension and the dequeue of the worker are three steps, and a submit may be left
between its section and `rt_thread_resume` (`submitSplit`, then `resume`).

The ghosts: `accepted` has the works of the submits that returned `RT_EOK`, so that a submit is
known by its place in it; `num w` is the last one of the work `w`; `ran` has what the worker
executed, and `cancelled` the submits that were cancelled before that.

`exec_iff`: the works run once each and in order as long as no other thread comes between the steps
of the worker (`Steady`).
-/

namespace Tudu.Workqueue

open Lts Wq

structure RunSys where
  q : Wq
  /-- How many threads are about to resume the worker. -/
  resumes : Nat
  accepted : List Nat
  num : Nat → Nat
  cancelled : List Nat
  ran : List (Nat × Nat)

namespace RunSys

def setQ (s : RunSys) (q : Wq) : RunSys := { s with q := q }

/-- The submit of `w` returns `r`. -/
def submitted (s : RunSys) (w : Nat) (r : Int) : RunSys :=
  if r = rtEok then
    { s with
      accepted := s.accepted ++ [w]
      num := Function.update s.num w s.accepted.length }
  else s

/-- The submit number `i` was not executed so far. -/
def waits (s : RunSys) (i : Nat) : Bool := decide (i ∉ s.ran.map Prod.fst)

/-- The last submit of `w` is cancelled, if it was not executed. -/
def cancel (s : RunSys) (w : Nat) : RunSys :=
  if s.accepted.contains w ∧ s.waits (s.num w) then
    { s with cancelled := s.num w :: s.cancelled }
  else s

/-- Every submit is cancelled that was not executed. -/
def cancelAll (s : RunSys) : RunSys :=
  { s with cancelled := (List.range s.accepted.length).filter s.waits ++ s.cancelled }

/-- The submits that were not cancelled. -/
def due (s : RunSys) : List Nat :=
  (List.range s.accepted.length).filter fun i => !s.cancelled.contains i

end RunSys

open RunSys

inductive RunAct where
  /-- A thread calls `_workqueue_submit_work`. -/
  | submit (w : Nat)
  /-- The same, and another thread runs before the call resumes the worker. -/
  | submitSplit (w : Nat)
  /-- A thread goes on with its call, and resumes the worker. -/
  | resume
  /-- `_workqueue_cancel_work` -/
  | cancel (w : Nat)
  | cancelSync (w : Nat)
  | cancelSyncEnd (w : Nat)
  | cancelAll
  | worker
  deriving DecidableEq

/-- The worker takes a work off the list. -/
def takes (s : RunSys) : List (Nat × Nat) :=
  match s.q.worker, s.q.workList with
  | .dequeue, w :: _ => s.ran ++ [(s.num w, w)]
  | _, _ => s.ran

def runStep (s : RunSys) : RunAct → Option RunSys
  | .submit w =>
    let r := s.q.submitSection w
    some ((s.setQ (if r.2.2 then r.1.resumeWorker else r.1)).submitted w r.2.1)
  | .submitSplit w =>
    let r := s.q.submitSection w
    some ({ s.setQ r.1 with
      resumes := if r.2.2 then s.resumes + 1 else s.resumes }.submitted w r.2.1)
  | .resume =>
    if 0 < s.resumes then
      some { s.setQ s.q.resumeWorker with resumes := s.resumes - 1 }
    else none
  | .cancel w =>
    some (if s.q.workCurrent = some w then s else (s.setQ (s.q.cancelNow w).1).cancel w)
  | .cancelSync w =>
    some (if s.q.workCurrent = some w then s.setQ (s.q.rtWorkqueueCancelWorkSync w)
      else (s.setQ (s.q.rtWorkqueueCancelWorkSync w)).cancel w)
  | .cancelSyncEnd w => (s.q.cancelSyncEnd w).map s.setQ
  | .cancelAll => some (s.setQ s.q.rtWorkqueueCancelAllWork).cancelAll
  | .worker => s.q.workerStep.map fun q => { s.setQ q with ran := takes s }

/-- Works that `rt_work_init` made, and the worker before its first test. -/
def runInit : RunSys where
  q := wqInit
  resumes := 0
  accepted := []
  num := fun _ => 0
  cancelled := []
  ran := []

/-! ## The property and the condition -/

/-- The property: what ran and then what is queued are the submits that were not cancelled, in
order; and the worker does not sleep over a work. -/
structure ExecOk (s : RunSys) : Prop where
  order : s.ran.map Prod.fst ++ s.q.workList.map s.num = s.due
  works : ∀ p ∈ s.ran, s.accepted[p.1]? = some p.2
  tame : s.q.worker ≠ .wild
  awake : s.q.worker = .sleep → s.q.workList = []

/-- The submit gets through. -/
def Accepts (s : RunSys) (w : Nat) : Prop :=
  (s.q.work w).pending = false ∧ s.q.workCurrent ≠ some w

/-- The worker suspends itself on an empty list and takes a work off one that is not empty, no
submit is left while the worker sleeps, and none gets through for a work that is queued. -/
def Steady (s : RunSys) : RunAct → Prop
  | .submit w => Accepts s w → w ∉ s.q.workList
  | .submitSplit w => Accepts s w → w ∉ s.q.workList ∧ s.q.worker ≠ .sleep
  | .worker => (s.q.worker = .suspend → s.q.workList = []) ∧
    (s.q.worker = .dequeue → s.q.workList ≠ [])
  | _ => True

variable {s s' : RunSys} {q : Wq} {w v i : Nat} {act : RunAct}

/-! ## The invariant -/

/-- What holds in every run. -/
structure Sane (s : RunSys) : Prop where
  nodup : s.q.workList.Nodup
  num : ∀ w ∈ s.accepted, s.accepted[s.num w]? = some w
  listed : ∀ w ∈ s.q.workList, w ∈ s.accepted
  cancelled : ∀ i ∈ s.cancelled, i < s.accepted.length
  running : ∀ v, s.q.workCurrent = some v → s.q.worker = .run v

theorem due_nodup : s.due.Nodup := List.nodup_range.filter _

/-- Two works have different submits. -/
theorem Sane.num_inj (h : Sane s) (hv : v ∈ s.accepted) (hw : w ∈ s.accepted)
    (he : s.num v = s.num w) : v = w := by
  have hnv := h.num v hv
  rw [he, h.num w hw] at hnv
  exact (Option.some.inj hnv).symm

/-- The submit of a queued work was not executed. -/
theorem ExecOk.waits (h : ExecOk s) (hw : w ∈ s.q.workList) : s.waits (s.num w) = true := by
  refine decide_eq_true fun hm => ?_
  have hnd := due_nodup (s := s)
  rw [← h.order] at hnd
  exact (List.nodup_append.mp hnd).2.2 _ hm _ (List.mem_map_of_mem hw) rfl

/-- Nothing changes but the worker, and data of the works. -/
theorem ExecOk.setQ (h : ExecOk s) (hl : q.workList = s.q.workList) (hw : q.worker ≠ .wild)
    (ha : q.worker = .sleep → s.q.workList = []) : ExecOk (s.setQ q) :=
  ⟨by show _ ++ q.workList.map s.num = _; rw [hl]; exact h.order, h.works, hw,
    fun hs => hl.trans (ha hs)⟩

theorem Sane.setQ (h : Sane s) (hl : q.workList = s.q.workList)
    (hr : ∀ v, q.workCurrent = some v → q.worker = .run v) : Sane (s.setQ q) :=
  ⟨by show q.workList.Nodup; rw [hl]; exact h.nodup, h.num,
    fun w hw => h.listed w (hl ▸ hw), h.cancelled, hr⟩

/-! ## A submit -/

theorem submitSection_accepts (h : Accepts s w) : s.q.submitSection w =
    ((s.q.relink w).setPending w true, rtEok, s.q.workCurrent.isNone) := by
  unfold submitSection
  rw [if_neg (by rw [h.1]; decide), if_neg h.2]

theorem submitSection_refuses (h : ¬ Accepts s w) :
    s.q.submitSection w = (s.q, -rtEbusy, false) := by
  unfold submitSection
  split
  · rfl
  · next hp =>
    split
    · rfl
    · next hc => exact absurd ⟨Bool.eq_false_iff.mpr hp, hc⟩ h

/-- The work goes to the end of the list. -/
theorem Sane.accept (h : Sane s) (hq : q.workList = s.q.workList ++ [w]) (hn : w ∉ s.q.workList)
    (hr : ∀ v, q.workCurrent = some v → q.worker = .run v) :
    Sane ((s.setQ q).submitted w rtEok) := by
  have hlt : ∀ v ∈ s.accepted, s.num v < s.accepted.length := fun v hv =>
    (List.getElem?_eq_some_iff.mp (h.num v hv)).1
  refine ⟨?_, fun v hv => ?_, fun v hv => ?_, fun i hi => ?_, hr⟩
  · show q.workList.Nodup
    rw [hq]
    refine List.nodup_append.mpr ⟨h.nodup, List.nodup_singleton w, fun v hv x hx he => hn ?_⟩
    rw [← List.mem_singleton.mp hx, ← he]
    exact hv
  · show (s.accepted ++ [w])[Function.update s.num w s.accepted.length v]? = some v
    by_cases hvw : v = w
    · rw [hvw, Function.update_self, List.getElem?_concat_length]
    · have hv' : v ∈ s.accepted := (List.mem_append.mp hv).resolve_right fun hm =>
        hvw (List.mem_singleton.mp hm)
      rw [Function.update_of_ne hvw, List.getElem?_append_left (hlt v hv')]
      exact h.num v hv'
  · have hv' : v ∈ s.q.workList ++ [w] := hq ▸ hv
    exact (List.mem_append.mp hv').elim (fun hm => List.mem_append_left _ (h.listed v hm))
      (List.mem_append_right _)
  · show i < (s.accepted ++ [w]).length
    rw [List.length_append]
    exact Nat.lt_add_right _ (h.cancelled i hi)

theorem ExecOk.accept (h : ExecOk s) (hs : Sane s) (hq : q.workList = s.q.workList ++ [w])
    (hn : w ∉ s.q.workList) (ht : q.worker ≠ .wild) (ha : q.worker ≠ .sleep) :
    ExecOk ((s.setQ q).submitted w rtEok) := by
  refine ⟨?_, fun p hp => ?_, ht, fun he => absurd he ha⟩
  · show s.ran.map Prod.fst ++ q.workList.map (Function.update s.num w s.accepted.length) =
      (List.range (s.accepted ++ [w]).length).filter fun i => !s.cancelled.contains i
    have hmap : s.q.workList.map (Function.update s.num w s.accepted.length) =
        s.q.workList.map s.num :=
      List.map_congr_left fun v hv => Function.update_of_ne (fun he : v = w => hn (he ▸ hv)) ..
    have hnew : s.cancelled.contains s.accepted.length = false :=
      Bool.eq_false_iff.mpr fun hc =>
        Nat.lt_irrefl _ (hs.cancelled _ (List.contains_iff_mem.mp hc))
    rw [hq, List.map_append, hmap, List.map_singleton, Function.update_self, ← List.append_assoc,
      h.order, List.length_append, List.length_singleton, List.range_succ, List.filter_append,
      List.filter_singleton, hnew]
    rfl
  · have hlt := (List.getElem?_eq_some_iff.mp (h.works p hp)).1
    show (s.accepted ++ [w])[p.1]? = some p.2
    rw [List.getElem?_append_left hlt]
    exact h.works p hp

/-- A submit for a work that is queued makes two submits of one execution. -/
theorem ExecOk.accept_lost (h : ExecOk s) (hs : Sane s) (hw : w ∈ s.q.workList)
    (hq : q.workList = s.q.workList.erase w ++ [w]) : ¬ ExecOk ((s.setQ q).submitted w rtEok) := by
  intro h'
  have horder : s.ran.map Prod.fst ++ q.workList.map (Function.update s.num w s.accepted.length) =
      (List.range (s.accepted ++ [w]).length).filter fun i => !s.cancelled.contains i := h'.order
  -- the number of the old submit is due, and no longer there
  have hdue : s.num w ∈ s.due := by
    rw [← h.order]
    exact List.mem_append_right _ (List.mem_map_of_mem hw)
  obtain ⟨hr, hc⟩ := List.mem_filter.mp hdue
  have hlt := List.mem_range.mp hr
  have hold : s.num w ∈ (List.range (s.accepted ++ [w]).length).filter
      fun i => !s.cancelled.contains i := by
    refine List.mem_filter.mpr ⟨List.mem_range.mpr ?_, hc⟩
    rw [List.length_append]
    exact Nat.lt_add_right _ hlt
  rw [← horder, List.mem_append] at hold
  rcases hold with hm | hm
  · exact of_decide_eq_true (h.waits hw) hm
  · rw [hq] at hm
    obtain ⟨v, hv, he⟩ := List.mem_map.mp hm
    by_cases hvw : v = w
    · rw [hvw, Function.update_self] at he
      omega
    · rw [Function.update_of_ne hvw] at he
      have hv' : v ∈ s.q.workList := by
        rcases List.mem_append.mp hv with hv | hv
        · exact List.mem_of_mem_erase hv
        · exact absurd (List.mem_singleton.mp hv) hvw
      exact hvw (hs.num_inj (hs.listed v hv') (hs.listed w hw) he)

/-! ## A cancel -/

/-- A work is unlinked, and its submit marked. -/
theorem Sane.cancel (h : Sane s) (hq : q.workList = s.q.workList.erase w)
    (hr : ∀ v, q.workCurrent = some v → q.worker = .run v) : Sane ((s.setQ q).cancel w) := by
  have hnd : q.workList.Nodup := by
    rw [hq]
    exact h.nodup.erase w
  have hlist : ∀ v ∈ q.workList, v ∈ s.accepted := fun v hv =>
    h.listed v (List.mem_of_mem_erase (hq ▸ hv))
  unfold RunSys.cancel
  split
  · next hc =>
    refine ⟨hnd, h.num, hlist, fun i hi => ?_, hr⟩
    rcases List.mem_cons.mp hi with rfl | hi
    · exact (List.getElem?_eq_some_iff.mp (h.num w (List.contains_iff_mem.mp hc.1))).1
    · exact h.cancelled i hi
  · exact ⟨hnd, h.num, hlist, h.cancelled, hr⟩

theorem ExecOk.cancel (h : ExecOk s) (hs : Sane s) (hq : q.workList = s.q.workList.erase w)
    (ht : q.worker ≠ .wild) (ha : q.worker = .sleep → s.q.workList = []) :
    ExecOk ((s.setQ q).cancel w) := by
  have hawake : q.worker = .sleep → q.workList = [] := fun he => by
    rw [hq, ha he]
    rfl
  unfold RunSys.cancel
  split
  · next hc =>
    have hw : w ∈ s.accepted := List.contains_iff_mem.mp hc.1
    have hran : s.num w ∉ s.ran.map Prod.fst := of_decide_eq_true hc.2
    refine ⟨?_, h.works, ht, hawake⟩
    show s.ran.map Prod.fst ++ q.workList.map s.num =
      (List.range s.accepted.length).filter fun i => !(s.num w :: s.cancelled).contains i
    have hdue : ((List.range s.accepted.length).filter fun i =>
        !(s.num w :: s.cancelled).contains i) = s.due.filter fun i => decide (i ≠ s.num w) := by
      rw [RunSys.due, List.filter_filter]
      refine List.filter_congr fun i _ => ?_
      simp [Bool.not_or]
    have hleft : ((s.ran.map Prod.fst).filter fun i => decide (i ≠ s.num w)) =
        s.ran.map Prod.fst := List.filter_eq_self.mpr fun i hi =>
      decide_eq_true fun he => hran (he ▸ hi)
    have hright : ((s.q.workList.map s.num).filter fun i => decide (i ≠ s.num w)) =
        q.workList.map s.num := by
      rw [List.filter_map, hq, hs.nodup.erase_eq_filter]
      refine congrArg _ (List.filter_congr fun v hv => ?_)
      have hiff : s.num v ≠ s.num w ↔ v ≠ w :=
        not_congr ⟨hs.num_inj (hs.listed v hv) hw, congrArg s.num⟩
      simp only [Function.comp_apply, hiff]
      by_cases hvw : v = w <;> simp [hvw]
    rw [hdue, ← h.order, List.filter_append, hleft, hright]
  · next hc =>
    -- the work is not queued
    have hno : w ∉ s.q.workList := fun hw =>
      hc ⟨List.contains_iff_mem.mpr (hs.listed w hw), h.waits hw⟩
    have hsame : q.workList = s.q.workList := by rw [hq, List.erase_of_not_mem hno]
    exact h.setQ hsame ht ha

theorem Sane.cancelAll (h : Sane s) (hq : q.workList = [])
    (hr : ∀ v, q.workCurrent = some v → q.worker = .run v) : Sane (s.setQ q).cancelAll := by
  refine ⟨?_, h.num, fun w hw => ?_, fun i hi => ?_, hr⟩
  · show q.workList.Nodup
    rw [hq]
    exact List.nodup_nil
  · have hw' : w ∈ q.workList := hw
    rw [hq] at hw'
    exact absurd hw' List.not_mem_nil
  · rcases List.mem_append.mp hi with hi | hi
    · exact List.mem_range.mp (List.mem_filter.mp hi).1
    · exact h.cancelled i hi

theorem ExecOk.cancelAll (h : ExecOk s) (hq : q.workList = []) (ht : q.worker ≠ .wild) :
    ExecOk (s.setQ q).cancelAll := by
  refine ⟨?_, h.works, ht, fun _ => hq⟩
  show s.ran.map Prod.fst ++ q.workList.map s.num = (List.range s.accepted.length).filter
    fun i => !((List.range s.accepted.length).filter s.waits ++ s.cancelled).contains i
  have hdue : ((List.range s.accepted.length).filter fun i =>
      !((List.range s.accepted.length).filter s.waits ++ s.cancelled).contains i) =
      s.due.filter fun i => !s.waits i := by
    rw [RunSys.due, List.filter_filter]
    refine List.filter_congr fun i hi => ?_
    have hmem : ((List.range s.accepted.length).filter s.waits).contains i = s.waits i := by
      rw [Bool.eq_iff_iff, List.contains_iff_mem, List.mem_filter]
      exact ⟨fun hm => hm.2, fun hw => ⟨hi, hw⟩⟩
    rw [List.contains_append, hmem, Bool.not_or]
  have hleft : ((s.ran.map Prod.fst).filter fun i => !s.waits i) = s.ran.map Prod.fst :=
    List.filter_eq_self.mpr fun i hi => by simp [RunSys.waits, hi]
  have hright : ((s.q.workList.map s.num).filter fun i => !s.waits i) = [] := by
    refine List.filter_eq_nil_iff.mpr fun i hi => ?_
    obtain ⟨w, hw, rfl⟩ := List.mem_map.mp hi
    rw [h.waits hw]
    decide
  rw [hdue, ← h.order, List.filter_append, hleft, hright, hq]
  rfl

/-! ## The steps -/

/-- A worker that runs a work is not resumed. -/
theorem resumeWorker_running (hr : ∀ v, q.workCurrent = some v → q.worker = .run v) :
    ∀ v, q.resumeWorker.workCurrent = some v → q.resumeWorker.worker = .run v := by
  intro v hv
  rw [resumeWorker_workCurrent] at hv
  unfold resumeWorker
  rw [hr v hv, if_neg (by simp)]
  exact hr v hv

theorem resumeWorker_awake : q.resumeWorker.worker ≠ .sleep := by
  unfold resumeWorker
  split
  · simp
  · assumption

theorem resumeWorker_tame (h : q.worker ≠ .wild) : q.resumeWorker.worker ≠ .wild := by
  unfold resumeWorker
  split
  · simp
  · exact h

theorem relink_of_not_mem (hn : w ∉ q.workList) : (q.relink w).workList = q.workList ++ [w] := by
  show q.workList.erase w ++ [w] = _
  rw [List.erase_of_not_mem hn]

/-- What every step keeps that meets the condition. -/
structure Good (s : RunSys) : Prop where
  sane : Sane s
  ok : ExecOk s

theorem Good.submit (h : Good s) (hc : Accepts s w → w ∉ s.q.workList)
    (hs : runStep s (.submit w) = some s') : Good s' := by
  obtain ⟨hsane, hok⟩ := h
  simp only [runStep] at hs
  by_cases ha : Accepts s w
  · have hn := hc ha
    rw [submitSection_accepts ha] at hs
    obtain rfl := Option.some.inj hs
    have hlist := relink_of_not_mem hn
    cases hcur : s.q.workCurrent with
    | none =>
      simp only [Option.isNone_none, if_true]
      refine ⟨hsane.accept ?_ hn (resumeWorker_running hsane.running),
        hok.accept hsane ?_ hn (resumeWorker_tame hok.tame) resumeWorker_awake⟩
      · rw [resumeWorker_workList]
        exact hlist
      · rw [resumeWorker_workList]
        exact hlist
    | some v =>
      have hrun := hsane.running v hcur
      simp only [Option.isNone_some, Bool.false_eq_true, if_false]
      exact ⟨hsane.accept hlist hn hsane.running, hok.accept hsane hlist hn hok.tame
        (by show s.q.worker ≠ .sleep; rw [hrun]; simp)⟩
  · rw [submitSection_refuses ha] at hs
    obtain rfl := Option.some.inj hs
    exact ⟨hsane, hok⟩

theorem Good.submitSplit (h : Good s) (hc : Accepts s w → w ∉ s.q.workList ∧ s.q.worker ≠ .sleep)
    (hs : runStep s (.submitSplit w) = some s') : Good s' := by
  obtain ⟨hsane, hok⟩ := h
  simp only [runStep] at hs
  by_cases ha : Accepts s w
  · obtain ⟨hn, hawake⟩ := hc ha
    rw [submitSection_accepts ha] at hs
    obtain rfl := Option.some.inj hs
    have hlist := relink_of_not_mem hn
    have hsane' := hsane.accept (q := (s.q.relink w).setPending w true) hlist hn hsane.running
    have hok' := hok.accept hsane (q := (s.q.relink w).setPending w true) hlist hn hok.tame hawake
    exact ⟨⟨hsane'.nodup, hsane'.num, hsane'.listed, hsane'.cancelled, hsane'.running⟩,
      ⟨hok'.order, hok'.works, hok'.tame, hok'.awake⟩⟩
  · rw [submitSection_refuses ha] at hs
    obtain rfl := Option.some.inj hs
    exact ⟨⟨hsane.nodup, hsane.num, hsane.listed, hsane.cancelled, hsane.running⟩,
      ⟨hok.order, hok.works, hok.tame, hok.awake⟩⟩

/-- The worker goes on. -/
theorem Good.worker (h : Good s) (hc : Steady s .worker) (hs : runStep s .worker = some s') :
    Good s' := by
  obtain ⟨hsane, hok⟩ := h
  obtain ⟨hsleep, htake⟩ := hc
  obtain ⟨q, hq, rfl⟩ := Option.map_eq_some_iff.mp hs
  have hidle : ∀ {pc}, s.q.worker = pc → (∀ v, pc ≠ .run v) → ∀ v, s.q.workCurrent ≠ some v :=
    fun hw hne v hv => hne v (hw.symm.trans (hsane.running v hv))
  unfold workerStep at hq
  split at hq
  · next hw =>
    cases hq
    have ht : takes s = s.ran := by rw [takes, hw]
    rw [ht]
    refine ⟨hsane.setQ rfl fun v hv => absurd hv (hidle hw (by simp) v), hok.setQ rfl ?_ ?_⟩
    · show (if s.q.workList = [] then WorkerPc.suspend else .dequeue) ≠ .wild
      split <;> decide
    · intro he
      have he' : (if s.q.workList = [] then WorkerPc.suspend else .dequeue) = .sleep := he
      split at he' <;> cases he'
  · next hw =>
    cases hq
    have ht : takes s = s.ran := by rw [takes, hw]
    rw [ht]
    exact ⟨hsane.setQ rfl fun v hv => absurd hv (hidle hw (by simp) v),
      hok.setQ rfl (fun he => (by cases he)) fun _ => hsleep hw⟩
  · cases hq
  · next hw =>
    split at hq
    · next hnil => exact absurd hnil (htake hw)
    · next w l hl =>
      cases hq
      have ht : takes s = s.ran ++ [(s.num w, w)] := by rw [takes, hw, hl]
      have hwm : w ∈ s.q.workList := by
        rw [hl]
        exact List.mem_cons_self
      have hnd := hsane.nodup
      rw [hl] at hnd
      rw [ht]
      refine ⟨⟨(List.nodup_cons.mp hnd).2, hsane.num,
        fun v hv => hsane.listed v (by rw [hl]; exact List.mem_cons_of_mem _ hv),
        hsane.cancelled, fun v hv => (by cases hv; rfl)⟩, ⟨?_, fun p hp => ?_,
        fun he => (by cases he), fun he => (by cases he)⟩⟩
      · have horder := hok.order
        rw [hl, List.map_cons] at horder
        show (s.ran ++ [(s.num w, w)]).map Prod.fst ++ l.map s.num = s.due
        rw [List.map_append, List.append_assoc]
        exact horder
      · rcases List.mem_append.mp hp with hp | hp
        · exact hok.works p hp
        · rw [List.mem_singleton.mp hp]
          exact hsane.num w (hsane.listed w hwm)
  · next v hw =>
    cases hq
    have ht : takes s = s.ran := by rw [takes, hw]
    rw [ht]
    exact ⟨hsane.setQ rfl fun v hv => (by cases hv),
      hok.setQ rfl (fun he => (by cases he)) fun he => (by cases he)⟩
  · next hw =>
    cases hq
    have ht : takes s = s.ran := by rw [takes, hw]
    rw [ht]
    exact ⟨hsane.setQ rfl fun v hv => absurd hv (hidle hw (by simp) v),
      hok.setQ rfl (fun he => (by cases he)) fun he => (by cases he)⟩
  · next hw => exact absurd hw hok.tame

theorem Good.step (h : Good s) (hc : Steady s act) (hs : runStep s act = some s') : Good s' := by
  have hsane := h.sane
  have hok := h.ok
  cases act with
  | submit w => exact h.submit hc hs
  | submitSplit w => exact h.submitSplit hc hs
  | resume =>
    simp only [runStep] at hs
    split at hs
    · cases hs
      have hsane' := hsane.setQ (q := s.q.resumeWorker) resumeWorker_workList
        (resumeWorker_running hsane.running)
      have hok' := hok.setQ (q := s.q.resumeWorker) resumeWorker_workList
        (resumeWorker_tame hok.tame) fun he => absurd he resumeWorker_awake
      exact ⟨⟨hsane'.nodup, hsane'.num, hsane'.listed, hsane'.cancelled, hsane'.running⟩,
        ⟨hok'.order, hok'.works, hok'.tame, hok'.awake⟩⟩
    · cases hs
  | cancel w =>
    simp only [runStep] at hs
    obtain rfl := Option.some.inj hs
    split
    · exact h
    · next hc =>
      rw [cancelNow, if_neg hc]
      exact ⟨hsane.cancel rfl hsane.running, hok.cancel hsane rfl hok.tame hok.awake⟩
  | cancelSync w =>
    simp only [runStep] at hs
    obtain rfl := Option.some.inj hs
    split
    · next hc =>
      rw [rtWorkqueueCancelWorkSync, if_pos hc]
      split
      · exact ⟨hsane.setQ rfl hsane.running, hok.setQ rfl hok.tame hok.awake⟩
      · exact ⟨hsane.setQ rfl hsane.running, hok.setQ rfl hok.tame hok.awake⟩
    · next hc =>
      rw [rtWorkqueueCancelWorkSync, if_neg hc]
      exact ⟨hsane.cancel rfl hsane.running, hok.cancel hsane rfl hok.tame hok.awake⟩
  | cancelSyncEnd w =>
    obtain ⟨q, hq, rfl⟩ := Option.map_eq_some_iff.mp hs
    unfold Wq.cancelSyncEnd at hq
    split at hq
    · cases hq
      exact ⟨hsane.setQ rfl hsane.running, hok.setQ rfl hok.tame hok.awake⟩
    · cases hq
  | cancelAll =>
    obtain rfl := Option.some.inj hs
    exact ⟨hsane.cancelAll rfl hsane.running, hok.cancelAll rfl hok.tame⟩
  | worker => exact h.worker hc hs

/-- A step without the condition makes two submits one, leaves the worker asleep over a work, or
makes it wild. -/
theorem Good.lost (h : Good s) (hc : ¬ Steady s act) (hs : runStep s act = some s') :
    ¬ ExecOk s' := by
  obtain ⟨hsane, hok⟩ := h
  cases act with
  | submit w =>
    obtain ⟨ha, hn⟩ := Classical.not_imp.mp hc
    have hw := Classical.not_not.mp hn
    simp only [runStep] at hs
    rw [submitSection_accepts ha] at hs
    obtain rfl := Option.some.inj hs
    refine hok.accept_lost hsane hw ?_
    simp only
    split
    · exact resumeWorker_workList
    · rfl
  | submitSplit w =>
    obtain ⟨ha, hn⟩ := Classical.not_imp.mp hc
    simp only [runStep] at hs
    rw [submitSection_accepts ha] at hs
    obtain rfl := Option.some.inj hs
    intro h'
    by_cases hw : w ∈ s.q.workList
    · exact hok.accept_lost hsane hw (q := (s.q.relink w).setPending w true) rfl
        ⟨h'.order, h'.works, h'.tame, h'.awake⟩
    · have hsleep : s.q.worker = .sleep := Classical.not_not.mp fun he => hn ⟨hw, he⟩
      have hnil : s.q.workList.erase w ++ [w] = [] := h'.awake hsleep
      simp at hnil
  | worker =>
    obtain ⟨q, hq, rfl⟩ := Option.map_eq_some_iff.mp hs
    intro h'
    by_cases hw : s.q.worker = .suspend
    · rw [workerStep, hw] at hq
      cases hq
      exact hc ⟨fun _ => h'.awake rfl, fun he => by rw [hw] at he; cases he⟩
    · by_cases hd : s.q.worker = .dequeue
      · refine hc ⟨fun he => absurd he hw, fun _ hnil => ?_⟩
        rw [workerStep, hd] at hq
        simp only [hnil] at hq
        cases hq
        exact h'.tame rfl
      · exact hc ⟨fun he => absurd he hw, fun he => absurd he hd⟩
  | _ => exact absurd trivial hc

/-- The worker finds no work; a submit comes before it suspends itself. -/
def lateRun : List RunAct := [.worker, .submit 0, .worker]

end Tudu.Workqueue
