import TuduOS.Kernel.ReadyQueue

/-!
# `rt_thread_yield`

`rt_thread_yield` is `rt_schedule`, which keeps the running thread among those of its priority
unless its mark `RT_THREAD_STAT_YIELD` is set; and only the end of a time slice sets that.

* `Stays` and `Moves`: the two ends of a `rt_schedule`.
* `yield_iff`: the thread makes room for the first one of its priority iff its mark is set.
-/

namespace Tudu.Sched

open Circular Lts RtSched

/-- `rt_thread_yield` -/
def RtSched.rtThreadYield (s : RtSched) : Option RtSched := s.rtSchedule

/-- A `rt_schedule` that leaves the CPU to the current thread `c`. -/
structure Stays (s : RtSched) (c : Nat) (s' : RtSched) : Prop where
  current : s'.current = some c
  thread : ∀ v, s'.thread v = s.thread v
  /-- With the scheduler unlocked no ready thread is to go first. -/
  first : s.lockNest = 0 → (s.thread c).stat = .running → ∀ v, (s.thread v).stat = .ready →
    (s.thread c).currentPriority < (s.thread v).currentPriority ∨
      (s.thread c).currentPriority ≤ (s.thread v).currentPriority ∧ (s.thread c).yield = false

/-- A `rt_schedule` that moves the CPU from the current thread `c` to `u`. -/
structure Moves (s : RtSched) (c u : Nat) (s' : RtSched) : Prop where
  current : s'.current = some u
  other : u ≠ c
  /-- `u` is the first ready thread of the highest priority. -/
  ready : (s.thread u).stat = .ready
  highest : ∀ v, (s.thread v).stat = .ready →
    (s.thread u).currentPriority ≤ (s.thread v).currentPriority
  first : s.links.next (.head (.ready (s.thread u).currentPriority)) = .item u
  thread : ∀ v, s'.thread v =
    if v = u then { s.thread u with stat := .running }
    else if v = c ∧ (s.thread c).stat = .running then
      { s.thread c with yield := false, stat := .ready }
    else s.thread v
  /-- A running thread makes room for one above it, or for one of its priority if it is marked. -/
  room : (s.thread c).stat = .running →
    (s.thread u).currentPriority < (s.thread c).currentPriority ∨
      (s.thread u).currentPriority = (s.thread c).currentPriority ∧ (s.thread c).yield = true
  /-- It goes to the end of its list. -/
  tail : (s.thread c).stat = .running →
    s'.links.prev (.head (.ready (s.thread c).currentPriority)) = .item c

variable {s s' : RtSched} {c t u v p : Nat}

theorem setStat_self {x : Stat} (h : (s.thread c).stat = x) (v : Nat) :
    (s.setStat c x).thread v = s.thread v := by
  rw [setStat, setThread_thread]
  split
  · next hv =>
    subst hv
    rw [← h]
  · rfl

/-- What one `rt_schedule` does. -/
theorem Inv.schedule_cases (h : Inv s) (hc : s.current = some c) (hs : s.rtSchedule = some s') :
    Stays s c s' ∨ ∃ u, Moves s c u s' := by
  unfold rtSchedule at hs
  split at hs
  · obtain ⟨s1, hs1, rfl⟩ := Option.map_eq_some_iff.mp hs
    rcases switchThread_cases h hs1 with ⟨rfl, hno⟩ | ⟨c', u, hc', huc, hu, hhigh, hfirst, hend⟩
    · exact .inl ⟨hc, fun _ => rfl, fun _ _ v hv => absurd hv (hno v)⟩
    · obtain rfl := Option.some.inj (hc.symm.trans hc')
      rcases hend with ⟨rfl, hrun, hle⟩ | ⟨rfl, hrun, hle⟩ | ⟨rfl, hrun⟩
      · refine .inl ⟨?_, fun v => ?_, fun _ _ v hv => ?_⟩
        · simp only [switchTo, ne_eq, not_true_eq_false, if_false]
          exact hc
        · simp only [switchTo, ne_eq, not_true_eq_false, if_false]
          exact setStat_self (s := s.rtScheduleRemoveThread c) hrun v
        · rcases hle with hlt | ⟨heq, hy⟩
          · exact .inl (Nat.lt_of_lt_of_le hlt (hhigh v hv))
          · refine .inr ⟨?_, hy⟩
            rw [heq]
            exact hhigh v hv
      · obtain ⟨R, hR⟩ := h.repr
        have hle' : (s.thread u).currentPriority ≤ (s.thread c).currentPriority :=
          hle.elim Nat.le_of_lt fun he => Nat.le_of_eq he.1
        have hsw := hR.switchRunning hrun (h.current.mask c hc) hu huc
          (fun v hv hst => hv (Option.some.inj ((h.current.running v hst).symm.trans hc)))
          hle' hhigh
        refine .inr ⟨u, ?_, huc, hu, hhigh, hfirst, fun v => ?_, fun _ => hle, fun _ => hsw.2⟩
        · simp only [switchTo, ne_eq, huc, not_false_eq_true, if_true]
          unfold rtScheduleInsertThread
          rw [if_neg fun e => huc (Option.some.inj e)]
          rfl
        · show ((s.setThread c _).switchTo c u true).thread v = _
          rw [switchTo_thread huc]
          simp only [hrun, and_true]
      · refine .inr ⟨u, ?_, huc, hu, hhigh, hfirst, fun v => ?_, fun he => absurd he hrun,
          fun he => absurd he hrun⟩
        · simp only [switchTo, ne_eq, huc, not_false_eq_true, if_true]
          rfl
        · simp only [switchTo, ne_eq, huc, not_false_eq_true, if_true, Bool.false_eq_true, if_false,
            hrun, and_false]
          exact setThread_thread
  · next hl =>
    cases hs
    exact .inl ⟨hc, fun _ => rfl, fun h0 => absurd h0 hl⟩

/-- The thread `t` has yielded: the first thread of its list runs, and it is at the end of the
list. -/
structure Yielded (s : RtSched) (t : Nat) (s' : RtSched) : Prop where
  first : ∃ u, s.links.next (.head (.ready (s.thread t).currentPriority)) = .item u ∧
    s'.current = some u ∧ (s'.thread u).stat = .running
  ready : (s'.thread t).stat = .ready
  tail : s'.links.prev (.head (.ready (s.thread t).currentPriority)) = .item t

theorem Inv.yielded_iff (h : Inv s) (ht : s.current = some t) (hrun : (s.thread t).stat = .running)
    (hlock : s.lockNest = 0)
    (hpeer : ∃ u, (s.thread u).stat = .ready ∧
      (s.thread u).currentPriority = (s.thread t).currentPriority)
    (htop : ∀ u, (s.thread u).stat = .ready →
      (s.thread t).currentPriority ≤ (s.thread u).currentPriority) :
    ∃ s', s.rtThreadYield = some s' ∧ (Yielded s t s' ↔ (s.thread t).yield = true) := by
  obtain ⟨s', hs⟩ := Option.isSome_iff_exists.mp
    (h.schedule_isSome (by rw [ht]; exact Option.some_ne_none t))
  obtain ⟨w, hw, hwp⟩ := hpeer
  refine ⟨s', hs, ?_⟩
  rcases h.schedule_cases ht hs with hstay | ⟨u, hmove⟩
  · -- the thread goes on: it is not marked, and not ready
    refine iff_of_false (fun hy => ?_) fun hy => ?_
    · have hr := hy.ready
      rw [hstay.thread, hrun] at hr
      cases hr
    · rcases hstay.first hlock hrun w hw with hlt | ⟨-, hn⟩
      · omega
      · rw [hy] at hn
        cases hn
  · have heq : (s.thread u).currentPriority = (s.thread t).currentPriority := by
      have h1 := hmove.highest w hw
      have h2 := htop u hmove.ready
      omega
    have hy : (s.thread t).yield = true := by
      rcases hmove.room hrun with hlt | ⟨-, hy⟩
      · omega
      · exact hy
    refine iff_of_true ⟨⟨u, ?_, hmove.current, ?_⟩, ?_, hmove.tail hrun⟩ hy
    · rw [← heq]
      exact hmove.first
    · rw [hmove.thread, if_pos rfl]
    · rw [hmove.thread, if_neg (Ne.symm hmove.other), if_pos ⟨rfl, hrun⟩]

/-- **A yield needs the mark.** In every reachable state, a running thread with a ready thread of
its priority and none above it makes room by `rt_thread_yield` iff its mark is set. -/
theorem yield_iff (priority tick : Nat → Nat) (isSystem cleanup : Nat → Bool)
    (hp : ∀ t, priority t < 32) (acts : List SchedAct)
    (ha : ∀ t p, SchedAct.changePriority t p ∈ acts → p < 32) (s : RtSched)
    (hx : exec schedStep (schedInit priority tick isSystem cleanup) acts = some s) (t : Nat)
    (ht : s.current = some t) (hrun : (s.thread t).stat = .running) (hlock : s.lockNest = 0)
    (hpeer : ∃ u, (s.thread u).stat = .ready ∧
      (s.thread u).currentPriority = (s.thread t).currentPriority)
    (htop : ∀ u, (s.thread u).stat = .ready →
      (s.thread t).currentPriority ≤ (s.thread u).currentPriority) :
    ∃ s', s.rtThreadYield = some s' ∧ (Yielded s t s' ↔ (s.thread t).yield = true) :=
  (reachable_inv hp ha hx).yielded_iff ht hrun hlock hpeer htop

/-- Every ready thread has a priority of the bitmap. -/
theorem Inv.ready_bit (h : Inv s) (hu : (s.thread u).stat = .ready) :
    s.group.getLsbD (s.thread u).currentPriority = true := by
  obtain ⟨R, hR⟩ := h.repr
  exact (hR.bit _).mpr (List.ne_nil_of_mem ((hR.ready u _).mpr ⟨hu, rfl⟩))

/-- Where the bitmap has one bit, no ready thread is above it. -/
theorem Inv.ready_priority (h : Inv s) (hg : s.group = priorityMask p) (hp : p < 32)
    (hu : (s.thread u).stat = .ready) : (s.thread u).currentPriority = p := by
  have hb := h.ready_bit hu
  rw [hg, priorityMask_bit hp] at hb
  exact of_decide_eq_true hb

/-- Two threads of one priority. The slice of thread 0 ends while 1 is suspended. -/
def markedRun : List SchedAct :=
  [.startup 0, .startup 1, .start, .suspend 1, .tick [], .resume 1]

/-- Two threads of one priority. -/
def plainRun : List SchedAct := [.startup 0, .startup 1, .start]

/-- Threads of priority 10 and a slice of one tick. -/
def equalThreads : RtSched := schedInit (fun _ => 10) (fun _ => 1) (fun _ => false) fun _ => false

/-- Thread 0 is running, and the ready threads, thread 1 among them, have its priority. -/
def TwoEqual (s : RtSched) : Prop :=
  s.current = some 0 ∧ s.lockNest = 0 ∧ s.group = priorityMask 10 ∧
    (s.thread 0).stat = .running ∧ (s.thread 0).currentPriority = 10 ∧
    (s.thread 1).stat = .ready ∧ (s.thread 1).currentPriority = 10

instance (s : RtSched) : Decidable (TwoEqual s) :=
  inferInstanceAs (Decidable (_ ∧ _ ∧ _ ∧ _ ∧ _ ∧ _ ∧ _))

theorem yield_iff_marked : ∃ s, exec schedStep equalThreads markedRun = some s ∧
    (s.thread 0).yield = true ∧
    ∃ s', s.rtThreadYield = some s' ∧ (Yielded s 0 s' ↔ (s.thread 0).yield = true) := by
  have hrun : (exec schedStep equalThreads markedRun).map
      (fun s => (decide (TwoEqual s), (s.thread 0).yield)) = some (true, true) := by
    decide +kernel
  obtain ⟨s, hx, hs⟩ := Option.map_eq_some_iff.mp hrun
  simp only [Prod.mk.injEq, decide_eq_true_eq] at hs
  obtain ⟨⟨hc, hl, hg, hr, hp, hr', hp'⟩, hy⟩ := hs
  have ha : ∀ t p, SchedAct.changePriority t p ∈ markedRun → p < 32 := fun t p hm => by
    simp [markedRun] at hm
  refine ⟨s, hx, hy, yield_iff _ _ _ _ (fun _ => by decide) markedRun ha s hx 0 hc hr hl
    ⟨1, hr', by rw [hp, hp']⟩ fun u hu => ?_⟩
  rw [(reachable_inv (fun _ => by decide) ha hx).ready_priority hg (by decide) hu, hp]

/-- Thread 0 yields, and goes on before thread 1. -/
theorem yield_keeps : ∃ s s', exec schedStep equalThreads plainRun = some s ∧
    s.current = some 0 ∧ (s.thread 0).stat = .running ∧ s.lockNest = 0 ∧
    (s.thread 1).stat = .ready ∧
    (s.thread 1).currentPriority = (s.thread 0).currentPriority ∧
    (∀ u, (s.thread u).stat = .ready →
      (s.thread 0).currentPriority ≤ (s.thread u).currentPriority) ∧
    s.rtThreadYield = some s' ∧ s'.current = some 0 ∧ ¬ Yielded s 0 s' := by
  have hrun : (exec schedStep equalThreads plainRun).map
      (fun s => (decide (TwoEqual s), (s.thread 0).yield, s.rtThreadYield.bind RtSched.current)) =
      some (true, false, some 0) := by
    decide +kernel
  obtain ⟨s, hx, hs⟩ := Option.map_eq_some_iff.mp hrun
  simp only [Prod.mk.injEq, decide_eq_true_eq] at hs
  obtain ⟨⟨hc, hl, hg, hr, hp, hr', hp'⟩, hy, hs'⟩ := hs
  have h : Inv s := reachable_inv (fun _ => by decide) (fun t p hm => by simp [plainRun] at hm) hx
  have htop : ∀ u, (s.thread u).stat = .ready →
      (s.thread 0).currentPriority ≤ (s.thread u).currentPriority := fun u hu => by
    rw [h.ready_priority hg (by decide) hu, hp]
  obtain ⟨s', he, hiff⟩ := h.yielded_iff hc hr hl ⟨1, hr', by rw [hp, hp']⟩ htop
  refine ⟨s, s', hx, hc, hr, hl, hr', by rw [hp, hp'], htop, he, ?_, fun hn => ?_⟩
  · rw [he] at hs'
    exact hs'
  · rw [hiff.mp hn] at hy
    cases hy

end Tudu.Sched
