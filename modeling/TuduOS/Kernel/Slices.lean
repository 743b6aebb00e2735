import TuduOS.Kernel.Yield

/-!
# The time slices

A tick with expired timers calls `rt_schedule` several times; `atoms` takes an operation apart into
pieces with one call at most. The ghosts of `Slices` say, for the time since a thread was last
switched to, whether its slice has ended, and whether it had a mark at that moment.

* `Same`: the marks and the slices that an operation leaves alone.
* `Inv.split`: what an operation does before its `rt_schedule`.
* `slices`: which threads give the CPU to others, and with which slice they go on.
-/

namespace Tudu.Sched

open Circular Lts RtSched

structure Slices where
  sched : RtSched
  /-- The slice has ended since the thread was last switched to. -/
  ended : Nat → Bool
  /-- The thread had the mark `RT_THREAD_STAT_YIELD` when it was last switched to. -/
  stale : Nat → Bool

/-- The action is a tick that ends the slice of `t`. -/
def endsSlice (s : RtSched) (t : Nat) : SchedAct → Bool
  | .tick _ => decide (s.current = some t ∧
      ((s.thread t).remainingTick + (2 ^ 32 - 1)) % 2 ^ 32 = 0)
  | _ => false

/-- The CPU is switched to `t`. -/
def switched (s s' : RtSched) (t : Nat) : Bool :=
  decide (s'.current = some t ∧ s.current ≠ some t)

def sliceStep (f : Slices) (act : SchedAct) : Option Slices :=
  (schedStep f.sched act).map fun s' =>
    { sched := s'
      ended := fun t => (f.ended t || endsSlice f.sched t act) && !switched f.sched s' t
      stale := fun t => if switched f.sched s' t then (s'.thread t).yield else f.stale t }

/-- The pieces of an operation that call `rt_schedule` once at most. -/
def atoms : SchedAct → List SchedAct
  | .tick expired => .tick [] :: expired.map .timeout
  | act => [act]

def sliceInit (priority tick : Nat → Nat) (isSystem cleanup : Nat → Bool) : Slices :=
  ⟨schedInit priority tick isSystem cleanup, fun _ => false, fun _ => false⟩

/-- A `rt_schedule` between `s` and `s'` has given the CPU of the running thread `t` to `u`. -/
structure Gives (s s' : RtSched) (t u : Nat) : Prop where
  before : s.current = some t
  after : s'.current = some u
  other : u ≠ t
  ready : (s'.thread t).stat = .ready

variable {s s' s1 : RtSched} {f f' : Slices} {c t u v p : Nat} {x : RtThread}
  {act : SchedAct} {acts : List SchedAct}

/-! ## The pieces -/

theorem exec_timeouts (l : List Nat) (s : RtSched) :
    exec schedStep s (l.map .timeout) = l.foldlM expire s := by
  induction l generalizing s with
  | nil => rfl
  | cons t l ih =>
    rw [List.map_cons, List.foldlM_cons, exec_cons_bind]
    exact congrArg _ (funext ih)

theorem exec_atoms_one (s : RtSched) (act : SchedAct) :
    exec schedStep s (atoms act) = schedStep s act := by
  have hone : ∀ act, exec schedStep s [act] = schedStep s act := fun act => by
    rw [exec_cons_bind]
    exact Option.bind_fun_some _
  cases act
  case tick expired =>
    show exec schedStep s (.tick [] :: expired.map .timeout) = s.rtTickIncrease expired
    rw [exec_cons_bind]
    show (s.rtTickIncrease []).bind _ = _
    unfold rtTickIncrease
    split
    · rfl
    · simp only [exec_timeouts, List.foldlM_nil, Option.bind_assoc]
      rfl
  all_goals exact hone _

/-- A run is the run of its pieces. -/
theorem exec_atoms (acts : List SchedAct) (s : RtSched) :
    exec schedStep s (acts.flatMap atoms) = exec schedStep s acts := by
  induction acts generalizing s with
  | nil => rfl
  | cons act acts ih =>
    rw [List.flatMap_cons, exec_append_bind, exec_atoms_one, exec_cons_bind]
    exact congrArg _ (funext ih)

/-- The ghosts leave the run as it is. -/
theorem exec_sliceStep (acts : List SchedAct) (f : Slices) :
    (exec sliceStep f acts).map Slices.sched = exec schedStep f.sched acts := by
  induction acts generalizing f with
  | nil => rfl
  | cons act acts ih =>
    rw [exec_cons_bind, exec_cons_bind]
    unfold sliceStep
    cases schedStep f.sched act with
    | none => rfl
    | some s' => exact ih _

theorem tick_of_mem_atoms {l : List Nat} (h : SchedAct.tick l ∈ atoms act) : l = [] := by
  cases act <;> simp [atoms] at h
  exact h

/-! ## What an operation leaves alone -/

/-- No mark is set, the slices go on as they are, and so does the current thread. -/
structure Same (s s' : RtSched) : Prop where
  current : s'.current = s.current
  mark : ∀ t, (s'.thread t).yield = true → (s.thread t).yield = true
  remaining : ∀ t, (s'.thread t).remainingTick = (s.thread t).remainingTick

namespace Same

theorem refl (s : RtSched) : Same s s := ⟨rfl, fun _ h => h, fun _ => rfl⟩

theorem trans (h : Same s s1) (h' : Same s1 s') : Same s s' :=
  ⟨h'.current.trans h.current, fun t ht => h.mark t (h'.mark t ht),
    fun t => (h'.remaining t).trans (h.remaining t)⟩

theorem of_eq (hc : s'.current = s.current) (ht : s'.thread = s.thread) : Same s s' := by
  refine ⟨hc, fun t h => ?_, fun t => ?_⟩
  · rw [ht] at h
    exact h
  · rw [ht]

theorem setThread (hy : x.yield = true → (s.thread t).yield = true)
    (hr : x.remainingTick = (s.thread t).remainingTick) : Same s (s.setThread t x) := by
  refine ⟨rfl, fun u hu => ?_, fun u => ?_⟩
  · rw [setThread_thread] at hu
    split at hu
    · next hut =>
      rw [hut]
      exact hy hu
    · exact hu
  · rw [setThread_thread]
    split
    · next hut =>
      rw [hut]
      exact hr
    · rfl

theorem remove (s : RtSched) (t : Nat) : Same s (s.rtScheduleRemoveThread t) := of_eq rfl rfl

theorem insert (s : RtSched) (t : Nat) : Same s (s.rtScheduleInsertThread t) := by
  have hset : ∀ y, Same s (s.setStat t y) := fun y => setThread (fun h => h) rfl
  unfold rtScheduleInsertThread
  split
  · exact hset .running
  · exact (hset .ready).trans (of_eq rfl rfl)

theorem resume (s : RtSched) (t : Nat) : Same s (s.rtThreadResume t) := by
  unfold rtThreadResume
  split
  · have hset : Same (s.unlink t) ((s.unlink t).setTimer t false) := setThread (fun h => h) rfl
    exact ((of_eq rfl rfl : Same s (s.unlink t)).trans hset).trans (insert _ t)
  · exact refl s

theorem suspend (h : s.rtThreadSuspend t = some s') : Same s s' := by
  simp only [rtThreadSuspend] at h
  split at h
  · split at h
    · cases h
    · cases h
      exact (remove s t).trans (setThread (fun h => h) rfl)
  · cases h
    exact refl s

theorem changePriority (s : RtSched) (t p : Nat) : Same s (s.changePriority t p) := by
  unfold RtSched.changePriority
  split
  · have hset : Same (s.rtScheduleRemoveThread t) ((s.rtScheduleRemoveThread t).setPriority t p) :=
      setThread (fun h => h) rfl
    exact ((remove s t).trans hset).trans (insert _ t)
  · exact setThread (fun h => h) rfl

theorem close (s : RtSched) (t : Nat) : Same s ((s.rtScheduleRemoveThread t).setClose t) :=
  (remove s t).trans (setThread (fun h => by cases h) rfl)

/-- `rt_thread_detach` and `rt_thread_delete` of a thread that is not closed. -/
theorem close_or (s : RtSched) (t : Nat) :
    Same s ((if (s.thread t).stat ≠ .init then s.rtScheduleRemoveThread t else s).setClose t) := by
  split
  · exact close s t
  · exact setThread (fun h => by cases h) rfl

theorem toDefunct (h : Same s s') (t : Nat) : Same s (s'.toDefunct t) := h.trans (of_eq rfl rfl)

theorem detach (h : s.rtThreadDetach t = some s') : Same s s' := by
  simp only [rtThreadDetach] at h
  split at h
  · cases h
  · split at h
    · cases h
      exact refl s
    · cases h
      split
      · exact close_or s t
      · exact (close_or s t).toDefunct t

theorem delete (h : s.rtThreadDelete t = some s') : Same s s' := by
  simp only [rtThreadDelete] at h
  split at h
  · cases h
  · split at h
    · cases h
      exact refl s
    · cases h
      exact (close_or s t).toDefunct t

theorem ipcSuspend {q flag rounds : Nat} (h : s.rtIpcListSuspend q flag rounds = some s') :
    Same s s' := by
  unfold rtIpcListSuspend at h
  split at h
  · cases h
  · split at h
    · obtain ⟨s1, h1, h2⟩ := Option.bind_eq_some_iff.mp h
      refine (suspend h1).trans ?_
      split at h2
      · cases h2
        exact of_eq rfl rfl
      · split at h2
        · obtain ⟨n, -, rfl⟩ := Option.map_eq_some_iff.mp h2
          exact of_eq rfl rfl
        · cases h2
          exact refl _
    · cases h

end Same

/-! ## Before `rt_schedule` -/

/-- An operation comes to `s1` and ends there, or with a `rt_schedule`. -/
def Ends (s1 s' : RtSched) : Prop := s' = s1 ∨ s1.rtSchedule = some s'

theorem Inv.exitCritical_split (h : Inv s) (hs : s.rtExitCritical = some s') :
    ∃ s1, Inv s1 ∧ Same s s1 ∧ Ends s1 s' := by
  simp only [rtExitCritical] at hs
  split at hs
  · refine ⟨_, h.setNest 0, .of_eq rfl rfl, ?_⟩
    split at hs
    · exact .inl (Option.some.inj hs).symm
    · exact .inr hs
  · exact ⟨_, h.setNest ((s.lockNest - 1).bmod (2 ^ 16)), .of_eq rfl rfl,
      .inl (Option.some.inj hs).symm⟩

/-- What an operation but a tick does before its `rt_schedule`. -/
theorem Inv.split (h : Inv s) (hc : s.current = some c) (ha : ∀ l, act ≠ .tick l)
    (hp : ∀ t p, act = .changePriority t p → p < 32) (hs : schedStep s act = some s') :
    ∃ s1, Inv s1 ∧ Same s s1 ∧ Ends s1 s' := by
  have hnone : ¬ s.current = none := by
    rw [hc]
    exact Option.some_ne_none c
  cases act with
  | start =>
    simp only [schedStep, rtSystemSchedulerStart, hc] at hs
    cases hs
  | startup t =>
    simp only [schedStep, rtThreadStartup] at hs
    split at hs
    · next hst =>
      refine ⟨_, h.ready hst, Same.trans ?_ (Same.resume _ t), ?_⟩
      · exact Same.setThread (fun hy => by cases hy) rfl
      split at hs
      · exact .inl (Option.some.inj hs).symm
      · exact .inr hs
    · cases hs
  | suspend t => exact ⟨s', h.suspend hs, Same.suspend hs, .inl rfl⟩
  | resume t => exact ⟨_, h.resume t, Same.resume s t, .inl (Option.some.inj hs).symm⟩
  | sleep =>
    simp only [schedStep, rtThreadSleep, hc] at hs
    obtain ⟨s1, h1, h2⟩ := Option.bind_eq_some_iff.mp hs
    exact ⟨_, (h.suspend h1).setTimer c true,
      (Same.suspend h1).trans (Same.setThread (fun hy => hy) rfl), .inr h2⟩
  | timeout t =>
    simp only [schedStep, RtSched.expire] at hs
    split at hs
    · unfold rtThreadTimeout at hs
      split at hs
      · next hst =>
        have hset : Same s (s.setTimer t false) := Same.setThread (fun hy => hy) rfl
        have hun : Same (s.setTimer t false) ((s.setTimer t false).unlink t) := Same.of_eq rfl rfl
        exact ⟨_, (h.setTimer t false).wake hst,
          (hset.trans hun).trans (Same.insert _ t), .inr hs⟩
      · cases hs
    · cases hs
  | changePriority t p =>
    exact ⟨_, h.changePriority t (hp t p rfl), Same.changePriority s t p,
      .inl (Option.some.inj hs).symm⟩
  | exit =>
    simp only [schedStep, rtThreadExit, hc] at hs
    obtain ⟨h1, h2⟩ := h.close (h.current.mask c hc)
    refine ⟨_, ?_, ?_, .inr hs⟩
    · split
      · exact h1
      · exact h2
    · split
      · exact Same.close s c
      · exact (Same.close s c).toDefunct c
  | detach t => exact ⟨s', h.detach hs, Same.detach hs, .inl rfl⟩
  | delete t => exact ⟨s', h.delete hs, Same.delete hs, .inl rfl⟩
  | tick l => exact absurd rfl (ha l)
  | schedule => exact ⟨s, h, Same.refl s, .inr hs⟩
  | enterCritical =>
    exact ⟨_, h.setNest ((s.lockNest + 1).bmod (2 ^ 16)), Same.of_eq rfl rfl,
      .inl (Option.some.inj hs).symm⟩
  | exitCritical => exact h.exitCritical_split hs
  | ipcSuspend q flag rounds => exact ⟨s', h.ipcSuspend hs, Same.ipcSuspend hs, .inl rfl⟩
  | idle =>
    simp only [schedStep, rtThreadIdleExcute] at hs
    split at hs
    · next t ht =>
      obtain ⟨s1, h1, hsame, hend⟩ := ((h.unlinkDefunct ht).setNest _).exitCritical_split hs
      refine ⟨s1, h1, Same.trans ?_ hsame, hend⟩
      exact Same.of_eq rfl rfl
    · exact ⟨s, h, Same.refl s, .inl (Option.some.inj hs).symm⟩

/-- The first part of a tick. -/
theorem Inv.tick_split (h : Inv s) (hc : s.current = some c)
    (hs : s.rtTickIncrease [] = some s') : ∃ s1, Inv s1 ∧ s1.current = s.current ∧
      (∀ t, (s1.thread t).yield = true → (s.thread t).yield = true ∨
        endsSlice s t (.tick []) = true) ∧
      (∀ t, t ≠ c → (s1.thread t).remainingTick = (s.thread t).remainingTick) ∧
      (endsSlice s c (.tick []) = false ∧ s' = s1 ∨
        endsSlice s c (.tick []) = true ∧ s1.rtSchedule = some s') := by
  have hset : Inv (s.setThread c { s.thread c with
      remainingTick := ((s.thread c).remainingTick + (2 ^ 32 - 1)) % 2 ^ 32 }) :=
    h.setFields rfl rfl rfl rfl
  simp only [rtTickIncrease] at hs
  split at hs
  · cases hs
  · next t ht =>
    obtain rfl : t = c := Option.some.inj (ht.symm.trans hc)
    obtain ⟨s2, hend, he⟩ := Option.bind_eq_some_iff.mp hs
    obtain rfl : s2 = s' := Option.some.inj he
    split at hend
    · next hz =>
      refine ⟨_, ?_, ?_, fun u hu => ?_, fun u hu => ?_, .inr ⟨?_, hend⟩⟩
      · exact hset.setFields rfl rfl rfl rfl
      · exact rfl
      · rw [setThread_thread] at hu
        split at hu
        · next hut =>
          rw [hut]
          exact .inr (decide_eq_true ⟨hc, hz⟩)
        · next hut =>
          rw [setThread_thread, if_neg hut] at hu
          exact .inl hu
      · rw [setThread_thread, if_neg hu, setThread_thread, if_neg hu]
      · exact decide_eq_true ⟨hc, hz⟩
    · next hz =>
      refine ⟨_, hset, rfl, fun u hu => ?_, fun u hu => ?_,
        .inl ⟨?_, (Option.some.inj hend).symm⟩⟩
      · rw [setThread_thread] at hu
        split at hu
        · next hut =>
          rw [hut]
          exact .inl hu
        · exact .inl hu
      · rw [setThread_thread, if_neg hu]
      · exact decide_eq_false fun he => hz he.2

/-- What a piece of an operation does before its `rt_schedule`. -/
structure Piece (s : RtSched) (act : SchedAct) (c : Nat) (s1 s' : RtSched) : Prop where
  inv : Inv s1
  current : s1.current = some c
  /-- A mark is there before, or the slice has ended. -/
  mark : ∀ t, (s1.thread t).yield = true → (s.thread t).yield = true ∨ endsSlice s t act = true
  others : ∀ t, t ≠ c → (s1.thread t).remainingTick = (s.thread t).remainingTick
  /-- A tick within the slice calls no `rt_schedule`. -/
  within : endsSlice s c act = false →
    s' = s1 ∨ (s1.thread c).remainingTick = (s.thread c).remainingTick
  ends : Ends s1 s'

theorem Inv.piece (h : Inv s) (hc : s.current = some c) (ha : ∀ l, act = .tick l → l = [])
    (hp : ∀ t p, act = .changePriority t p → p < 32) (hs : schedStep s act = some s') :
    ∃ s1, Piece s act c s1 s' := by
  by_cases ht : ∃ l, act = .tick l
  · obtain ⟨l, rfl⟩ := ht
    obtain rfl := ha l rfl
    obtain ⟨s1, h1, hc1, hy, hr, hend⟩ := h.tick_split hc hs
    refine ⟨s1, h1, hc1.trans hc, hy, hr, fun hn => ?_, hend.imp And.right And.right⟩
    rcases hend with ⟨-, he⟩ | ⟨he, -⟩
    · exact .inl he
    · rw [hn] at he
      cases he
  · obtain ⟨s1, h1, hsame, hend⟩ := h.split hc (fun l he => ht ⟨l, he⟩) hp hs
    exact ⟨s1, h1, hsame.current.trans hc, fun t hy => .inl (hsame.mark t hy),
      fun t _ => hsame.remaining t, fun _ => .inr (hsame.remaining c), hend⟩

/-! ## The slices -/

/-- A mark of the current thread comes from the end of its slice, or from before. -/
def MarkInv (f : Slices) : Prop :=
  ∀ t, f.sched.current = some t → (f.sched.thread t).yield = true →
    f.ended t = true ∨ f.stale t = true

/-- A piece that leaves the CPU with `t`. -/
theorem Inv.keeps_mark (h : Inv s) (hc : s.current = some t) (ha : ∀ l, act = .tick l → l = [])
    (hp : ∀ t p, act = .changePriority t p → p < 32) (hs : schedStep s act = some s')
    (hc' : s'.current = some t) (hy : (s'.thread t).yield = true) :
    (s.thread t).yield = true ∨ endsSlice s t act = true := by
  obtain ⟨s1, hpc⟩ := h.piece hc ha hp hs
  rcases hpc.ends with rfl | hsch
  · exact hpc.mark t hy
  · rcases hpc.inv.schedule_cases hpc.current hsch with hstay | ⟨u, hmove⟩
    · rw [hstay.thread] at hy
      exact hpc.mark t hy
    · exact absurd (Option.some.inj (hmove.current.symm.trans hc')) hmove.other

theorem MarkInv.step (hi : Inv f.sched) (h : MarkInv f) (ha : ∀ l, act = .tick l → l = [])
    (hp : ∀ t p, act = .changePriority t p → p < 32) (hs : sliceStep f act = some f') :
    MarkInv f' := by
  obtain ⟨s', hs', rfl⟩ := Option.map_eq_some_iff.mp hs
  intro t hc' hy
  by_cases hsw : f.sched.current = some t
  · have hno : switched f.sched s' t = false := decide_eq_false fun he => he.2 hsw
    show ((f.ended t || endsSlice f.sched t act) && !switched f.sched s' t) = true ∨
      (if switched f.sched s' t then (s'.thread t).yield else f.stale t) = true
    rw [hno]
    rcases hi.keeps_mark hsw ha hp hs' hc' hy with hm | he
    · rcases h t hsw hm with he | hst
      · exact .inl (by rw [he]; rfl)
      · exact .inr hst
    · exact .inl (by rw [he, Bool.or_true]; rfl)
  · have hyes : switched f.sched s' t = true := decide_eq_true ⟨hc', hsw⟩
    refine .inr ?_
    show (if switched f.sched s' t then (s'.thread t).yield else f.stale t) = true
    rw [hyes, if_pos rfl]
    exact hy

/-- A thread that gives the CPU away is below the other one, or its mark is set; it goes to the end
of its list, with the slice that it had. -/
theorem Inv.gives (h : Inv s) (ha : ∀ l, act = .tick l → l = [])
    (hp : ∀ t p, act = .changePriority t p → p < 32) (hs : schedStep s act = some s')
    (hg : Gives s s' t u) :
    ((s'.thread u).currentPriority < (s'.thread t).currentPriority ∨
      (s.thread t).yield = true ∨ endsSlice s t act = true) ∧
      s'.links.prev (.head (.ready (s'.thread t).currentPriority)) = .item t ∧
      (endsSlice s t act = false →
        (s'.thread t).remainingTick = (s.thread t).remainingTick) := by
  obtain ⟨s1, hpc⟩ := h.piece hg.before ha hp hs
  have hne : s' ≠ s1 := by
    rintro rfl
    exact hg.other (Option.some.inj (hg.after.symm.trans hpc.current))
  have hsch := hpc.ends.resolve_left hne
  rcases hpc.inv.schedule_cases hpc.current hsch with hstay | ⟨w, hmove⟩
  · exact absurd (Option.some.inj (hg.after.symm.trans hstay.current)) hg.other
  · obtain rfl : w = u := Option.some.inj (hmove.current.symm.trans hg.after)
    have hthr := hmove.thread t
    rw [if_neg (Ne.symm hmove.other)] at hthr
    have hrun : (s1.thread t).stat = .running := by
      by_contra hn
      rw [if_neg fun he => hn he.2] at hthr
      have hr := hg.ready
      rw [hthr] at hr
      exact (hpc.inv.current.off t hpc.current).1 hr
    rw [if_pos ⟨rfl, hrun⟩] at hthr
    have hu : (s'.thread w).currentPriority = (s1.thread w).currentPriority := by
      rw [hmove.thread, if_pos rfl]
    refine ⟨?_, ?_, fun hn => ?_⟩
    · rw [hu, hthr]
      rcases hmove.room hrun with hlt | ⟨-, hy⟩
      · exact .inl hlt
      · exact .inr (hpc.mark t hy)
    · rw [hthr]
      exact hmove.tail hrun
    · rw [hthr]
      exact (hpc.within hn).resolve_left hne

/-- While another thread is the current one, the slice of `t` goes on as it is. -/
theorem Inv.keeps_slice (h : Inv s) (hc : s.current = some c) (htc : t ≠ c)
    (ha : ∀ l, act = .tick l → l = []) (hp : ∀ t p, act = .changePriority t p → p < 32)
    (hs : schedStep s act = some s') :
    (∃ c', s'.current = some c') ∧ (s'.thread t).remainingTick = (s.thread t).remainingTick := by
  obtain ⟨s1, hpc⟩ := h.piece hc ha hp hs
  have hr := hpc.others t htc
  rcases hpc.ends with rfl | hsch
  · exact ⟨⟨c, hpc.current⟩, hr⟩
  · rcases hpc.inv.schedule_cases hpc.current hsch with hstay | ⟨u, hmove⟩
    · refine ⟨⟨c, hstay.current⟩, ?_⟩
      rw [hstay.thread]
      exact hr
    · refine ⟨⟨u, hmove.current⟩, ?_⟩
      rw [hmove.thread, ← hr]
      split
      · next htu => rw [htu]
      · rw [if_neg fun he => htc he.1]

/-- The conditions on the actions of a run, from those on its operations. -/
theorem along_atoms (ha : ∀ t p, SchedAct.changePriority t p ∈ acts → p < 32) :
    ∀ act ∈ acts.flatMap atoms, (∀ l, act = .tick l → l = []) ∧
      ∀ t p, act = .changePriority t p → p < 32 := by
  intro act hm
  obtain ⟨b, hb, hm⟩ := List.mem_flatMap.mp hm
  refine ⟨fun l he => ?_, fun t p he => ?_⟩
  · subst he
    exact tick_of_mem_atoms hm
  · subst he
    refine ha t p ?_
    cases b <;> simp [atoms] at hm
    obtain ⟨rfl, rfl⟩ := hm
    exact hb

theorem slice_inv {priority tick : Nat → Nat} {isSystem cleanup : Nat → Bool}
    (hp : ∀ t, priority t < 32) (ha : ∀ t p, SchedAct.changePriority t p ∈ acts → p < 32)
    (hx : exec sliceStep (sliceInit priority tick isSystem cleanup) (acts.flatMap atoms) = some f) :
    Inv f.sched ∧ MarkInv f := by
  have hc : Along sliceStep (fun _ act => (∀ l, act = .tick l → l = []) ∧
      ∀ t p, act = .changePriority t p → p < 32)
      (sliceInit priority tick isSystem cleanup) (acts.flatMap atoms) :=
    along_of_forall fun _ act hm => along_atoms ha act hm
  refine hc.inv (I := fun f => Inv f.sched ∧ MarkInv f) (fun f act f' h hc hs => ?_) hx
    ⟨schedInit_inv hp, fun t ht => by cases ht⟩
  have hm := h.2.step h.1 hc.1 hc.2 hs
  obtain ⟨s', hs', rfl⟩ := Option.map_eq_some_iff.mp hs
  exact ⟨h.1.step hc.2 hs', hm⟩

/-- While other threads have the CPU, the slice of `t` goes on as it is. -/
theorem slice_kept (h : Inv f.sched) (hc : f.sched.current = some c)
    (ha : ∀ t p, SchedAct.changePriority t p ∈ acts → p < 32)
    (hx : exec sliceStep f (acts.flatMap atoms) = some f')
    (hal : Along sliceStep (fun f _ => f.sched.current ≠ some t) f (acts.flatMap atoms)) :
    (f'.sched.thread t).remainingTick = (f.sched.thread t).remainingTick := by
  have hall : Along sliceStep (fun _ act => (∀ l, act = .tick l → l = []) ∧
      ∀ t p, act = .changePriority t p → p < 32) f (acts.flatMap atoms) :=
    along_of_forall fun _ act hm => along_atoms ha act hm
  refine ((hal.and hall).inv (I := fun g => Inv g.sched ∧ (∃ c, g.sched.current = some c) ∧
    (g.sched.thread t).remainingTick = (f.sched.thread t).remainingTick) ?_ hx
    ⟨h, ⟨c, hc⟩, rfl⟩).2.2
  intro g act g' ⟨hi, ⟨c, hc⟩, hr⟩ ⟨hne, hl, hp⟩ hs
  obtain ⟨s2, hs2, rfl⟩ := Option.map_eq_some_iff.mp hs
  have htc : t ≠ c := fun he => hne (by rw [hc, he])
  obtain ⟨hc', hr'⟩ := hi.keeps_slice hc htc hl hp hs2
  exact ⟨hi.step hp hs2, hc', hr'.trans hr⟩

/-- **Who gives the CPU away, and with which slice.** In every run, taken in pieces: a running
thread that makes room for one of its priority has ended its slice since it was last switched to,
unless it had a mark then. One that makes room for a higher thread before its slice ends goes to
the end of its ready list, and keeps the rest of its slice until it is switched to. -/
theorem slices (priority tick : Nat → Nat) (isSystem cleanup : Nat → Bool)
    (hp : ∀ t, priority t < 32) (acts : List SchedAct)
    (ha : ∀ t p, SchedAct.changePriority t p ∈ acts → p < 32) (f f' : Slices)
    (hx : exec sliceStep (sliceInit priority tick isSystem cleanup) (acts.flatMap atoms) = some f)
    (act b : SchedAct) (hact : act ∈ atoms b) (hb : ∀ t p, b = .changePriority t p → p < 32)
    (hs : sliceStep f act = some f') (t u : Nat) (hg : Gives f.sched f'.sched t u) :
    ((f'.sched.thread u).currentPriority = (f'.sched.thread t).currentPriority →
      f.stale t = false → f.ended t = true ∨ endsSlice f.sched t act = true) ∧
    ((f'.sched.thread u).currentPriority < (f'.sched.thread t).currentPriority →
      endsSlice f.sched t act = false →
      f'.sched.links.prev (.head (.ready (f'.sched.thread t).currentPriority)) = .item t ∧
      ∀ (later : List SchedAct) (g : Slices),
        (∀ t p, SchedAct.changePriority t p ∈ later → p < 32) →
        exec sliceStep f' (later.flatMap atoms) = some g →
        Along sliceStep (fun f _ => f.sched.current ≠ some t) f' (later.flatMap atoms) →
        (g.sched.thread t).remainingTick = (f.sched.thread t).remainingTick) := by
  obtain ⟨hi, hm⟩ := slice_inv hp ha hx
  have hone : (∀ l, act = .tick l → l = []) ∧ ∀ t p, act = .changePriority t p → p < 32 := by
    refine along_atoms (fun t p he => hb t p (List.mem_singleton.mp he).symm) act ?_
    rw [List.flatMap_singleton]
    exact hact
  obtain ⟨s', hs', rfl⟩ := Option.map_eq_some_iff.mp hs
  obtain ⟨hwhy, htail, hrem⟩ := hi.gives hone.1 hone.2 hs' hg
  refine ⟨fun heq hfresh => ?_, fun hlt hn => ⟨htail, fun later g hl hx' hal => ?_⟩⟩
  · rcases hwhy with hlt | hy | he
    · exact absurd heq (Nat.ne_of_lt hlt)
    · rcases hm t hg.before hy with he | hst
      · exact .inl he
      · rw [hfresh] at hst
        cases hst
    · exact .inr he
  · exact (slice_kept (hi.step hone.2 hs') hg.after hl hx' hal).trans (hrem hn)

/-- Threads 0 and 1 have priority 10, and the others the priority `p`. -/
def twoLevels (p : Nat) : Slices :=
  sliceInit (fun t => if t < 2 then 10 else p) (fun _ => 2) (fun _ => false) fun _ => false

/-- The slice of thread 0 ends while it has no peer, and it sleeps with the mark. -/
def staleRun : List SchedAct :=
  [.startup 0, .startup 1, .startup 2, .start, .suspend 1, .tick [], .tick [], .sleep, .tick [0],
    .resume 1]

/-- Thread 0 has run for one tick. -/
def earlyRun : List SchedAct := [.startup 0, .startup 1, .start, .tick []]

/-- The action gives the CPU of thread 0, which has not ended its slice, to `u`. -/
def GivesEarly (f : Slices) (act : SchedAct) (f' : Slices) (u : Nat) : Prop :=
  f.sched.current = some 0 ∧ f'.sched.current = some u ∧ (f'.sched.thread 0).stat = .ready ∧
    f.ended 0 = false ∧ endsSlice f.sched 0 act = false

instance (f : Slices) (act : SchedAct) (f' : Slices) (u : Nat) :
    Decidable (GivesEarly f act f' u) := inferInstanceAs (Decidable (_ ∧ _ ∧ _ ∧ _ ∧ _))

theorem GivesEarly.gives (h : GivesEarly f act f' u) (hu : u ≠ 0) : Gives f.sched f'.sched 0 u :=
  ⟨h.1, h.2.1, hu, h.2.2.1⟩

theorem slices_early : ∃ f f', exec sliceStep (twoLevels 5) (earlyRun.flatMap atoms) = some f ∧
    sliceStep f (.startup 2) = some f' ∧
    f'.sched.links.prev (.head (.ready (f'.sched.thread 0).currentPriority)) = .item 0 := by
  have hrun : ((exec sliceStep (twoLevels 5) (earlyRun.flatMap atoms)).bind fun f =>
      (sliceStep f (.startup 2)).map fun f' => (decide (GivesEarly f (.startup 2) f' 2 ∧
        (f'.sched.thread 2).currentPriority < (f'.sched.thread 0).currentPriority))) =
      some true := by
    decide +kernel
  obtain ⟨f, hf, hrun⟩ := Option.bind_eq_some_iff.mp hrun
  obtain ⟨f', hf', hg⟩ := Option.map_eq_some_iff.mp hrun
  obtain ⟨hg, hlt⟩ := of_decide_eq_true hg
  have hp : ∀ t, (if t < 2 then 10 else 5) < 32 := fun t => by split <;> decide
  have h := slices (fun t => if t < 2 then 10 else 5) (fun _ => 2) (fun _ => false)
    (fun _ => false) hp earlyRun (fun t p hm => by simp [earlyRun] at hm) f f' hf (.startup 2)
    (.startup 2) (by decide) (fun t p he => by cases he) hf' 0 2 (hg.gives (by decide))
  exact ⟨f, f', hf, hf', (h.2 hlt hg.2.2.2.2).1⟩

/-- A mark from before makes thread 0 give the CPU to its peer within its slice; and thread 1 goes
on before thread 0, which a higher thread had preempted within its slice. -/
theorem slices_fail :
    (∃ f f', exec sliceStep (twoLevels 20) (staleRun.flatMap atoms) = some f ∧
      sliceStep f .schedule = some f' ∧ GivesEarly f .schedule f' 1 ∧
      (f'.sched.thread 1).currentPriority = (f'.sched.thread 0).currentPriority) ∧
    ∃ f f' g, exec sliceStep (twoLevels 5) (earlyRun.flatMap atoms) = some f ∧
      sliceStep f (.startup 2) = some f' ∧ GivesEarly f (.startup 2) f' 2 ∧
      (f'.sched.thread 1).currentPriority = (f'.sched.thread 0).currentPriority ∧
      sliceStep f' .sleep = some g ∧ g.sched.current = some 1 ∧
      (g.sched.thread 0).stat = .ready := by
  constructor
  · have hrun : ((exec sliceStep (twoLevels 20) (staleRun.flatMap atoms)).bind fun f =>
        (sliceStep f .schedule).map fun f' => (decide (GivesEarly f .schedule f' 1 ∧
          (f'.sched.thread 1).currentPriority = (f'.sched.thread 0).currentPriority))) =
        some true := by
      decide +kernel
    obtain ⟨f, hf, hrun⟩ := Option.bind_eq_some_iff.mp hrun
    obtain ⟨f', hf', hg⟩ := Option.map_eq_some_iff.mp hrun
    exact ⟨f, f', hf, hf', of_decide_eq_true hg⟩
  · have hrun : ((exec sliceStep (twoLevels 5) (earlyRun.flatMap atoms)).bind fun f =>
        (sliceStep f (.startup 2)).bind fun f' => (sliceStep f' .sleep).map fun g =>
          decide (GivesEarly f (.startup 2) f' 2 ∧
            (f'.sched.thread 1).currentPriority = (f'.sched.thread 0).currentPriority ∧
            g.sched.current = some 1 ∧ (g.sched.thread 0).stat = .ready)) = some true := by
      decide +kernel
    obtain ⟨f, hf, hrun⟩ := Option.bind_eq_some_iff.mp hrun
    obtain ⟨f', hf', hrun⟩ := Option.bind_eq_some_iff.mp hrun
    obtain ⟨g, hg, hrun⟩ := Option.map_eq_some_iff.mp hrun
    obtain ⟨h1, h2, h3, h4⟩ := of_decide_eq_true hrun
    exact ⟨f, f', g, hf, hf', h1, h2, hg, h3, h4⟩

end Tudu.Sched
