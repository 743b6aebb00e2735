import TuduOS.Ipc.MutexWait
import TuduOS.Kernel.Wait

/-!
# Priorities, owners and waiters of mutexes

Runs of threads that take, wait for and release mutexes, and of calls that change a priority
(`PrioAct`). No signal is delivered in them, so no wait comes back to `__again`.

* `PlainInv`: what is true in such a run besides `WaitInv`. A mutex without an owner has an empty
  suspend list.
* `Effect`: what a step does to the current priorities, the owners and the lists, one constructor
  for each way. `prioStep_effect` shows that there is no other way; the properties of priority
  inheritance are proved from it.
-/

namespace Tudu.Mutex

open Kern MutexSys

inductive PrioAct where
  /-- A step of `rt_mutex_take` or `rt_mutex_release`, a timeout or a switch. -/
  | mutex (act : MutexAct)
  /-- `rt_thread_control(u, RT_THREAD_CTRL_CHANGE_PRIORITY, &p)`, called by the application. -/
  | changePriority (u p : Nat)
  deriving DecidableEq

/-- The steps without signals. -/
def plainStep (s : MutexSys) : MutexAct → Option MutexSys
  | .sigResume _ | .sigHandle _ => none
  | act => mutexStep s act

def prioStep (s : MutexSys) : PrioAct → Option MutexSys
  | .mutex act => plainStep s act
  | .changePriority u p => some (s.setKern (s.kern.changePriority u p))

/-- `current_priority` -/
def MutexSys.priority (s : MutexSys) (t : Nat) : Nat := (s.kern.thread t).currentPriority

/-! ## The invariant -/

/-- The phases that a take has without signals. -/
def Ph.plain : Ph → Bool
  | .sched | .switched | .test | .testIntr | .fail => true
  | _ => false

/-- No thread has met a signal. -/
def NoSignal (k : Kern) : Prop :=
  ∀ t, (k.thread t).error ≠ -rtEintr ∧ (k.thread t).sigPending = false

/-- Every thread in a take is at a phase without signals. -/
def PlainPc (pc : Nat → Pc) : Prop := ∀ t m time ph, pc t = .take m time ph → ph.plain = true

structure PlainInv (s : MutexSys) : Prop where
  wait : WaitInv s
  signal : NoSignal s.kern
  pc : PlainPc s.pc
  free : ∀ m, (s.mutex m).owner = none → s.kern.suspendThread m = []

variable {s s' : MutexSys} {k k' : Kern} {act : PrioAct} {t u w m q p : Nat} {time : Int}

theorem NoSignal.of_thread (h : NoSignal k)
    (hk : ∀ u, (k'.thread u).error ≠ (k.thread u).error → (k'.thread u).error ≠ -rtEintr)
    (hs : ∀ u, (k'.thread u).sigPending = (k.thread u).sigPending) : NoSignal k' := by
  intro u
  refine ⟨?_, (hs u).trans (h u).2⟩
  by_cases he : (k'.thread u).error = (k.thread u).error
  · rw [he]
    exact (h u).1
  · exact hk u he

theorem NoSignal.congr (h : NoSignal k) (hk : ∀ u, Same (k.thread u) (k'.thread u)) : NoSignal k' :=
  h.of_thread (fun u hu => absurd (hk u).error hu) fun u => (hk u).sigPending

theorem NoSignal.setError (h : NoSignal k) {e : Int} (he : e ≠ -rtEintr) :
    NoSignal (k.setError t e) := by
  refine h.of_thread (fun u => ?_) fun u => ?_
  · rw [setError_thread]
    split
    · exact fun _ => he
    · exact fun hu => absurd rfl hu
  · rw [setError_thread]
    split
    · next hu => rw [hu]
    · rfl

theorem PlainPc.goto (h : PlainPc s.pc) {p : Pc}
    (hp : ∀ m time ph, p = .take m time ph → ph.plain = true) : PlainPc (s.goto t p).pc := by
  intro u m time ph hu
  rw [goto_pc] at hu
  split at hu
  · exact hp m time ph hu
  · exact h u m time ph hu

/-! ## The effect of a step -/

/-- The current thread ends its last hold of `m`. -/
def LastRelease (s : MutexSys) (m : Nat) : Prop :=
  s.Owns s.kern.current m ∧ ((s.mutex m).hold + (2 ^ 8 - 1)) % 2 ^ 8 = 0

/-- A take of `m` that has to wait for its owner `o`. -/
def WaitsFor (s : MutexSys) (m : Nat) (time : Int) (o : Nat) : Prop :=
  s.Owns o m ∧ o ≠ s.kern.current ∧ time ≠ 0

/-- What a step does to the priorities, the owners and the lists. -/
inductive Effect (s s' : MutexSys) : PrioAct → Prop
  /-- No priority and no owner changes, and no thread goes on a list. -/
  | quiet (act : PrioAct) (htake : ∀ m time o, act = .mutex (.take m time) → ¬ WaitsFor s m time o)
      (hrel : ∀ m, act = .mutex (.release m) → ¬ LastRelease s m)
      (hset : ∀ u p, act ≠ .changePriority u p)
      (hprio : ∀ u, s'.priority u = s.priority u) (hown : ∀ u q, s'.Owns u q ↔ s.Owns u q)
      (hon : ∀ u q, s'.On u q → s.On u q) : Effect s s' act
  /-- The current thread gets a free mutex. -/
  | got (m : Nat) (time : Int) (hfree : (s.mutex m).owner = none) (hempty : ∀ u, ¬ s.On u m)
      (hprio : ∀ u, s'.priority u = s.priority u)
      (hown : ∀ u q, s'.Owns u q ↔ if q = m then u = s.kern.current else s.Owns u q)
      (hon : ∀ u q, s'.On u q ↔ s.On u q) : Effect s s' (.mutex (.take m time))
  /-- The current thread goes on the list of `m`, whose owner has at least its priority then. -/
  | wait (m : Nat) (time : Int) (o : Nat) (hw : WaitsFor s m time o)
      (hprio : ∀ u, s'.priority u =
        if u = o then min (s.priority o) (s.priority s.kern.current) else s.priority u)
      (hown : ∀ u q, s'.Owns u q ↔ s.Owns u q) (hin : ∀ u q, s.On u q → s'.On u q)
      (hon : ∀ u q, s'.On u q → s.On u q ∨ u = s.kern.current ∧ q = m) :
      Effect s s' (.mutex (.take m time))
  /-- The current thread has the priority of its take of `m` again, and the first thread of the
  list owns `m`. -/
  | handed (m : Nat) (hl : LastRelease s m) (hoff : ∀ q, ¬ s.On s.kern.current q)
      (hprio : ∀ u, s'.priority u =
        if u = s.kern.current then (s.mutex m).originalPriority else s.priority u)
      (hown : ∀ u q, s'.Owns u q ↔
        if q = m then (s.kern.suspendThread m).head? = some u else s.Owns u q)
      (hon : ∀ u q, s'.On u q ↔
        s.On u q ∧ (s.kern.suspendThread m).head? ≠ some u) :
      Effect s s' (.mutex (.release m))
  /-- The application changes a priority. -/
  | changed (v p : Nat) (hprio : ∀ u, s'.priority u = if u = v then p else s.priority u)
      (hown : ∀ u q, s'.Owns u q ↔ s.Owns u q) (hon : ∀ u q, s'.On u q ↔ s.On u q) :
      Effect s s' (.changePriority v p)

/-! ## Steps that leave threads, lists and mutexes -/

/-- Only the running thread and the places in the code change. -/
structure Still (s s' : MutexSys) : Prop where
  thread : s'.kern.thread = s.kern.thread
  list : s'.kern.suspendThread = s.kern.suspendThread
  mutex : s'.mutex = s.mutex
  pc : PlainPc s'.pc

theorem Still.inv (h : PlainInv s) (hs : Still s s') (hw : WaitInv s') : PlainInv s' := by
  refine ⟨hw, fun u => ?_, hs.pc, fun m hm => ?_⟩
  · rw [hs.thread]
    exact h.signal u
  · rw [hs.mutex] at hm
    rw [hs.list]
    exact h.free m hm

theorem Still.effect (hs : Still s s') {act : MutexAct} (ht : ∀ m time, act ≠ .take m time)
    (hr : ∀ m, act ≠ .release m) : Effect s s' (.mutex act) := by
  refine .quiet _ (fun m time o e => ?_) (fun m e => ?_) (by simp) (fun u => ?_) (fun u q => ?_)
    fun u q hu => ?_
  · cases e
    exact absurd rfl (ht m time)
  · cases e
    exact absurd rfl (hr m)
  · unfold MutexSys.priority
    rw [hs.thread]
  · unfold Owns
    rw [hs.mutex]
  · unfold On at hu ⊢
    rwa [hs.list] at hu

theorem PlainInv.still_goto (h : PlainInv s) {p : Pc} (c : Nat)
    (hp : ∀ m time ph, p = .take m time ph → ph.plain = true) :
    Still s ((s.goto t p).setKern { s.kern with current := c }) :=
  ⟨rfl, rfl, rfl, h.pc.goto hp⟩

theorem PlainInv.still_finish (h : PlainInv s) (r : Int) : Still s (s.finish t m r) :=
  ⟨rfl, rfl, rfl, h.pc.goto (by simp)⟩

/-- Behind its first try, a take only reads without signals. -/
theorem PlainInv.stmt (h : PlainInv s) {ph : Ph} (hp : s.pc s.kern.current = .take m time ph)
    (hs : takeStmt s m time ph = some s') : Still s s' := by
  have hplain := h.pc _ _ _ _ hp
  obtain ⟨herr, hsig⟩ := h.signal s.kern.current
  cases ph with
  | sched => cases hs
  | switched =>
    simp only [takeStmt, hsig] at hs
    split at hs
    · cases hs
      exact h.still_goto s.kern.current (by rintro _ _ _ ⟨⟩; rfl)
    · cases hs
  | test =>
    simp only [takeStmt] at hs
    split at hs <;> cases hs
    · exact h.still_goto s.kern.current (by rintro _ _ _ ⟨⟩; rfl)
    · exact h.still_finish rtEok
  | testIntr =>
    simp only [takeStmt, if_neg herr] at hs
    cases hs
    exact h.still_goto s.kern.current (by rintro _ _ _ ⟨⟩; rfl)
  | fail =>
    cases hs
    exact h.still_finish _
  | _ => cases hplain

theorem PlainInv.schedule (h : PlainInv s) {next : Option Nat}
    (hs : mutexStep s (.schedule next) = some s') : Still s s' := by
  simp only [mutexStep] at hs
  split at hs
  · split at hs
    · next u =>
      split at hs <;> cases hs
      exact h.still_goto u (by rintro _ _ _ ⟨⟩; rfl)
    · split at hs <;> cases hs
      exact h.still_goto s.kern.current (by rintro _ _ _ ⟨⟩; rfl)
  · cases hs

/-! ## The first try -/

theorem PlainInv.free_of_value (h : PlainInv s) (hv : (s.mutex m).value > 0) :
    (s.mutex m).owner = none := by
  rcases h.wait.mutex m with hm | hm | hm
  · exact hm.2.1
  · exact hm.2.1
  · omega

theorem min_of_raise (a b : Nat) : min b a = if a < b then a else b := by
  split <;> omega

/-- The thread has to wait: the owner has at least its priority then. -/
theorem PlainInv.takeWait (h : PlainInv s) {o flag : Nat} (hw : WaitsFor s m time o) {k1 : Kern}
    (hk1 : k1 = s.kern.setError s.kern.current rtEok)
    (hk : (if (k1.thread s.kern.current).currentPriority < (k1.thread o).currentPriority then k1.changePriority o (k1.thread s.kern.current).currentPriority else k1).rtIpcListSuspend m s.kern.current flag = some k)
    (hs : s' = (s.setKern (if time > 0 then k.startTimer s.kern.current else k)).goto s.kern.current (.take m time .sched))
    (hwait : WaitInv s') : PlainInv s' ∧ Effect s s' (.mutex (.take m time)) := by
  have hprio : ∀ u, (k1.thread u).currentPriority = s.priority u := by
    intro u
    rw [hk1, setError_thread]
    split
    · next hu => rw [hu]; rfl
    · rfl
  rw [hprio, hprio] at hk
  -- the owner's priority
  generalize hk2 : (if s.priority s.kern.current < s.priority o then
    k1.changePriority o (s.priority s.kern.current) else k1) = k2 at hk
  have hprio₂ : ∀ u, (k2.thread u).currentPriority =
      if u = o then min (s.priority o) (s.priority s.kern.current) else s.priority u := by
    intro u
    rw [← hk2, min_of_raise]
    split
    · rw [changePriority_thread]
      split
      · rfl
      · exact hprio u
    · split
      · next hu => rw [hu]; exact hprio o
      · exact hprio u
  have hlist₂ : k2.suspendThread = s.kern.suspendThread := by
    rw [← hk2]
    split <;> rw [hk1] <;> rfl
  have hsig₂ : NoSignal k2 := by
    have h1 : NoSignal k1 := by
      rw [hk1]
      exact h.signal.setError (by decide)
    rw [← hk2]
    split
    · exact h1.congr fun u => changePriority_same ..
    · exact h1
  have hfields := rtIpcListSuspend_fields hk
  have htimer : ∀ u, ((if time > 0 then k.startTimer s.kern.current else k).thread u).error =
        (k.thread u).error ∧
      ((if time > 0 then k.startTimer s.kern.current else k).thread u).sigPending =
        (k.thread u).sigPending ∧
      ((if time > 0 then k.startTimer s.kern.current else k).thread u).currentPriority =
        (k.thread u).currentPriority := by
    intro u
    rw [startTimer_thread]
    split
    · next hu => subst hu; exact ⟨rfl, rfl, rfl⟩
    · exact ⟨rfl, rfl, rfl⟩
  subst hs
  have hlist : ∀ q, ((s.setKern (if time > 0 then k.startTimer s.kern.current else k)).goto
      s.kern.current (.take m time .sched)).kern.suspendThread q = k.suspendThread q := fun q =>
    congrFun (startTimer_suspendThread _ _) q
  refine ⟨⟨hwait, fun u => ?_, ?_, fun q hq => ?_⟩, .wait m time o hw (fun u => ?_)
    (fun u q => Iff.rfl) (fun u q hu => ?_) fun u q hu => ?_⟩
  · obtain ⟨he, hs', -⟩ := htimer u
    refine ⟨fun e => (hsig₂ u).1 ?_, ?_⟩
    · exact (hfields u).1.symm.trans (he.symm.trans e)
    · exact hs'.trans ((hfields u).2.2.trans (hsig₂ u).2)
  · exact h.pc.goto (s := s.setKern _) (by rintro _ _ _ ⟨⟩; rfl)
  · -- the list of a mutex without an owner stays empty
    rw [hlist]
    apply List.eq_nil_iff_forall_not_mem.mpr
    intro u hu
    have hq' : (s.mutex q).owner = none := hq
    rcases mem_rtIpcListSuspend hk hu with hu | ⟨-, rfl⟩
    · rw [hlist₂, h.free q hq'] at hu
      cases hu
    · have ho : (s.mutex q).owner = some o := hw.1
      rw [ho] at hq'
      cases hq'
  · exact (htimer u).2.2.trans ((hfields u).2.1.trans (hprio₂ u))
  · unfold On
    rw [hlist]
    refine mem_rtIpcListSuspend_of_mem hk ?_
    rwa [hlist₂]
  · unfold On at hu
    rw [hlist] at hu
    have := mem_rtIpcListSuspend hk hu
    rwa [hlist₂] at this

theorem setError_priority (s : MutexSys) (t u : Nat) (e : Int) :
    ((s.kern.setError t e).thread u).currentPriority = s.priority u := by
  rw [setError_thread]
  split
  · next hu => rw [hu]; rfl
  · rfl

theorem PlainInv.take (h : PlainInv s) (hp : s.pc s.kern.current = .user)
    (hs : rtMutexTake s m time = some s') : PlainInv s' ∧ Effect s s' (.mutex (.take m time)) := by
  have hwait := h.wait.take hp hs
  have hsig : NoSignal (s.kern.setError s.kern.current rtEok) := h.signal.setError (by decide)
  unfold rtMutexTake at hs
  simp only at hs
  split at hs
  · next ho =>
    -- one more hold
    cases hs
    refine ⟨⟨hwait, hsig, h.pc.goto (p := .done m rtEok) (by simp), fun q hq => ?_⟩,
      .quiet _ (fun m' time' o e hw => ?_) (by simp) (by simp) (fun u => setError_priority ..)
        (fun u q => ?_) (fun u q hu => hu)⟩
    · by_cases hqm : q = m
      · subst hqm
        simp [MutexSys.finish, ho] at hq
      · simp only [MutexSys.finish, setHeld_mutex, goto_mutex, setMutex_mutex, if_neg hqm] at hq
        exact h.free q hq
    · cases e
      exact hw.2.1 (Option.some.inj (hw.1.symm.trans ho))
    · simp only [Owns, MutexSys.finish, setHeld_mutex, goto_mutex, setMutex_mutex, setKern_mutex]
      split
      · next hqm => rw [hqm]
      · rfl
  split at hs
  · next hv =>
    cases hs
    have hfree := h.free_of_value hv
    have hempty := h.free m hfree
    refine ⟨⟨hwait, hsig, h.pc.goto (p := .done m rtEok) (by simp), fun q hq => ?_⟩,
      .got m time hfree (fun u hu => ?_) (fun u => setError_priority ..) (fun u q => ?_)
        (fun u q => Iff.rfl)⟩
    · by_cases hqm : q = m
      · subst hqm
        exact hempty
      · simp only [MutexSys.finish, setHeld_mutex, goto_mutex, setMutex_mutex, if_neg hqm] at hq
        exact h.free q hq
    · rw [On, hempty] at hu
      cases hu
    · simp only [Owns, MutexSys.finish, setHeld_mutex, goto_mutex, setMutex_mutex, setKern_mutex]
      split
      · exact ⟨fun e => (Option.some.inj e).symm, fun e => by rw [e]⟩
      · rfl
  split at hs
  · next htime =>
    -- no waiting
    cases hs
    refine ⟨⟨hwait, hsig.setError (by decide), h.pc.goto (p := .done m _) (by simp),
      h.free⟩, .quiet _ (fun m' time' o e hw => ?_) (by simp) (by simp) (fun u => ?_)
        (fun u q => Iff.rfl) (fun u q hu => hu)⟩
    · cases e
      exact hw.2.2 htime
    · show (((s.kern.setError _ _).setError _ _).thread u).currentPriority = s.priority u
      rw [setError_thread]
      split
      · next hu => rw [hu]; exact setError_priority ..
      · exact setError_priority ..
  split at hs
  · cases hs
  · next hne _ htime _ o ho =>
    obtain ⟨k, hk, rfl⟩ := Option.map_eq_some_iff.mp hs
    refine h.takeWait ⟨ho, fun e => hne ?_, htime⟩ rfl hk rfl hwait
    rw [ho, e]

/-! ## `rt_mutex_release` -/

/-- A thread on a list is suspended. -/
theorem PlainInv.suspended (h : PlainInv s) (hu : s.On u q) : (s.kern.thread u).stat = .suspend := by
  have ht := h.wait.thread u
  cases hp : s.pc u with
  | user | done =>
    rw [hp] at ht
    exact absurd hu (ht.2 q)
  | take m time ph =>
    rw [hp] at ht
    exact (ht.2 q hu).2.2

/-- A thread is on one list only. -/
theorem PlainInv.on_unique (h : PlainInv s) (hq : s.On u q) (hm : s.On u m) : q = m := by
  have ht := h.wait.thread u
  cases hp : s.pc u with
  | user | done =>
    rw [hp] at ht
    exact absurd hq (ht.2 q)
  | take m' time ph =>
    rw [hp] at ht
    exact (ht.2 q hq).1.trans (ht.2 m hm).1.symm

theorem NoSignal.resume (h : NoSignal k) : NoSignal (k.rtThreadResume t) := by
  refine h.of_thread (fun u hu => absurd ?_ hu) fun u => ?_
  · rw [rtThreadResume_thread]
    split
    · next hu => rw [hu.1]
    · rfl
  · rw [rtThreadResume_thread]
    split
    · next hu => rw [hu.1]
    · rfl

theorem rtThreadResume_priority (k : Kern) (t u : Nat) :
    ((k.rtThreadResume t).thread u).currentPriority = (k.thread u).currentPriority := by
  rw [rtThreadResume_thread]
  split
  · next hu => rw [hu.1]
  · rfl

/-- The last hold ends, with the priorities of `k` and the lists of `s`. -/
theorem PlainInv.releaseLast (h : PlainInv s) (hp : s.pc s.kern.current = .user)
    (hl : LastRelease s m) {n : Nat} {x : RtMutex}
    (hsame : ∀ u, Same (s.kern.thread u) (k.thread u))
    (hsus : k.suspendThread = s.kern.suspendThread)
    (hprio : ∀ u, (k.thread u).currentPriority = if u = s.kern.current then (s.mutex m).originalPriority else s.priority u)
    (hx : x.owner = (s.kern.suspendThread m).head?)
    (hk : (∃ v vs, s.kern.suspendThread m = v :: vs ∧ k' = k.rtThreadResume v) ∨ s.kern.suspendThread m = [] ∧ k' = k)
    (hs : s' = ((s.setHeld s.kern.current m n).setMutex m x).setKern k') (hwait : WaitInv s') :
    PlainInv s' ∧ Effect s s' (.mutex (.release m)) := by
  have hsig : NoSignal k := h.signal.congr hsame
  have hsig' : NoSignal k' := by
    rcases hk with ⟨v, vs, -, rfl⟩ | ⟨-, rfl⟩
    · exact hsig.resume
    · exact hsig
  have hprio' : ∀ u, (k'.thread u).currentPriority = (k.thread u).currentPriority := by
    intro u
    rcases hk with ⟨v, vs, -, rfl⟩ | ⟨-, rfl⟩
    · exact rtThreadResume_priority ..
    · rfl
  have hon : ∀ u q, u ∈ k'.suspendThread q ↔
      u ∈ s.kern.suspendThread q ∧ (s.kern.suspendThread m).head? ≠ some u := by
    intro u q
    rcases hk with ⟨v, vs, hv, rfl⟩ | ⟨hv, rfl⟩
    · have hsv : (k.thread v).stat = .suspend := by
        rw [(hsame v).stat]
        refine h.suspended (q := m) ?_
        rw [On, hv]
        exact List.mem_cons_self
      rw [mem_rtThreadResume, hsus, hsv, hv, List.head?_cons]
      refine and_congr_right fun _ => ?_
      constructor
      · intro he e
        exact he (Option.some.inj e).symm rfl
      · intro he e
        exact absurd (congrArg some e.symm) he
    · rw [hsus, hv]
      simp
  subst hs
  refine ⟨⟨hwait, hsig', h.pc, fun q hq => ?_⟩, .handed m hl (h.wait.user hp).2
    (fun u => (hprio' u).trans (hprio u)) (fun u q => ?_) hon⟩
  · apply List.eq_nil_iff_forall_not_mem.mpr
    intro u hu
    obtain ⟨hu, hne⟩ := (hon u q).mp hu
    by_cases hqm : q = m
    · subst hqm
      have hq' : x.owner = none := by simpa using hq
      rw [hx] at hq'
      rename u ∈ s.kern.suspendThread q => hu'
      rw [List.head?_eq_none_iff.mp hq'] at hu'
      cases hu'
    · have hq' : (s.mutex q).owner = none := by simpa [hqm] using hq
      rw [h.free q hq'] at hu
      cases hu
  · simp only [Owns, setKern_mutex, setMutex_mutex, setHeld_mutex]
    split
    · rw [hx]
    · rfl

theorem PlainInv.release (h : PlainInv s) (hp : s.pc s.kern.current = .user) (m : Nat) :
    PlainInv (rtMutexRelease s m) ∧ Effect s (rtMutexRelease s m) (.mutex (.release m)) := by
  have hwait := h.wait.release hp m
  rcases rtMutexRelease_cases s m with ⟨ho, he⟩ | ⟨n, k, ho, hn, hsame, hsus, hprio, hx⟩
  · rw [he] at hwait ⊢
    refine ⟨⟨hwait, h.signal.setError (by decide), h.pc, h.free⟩, .quiet _ (by simp)
      (fun m' e hl => ?_) (by simp) (fun u => setError_priority ..) (fun u q => Iff.rfl)
      (fun u q hu => hu)⟩
    cases e
    exact ho hl.1
  rcases hx with ⟨h0, he⟩ | ⟨h0, u, us, p, hl, he⟩ | ⟨h0, hl, he⟩
  · -- the mutex is still held
    rw [he] at hwait ⊢
    refine ⟨⟨hwait, h.signal, h.pc, fun q hq => ?_⟩, .quiet _ (by simp) (fun m' e hl => ?_)
      (by simp) (fun u => rfl) (fun u q => ?_) (fun u q hu => hu)⟩
    · by_cases hqm : q = m
      · subst hqm
        exact h.free q (by simpa using hq)
      · exact h.free q (by simpa [hqm] using hq)
    · cases e
      exact h0 (hn.trans hl.2)
    · simp only [Owns, setMutex_mutex, setHeld_mutex]
      split
      · next hqm => rw [hqm]
      · rfl
  · rw [hsus] at hl
    refine h.releaseLast hp ⟨ho, hn ▸ h0⟩ hsame hsus hprio ?_ (.inl ⟨u, us, hl, rfl⟩) he hwait
    rw [hl]
    rfl
  · rw [hsus] at hl
    refine h.releaseLast hp ⟨ho, hn ▸ h0⟩ hsame hsus hprio ?_ (.inr ⟨hl, rfl⟩) he hwait
    rw [hl]
    rfl

/-! ## Every step -/

theorem PlainInv.timeout (h : PlainInv s) (hs : mutexStep s (.timeout u) = some s') :
    PlainInv s' ∧ Effect s s' (.mutex (.timeout u)) := by
  have hwait := h.wait.timeout hs
  obtain ⟨k, hk, rfl⟩ := Option.map_eq_some_iff.mp hs
  obtain ⟨-, -, -, hthr, hlist⟩ := rtThreadTimeout_some hk
  refine ⟨⟨hwait, fun v => ?_, h.pc, fun q hq => ?_⟩, .quiet _ (by simp) (by simp) (by simp)
    (fun v => ?_) (fun v q => Iff.rfl) fun v q hv => ?_⟩
  · show (k.thread v).error ≠ _ ∧ (k.thread v).sigPending = false
    rw [hthr]
    split
    · exact ⟨show -rtEtimeout ≠ -rtEintr by decide, (h.signal u).2⟩
    · exact h.signal v
  · show k.suspendThread q = []
    rw [hlist, h.free q hq]
    rfl
  · show (k.thread v).currentPriority = _
    rw [hthr]
    split
    · next hv => rw [hv]; rfl
    · rfl
  · have hv' : v ∈ k.suspendThread q := hv
    rw [hlist] at hv'
    exact (List.mem_filter.mp hv').1

/-- A step keeps the invariant, and does what one of the constructors of `Effect` says. -/
theorem prioStep_effect (h : PlainInv s) (hs : prioStep s act = some s') :
    PlainInv s' ∧ Effect s s' act := by
  cases act with
  | changePriority v p =>
    cases hs
    refine ⟨⟨⟨fun u => ?_, h.wait.mutex⟩, ?_, h.pc, h.free⟩, .changed v p (fun u => ?_)
      (fun u q => Iff.rfl) (fun u q => Iff.rfl)⟩
    · exact (h.wait.thread u).mono (changePriority_same ..) (fun _ _ _ _ ho => ho) fun _ hq => hq
    · exact h.signal.congr fun u => changePriority_same ..
    · show ((s.kern.changePriority v p).thread u).currentPriority = _
      rw [changePriority_thread]
      split <;> rfl
  | mutex act =>
    have hstill : ∀ (hst : Still s s') (hw : WaitInv s') (ht : ∀ m time, act ≠ .take m time)
        (hr : ∀ m, act ≠ .release m), PlainInv s' ∧ Effect s s' (.mutex act) :=
      fun hst hw ht hr => ⟨hst.inv h hw, hst.effect ht hr⟩
    cases act with
    | preempt v =>
      simp only [prioStep, plainStep, mutexStep] at hs
      split at hs <;> cases hs
      exact hstill ⟨rfl, rfl, rfl, h.pc⟩ (h.wait.preempt v) (by simp) (by simp)
    | take m time =>
      simp only [prioStep, plainStep, mutexStep] at hs
      split at hs
      · exact h.take ‹_› hs
      · cases hs
    | stmt =>
      simp only [prioStep, plainStep, mutexStep] at hs
      split at hs
      · next m time ph hp =>
        refine hstill (h.stmt hp hs) (h.wait.stmt hp (fun e => ?_) hs) (by simp) (by simp)
        have := h.pc _ _ _ _ hp
        rw [e] at this
        cases this
      · cases hs
    | schedule next =>
      exact hstill (h.schedule hs) (h.wait.schedule hs) (by simp) (by simp)
    | ret =>
      simp only [prioStep, plainStep, mutexStep] at hs
      split at hs <;> cases hs
      exact hstill ⟨rfl, rfl, rfl, h.pc.goto (by simp)⟩ (h.wait.ret ‹_›) (by simp) (by simp)
    | release m =>
      simp only [prioStep, plainStep, mutexStep] at hs
      split at hs <;> cases hs
      exact h.release ‹_› m
    | timeout u => exact h.timeout hs
    | sigResume u => cases hs
    | sigHandle u => cases hs

theorem PlainInv.init (flag priority : Nat → Nat) : PlainInv (mutexInit flag priority) where
  wait := .init flag priority
  signal := fun _ => ⟨show rtEok ≠ -rtEintr by decide, rfl⟩
  pc := fun _ _ _ _ hp => by cases hp
  free := fun _ _ => rfl

end Tudu.Mutex
