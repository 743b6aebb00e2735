import TuduOS.Kernel.Wait
import TuduOS.Lib.Lts
import TuduOS.Lib.PrioQueue

/-!
# The order of the suspend lists (`rt_ipc_list_suspend`, `rt_ipc_list_resume` of `ipc.c`)

Any number of threads and of suspend lists; a list has the flag of its object. The steps are what
the IPC functions, timers, signals and `rt_thread_control` do to threads and lists (`IpcAct`). What
a semaphore or a mutex holds plays no part in the order of a list.

The ghosts: `stamp t` is the time at which `t` went on the list that it is on, and `clock` the next
time.

* **The property** (`WaitOrder`). A list of an object with `RT_IPC_FLAG_PRIO` is in the order of
  `current_priority`, and of arrival among threads of one priority; so its first thread has the
  highest priority.
* **The condition** (`KeepsPlace`). `rt_thread_control` puts a ready thread into the queue of its
  new priority, but leaves a suspended thread where it is on its list; so the order is kept if and
  only if the change does not move the thread past another one.
-/

namespace Tudu.Ipc

open Kern Lts PrioQueue

structure IpcSys where
  kern : Kern
  flag : Nat → Nat
  stamp : Nat → Nat
  clock : Nat

inductive IpcAct where
  /-- An interrupt switches to the ready thread `u`. -/
  | preempt (u : Nat)
  /-- The current thread calls `rt_ipc_list_suspend`, and may start its timer. -/
  | wait (q : Nat) (timer : Bool)
  /-- `rt_ipc_list_resume` -/
  | wake (q : Nat)
  /-- One round of `rt_ipc_list_resume_all`. -/
  | wakeError (q : Nat)
  /-- `rt_thread_suspend` -/
  | suspend (u : Nat)
  /-- `rt_thread_resume` -/
  | resume (u : Nat)
  /-- The timer of the thread `u` expires. -/
  | timeout (u : Nat)
  /-- A signal resumes the thread `u`. -/
  | sigResume (u : Nat)
  /-- The thread `u` handles a signal. -/
  | sigHandle (u : Nat)
  /-- `u->error = e` -/
  | setError (u : Nat) (e : Int)
  /-- `rt_thread_control(u, RT_THREAD_CTRL_CHANGE_PRIORITY, &p)`, by the application or by
  `rt_mutex_take` and `rt_mutex_release`. -/
  | changePriority (u p : Nat)
  deriving DecidableEq

namespace IpcSys

def setKern (s : IpcSys) (k : Kern) : IpcSys := { s with kern := k }

/-- The current thread arrives on a list. -/
def arrive (s : IpcSys) (k : Kern) : IpcSys :=
  { s with
    kern := k
    stamp := Function.update s.stamp s.kern.current s.clock
    clock := s.clock + 1 }

/-- `current_priority` -/
def priority (s : IpcSys) (t : Nat) : Nat := (s.kern.thread t).currentPriority

end IpcSys

open IpcSys

def ipcStep (s : IpcSys) : IpcAct → Option IpcSys
  | .preempt u =>
    if (s.kern.thread u).stat = .ready then some (s.setKern { s.kern with current := u }) else none
  | .wait q timer =>
    let t := s.kern.current
    (s.kern.rtIpcListSuspend q t (s.flag q)).map fun k =>
      s.arrive (if timer then k.startTimer t else k)
  | .wake q =>
    match s.kern.suspendThread q with
    | u :: _ => some (s.setKern (s.kern.rtThreadResume u))
    | [] => none
  | .wakeError q =>
    match s.kern.suspendThread q with
    | u :: _ => some (s.setKern ((s.kern.setError u (-rtError)).rtThreadResume u))
    | [] => none
  | .suspend u => some (s.setKern (s.kern.rtThreadSuspend u))
  | .resume u => some (s.setKern (s.kern.rtThreadResume u))
  | .timeout u => (s.kern.rtThreadTimeout u).map s.setKern
  | .sigResume u => (s.kern.sigResume u).map s.setKern
  | .sigHandle u => (s.kern.sigHandle u).map s.setKern
  | .setError u e => some (s.setKern (s.kern.setError u e))
  | .changePriority u p => some (s.setKern (s.kern.changePriority u p))

/-- Threads that run, and objects without waiting threads. -/
def ipcInit (flag priority : Nat → Nat) : IpcSys where
  kern := ⟨0, fun t => ⟨.ready, rtEok, priority t, false, false, false⟩, fun _ => []⟩
  flag := flag
  stamp := fun _ => 0
  clock := 0

/-! ## The property and the condition -/

/-- The property: the lists of `RT_IPC_FLAG_PRIO` objects are sorted, and so the first thread has
the highest priority. -/
structure WaitOrder (s : IpcSys) : Prop where
  sorted : ∀ q, s.flag q = 1 → Queued s.priority s.stamp (s.kern.suspendThread q)
  first : ∀ q u w, s.flag q = 1 → (s.kern.suspendThread q).head? = some u →
    w ∈ s.kern.suspendThread q → s.priority u ≤ s.priority w

/-- A change of the priority of a thread on a list moves it past no other thread. -/
def KeepsPlace (s : IpcSys) : IpcAct → Prop
  | .changePriority u p => ∀ q, s.flag q = 1 → u ∈ s.kern.suspendThread q →
      ∀ v ∈ s.kern.suspendThread q, v ≠ u →
        (Before s.priority s.stamp u v ↔ Before (Function.update s.priority u p) s.stamp u v)
  | _ => True

/-! ## The invariant -/

/-- What is true of the listed threads besides the order. -/
structure StampInv (s : IpcSys) : Prop where
  linked : ∀ u q, u ∈ s.kern.suspendThread q → (s.kern.thread u).linked = true
  past : ∀ u q, u ∈ s.kern.suspendThread q → s.stamp u < s.clock
  inj : ∀ u v q, u ∈ s.kern.suspendThread q → v ∈ s.kern.suspendThread q →
    s.stamp u = s.stamp v → u = v

variable {s s' : IpcSys} {k : Kern} {act : IpcAct} {t u q p : Nat}

theorem WaitOrder.of_sorted
    (h : ∀ q, s.flag q = 1 → Queued s.priority s.stamp (s.kern.suspendThread q)) : WaitOrder s :=
  ⟨h, fun q _ _ hq hu hw => (h q hq).head_le hu hw⟩

/-- A step that puts no thread on a list, and changes the priority of no thread that stays on
one. -/
structure Shrinks (s : IpcSys) (k : Kern) : Prop where
  sub : ∀ q, (k.suspendThread q).Sublist (s.kern.suspendThread q)
  prio : ∀ u q, u ∈ k.suspendThread q → (k.thread u).currentPriority = s.priority u
  linked : ∀ u q, u ∈ k.suspendThread q → (k.thread u).linked = (s.kern.thread u).linked

theorem StampInv.shrink (h : StampInv s) (hk : Shrinks s k) : StampInv (s.setKern k) := by
  refine ⟨fun u q hu => ?_, fun u q hu => ?_, fun u v q hu hv => ?_⟩
  · exact (hk.linked u q hu).trans (h.linked u q ((hk.sub q).mem hu))
  · exact h.past u q ((hk.sub q).mem hu)
  · exact h.inj u v q ((hk.sub q).mem hu) ((hk.sub q).mem hv)

theorem WaitOrder.shrink (h : WaitOrder s) (hk : Shrinks s k) : WaitOrder (s.setKern k) :=
  .of_sorted fun q hq => ((h.sorted q hq).sublist (hk.sub q)).congr
    (fun u hu => hk.prio u q hu) fun _ _ => rfl

/-- The test of `rt_ipc_list_suspend`. -/
abbrev Lower (k : Kern) (t u : Nat) : Prop :=
  (k.thread t).currentPriority < (k.thread u).currentPriority

theorem insertFlag_some {l : List Nat} (h : l.find? (fun u => Lower k t u) = some u) :
    k.insertFlag t 1 l = listInsertBefore u t l := by
  simp [insertFlag, h]

theorem insertFlag_none {l : List Nat} (h : l.find? (fun u => Lower k t u) = none) :
    k.insertFlag t 1 l = l ++ [t] := by
  simp only [insertFlag, h]
  rfl

/-- The search of `rt_ipc_list_suspend` for the first thread of lower priority. -/
theorem insertFlag_prio (k : Kern) (t : Nat) (l : List Nat) :
    k.insertFlag t 1 l = l.orderedInsert (Lower k) t := by
  induction l with
  | nil => rfl
  | cons b l ih =>
    rw [List.orderedInsert_cons]
    by_cases hb : Lower k t b
    · have hfind : (b :: l).find? (fun u => Lower k t u) = some b := by
        rw [List.find?_cons, decide_eq_true hb]
      rw [insertFlag_some hfind, if_pos hb, listInsertBefore, if_pos rfl]
    have hfind : (b :: l).find? (fun u => Lower k t u) = l.find? (fun u => Lower k t u) := by
      rw [List.find?_cons, decide_eq_false hb]
    rw [if_neg hb, ← ih]
    cases hl : l.find? (fun u => Lower k t u) with
    | none => rw [insertFlag_none hl, insertFlag_none (hfind.trans hl), List.cons_append]
    | some u =>
      -- the thread that is found is another one than the first
      have hne : b ≠ u := by
        rintro rfl
        have hlow := List.find?_some hl
        exact hb (of_decide_eq_true hlow)
      rw [insertFlag_some hl, insertFlag_some (hfind.trans hl), listInsertBefore, if_neg hne]

/-! ## The steps -/

/-- The thread that arrives goes behind those of its priority. -/
theorem arrive_order (h : WaitOrder s) (hi : StampInv s) {k' : Kern}
    (hk : s.kern.rtIpcListSuspend q s.kern.current (s.flag q) = some k)
    (hlist : k'.suspendThread = k.suspendThread)
    (hprio : ∀ u, (k'.thread u).currentPriority = (k.thread u).currentPriority)
    (hlinked : ∀ u, (k'.thread u).linked = (k.thread u).linked) :
    WaitOrder (s.arrive k') ∧ StampInv (s.arrive k') := by
  obtain ⟨hfree, -, hsus, hthr⟩ := rtIpcListSuspend_some hk
  have hoff : ∀ p, s.kern.current ∉ s.kern.suspendThread p := by
    intro p hp
    rw [hi.linked _ p hp] at hfree
    cases hfree
  have hpr : ∀ u, (s.arrive k').priority u = s.priority u := fun u =>
    (hprio u).trans (rtIpcListSuspend_fields hk u).2.1
  have hst : ∀ u p, u ∈ s.kern.suspendThread p → (s.arrive k').stamp u = s.stamp u := by
    intro u p hu
    refine Function.update_of_ne ?_ ..
    rintro rfl
    exact hoff p hu
  have hself : (s.arrive k').stamp s.kern.current = s.clock := Function.update_self ..
  -- a listed thread was listed, or it is the one that arrives
  have hmem : ∀ u p, u ∈ k'.suspendThread p →
      u ∈ s.kern.suspendThread p ∨ u = s.kern.current ∧ p = q := by
    intro u p hu
    rw [hlist] at hu
    exact mem_rtIpcListSuspend hk hu
  refine ⟨.of_sorted fun p hp => ?_, fun u p hu => ?_, fun u p hu => ?_, fun u v p hu hv he => ?_⟩
  · show Queued _ _ (k'.suspendThread p)
    rw [hlist, hsus, Function.update_apply]
    have hold : Queued (s.arrive k').priority (s.arrive k').stamp (s.kern.suspendThread p) :=
      (h.sorted p hp).congr (fun u _ => hpr u) fun u hu => hst u p hu
    split
    · next hpq =>
      subst hpq
      have hflag : s.flag p = 1 := hp
      rw [hflag, insertFlag_prio]
      have hins := hold.insert (a := s.kern.current) fun b hb => by
        rw [hself, hst b p hb]
        exact hi.past b p hb
      simp only [hpr] at hins
      exact hins
    · exact hold
  · show (k'.thread u).linked = true
    rw [hlinked, hthr]
    rcases hmem u p hu with hu' | ⟨rfl, rfl⟩
    · have hne : u ≠ s.kern.current := by
        rintro rfl
        exact hoff p hu'
      rw [if_neg hne]
      exact hi.linked u p hu'
    · rw [if_pos rfl]
      refine decide_eq_true ?_
      -- with another flag the thread is on no list
      by_contra hle
      have hu' : s.kern.current ∈ k'.suspendThread p := hu
      rw [hlist, hsus, Function.update_self, insertFlag, if_neg (by omega), if_neg (by omega)] at hu'
      exact hoff p hu'
  · show (s.arrive k').stamp u < s.clock + 1
    rcases hmem u p hu with hu' | ⟨rfl, -⟩
    · rw [hst u p hu']
      exact Nat.lt_succ_of_lt (hi.past u p hu')
    · rw [hself]
      exact Nat.lt_succ_self _
  · rcases hmem u p hu with hu' | ⟨rfl, rfl⟩ <;> rcases hmem v p hv with hv' | ⟨rfl, hp⟩
    · rw [hst u p hu', hst v p hv'] at he
      exact hi.inj u v p hu' hv' he
    · rw [hst u p hu', hself] at he
      exact absurd (hi.past u p hu') (by omega)
    · rw [hself, hst v p hv'] at he
      exact absurd (hi.past v p hv') (by omega)
    · rfl

theorem shrinks_of_thread (hsus : k.suspendThread = s.kern.suspendThread)
    (hp : ∀ u, (k.thread u).currentPriority = s.priority u)
    (hl : ∀ u, (k.thread u).linked = (s.kern.thread u).linked) : Shrinks s k :=
  ⟨fun q => by rw [hsus], fun u _ _ => hp u, fun u _ _ => hl u⟩

theorem shrinks_unlink (h : k.suspendThread = s.kern.suspendThread)
    (hp : ∀ u, (k.thread u).currentPriority = s.priority u)
    (hl : ∀ u, (k.thread u).linked = (s.kern.thread u).linked) (t : Nat) :
    Shrinks s (k.unlinkReady t) := by
  have hne : ∀ u q, u ∈ (k.unlinkReady t).suspendThread q → u ≠ t := fun u q hu =>
    (mem_unlinkReady.mp hu).2
  refine ⟨fun q => ?_, fun u q hu => ?_, fun u q hu => ?_⟩
  · rw [← h]
    exact List.filter_sublist
  · rw [unlinkReady_thread, if_neg (hne u q hu)]
    exact hp u
  · rw [unlinkReady_thread, if_neg (hne u q hu)]
    exact hl u

theorem shrinks_resume (h : k.suspendThread = s.kern.suspendThread)
    (hp : ∀ u, (k.thread u).currentPriority = s.priority u)
    (hl : ∀ u, (k.thread u).linked = (s.kern.thread u).linked) (t : Nat) :
    Shrinks s (k.rtThreadResume t) := by
  unfold rtThreadResume
  split
  · exact shrinks_unlink h hp hl t
  · exact shrinks_of_thread h hp hl

theorem setError_fields (k : Kern) (t u : Nat) (e : Int) :
    ((k.setError t e).thread u).currentPriority = (k.thread u).currentPriority ∧
      ((k.setError t e).thread u).linked = (k.thread u).linked := by
  rw [setError_thread]
  split
  · next hu => rw [hu]; exact ⟨rfl, rfl⟩
  · exact ⟨rfl, rfl⟩

/-- Every step but an arrival and a change of a priority only takes threads off the lists. -/
theorem ipcStep_shrinks (hs : ipcStep s act = some s') (hw : ∀ q timer, act ≠ .wait q timer)
    (hc : ∀ u p, act ≠ .changePriority u p) : ∃ k, s' = s.setKern k ∧ Shrinks s k := by
  cases act with
  | preempt u =>
    simp only [ipcStep] at hs
    split at hs <;> cases hs
    exact ⟨_, rfl, shrinks_of_thread rfl (fun _ => rfl) fun _ => rfl⟩
  | wait q timer => exact absurd rfl (hw q timer)
  | wake q =>
    simp only [ipcStep] at hs
    split at hs <;> cases hs
    exact ⟨_, rfl, shrinks_resume rfl (fun _ => rfl) (fun _ => rfl) _⟩
  | wakeError q =>
    simp only [ipcStep] at hs
    split at hs <;> cases hs
    next u _ _ =>
    have hrefl := fun v => setError_fields s.kern u v (-rtError)
    exact ⟨_, rfl, shrinks_resume (k := s.kern.setError u (-rtError)) rfl (fun v => (hrefl v).1)
      (fun v => (hrefl v).2) u⟩
  | suspend u =>
    cases hs
    refine ⟨_, rfl, shrinks_of_thread rtThreadSuspend_suspendThread (fun v => ?_) fun v => ?_⟩
    · rw [rtThreadSuspend_thread]
      split
      · next hv => rw [hv.1]; rfl
      · rfl
    · rw [rtThreadSuspend_thread]
      split
      · next hv => rw [hv.1]
      · rfl
  | resume u =>
    cases hs
    exact ⟨_, rfl, shrinks_resume rfl (fun _ => rfl) (fun _ => rfl) u⟩
  | timeout u =>
    obtain ⟨k, hk, rfl⟩ := Option.map_eq_some_iff.mp hs
    refine ⟨k, rfl, ?_⟩
    unfold rtThreadTimeout at hk
    split at hk <;> cases hk
    have hrefl := fun v => setError_fields s.kern u v (-rtEtimeout)
    exact shrinks_unlink (k := s.kern.setError u (-rtEtimeout)) rfl (fun v => (hrefl v).1)
      (fun v => (hrefl v).2) u
  | sigResume u =>
    obtain ⟨k, hk, rfl⟩ := Option.map_eq_some_iff.mp hs
    refine ⟨k, rfl, ?_⟩
    unfold Kern.sigResume at hk
    split at hk <;> cases hk
    have hun := shrinks_unlink (s := s) rfl (fun _ => rfl) (fun _ => rfl) u
    refine ⟨hun.sub, fun v q hv => ?_, fun v q hv => ?_⟩
    · have hvu : v ≠ u := (mem_unlinkReady.mp hv).2
      rw [setThread_thread, if_neg hvu]
      exact hun.prio v q hv
    · have hvu : v ≠ u := (mem_unlinkReady.mp hv).2
      rw [setThread_thread, if_neg hvu]
      exact hun.linked v q hv
  | sigHandle u =>
    obtain ⟨k, hk, rfl⟩ := Option.map_eq_some_iff.mp hs
    refine ⟨k, rfl, ?_⟩
    unfold Kern.sigHandle at hk
    split at hk <;> cases hk
    refine shrinks_of_thread rfl (fun v => ?_) fun v => ?_
    · rw [setThread_thread]
      split
      · next hv => rw [hv]; rfl
      · rfl
    · rw [setThread_thread]
      split
      · next hv => rw [hv]
      · rfl
  | setError u e =>
    cases hs
    have hrefl := fun v => setError_fields s.kern u v e
    exact ⟨_, rfl, shrinks_of_thread rfl (fun v => (hrefl v).1) fun v => (hrefl v).2⟩
  | changePriority u p => exact absurd rfl (hc u p)

theorem changePriority_priority (s : IpcSys) (u p : Nat) :
    (s.setKern (s.kern.changePriority u p)).priority = Function.update s.priority u p := by
  funext v
  show ((s.kern.changePriority u p).thread v).currentPriority = _
  rw [changePriority_thread, Function.update_apply]
  split <;> rfl

/-- A change of a priority, exactly. -/
theorem changePriority_iff (h : WaitOrder s) (hi : StampInv s) (u p : Nat) :
    WaitOrder (s.setKern (s.kern.changePriority u p)) ↔ KeepsPlace s (.changePriority u p) := by
  have hrekey : ∀ q, s.flag q = 1 → u ∈ s.kern.suspendThread q →
      (Queued (Function.update s.priority u p) s.stamp (s.kern.suspendThread q) ↔
        ∀ v ∈ s.kern.suspendThread q, v ≠ u → (Before s.priority s.stamp u v ↔
          Before (Function.update s.priority u p) s.stamp u v)) := by
    intro q hq hu
    refine (h.sorted q hq).rekey_iff (fun v hv hvu he => hvu ?_)
      (fun v hv => Function.update_of_ne hv ..) hu
    exact (hi.inj u v q hu hv he).symm
  have hprio := changePriority_priority s u p
  constructor
  · intro h' q hq hu
    have hs' := h'.sorted q hq
    rw [hprio] at hs'
    exact (hrekey q hq hu).mp hs'
  · intro hk
    refine .of_sorted fun q hq => ?_
    rw [hprio]
    by_cases hu : u ∈ s.kern.suspendThread q
    · exact (hrekey q hq hu).mpr (hk q hq hu)
    · -- no listed thread changes
      refine (h.sorted q hq).congr (fun v hv => Function.update_of_ne ?_ ..) fun _ _ => rfl
      rintro rfl
      exact hu hv

theorem StampInv.changePriority (hi : StampInv s) (u p : Nat) :
    StampInv (s.setKern (s.kern.changePriority u p)) := by
  refine ⟨fun v q hv => ?_, hi.past, hi.inj⟩
  show ((s.kern.changePriority u p).thread v).linked = true
  rw [changePriority_thread]
  split
  · next hvu => subst hvu; exact hi.linked v q hv
  · exact hi.linked v q hv

/-- A step that meets the condition. -/
theorem WaitOrder.step (h : WaitOrder s) (hi : StampInv s) (hc : KeepsPlace s act)
    (hs : ipcStep s act = some s') : WaitOrder s' ∧ StampInv s' := by
  by_cases hw : ∃ q timer, act = .wait q timer
  · obtain ⟨q, timer, rfl⟩ := hw
    obtain ⟨k, hk, rfl⟩ := Option.map_eq_some_iff.mp hs
    refine arrive_order h hi hk ?_ (fun u => ?_) fun u => ?_
    · split <;> rfl
    · split
      · rw [startTimer_thread]
        split
        · next hu => rw [hu]
        · rfl
      · rfl
    · split
      · rw [startTimer_thread]
        split
        · next hu => rw [hu]
        · rfl
      · rfl
  by_cases hp : ∃ u p, act = .changePriority u p
  · obtain ⟨u, p, rfl⟩ := hp
    cases hs
    exact ⟨(changePriority_iff h hi u p).mpr hc, hi.changePriority u p⟩
  obtain ⟨k, rfl, hk⟩ := ipcStep_shrinks hs (fun q timer e => hw ⟨q, timer, e⟩)
    fun u p e => hp ⟨u, p, e⟩
  exact ⟨h.shrink hk, hi.shrink hk⟩

theorem WaitOrder.lost (h : WaitOrder s) (hi : StampInv s) (hc : ¬ KeepsPlace s act)
    (hs : ipcStep s act = some s') : ¬ WaitOrder s' := by
  cases act with
  | changePriority u p =>
    cases hs
    exact fun h' => hc ((changePriority_iff h hi u p).mp h')
  | _ => exact absurd trivial hc

/-- **The lists of `RT_IPC_FLAG_PRIO` objects are sorted exactly where no change of a priority moves
a waiting thread past another one.** All steps of a run meet the condition if and only if in every
state of it the lists are sorted by priority and arrival. -/
theorem prio_lists_sorted_iff (flag priority : Nat → Nat) (acts : List IpcAct) (s : IpcSys)
    (hx : exec ipcStep (ipcInit flag priority) acts = some s) :
    Along ipcStep KeepsPlace (ipcInit flag priority) acts ↔
      Visits ipcStep WaitOrder (ipcInit flag priority) acts := by
  refine along_iff_visits (I := fun s => WaitOrder s ∧ StampInv s) (fun s h => h.1)
    (fun s act s' h hc hs => h.1.step h.2 hc hs) (fun s act s' h hc hs => h.1.lost h.2 hc hs) hx
    ⟨.of_sorted fun _ _ => List.Pairwise.nil, ?_⟩
  exact ⟨fun _ _ h => absurd h List.not_mem_nil, fun _ _ h => absurd h List.not_mem_nil,
    fun _ _ _ h => absurd h List.not_mem_nil⟩

/-- Three threads of the priorities 20, 15 and 15 wait for a `RT_IPC_FLAG_PRIO` object; the first
one to arrive is then raised to 18, and its place is as before. -/
theorem prio_lists_sorted_three : Visits ipcStep WaitOrder
    (ipcInit (fun _ => 1) fun t => if t = 0 then 20 else 15)
    [.wait 0 false, .preempt 1, .wait 0 true, .preempt 2, .wait 0 false, .changePriority 0 18,
      .wake 0] := by
  refine (prio_lists_sorted_iff (fun _ => 1) _ _ _ rfl).mp ?_
  refine ⟨trivial, trivial, trivial, trivial, trivial, fun q _ hu v hv hvu => ?_, trivial, trivial⟩
  rcases q with _ | q
  · have hlist : v ∈ [1, 2, 0] := hv
    rcases List.mem_cons.mp hlist with rfl | hlist
    · decide
    rcases List.mem_cons.mp hlist with rfl | hlist
    · decide
    · exact absurd (List.mem_singleton.mp hlist) hvu
  · cases hu

/-- The thread 0 (priority 20) waits behind the thread 1 (priority 15) when a thread of priority 10
that waits for its mutex raises it to 10. -/
theorem raised_waiter_stays : ¬ ∀ (flag priority : Nat → Nat) (acts : List IpcAct) (s : IpcSys),
    exec ipcStep (ipcInit flag priority) acts = some s → WaitOrder s := by
  intro h
  have hle := (h (fun _ => 1) (fun t => if t = 0 then 20 else 15)
    [.wait 0 false, .preempt 1, .wait 0 false, .changePriority 0 10] _ rfl).first 0 1 0 rfl rfl
      (by decide)
  exact absurd hle (by decide)

end Tudu.Ipc
