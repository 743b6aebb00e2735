import Mathlib.Algebra.Group.Nat.Defs
import TuduOS.Kernel.Thread

/-!
# What the thread operations leave

* For each operation of `Kernel/Thread.lean`: what every thread is afterwards, and who is on the
  lists. These are the facts that the models of the IPC objects use.
* `waitOn`, `resumeFirst`, `restTime`: what the functions of `ipc.c` do alike where they wait, wake
  a waiting thread up, and go on after a wait.
-/

namespace Tudu

namespace Kern

theorem mem_listInsertBefore_of_mem {r n x : Nat} {l : List Nat} (h : x ∈ l) :
    x ∈ listInsertBefore r n l := by
  induction l with
  | nil => cases h
  | cons y l ih =>
    unfold listInsertBefore
    split
    · exact List.mem_cons_of_mem _ h
    · rcases List.mem_cons.mp h with rfl | h
      · exact List.mem_cons_self
      · exact List.mem_cons_of_mem _ (ih h)

variable {k k' : Kern} {t u q p flag : Nat} {e : Int}

@[simp] theorem setError_current : (k.setError t e).current = k.current := rfl
@[simp] theorem setError_suspendThread : (k.setError t e).suspendThread = k.suspendThread := rfl

@[simp] theorem setError_thread : (k.setError t e).thread u =
    if u = t then { k.thread t with error := e } else k.thread u :=
  setThread_thread _

@[simp] theorem changePriority_current : (k.changePriority t p).current = k.current := rfl

@[simp] theorem changePriority_suspendThread :
    (k.changePriority t p).suspendThread = k.suspendThread := rfl

@[simp] theorem changePriority_thread : (k.changePriority t p).thread u =
    if u = t then { k.thread t with currentPriority := p } else k.thread u :=
  setThread_thread _

@[simp] theorem startTimer_current : (k.startTimer t).current = k.current := rfl
@[simp] theorem startTimer_suspendThread : (k.startTimer t).suspendThread = k.suspendThread := rfl

@[simp] theorem startTimer_thread : (k.startTimer t).thread u =
    if u = t then { k.thread t with timer := true } else k.thread u :=
  setThread_thread _

/-! ## Suspend -/

@[simp] theorem rtThreadSuspend_current : (k.rtThreadSuspend t).current = k.current := by
  unfold rtThreadSuspend
  split <;> rfl

@[simp] theorem rtThreadSuspend_suspendThread :
    (k.rtThreadSuspend t).suspendThread = k.suspendThread := by
  unfold rtThreadSuspend
  split <;> rfl

theorem rtThreadSuspend_thread : (k.rtThreadSuspend t).thread u =
    if u = t ∧ (k.thread t).stat = .ready then
      { k.thread t with stat := .suspend, timer := false } else k.thread u := by
  unfold rtThreadSuspend
  split <;> simp [*]

/-- The thread is suspended on the list; a flag that is not an order puts it on none. -/
theorem rtIpcListSuspend_some (h : k.rtIpcListSuspend q t flag = some k') :
    (k.thread t).linked = false ∧ k'.current = k.current ∧
      k'.suspendThread = Function.update k.suspendThread q
        (k.insertFlag t flag (k.suspendThread q)) ∧
      ∀ u, k'.thread u = if u = t then
        { (k.rtThreadSuspend t).thread t with linked := decide (flag ≤ 1) } else k.thread u := by
  unfold rtIpcListSuspend rtIpcListInsert at h
  have hl : ((k.rtThreadSuspend t).thread t).linked = (k.thread t).linked := by
    rw [rtThreadSuspend_thread]
    split <;> rfl
  have hp : ∀ u, ((k.rtThreadSuspend t).thread u).currentPriority =
      (k.thread u).currentPriority := by
    intro u
    rw [rtThreadSuspend_thread]
    split
    · next hu => rw [hu.1]
    · rfl
  split at h
  · cases h
  · next hn =>
    cases h
    refine ⟨?_, rtThreadSuspend_current, ?_, fun u => ?_⟩
    · rw [← hl]
      exact Bool.eq_false_iff.mpr hn
    · have hi : ∀ l, (k.rtThreadSuspend t).insertFlag t flag l = k.insertFlag t flag l := by
        intro l
        simp only [insertFlag, hp]
      show Function.update _ _ _ = _
      rw [rtThreadSuspend_suspendThread, hi]
    · show (Kern.setThread _ _ _).thread u = _
      rw [setThread_thread, rtThreadSuspend_thread (u := u)]
      split
      · rfl
      · next hu => rw [if_neg fun e => hu e.1]

theorem mem_insertFlag_of_mem {l : List Nat} (h : u ∈ l) : u ∈ k.insertFlag t flag l := by
  unfold insertFlag
  split_ifs
  · exact List.mem_append_left _ h
  · split
    · exact mem_listInsertBefore_of_mem h
    · exact List.mem_append_left _ h
  · exact h

/-- What a thread that is suspended on a list keeps. -/
theorem rtIpcListSuspend_fields (h : k.rtIpcListSuspend q t flag = some k') (u : Nat) :
    (k'.thread u).error = (k.thread u).error ∧
      (k'.thread u).currentPriority = (k.thread u).currentPriority ∧
      (k'.thread u).sigPending = (k.thread u).sigPending := by
  obtain ⟨-, -, -, hthr⟩ := rtIpcListSuspend_some h
  rw [hthr, rtThreadSuspend_thread]
  split
  · next hu =>
    subst hu
    split <;> exact ⟨rfl, rfl, rfl⟩
  · exact ⟨rfl, rfl, rfl⟩

theorem mem_rtIpcListSuspend (h : k.rtIpcListSuspend q t flag = some k')
    (hu : u ∈ k'.suspendThread p) : u ∈ k.suspendThread p ∨ u = t ∧ p = q := by
  obtain ⟨-, -, hsus, -⟩ := rtIpcListSuspend_some h
  rw [hsus, Function.update_apply] at hu
  split at hu
  · next hp =>
    subst hp
    exact (mem_insertFlag hu).elim (fun e => .inr ⟨e, rfl⟩) .inl
  · exact .inl hu

theorem mem_rtIpcListSuspend_of_mem (h : k.rtIpcListSuspend q t flag = some k')
    (hu : u ∈ k.suspendThread p) : u ∈ k'.suspendThread p := by
  obtain ⟨-, -, hsus, -⟩ := rtIpcListSuspend_some h
  rw [hsus, Function.update_apply]
  split
  · next hp =>
    subst hp
    exact mem_insertFlag_of_mem hu
  · exact hu

/-! ## Resume and timeout -/

@[simp] theorem rtThreadResume_current : (k.rtThreadResume t).current = k.current := by
  unfold rtThreadResume
  split <;> rfl

theorem rtThreadResume_thread : (k.rtThreadResume t).thread u =
    if u = t ∧ (k.thread t).stat = .suspend then
      { k.thread t with stat := .ready, timer := false, linked := false } else k.thread u := by
  unfold rtThreadResume
  split <;> simp [*]

theorem mem_rtThreadResume : u ∈ (k.rtThreadResume t).suspendThread q ↔
    u ∈ k.suspendThread q ∧ (u = t → (k.thread t).stat ≠ .suspend) := by
  unfold rtThreadResume
  split <;> simp [*]

theorem rtThreadTimeout_some (h : k.rtThreadTimeout t = some k') :
    (k.thread t).stat = .suspend ∧ (k.thread t).timer = true ∧ k'.current = k.current ∧
      (∀ u, k'.thread u = if u = t then
        { k.thread t with stat := .ready, error := -rtEtimeout, timer := false, linked := false }
        else k.thread u) ∧
      ∀ q, k'.suspendThread q = (k.suspendThread q).filter (· ≠ t) := by
  unfold rtThreadTimeout at h
  split at h
  · next hs =>
    cases h
    refine ⟨hs.1, hs.2, rfl, fun u => ?_, fun _ => rfl⟩
    by_cases hu : u = t <;> simp [hu]
  · cases h

/-! ## The waits of the IPC functions -/

/-- The wait that an IPC function begins for the current thread: `error` is reset, the thread goes
on the list `q`, and its timer starts if the wait has an end. -/
def waitOn (k : Kern) (q flag : Nat) (timeout : Int) : Option Kern :=
  ((k.setError k.current rtEok).rtIpcListSuspend q k.current flag).map fun k' =>
    if timeout > 0 then k'.startTimer k.current else k'

/-- `rt_ipc_list_resume` of a list that may be empty. -/
def resumeFirst (k : Kern) (q : Nat) : Kern :=
  match k.suspendThread q with
  | u :: _ => k.rtThreadResume u
  | [] => k

/-- One round of `rt_ipc_list_resume_all`. -/
def resumeOne (k : Kern) (u : Nat) : Kern := (k.setError u (-rtError)).rtThreadResume u

/-- `rt_ipc_list_resume_all`: each round takes the first thread off the list. -/
def resumeAll (k : Kern) (q : Nat) : Kern := (k.suspendThread q).foldl resumeOne k

/-- `timeout` (`rt_int32_t`) less the ticks (`rt_uint32_t`) since the wait began at `delta`. -/
def restTime (timeout : Int) (delta tick : Nat) : Int :=
  if timeout > 0 then
    let rest := (timeout - ((tick + (2 ^ 32 - delta)) % 2 ^ 32 : Nat)).bmod (2 ^ 32)
    if rest < 0 then 0 else rest
  else timeout

/-- The variable `tick_delta` behind a wait. -/
def restDelta (timeout : Int) (delta tick : Nat) : Nat :=
  if timeout > 0 then (tick + (2 ^ 32 - delta)) % 2 ^ 32 else delta

variable {timeout : Int}

/-- A wait is a suspension on the list, but for the timer of the thread. -/
theorem waitOn_some (h : k.waitOn q flag timeout = some k') :
    ∃ k1, (k.setError k.current rtEok).rtIpcListSuspend q k.current flag = some k1 ∧
      k'.suspendThread = k1.suspendThread ∧ (∀ u, u ≠ k.current → k'.thread u = k1.thread u) ∧
      (k'.thread k.current).stat = (k1.thread k.current).stat ∧
      (k'.thread k.current).error = (k1.thread k.current).error := by
  obtain ⟨k1, hk, rfl⟩ := Option.map_eq_some_iff.mp h
  refine ⟨k1, hk, ?_, fun u hu => ?_, ?_, ?_⟩
  · split <;> rfl
  · split
    · rw [startTimer_thread, if_neg hu]
    · rfl
  · split
    · rw [startTimer_thread, if_pos rfl]
    · rfl
  · split
    · rw [startTimer_thread, if_pos rfl]
    · rfl

theorem waitOn_thread (h : k.waitOn q flag timeout = some k') (hu : u ≠ k.current) :
    k'.thread u = k.thread u := by
  obtain ⟨k1, hk, -, hthr, -⟩ := waitOn_some h
  obtain ⟨-, -, -, hthr₁⟩ := rtIpcListSuspend_some hk
  rw [hthr u hu, hthr₁, if_neg hu, setError_thread, if_neg hu]

theorem waitOn_self (h : k.waitOn q flag timeout = some k') :
    (k'.thread k.current).stat = .suspend ∧ (k'.thread k.current).error = rtEok := by
  obtain ⟨k1, hk, -, -, hstat, herr⟩ := waitOn_some h
  obtain ⟨-, -, -, hthr₁⟩ := rtIpcListSuspend_some hk
  rw [hstat, herr, hthr₁, if_pos rfl, rtThreadSuspend_thread]
  split
  · simp
  · next hn =>
    -- the thread was suspended before
    simp only [setError_thread, if_true, true_and] at hn ⊢
    cases hst : (k.thread k.current).stat with
    | ready => exact absurd hst hn
    | suspend => exact ⟨rfl, trivial⟩

theorem mem_waitOn (h : k.waitOn q flag timeout = some k') (hu : u ∈ k'.suspendThread p) :
    u ∈ k.suspendThread p ∨ u = k.current ∧ p = q := by
  obtain ⟨k1, hk, hlist, -⟩ := waitOn_some h
  rw [hlist] at hu
  have hmem := mem_rtIpcListSuspend hk hu
  rwa [setError_suspendThread] at hmem

theorem nodup_waitOn (h : k.waitOn q flag timeout = some k') (hn : ∀ p, (k.suspendThread p).Nodup)
    (ht : k.current ∉ k.suspendThread q) (p : Nat) : (k'.suspendThread p).Nodup := by
  obtain ⟨k1, hk, hlist, -⟩ := waitOn_some h
  obtain ⟨-, -, hsus, -⟩ := rtIpcListSuspend_some hk
  rw [hlist, hsus, Function.update_apply]
  split
  · next hp =>
    subst hp
    exact nodup_insertFlag (hn p) ht
  · exact hn p

end Kern

end Tudu
