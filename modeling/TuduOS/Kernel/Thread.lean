import Mathlib.Logic.Function.Basic
import Mathlib.Tactic.SplitIfs
import TuduOS.Kernel.Def

/-!
# Threads and the suspend lists of IPC objects (`thread.c`, `ipc.c`)

A thread and an IPC object are named by a number. One processor: `current` is the thread that
runs, and an interrupt may put any ready thread in its place. The model does not tell
`RT_THREAD_RUNNING` from `RT_THREAD_READY`; a thread may run on for a while after it has suspended
itself, until it calls `rt_schedule`.

* `rtThreadSuspend`, `rtThreadResume`, `rtThreadTimeout`: `thread.c`. Taking a thread off the list
  that its `tlist` is on takes it off every list.
* `rtIpcListInsert`, `rtIpcListSuspend`: `ipc.c`. A thread that is on a list already cannot be put
  on one: the C code would break both lists.
* `sigResume`, `sigHandle`: a signal resumes a suspended thread (`_signal_deliver`), and its
  handling leaves `-RT_EINTR` in `error` (`rt_thread_handle_sig`).
-/

namespace Tudu

inductive ThreadStat where
  | ready | suspend
  deriving DecidableEq

structure Thread where
  stat : ThreadStat
  error : Int
  currentPriority : Nat
  /-- The thread's timer runs. -/
  timer : Bool
  /-- `tlist` is on a suspend list. -/
  linked : Bool
  /-- `RT_THREAD_STAT_SIGNAL_PENDING`: the thread was resumed to handle a signal. -/
  sigPending : Bool
  deriving DecidableEq

structure Kern where
  current : Nat
  thread : Nat → Thread
  /-- The `suspend_thread` list of each IPC object. -/
  suspendThread : Nat → List Nat

namespace Kern

def setThread (k : Kern) (t : Nat) (x : Thread) : Kern :=
  { k with thread := Function.update k.thread t x }

def setError (k : Kern) (t : Nat) (e : Int) : Kern :=
  k.setThread t { k.thread t with error := e }

/-- `rt_thread_control(t, RT_THREAD_CTRL_CHANGE_PRIORITY, &p)` -/
def changePriority (k : Kern) (t p : Nat) : Kern :=
  k.setThread t { k.thread t with currentPriority := p }

/-- `rt_timer_start(&t->thread_timer)` -/
def startTimer (k : Kern) (t : Nat) : Kern :=
  k.setThread t { k.thread t with timer := true }

def rtThreadSuspend (k : Kern) (t : Nat) : Kern :=
  if (k.thread t).stat = .ready then
    k.setThread t { k.thread t with stat := .suspend, timer := false }
  else k

/-- The thread leaves its list and is ready. -/
def unlinkReady (k : Kern) (t : Nat) : Kern :=
  { k.setThread t { k.thread t with stat := .ready, timer := false, linked := false } with
    suspendThread := fun q => (k.suspendThread q).filter (· ≠ t) }

def rtThreadResume (k : Kern) (t : Nat) : Kern :=
  if (k.thread t).stat = .suspend then k.unlinkReady t else k

/-- `rt_thread_timeout`: the timer of a suspended thread expires. -/
def rtThreadTimeout (k : Kern) (t : Nat) : Option Kern :=
  if (k.thread t).stat = .suspend ∧ (k.thread t).timer = true then
    some ((k.setError t (-rtEtimeout)).unlinkReady t)
  else none

/-- A signal resumes a suspended thread, to be handled when the thread runs. -/
def sigResume (k : Kern) (t : Nat) : Option Kern :=
  if (k.thread t).stat = .suspend then
    let k := k.unlinkReady t
    some (k.setThread t { k.thread t with sigPending := true })
  else none

/-- `rt_thread_handle_sig` of a thread that is not suspended. -/
def sigHandle (k : Kern) (t : Nat) : Option Kern :=
  if (k.thread t).stat = .ready then
    some (k.setThread t { k.thread t with error := -rtEintr, sigPending := false })
  else none

/-- The place in the suspend list: the end (`RT_IPC_FLAG_FIFO`), or before the first thread of
lower priority (`RT_IPC_FLAG_PRIO`). -/
def insertFlag (k : Kern) (t flag : Nat) (l : List Nat) : List Nat :=
  if flag = 0 then l ++ [t]
  else if flag = 1 then
    match l.find? fun u => (k.thread t).currentPriority < (k.thread u).currentPriority with
    | some u => listInsertBefore u t l
    | none => l ++ [t]
  else l

/-- The second half of `rt_ipc_list_suspend`: the thread goes on the list of `q`. -/
def rtIpcListInsert (k : Kern) (q t flag : Nat) : Option Kern :=
  if (k.thread t).linked then none
  else some { k.setThread t { k.thread t with linked := decide (flag ≤ 1) } with
    suspendThread := Function.update k.suspendThread q (k.insertFlag t flag (k.suspendThread q)) }

def rtIpcListSuspend (k : Kern) (q t flag : Nat) : Option Kern :=
  (k.rtThreadSuspend t).rtIpcListInsert q t flag

/-! ## What the operations leave -/

variable {k k' : Kern} {t u q flag : Nat}

@[simp] theorem setThread_current (x : Thread) : (k.setThread t x).current = k.current := rfl

@[simp] theorem setThread_suspendThread (x : Thread) :
    (k.setThread t x).suspendThread = k.suspendThread := rfl

@[simp] theorem setThread_thread (x : Thread) :
    (k.setThread t x).thread u = if u = t then x else k.thread u := by
  simp only [setThread, Function.update_apply]

@[simp] theorem unlinkReady_current : (k.unlinkReady t).current = k.current := rfl

@[simp] theorem unlinkReady_thread : (k.unlinkReady t).thread u =
    if u = t then { k.thread t with stat := .ready, timer := false, linked := false }
    else k.thread u :=
  setThread_thread _

@[simp] theorem mem_unlinkReady : u ∈ (k.unlinkReady t).suspendThread q ↔
    u ∈ k.suspendThread q ∧ u ≠ t := by
  simp [unlinkReady]

theorem mem_insertFlag {l : List Nat} (h : u ∈ k.insertFlag t flag l) : u = t ∨ u ∈ l := by
  unfold insertFlag at h
  split_ifs at h
  · rcases List.mem_append.mp h with h | h
    · exact .inr h
    · exact .inl (List.mem_singleton.mp h)
  · split at h
    · exact mem_listInsertBefore h
    · rcases List.mem_append.mp h with h | h
      · exact .inr h
      · exact .inl (List.mem_singleton.mp h)
  · exact .inr h

theorem nodup_insertFlag {l : List Nat} (hl : l.Nodup) (ht : t ∉ l) :
    (k.insertFlag t flag l).Nodup := by
  have happ : (l ++ [t]).Nodup := by
    rw [List.nodup_append]
    refine ⟨hl, List.nodup_cons.mpr ⟨List.not_mem_nil, .nil⟩, fun a ha b hb => ?_⟩
    rintro rfl
    exact ht (List.mem_singleton.mp hb ▸ ha)
  unfold insertFlag
  split_ifs
  · exact happ
  · split
    · exact nodup_listInsertBefore hl ht
    · exact happ
  · exact hl

/-- What a thread that goes on a list leaves. -/
theorem rtIpcListInsert_some (h : k.rtIpcListInsert q t flag = some k') :
    k'.current = k.current ∧
      (∀ u, k'.thread u = if u = t then { k.thread t with linked := decide (flag ≤ 1) }
        else k.thread u) ∧
      (∀ u p, u ∈ k'.suspendThread p → u ∈ k.suspendThread p ∨ u = t ∧ p = q) ∧
      ((∀ p, (k.suspendThread p).Nodup) → (∀ p, t ∉ k.suspendThread p) →
        ∀ p, (k'.suspendThread p).Nodup) := by
  unfold rtIpcListInsert at h
  split at h
  · cases h
  · cases h
    refine ⟨rfl, fun u => setThread_thread _, fun u p hu => ?_, fun hn ht p => ?_⟩
    rotate_left
    · by_cases hp : p = q
      · subst hp
        simp only [Function.update_self]
        exact nodup_insertFlag (hn p) (ht p)
      · simp only [Function.update_of_ne hp]
        exact hn p
    by_cases hp : p = q
    · subst hp
      simp only [Function.update_self] at hu
      exact (mem_insertFlag hu).elim (fun e => .inr ⟨e, rfl⟩) .inl
    · simp only [Function.update_of_ne hp] at hu
      exact .inl hu

end Kern

end Tudu
