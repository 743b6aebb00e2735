import TuduOS.Kernel.Wait

/-!
# Wait queues (`waitqueue.c`)

A node of the list is the thread that waits (`polling_thread`), with the wake-up function
`__wqueue_default_wake`. All waits are without an end (`msec` is -1), so no timer runs.

* `wakeup`: `rt_wqueue_wakeup`, one section with interrupts disabled.
* `wait`, `waitEnd`: the sections of `rt_wqueue_wait`, before and behind `rt_schedule`.
-/

namespace Tudu

structure RtWqueue where
  /-- `RT_WQ_FLAG_WAKEUP` -/
  flag : Bool
  waitingList : List Nat
  deriving DecidableEq

namespace RtWqueue

def init : RtWqueue := ⟨false, []⟩

/-- The first waiter is resumed and leaves the list. -/
def wakeup (q : RtWqueue) (k : Kern) : RtWqueue × Kern :=
  match q.waitingList with
  | [] => ({ q with flag := true }, k)
  | u :: l => (⟨true, l⟩, k.rtThreadResume u)

/-- The thread `t` goes on the list and is suspended, or finds the flag, which it clears. -/
def wait (q : RtWqueue) (k : Kern) (t : Nat) : RtWqueue × Kern :=
  if q.flag then ({ q with flag := false }, k)
  else ({ q with waitingList := q.waitingList ++ [t] }, k.rtThreadSuspend t)

/-- Behind `rt_schedule`. -/
def waitEnd (q : RtWqueue) (t : Nat) : RtWqueue :=
  ⟨false, q.waitingList.filter (· ≠ t)⟩

variable {q : RtWqueue} {k : Kern} {u v : Nat}

theorem wakeup_fst : (q.wakeup k).1 = ⟨true, q.waitingList.tail⟩ := by
  unfold wakeup
  cases q.waitingList with
  | nil => simp
  | cons u l => rfl

theorem wakeup_current : (q.wakeup k).2.current = k.current := by
  unfold wakeup
  cases q.waitingList with
  | nil => rfl
  | cons u l => exact Kern.rtThreadResume_current

theorem wait_current {t : Nat} : (q.wait k t).2.current = k.current := by
  unfold wait
  split
  · rfl
  · exact Kern.rtThreadSuspend_current

/-- The other threads are as they were. -/
theorem wait_thread {t : Nat} (hu : u ≠ t) : (q.wait k t).2.thread u = k.thread u := by
  unfold wait
  split
  · rfl
  · rw [Kern.rtThreadSuspend_thread, if_neg fun h => hu h.1]

/-- A thread that was taken off the list before. -/
theorem waitEnd_of_not_mem {t : Nat} (h : t ∉ q.waitingList) :
    q.waitEnd t = ⟨false, q.waitingList⟩ := by
  have hself : q.waitingList.filter (· ≠ t) = q.waitingList :=
    List.filter_eq_self.mpr fun u hu => decide_eq_true fun he => h (he ▸ hu)
  rw [waitEnd, hself]

/-- The first waiter, which is suspended, is ready then. -/
theorem wakeup_stat (h : ∀ u ∈ q.waitingList, (k.thread u).stat = .suspend) :
    ((q.wakeup k).2.thread v).stat =
      if q.waitingList.head? = some v then .ready else (k.thread v).stat := by
  unfold wakeup
  cases hl : q.waitingList with
  | nil => rfl
  | cons u l =>
    have hu : (k.thread u).stat = .suspend := h u (by rw [hl]; exact List.mem_cons_self)
    simp only [Kern.rtThreadResume_thread, hu, and_true, List.head?_cons, Option.some.injEq]
    by_cases hv : v = u
    · rw [if_pos hv, if_pos hv.symm]
    · rw [if_neg hv, if_neg fun he => hv he.symm]

theorem mem_tail_iff (h : q.waitingList.Nodup) :
    v ∈ q.waitingList.tail ↔ v ∈ q.waitingList ∧ q.waitingList.head? ≠ some v := by
  cases hl : q.waitingList with
  | nil => simp
  | cons u l =>
    rw [hl] at h
    have hu := (List.nodup_cons.mp h).1
    simp only [List.tail_cons, List.mem_cons, List.head?_cons, ne_eq, Option.some.injEq]
    constructor
    · exact fun hv => ⟨.inr hv, fun he => hu (he ▸ hv)⟩
    · exact fun hv => hv.1.resolve_left fun he => hv.2 he.symm

end RtWqueue

end Tudu
