import Mathlib.Data.List.Count
import Mathlib.Logic.Function.Basic
import TuduOS.Lib.Lts

/-!
# Condition variables (`pthread_cond.c`)

A condition variable is a semaphore. Any number of threads; a section with interrupts disabled is
one step, and `pthread_cond_broadcast` is one too, since it runs with the scheduler locked. Between
two steps any thread may run, and a free mutex may be taken by anyone.

* A thread in `pthread_cond_wait` is in `unlocked` when it has released the mutex, in the list of
  the semaphore when it is suspended, and in `woken` until it has the mutex again. In none of them
  it is in code of its own.
* The ghost `epoch` counts the broadcasts made by the owner of the mutex, and `since t` is its value
  when `t` released the mutex.
* The ghost `idle` has an entry for each token of the semaphore, the oldest first: was it made when
  no thread waited? `spurious`: such a token has let a thread through.

A broadcast wakes the suspended threads and leaves one token, so that of the threads that have
released the mutex and are not suspended yet at most one gets through, and only if no other thread
takes the token before. `cond_wakes` says that this, and signals that nobody waits for, are all that
may go wrong.
-/

namespace Tudu.Pthread

open Lts

/-- The semaphore of a `pthread_cond_t`. -/
structure CondSem where
  /-- `rt_uint16_t` -/
  value : Nat
  suspendThread : List Nat
  deriving DecidableEq

namespace CondSem

/-- `rt_sem_trytake` -/
def trytake (s : CondSem) : Option CondSem :=
  if 0 < s.value then some { s with value := s.value - 1 } else none

/-- `rt_sem_release`, and the thread that it resumes. -/
def release (s : CondSem) : CondSem × List Nat :=
  match s.suspendThread with
  | [] => ({ s with value := (s.value + 1) % 65536 }, [])
  | t :: ts => ({ s with suspendThread := ts }, [t])

/-- The loop of `pthread_cond_broadcast`, and the threads that it resumes. -/
def broadcastLoop : Nat → CondSem → Option (CondSem × List Nat)
  | 0, _ => none
  | fuel + 1, s =>
    match s.trytake with
    | some s => some s.release
    | none => (broadcastLoop fuel s.release.1).map fun r => (r.1, s.release.2 ++ r.2)

/-- `pthread_cond_broadcast`; each turn of its loop but two resumes a thread. -/
def broadcast (s : CondSem) : Option (CondSem × List Nat) :=
  s.broadcastLoop (s.suspendThread.length + 2)

/-- What holds of a semaphore: it has no token for a suspended thread. -/
structure Good (s : CondSem) : Prop where
  empty : 0 < s.value → s.suspendThread = []
  small : s.value < 65536

variable {s : CondSem}

theorem trytake_zero (h : s.value = 0) : s.trytake = none :=
  if_neg (by omega)

theorem broadcastLoop_zero (ts : List Nat) {fuel : Nat} (hf : ts.length + 2 ≤ fuel) :
    broadcastLoop fuel ⟨0, ts⟩ = some (⟨1, []⟩, ts) := by
  induction ts generalizing fuel with
  | nil =>
    obtain ⟨n, rfl⟩ : ∃ n, fuel = n + 2 := ⟨fuel - 2, by rw [List.length_nil] at hf; omega⟩
    rfl
  | cons t ts ih =>
    obtain ⟨n, rfl⟩ : ∃ n, fuel = n + 1 := ⟨fuel - 1, by omega⟩
    have hn : ts.length + 2 ≤ n := by
      rw [List.length_cons] at hf
      omega
    have hrel : release ⟨0, t :: ts⟩ = (⟨0, ts⟩, [t]) := rfl
    rw [broadcastLoop, trytake_zero rfl]
    simp only [hrel, ih hn, Option.map_some, List.singleton_append]

/-- A broadcast resumes every suspended thread, and leaves a token. -/
theorem broadcast_eq (h : s.Good) : s.broadcast = some (⟨max s.value 1, []⟩, s.suspendThread) := by
  obtain ⟨v, ts⟩ := s
  cases v with
  | zero => exact broadcastLoop_zero ts (Nat.le_refl _)
  | succ v =>
    obtain rfl : ts = [] := h.empty (Nat.succ_pos v)
    have hv : v + 1 < 65536 := h.small
    have hmod : (v + 1) % 65536 = max (v + 1) 1 := by omega
    show some (release ⟨v, []⟩) = _
    rw [release, hmod]

end CondSem

structure CondSys where
  /-- Of the mutex. -/
  owner : Option Nat
  sem : CondSem
  unlocked : List Nat
  woken : List Nat
  since : Nat → Nat
  epoch : Nat
  idle : List Bool
  spurious : Bool

inductive CondAct where
  /-- The thread `t` takes the mutex, in code of its own. -/
  | lock (t : Nat)
  | unlock (t : Nat)
  /-- It calls `pthread_cond_wait`, and releases the mutex there. -/
  | wait (t : Nat)
  /-- The section of `rt_sem_take`. -/
  | take (t : Nat)
  /-- It takes the mutex again, and returns from `pthread_cond_wait`. -/
  | relock (t : Nat)
  | signal (t : Nat)
  | broadcast (t : Nat)
  deriving DecidableEq

namespace CondSys

/-- The thread is in code of its own. -/
def Free (s : CondSys) (t : Nat) : Prop :=
  t ∉ s.unlocked ∧ t ∉ s.sem.suspendThread ∧ t ∉ s.woken

/-- No thread has released the mutex in `pthread_cond_wait` and not been woken. -/
def NoneWaits (s : CondSys) : Prop := s.unlocked = [] ∧ s.sem.suspendThread = []

instance (s : CondSys) (t : Nat) : Decidable (s.Free t) :=
  inferInstanceAs (Decidable (_ ∧ _ ∧ _))

instance (s : CondSys) : Decidable s.NoneWaits :=
  inferInstanceAs (Decidable (_ ∧ _))

/-- `rt_sem_take`, of a thread that waits for ever. -/
def take (s : CondSys) (t : Nat) : CondSys :=
  match s.sem.trytake with
  | some sem =>
    { s with
      sem := sem, unlocked := s.unlocked.erase t, woken := t :: s.woken
      idle := s.idle.tail, spurious := s.spurious || s.idle.headD false }
  | none =>
    { s with
      sem := { s.sem with suspendThread := s.sem.suspendThread ++ [t] }
      unlocked := s.unlocked.erase t }

/-- `pthread_cond_signal` -/
def signal (s : CondSys) : CondSys :=
  { s with
    sem := s.sem.release.1
    woken := s.sem.release.2 ++ s.woken
    idle := if s.sem.suspendThread = [] then s.idle ++ [decide s.NoneWaits] else s.idle }

/-- `pthread_cond_broadcast`, called by the thread `t`; the last turn of its loop takes a token
and makes one. -/
def broadcast (s : CondSys) (t : Nat) : Option CondSys :=
  s.sem.broadcast.map fun r =>
    { s with
      sem := r.1
      woken := r.2 ++ s.woken
      epoch := if s.owner = some t then s.epoch + 1 else s.epoch
      idle := s.idle.tail ++ [decide s.NoneWaits] }

end CondSys

def condStep (s : CondSys) : CondAct → Option CondSys
  | .lock t => if s.owner = none ∧ s.Free t then some { s with owner := some t } else none
  | .unlock t => if s.owner = some t then some { s with owner := none } else none
  | .wait t =>
    if s.owner = some t then
      some { s with
        owner := none, unlocked := t :: s.unlocked
        since := Function.update s.since t s.epoch }
    else none
  | .take t => if t ∈ s.unlocked then some (s.take t) else none
  | .relock t =>
    if s.owner = none ∧ t ∈ s.woken then
      some { s with owner := some t, woken := s.woken.erase t }
    else none
  | .signal t => if s.Free t then some s.signal else none
  | .broadcast t => if s.Free t then s.broadcast t else none

/-- `pthread_cond_init`, with the mutex free. -/
def condInit : CondSys := ⟨none, ⟨0, []⟩, [], [], fun _ => 0, 0, [], false⟩

/-! ## The property and the condition -/

/-- The property: no thread that had released the mutex before the last broadcast of an owner of it
is suspended, and no token made when no thread waited has let a thread through. -/
structure Wakes (s : CondSys) : Prop where
  broadcast : ∀ t ∈ s.sem.suspendThread, s.since t = s.epoch
  later : s.spurious = false

/-- The threads that had released the mutex before the last broadcast and are still to take the
semaphore. -/
def CondSys.early (s : CondSys) : Nat := s.unlocked.countP fun t => s.since t < s.epoch

/-- What a step is not to do.
* Nobody signals or broadcasts while no thread waits; a signal does not overflow `value` while one
  of the `early` threads counts on it.
* A broadcast of the owner finds a token for each thread that is not suspended yet.
* No other thread takes a token that is for one of these. -/
def Heard (s : CondSys) : CondAct → Prop
  | .signal _ => ¬ s.NoneWaits ∧ (s.sem.value = 65535 → s.early = 0)
  | .broadcast t => ¬ s.NoneWaits ∧ (s.owner = some t → s.unlocked.length ≤ max s.sem.value 1)
  | .take t => s.since t = s.epoch → s.early < s.sem.value ∨ s.sem.value = 0
  | _ => True

instance (s : CondSys) : (act : CondAct) → Decidable (Heard s act)
  | .signal _ => inferInstanceAs (Decidable (_ ∧ (_ → _)))
  | .broadcast _ => inferInstanceAs (Decidable (_ ∧ (_ → _)))
  | .take _ => inferInstanceAs (Decidable (_ → _ ∨ _))
  | .lock _ => inferInstanceAs (Decidable True)
  | .unlock _ => inferInstanceAs (Decidable True)
  | .wait _ => inferInstanceAs (Decidable True)
  | .relock _ => inferInstanceAs (Decidable True)

/-! ## The invariant -/

structure CondInv (s : CondSys) : Prop where
  good : s.sem.Good
  since : ∀ t, s.since t ≤ s.epoch
  early : s.early ≤ s.sem.value
  suspended : ∀ t ∈ s.sem.suspendThread, s.since t = s.epoch
  idle : ∀ b ∈ s.idle, b = false
  later : s.spurious = false

variable {s s' : CondSys} {act : CondAct} {t : Nat}

theorem CondInv.wakes (h : CondInv s) : Wakes s := ⟨h.suspended, h.later⟩

theorem condInit_inv : CondInv condInit where
  good := ⟨fun _ => rfl, by decide⟩
  since := fun _ => Nat.le_refl 0
  early := Nat.le_refl 0
  suspended := fun _ ht => absurd ht List.not_mem_nil
  idle := fun _ hb => absurd hb List.not_mem_nil
  later := rfl

theorem headD_false {l : List Bool} (h : ∀ b ∈ l, b = false) : l.headD false = false := by
  cases l with
  | nil => rfl
  | cons b l => exact h b List.mem_cons_self

/-- A thread releases the mutex in `pthread_cond_wait`. -/
theorem CondInv.wait (h : CondInv s) :
    CondInv { s with
      owner := none, unlocked := t :: s.unlocked
      since := Function.update s.since t s.epoch } := by
  have hsince : ∀ u, s.since u ≤ Function.update s.since t s.epoch u ∧
      Function.update s.since t s.epoch u ≤ s.epoch := by
    intro u
    rcases eq_or_ne u t with rfl | hu
    · rw [Function.update_self]
      exact ⟨h.since u, Nat.le_refl _⟩
    · rw [Function.update_of_ne hu]
      exact ⟨Nat.le_refl _, h.since u⟩
  refine ⟨h.good, fun u => (hsince u).2, ?_, fun u hu => ?_, h.idle, h.later⟩
  · have hself : ¬ decide (Function.update s.since t s.epoch t < s.epoch) = true := by
      rw [Function.update_self]
      simp
    have hcons : (t :: s.unlocked).countP (fun u => Function.update s.since t s.epoch u < s.epoch) =
        s.unlocked.countP fun u => Function.update s.since t s.epoch u < s.epoch :=
      List.countP_cons_of_neg hself
    refine Nat.le_trans (Nat.le_of_eq hcons) (Nat.le_trans ?_ h.early)
    refine List.countP_mono_left fun u _ hlt => ?_
    exact decide_eq_true (Nat.lt_of_le_of_lt (hsince u).1 (of_decide_eq_true hlt))
  · have hu' := h.suspended u hu
    exact Nat.le_antisymm (hsince u).2 (hu' ▸ (hsince u).1)

theorem CondInv.take (h : CondInv s) (ht : t ∈ s.unlocked)
    (hturn : s.since t = s.epoch → s.early < s.sem.value ∨ s.sem.value = 0) :
    CondInv (s.take t) := by
  have hle : (s.unlocked.erase t).countP (fun u => s.since u < s.epoch) ≤ s.early :=
    (List.erase_sublist ..).countP_le
  have herase : s.since t < s.epoch →
      (s.unlocked.erase t).countP (fun u => s.since u < s.epoch) + 1 = s.early := by
    intro hlt
    have hpos : 0 < s.early := List.countP_pos_iff.mpr ⟨t, ht, decide_eq_true hlt⟩
    rw [List.countP_erase, if_pos ⟨ht, decide_eq_true hlt⟩]
    exact Nat.sub_add_cancel hpos
  have hearly := h.early
  by_cases hv : 0 < s.sem.value
  · have htake : s.sem.trytake = some { s.sem with value := s.sem.value - 1 } := if_pos hv
    simp only [CondSys.take, htake]
    refine ⟨⟨fun _ => h.good.empty hv, ?_⟩, h.since, ?_, h.suspended, ?_, ?_⟩
    · have hsmall := h.good.small
      show s.sem.value - 1 < 65536
      omega
    · show (s.unlocked.erase t).countP (fun u => s.since u < s.epoch) ≤ s.sem.value - 1
      rcases Nat.lt_or_ge (s.since t) s.epoch with hlt | hge
      · have hone := herase hlt
        omega
      · have hfew := (hturn (Nat.le_antisymm (h.since t) hge)).resolve_right (by omega)
        omega
    · exact fun b hb => h.idle b (List.mem_of_mem_tail hb)
    · show (s.spurious || s.idle.headD false) = false
      rw [h.later, headD_false h.idle]
      rfl
  · have hv0 : s.sem.value = 0 := by omega
    have hlate : s.since t = s.epoch := by
      refine Nat.le_antisymm (h.since t) (Nat.le_of_not_lt fun hlt => ?_)
      have hone := herase hlt
      omega
    simp only [CondSys.take, CondSem.trytake_zero hv0]
    refine ⟨⟨fun hpos => ?_, h.good.small⟩, h.since, ?_, fun u hu => ?_, h.idle, h.later⟩
    · have hpos' : 0 < s.sem.value := hpos
      omega
    · exact Nat.le_trans hle hearly
    · rcases List.mem_append.mp hu with hu | hu
      · exact h.suspended u hu
      · rw [List.mem_singleton.mp hu]
        exact hlate

theorem CondInv.signal (h : CondInv s) (hwaits : ¬ s.NoneWaits)
    (hroom : s.sem.value = 65535 → s.early = 0) : CondInv s.signal := by
  have hnone : decide s.NoneWaits = false := decide_eq_false hwaits
  have hsmall := h.good.small
  have hearly := h.early
  cases hts : s.sem.suspendThread with
  | nil =>
    have hrel : s.sem.release = ({ s.sem with value := (s.sem.value + 1) % 65536 }, []) := by
      simp only [CondSem.release, hts]
    rw [CondSys.signal, hrel, if_pos hts, hnone]
    refine ⟨⟨fun _ => hts, Nat.mod_lt _ (by decide)⟩, h.since, ?_, h.suspended, ?_, h.later⟩
    · show s.early ≤ (s.sem.value + 1) % 65536
      omega
    · intro b hb
      rcases List.mem_append.mp hb with hb | hb
      · exact h.idle b hb
      · exact List.mem_singleton.mp hb
  | cons t ts =>
    have hrel : s.sem.release = ({ s.sem with suspendThread := ts }, [t]) := by
      rw [CondSem.release, hts]
    have hv : ¬ 0 < s.sem.value := by
      intro hpos
      rw [h.good.empty hpos] at hts
      cases hts
    rw [CondSys.signal, hrel, if_neg (by rw [hts]; exact List.cons_ne_nil t ts)]
    refine ⟨⟨fun hpos => absurd hpos hv, hsmall⟩, h.since, hearly, fun u hu => ?_, h.idle, h.later⟩
    refine h.suspended u ?_
    rw [hts]
    exact List.mem_cons_of_mem t hu

theorem CondInv.broadcast (h : CondInv s) (hwaits : ¬ s.NoneWaits)
    (hfew : s.owner = some t → s.unlocked.length ≤ max s.sem.value 1)
    (hs : s.broadcast t = some s') : CondInv s' := by
  have hsmall := h.good.small
  have hearly := h.early
  rw [CondSys.broadcast, CondSem.broadcast_eq h.good, Option.map_some] at hs
  cases hs
  refine ⟨⟨fun _ => rfl, ?_⟩, fun u => ?_, ?_, fun u hu => absurd hu List.not_mem_nil, ?_, h.later⟩
  · show max s.sem.value 1 < 65536
    omega
  · have hu := h.since u
    show s.since u ≤ if s.owner = some t then s.epoch + 1 else s.epoch
    split <;> omega
  · show s.unlocked.countP (fun u => s.since u <
      if s.owner = some t then s.epoch + 1 else s.epoch) ≤ max s.sem.value 1
    split
    · next howner => exact Nat.le_trans List.countP_le_length (hfew howner)
    · exact Nat.le_trans hearly (Nat.le_max_left _ _)
  · intro b hb
    rcases List.mem_append.mp hb with hb | hb
    · exact h.idle b (List.mem_of_mem_tail hb)
    · rw [List.mem_singleton.mp hb]
      exact decide_eq_false hwaits

theorem CondInv.step (h : CondInv s) (hc : Heard s act) (hs : condStep s act = some s') :
    CondInv s' := by
  cases act with
  | lock _ | unlock _ | relock _ =>
    simp only [condStep] at hs
    split at hs <;> cases hs
    exact ⟨h.good, h.since, h.early, h.suspended, h.idle, h.later⟩
  | wait t =>
    simp only [condStep] at hs
    split at hs <;> cases hs
    exact h.wait
  | take t =>
    simp only [condStep] at hs
    split at hs <;> cases hs
    exact h.take ‹_› hc
  | signal t =>
    simp only [condStep] at hs
    split at hs <;> cases hs
    exact h.signal hc.1 hc.2
  | broadcast t =>
    simp only [condStep] at hs
    split at hs
    · exact h.broadcast hc.1 hc.2 hs
    · cases hs

/-- **When a broadcast wakes every waiter.** In every run in which nobody signals or broadcasts
while no thread waits, a broadcast finds a token for each thread that is not suspended yet, and
nobody else takes it: no thread that had released the mutex before a broadcast stays suspended, and
no token made when no thread waited lets a thread through. -/
theorem cond_wakes (acts : List CondAct) (s : CondSys) (hx : exec condStep condInit acts = some s)
    (hc : Along condStep Heard condInit acts) : Wakes s :=
  (Along.inv (I := CondInv) (fun _ _ _ h hr hs => h.step hr hs) hc hx condInit_inv).wakes

/-- One thread is suspended and one is on its way when the third one broadcasts. -/
def heardRun : List CondAct :=
  [.lock 0, .wait 0, .take 0, .lock 1, .wait 1, .lock 2, .broadcast 2, .unlock 2, .take 1,
    .relock 0]

theorem cond_wakes_heardRun : ∃ s, exec condStep condInit heardRun = some s ∧ s.epoch = 1 ∧
    s.woken = [1] ∧ Wakes s := by
  have hx : (exec condStep condInit heardRun).map (fun s => (s.epoch, s.woken)) =
      some (1, [1]) := by decide
  obtain ⟨s, hs, he⟩ := Option.map_eq_some_iff.mp hx
  obtain ⟨hepoch, hwoken⟩ := Prod.mk.inj he
  exact ⟨s, hs, hepoch, hwoken, cond_wakes heardRun s hs (by decide)⟩

/-- Two threads have released the mutex, and are not suspended yet when the third one broadcasts. -/
def unheardRun : List CondAct :=
  [.lock 0, .wait 0, .lock 1, .wait 1, .lock 2, .broadcast 2, .unlock 2, .take 0, .take 1]

/-- The second thread is left suspended. -/
theorem unheardRun_suspended : ∃ s, exec condStep condInit unheardRun = some s ∧
    s.sem.suspendThread = [1] ∧ ¬ Wakes s := by
  have hx : (exec condStep condInit unheardRun).map
      (fun s => (s.sem.suspendThread, s.since 1, s.epoch)) = some ([1], 0, 1) := by decide
  obtain ⟨s, hs, he⟩ := Option.map_eq_some_iff.mp hx
  obtain ⟨hts, he⟩ := Prod.mk.inj he
  obtain ⟨hsince, hepoch⟩ := Prod.mk.inj he
  refine ⟨s, hs, hts, fun h => ?_⟩
  have hlate := h.broadcast 1 (by rw [hts]; exact List.mem_singleton_self 1)
  rw [hsince, hepoch] at hlate
  cases hlate

end Tudu.Pthread
