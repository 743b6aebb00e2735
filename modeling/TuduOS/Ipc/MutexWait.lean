import TuduOS.Ipc.Mutex

/-!
# Where waiting threads stand

What is true of every thread in `rt_mutex_take` and of every mutex, between any two steps.

* `ThreadOk`: a thread is on the suspend list only of the mutex that it waits for, and suspended
  there. A thread that waits and has no error is suspended, or it owns the mutex, or it was resumed
  by a signal that it has yet to handle. A thread behind the test of `error` has an error.
* `MutexOk`: `value` is 1 and there is no owner; or `value` is 0 and there is an owner, or one
  thread that is about to be it.
* `WaitInv`: both, for all threads and mutexes.

Two steps can break it, and `WaitKeeps` keeps away from them: `mutex->value --` of a mutex that was
taken since the test, and a signal that resumes a thread between its `rt_thread_suspend` and the
list.
-/

namespace Tudu.Mutex

open Kern MutexSys

/-- The phases at which a thread may be on the suspend list. -/
def Ph.linked : Ph → Bool
  | .sched | .switched | .timer => true
  | _ => false

/-- What is true of a thread at a phase; `own`: it owns the mutex. -/
def PhOk (x : Thread) (own : Prop) : Ph → Prop
  | .sched | .switched => x.error = rtEok → x.stat = .suspend ∨ own ∨ x.sigPending = true
  | .test => x.stat = .ready ∧ (x.error = rtEok → own ∨ x.sigPending = true)
  | .prio | .hold => x.stat = .ready ∧ x.error ≠ rtEok ∧ own
  | .link => x.stat = .suspend ∧ x.error ≠ rtEok ∧ x.timer = false
  | .timer => x.error ≠ rtEok
  | _ => x.stat = .ready ∧ x.error ≠ rtEok

/-- What is true of a thread (module doc); `own m`: it owns `m`; `on q`: it is on the list of `q`. -/
def ThreadOk (x : Thread) (own on : Nat → Prop) : Pc → Prop
  | .take m _ ph => PhOk x (own m) ph ∧ ∀ q, on q → q = m ∧ ph.linked = true ∧ x.stat = .suspend
  | _ => x.stat = .ready ∧ ∀ q, ¬ on q

/-- The thread is at `mutex->owner = thread`. -/
def AtOwn (m : Nat) : Pc → Prop
  | .take m' _ .own => m' = m
  | _ => False

/-- What is true of a mutex (module doc); `atOwn`: the threads that are about to be its owner. -/
def MutexOk (x : RtMutex) (atOwn : Nat → Prop) : Prop :=
  (x.value = 1 ∧ x.owner = none ∧ ∀ t, ¬ atOwn t) ∨
  (x.value = 0 ∧ x.owner = none ∧ ∃ t, atOwn t ∧ ∀ u, atOwn u → u = t) ∨
  (x.value = 0 ∧ x.owner ≠ none ∧ ∀ t, ¬ atOwn t)

/-- `t` owns `m`. -/
def MutexSys.Owns (s : MutexSys) (t m : Nat) : Prop := (s.mutex m).owner = some t

/-- `t` is on the suspend list of `q`. -/
def MutexSys.On (s : MutexSys) (t q : Nat) : Prop := t ∈ s.kern.suspendThread q

instance (s : MutexSys) (t m : Nat) : Decidable (s.Owns t m) :=
  inferInstanceAs (Decidable ((s.mutex m).owner = some t))

instance (s : MutexSys) (t q : Nat) : Decidable (s.On t q) :=
  inferInstanceAs (Decidable (t ∈ s.kern.suspendThread q))

structure WaitInv (s : MutexSys) : Prop where
  thread : ∀ t, ThreadOk (s.kern.thread t) (s.Owns t) (s.On t) (s.pc t)
  mutex : ∀ m, MutexOk (s.mutex m) fun t => AtOwn m (s.pc t)

/-- Where a thread is in a take: the mutex and the phase. -/
def Pc.phase : Pc → Option (Nat × Ph)
  | .take m _ ph => some (m, ph)
  | _ => none

/-- The statement of a take that the action runs. -/
def stmtOf (s : MutexSys) : MutexAct → Option (Nat × Ph)
  | .stmt => (s.pc s.kern.current).phase
  | _ => none

/-- `mutex->value --` finds the mutex free. -/
def DecFree (s : MutexSys) (act : MutexAct) : Prop :=
  ∀ p ∈ stmtOf s act, p.2 = .dec → 0 < (s.mutex p.1).value

/-- No signal resumes a thread between its `rt_thread_suspend` and the list. -/
def LinkWhole (s : MutexSys) : MutexAct → Prop
  | .sigResume u => ∀ p ∈ (s.pc u).phase, p.2 ≠ .link
  | _ => True

/-- A thread at the test of `error` that a signal made ready has handled the signal, or it has an
error, or it owns the mutex. -/
def TestHandled (s : MutexSys) (act : MutexAct) : Prop :=
  ∀ p ∈ stmtOf s act, p.2 = .test → (s.kern.thread s.kern.current).sigPending = true →
    (s.kern.thread s.kern.current).error = rtEok → (s.mutex p.1).owner = some s.kern.current

structure WaitKeeps (s : MutexSys) (act : MutexAct) : Prop where
  dec : DecFree s act
  link : LinkWhole s act

instance (s : MutexSys) (act : MutexAct) : Decidable (DecFree s act) :=
  inferInstanceAs (Decidable (∀ p ∈ stmtOf s act, p.2 = .dec → 0 < (s.mutex p.1).value))

instance (s : MutexSys) (act : MutexAct) : Decidable (TestHandled s act) :=
  inferInstanceAs (Decidable (∀ p ∈ stmtOf s act, p.2 = .test →
    (s.kern.thread s.kern.current).sigPending = true →
      (s.kern.thread s.kern.current).error = rtEok → (s.mutex p.1).owner = some s.kern.current))

instance (s : MutexSys) : ∀ act, Decidable (LinkWhole s act)
  | .sigResume u => inferInstanceAs (Decidable (∀ p ∈ (s.pc u).phase, p.2 ≠ .link))
  | .preempt _ | .take .. | .stmt | .schedule _ | .ret | .release _ | .timeout _ | .sigHandle _ =>
    inferInstanceAs (Decidable True)

theorem stmtOf_stmt {s : MutexSys} {m : Nat} {time : Int} {ph : Ph}
    (hp : s.pc s.kern.current = .take m time ph) : (m, ph) ∈ stmtOf s .stmt := by
  simp only [stmtOf, hp, Pc.phase, Option.mem_def]

/-! ## What a change of the rest leaves of a thread -/

/-- The fields of a thread that count here. -/
structure Same (x y : Thread) : Prop where
  stat : y.stat = x.stat
  error : y.error = x.error
  sigPending : y.sigPending = x.sigPending
  timer : y.timer = x.timer

theorem Same.refl (x : Thread) : Same x x := ⟨rfl, rfl, rfl, rfl⟩

theorem Same.trans {x y z : Thread} (h : Same x y) (h' : Same y z) : Same x z :=
  ⟨h'.stat.trans h.stat, h'.error.trans h.error, h'.sigPending.trans h.sigPending,
    h'.timer.trans h.timer⟩

theorem PhOk.mono {x y : Thread} {own own' : Prop} {ph : Ph} (h : PhOk x own ph) (hs : Same x y)
    (ho : own → own') : PhOk y own' ph := by
  cases ph <;> simp only [PhOk, hs.stat, hs.error, hs.sigPending, hs.timer] at h ⊢ <;>
    first
    | exact h
    | exact fun e => (h e).imp_right (Or.imp_left ho)
    | exact ⟨h.1, fun e => (h.2 e).imp_left ho⟩
    | exact ⟨h.1, h.2.1, ho h.2.2⟩

theorem ThreadOk.mono {x y : Thread} {own own' on on' : Nat → Prop} {p : Pc}
    (h : ThreadOk x own on p) (hs : Same x y) (ho : ∀ m time ph, p = .take m time ph → own m → own' m)
    (hn : ∀ q, on' q → on q) : ThreadOk y own' on' p := by
  cases p with
  | user => exact ⟨hs.stat.trans h.1, fun q hq => h.2 q (hn q hq)⟩
  | done m r => exact ⟨hs.stat.trans h.1, fun q hq => h.2 q (hn q hq)⟩
  | take m time ph =>
    refine ⟨h.1.mono hs (ho m time ph rfl), fun q hq => ?_⟩
    rw [hs.stat]
    exact h.2 q (hn q hq)

variable {s s' : MutexSys} {k : Kern} {t u m : Nat}

theorem changePriority_same (o p u : Nat) :
    Same (k.thread u) ((k.changePriority o p).thread u) := by
  unfold changePriority
  rw [setThread_thread]
  split
  · next h => subst h; exact ⟨rfl, rfl, rfl, rfl⟩
  · exact .refl _

/-- A thread that may start its timer. -/
theorem startTimer_thread (c : Prop) [Decidable c] (t u : Nat) :
    (if c then k.startTimer t else k).thread u =
      if u = t then { k.thread t with timer := decide c || (k.thread t).timer } else k.thread u := by
  by_cases hc : c
  · simp [hc, startTimer]
  · by_cases hu : u = t
    · subst hu; simp [hc]
    · simp [hc, hu]

theorem startTimer_suspendThread (c : Prop) [Decidable c] (t : Nat) :
    (if c then k.startTimer t else k).suspendThread = k.suspendThread := by
  split <;> rfl

/-- A step that changes one thread and one mutex. What is left to show is that the two are as they
should be. -/
theorem WaitInv.update (h : WaitInv s) (t m : Nat) (hpc : ∀ u, u ≠ t → s'.pc u = s.pc u)
    (hsame : ∀ u, u ≠ t → Same (s.kern.thread u) (s'.kern.thread u))
    (hon : ∀ u q, u ≠ t → s'.On u q → s.On u q) (hmx : ∀ q, q ≠ m → s'.mutex q = s.mutex q)
    (hown : ∀ u time ph, u ≠ t → s.pc u = .take m time ph → s.Owns u m → s'.Owns u m)
    (hat : ∀ q, q ≠ m → (AtOwn q (s'.pc t) ↔ AtOwn q (s.pc t)))
    (ht : ThreadOk (s'.kern.thread t) (s'.Owns t) (s'.On t) (s'.pc t))
    (hm : MutexOk (s'.mutex m) fun t => AtOwn m (s'.pc t)) : WaitInv s' := by
  constructor
  · intro u
    by_cases hu : u = t
    · subst hu; exact ht
    · rw [hpc u hu]
      refine (h.thread u).mono (hsame u hu) (fun q time ph hp ho => ?_) fun q => hon u q hu
      by_cases hq : q = m
      · subst hq; exact hown u time ph hu hp ho
      · exact (congrArg RtMutex.owner (hmx q hq)).trans ho
  · intro q
    by_cases hq : q = m
    · subst hq; exact hm
    · rw [hmx q hq]
      have hsame : (fun u => AtOwn q (s'.pc u)) = fun u => AtOwn q (s.pc u) := by
        funext u
        by_cases hu : u = t
        · subst hu; exact propext (hat q hq)
        · rw [hpc u hu]
      rw [hsame]
      exact h.mutex q

/-- A step that changes one thread and no mutex. -/
theorem WaitInv.gotoKern (h : WaitInv s) (t : Nat) (p : Pc)
    (hsame : ∀ u, u ≠ t → Same (s.kern.thread u) (k.thread u))
    (hon : ∀ u q, u ≠ t → u ∈ k.suspendThread q → s.On u q)
    (hat : ∀ q, AtOwn q p ↔ AtOwn q (s.pc t))
    (ht : ThreadOk (k.thread t) (s.Owns t) (fun q => t ∈ k.suspendThread q) p) :
    WaitInv ((s.setKern k).goto t p) := by
  have hpc : ∀ u, u ≠ t → ((s.setKern k).goto t p).pc u = s.pc u := fun u hu =>
    Function.update_of_ne hu ..
  have hpt : ((s.setKern k).goto t p).pc t = p := Function.update_self ..
  have hatAll : (fun u => AtOwn 0 (((s.setKern k).goto t p).pc u)) = fun u => AtOwn 0 (s.pc u) := by
    funext u
    by_cases hu : u = t
    · subst hu; rw [hpt]; exact propext (hat 0)
    · rw [hpc u hu]
  refine h.update t 0 hpc hsame hon (fun _ _ => rfl) (fun _ _ _ _ _ ho => ho) (fun q _ => ?_) ?_ ?_
  · rw [hpt]; exact hat q
  · rw [hpt]; exact ht
  · rw [hatAll]; exact h.mutex 0

/-- The thread goes on, and nothing else changes. -/
theorem WaitInv.goto (h : WaitInv s) (t : Nat) (p : Pc) (hat : ∀ q, AtOwn q p ↔ AtOwn q (s.pc t))
    (ht : ThreadOk (s.kern.thread t) (s.Owns t) (s.On t) p) : WaitInv (s.goto t p) :=
  h.gotoKern (k := s.kern) t p (fun _ _ => .refl _) (fun _ _ _ hq => hq) hat ht

theorem WaitInv.setHeld (h : WaitInv s) (t m n : Nat) : WaitInv (s.setHeld t m n) :=
  ⟨h.thread, h.mutex⟩

/-- A thread at a phase where it runs and has an error. -/
theorem ThreadOk.running {x : Thread} {own on : Nat → Prop} {m : Nat} {time : Int} {ph : Ph}
    (h : ThreadOk x own on (.take m time ph)) (hl : ph.linked = false) : ∀ q, ¬ on q := by
  intro q hq
  have := (h.2 q hq).2.1
  rw [hl] at this
  cases this

/-! ## The statements of a take -/

/-- A statement that goes on in the same take, changes no mutex, and leaves the thread running with
its error. -/
theorem WaitInv.goOn (h : WaitInv s) {time : Int} {ph ph' : Ph} (hp : s.pc t = .take m time ph)
    (hl : ph.linked = false) (hne : ph ≠ .own) (hne' : ph' ≠ .own)
    (hok : PhOk (s.kern.thread t) (s.Owns t m) ph') : WaitInv (s.goto t (.take m time ph')) := by
  have ht := h.thread t
  rw [hp] at ht
  refine h.goto t _ (fun q => ?_) ⟨hok, fun q hq => absurd hq (ht.running hl q)⟩
  rw [hp]
  cases ph <;> cases ph' <;> first | exact Iff.rfl | exact absurd rfl hne | exact absurd rfl hne'

/-- The take has its result, and the thread runs. -/
theorem WaitInv.finish (h : WaitInv s) {time : Int} {ph : Ph} (r : Int)
    (hp : s.pc t = .take m time ph) (hl : ph.linked = false) (hne : ph ≠ .own)
    (hr : (s.kern.thread t).stat = .ready) : WaitInv (s.finish t m r) := by
  have ht := h.thread t
  rw [hp] at ht
  refine (h.goto t (.done m r) (fun q => ?_) ⟨hr, ht.running hl⟩).setHeld t m _
  rw [hp]
  cases ph <;> first | exact Iff.rfl | exact absurd rfl hne

/-- `mutex->value --` of a free mutex: it has no owner, and the thread is about to be it. -/
theorem WaitInv.dec (h : WaitInv s) {time : Int} (hp : s.pc t = .take m time .dec)
    (hd : 0 < (s.mutex m).value) :
    WaitInv ((s.setMutex m { s.mutex m with
      value := ((s.mutex m).value + (2 ^ 16 - 1)) % 2 ^ 16 }).goto t (.take m time .own)) := by
  have ht := h.thread t
  rw [hp] at ht
  obtain ⟨hv, ho, hno⟩ : (s.mutex m).value = 1 ∧ (s.mutex m).owner = none ∧
      ∀ u, ¬ AtOwn m (s.pc u) := by
    rcases h.mutex m with hm | hm | hm
    · exact hm
    · omega
    · omega
  refine h.update t m (fun u hu => Function.update_of_ne hu ..) (fun _ _ => .refl _)
    (fun _ _ _ hq => hq) (fun q hq => Function.update_of_ne hq ..) ?_ (fun q hq => ?_) ?_ ?_
  · intro u _ _ _ _ hown
    rw [Owns, ho] at hown
    cases hown
  · have hqm : ¬ m = q := fun e => hq e.symm
    simp [MutexSys.goto, setMutex, hp, AtOwn, hqm]
  · simp only [MutexSys.goto, setMutex, Function.update_self]
    exact ⟨ht.1, fun q hq => absurd hq (ht.running rfl q)⟩
  · refine .inr (.inl ⟨?_, ?_, t, ?_, fun u hu => ?_⟩)
    · simp [MutexSys.goto, setMutex, hv]
    · simp [MutexSys.goto, setMutex, ho]
    · simp [MutexSys.goto, AtOwn]
    · by_contra hne
      simp only [MutexSys.goto, setMutex, Function.update_of_ne hne] at hu
      exact hno u hu

/-- `mutex->owner = thread` -/
theorem WaitInv.own (h : WaitInv s) {time : Int} (hp : s.pc t = .take m time .own) :
    WaitInv ((s.setMutex m { s.mutex m with owner := some t }).goto t (.take m time .prio)) := by
  have ht := h.thread t
  rw [hp] at ht
  have hat : AtOwn m (s.pc t) := by rw [hp]; rfl
  obtain ⟨hv, ho, v, -, huniq⟩ : (s.mutex m).value = 0 ∧ (s.mutex m).owner = none ∧
      ∃ v, AtOwn m (s.pc v) ∧ ∀ u, AtOwn m (s.pc u) → u = v := by
    rcases h.mutex m with hm | hm | hm
    · exact absurd hat (hm.2.2 t)
    · exact hm
    · exact absurd hat (hm.2.2 t)
  refine h.update t m (fun u hu => Function.update_of_ne hu ..) (fun _ _ => .refl _)
    (fun _ _ _ hq => hq) (fun q hq => Function.update_of_ne hq ..) ?_ (fun q hq => ?_) ?_ ?_
  · intro u _ _ _ _ hown
    rw [Owns, ho] at hown
    cases hown
  · have hqm : ¬ m = q := fun e => hq e.symm
    simp [MutexSys.goto, setMutex, hp, AtOwn, hqm]
  · simp only [MutexSys.goto, setMutex, Function.update_self]
    exact ⟨⟨ht.1.1, ht.1.2, by simp [Owns]⟩, fun q hq => absurd hq (ht.running rfl q)⟩
  · refine .inr (.inr ⟨?_, ?_, fun u hu => ?_⟩)
    · simp [MutexSys.goto, setMutex, hv]
    · simp [MutexSys.goto, setMutex]
    · by_cases hut : u = t
      · subst hut
        simp [MutexSys.goto, AtOwn] at hu
      · simp only [MutexSys.goto, setMutex, Function.update_of_ne hut] at hu
        exact hut ((huniq u hu).trans (huniq t hat).symm)

/-- A mutex with the same `value` and `owner`. -/
theorem WaitInv.setMutex (h : WaitInv s) {x : RtMutex} (hv : x.value = (s.mutex m).value)
    (ho : x.owner = (s.mutex m).owner) : WaitInv (s.setMutex m x) := by
  have hown : ∀ q, ((s.setMutex m x).mutex q).owner = (s.mutex q).owner ∧
      ((s.setMutex m x).mutex q).value = (s.mutex q).value := by
    intro q
    by_cases hq : q = m
    · subst hq; simp [MutexSys.setMutex, hv, ho]
    · simp [MutexSys.setMutex, hq]
  constructor
  · intro u
    refine (h.thread u).mono (.refl _) (fun q _ _ _ hq => ?_) (fun _ hq => hq)
    exact (hown q).1.trans hq
  · intro q
    unfold MutexOk
    rw [(hown q).1, (hown q).2]
    exact h.mutex q

/-- A statement that changes the thread itself. -/
theorem WaitInv.goKern (h : WaitInv s) {time : Int} {ph ph' : Ph} (hp : s.pc t = .take m time ph)
    (hne : ph ≠ .own) (hne' : ph' ≠ .own) (hsame : ∀ u, u ≠ t → Same (s.kern.thread u) (k.thread u))
    (hon : ∀ u q, u ≠ t → u ∈ k.suspendThread q → s.On u q)
    (ht : ThreadOk (k.thread t) (s.Owns t) (fun q => t ∈ k.suspendThread q) (.take m time ph')) :
    WaitInv ((s.setKern k).goto t (.take m time ph')) := by
  refine h.gotoKern t _ hsame hon (fun q => ?_) ht
  rw [hp]
  cases ph <;> cases ph' <;> first | exact Iff.rfl | exact absurd rfl hne | exact absurd rfl hne'

/-- The thread comes back from `rt_schedule`, and handles a signal if one is pending. -/
theorem WaitInv.switched (h : WaitInv s) {time : Int} (hp : s.pc t = .take m time .switched)
    (hr : (s.kern.thread t).stat = .ready) :
    WaitInv ((s.setKern (if (s.kern.thread t).sigPending then
      s.kern.setThread t { s.kern.thread t with error := -rtEintr, sigPending := false }
      else s.kern)).goto t (.take m time .test)) := by
  have ht := h.thread t
  rw [hp] at ht
  have hoff : ∀ q, ¬ s.On t q := by
    intro q hq
    have := (ht.2 q hq).2.2
    rw [hr] at this
    cases this
  split
  · refine h.goKern hp (by decide) (by decide) (fun u hu => ?_) (fun u q _ hq => hq) ⟨?_, ?_⟩
    · rw [setThread_thread, if_neg hu]
      exact .refl _
    · rw [setThread_thread, if_pos rfl]
      exact ⟨hr, fun e => absurd e (show ¬ -rtEintr = rtEok by decide)⟩
    · exact fun q hq => absurd hq (hoff q)
  · next hsig =>
    refine h.goKern hp (by decide) (by decide) (fun _ _ => .refl _) (fun u q _ hq => hq) ⟨?_, ?_⟩
    · refine ⟨hr, fun e => ?_⟩
      rcases ht.1 e with hsus | hown | hs
      · rw [hr] at hsus
        cases hsus
      · exact .inl hown
      · exact absurd hs hsig
    · exact fun q hq => absurd hq (hoff q)

/-- `rt_thread_suspend(thread)` -/
theorem WaitInv.susp (h : WaitInv s) {time : Int} (hp : s.pc t = .take m time .susp) :
    WaitInv ((s.setKern (s.kern.rtThreadSuspend t)).goto t (.take m time .link)) := by
  have ht := h.thread t
  rw [hp] at ht
  unfold rtThreadSuspend
  rw [if_pos ht.1.1]
  refine h.goKern hp (by decide) (by decide) (fun u hu => ?_) (fun u q _ hq => hq) ⟨?_, ?_⟩
  · rw [setThread_thread, if_neg hu]
    exact .refl _
  · rw [setThread_thread, if_pos rfl]
    exact ⟨rfl, ht.1.2, rfl⟩
  · exact fun q hq => absurd hq (ht.running rfl q)

/-- The thread goes on the list. -/
theorem WaitInv.link (h : WaitInv s) {time : Int} {flag : Nat}
    (hp : s.pc t = .take m time .link) (hk : s.kern.rtIpcListInsert m t flag = some k) :
    WaitInv ((s.setKern k).goto t (.take m time .timer)) := by
  have ht := h.thread t
  rw [hp] at ht
  obtain ⟨-, hthr, hon, -⟩ := rtIpcListInsert_some hk
  refine h.goKern hp (by decide) (by decide) (fun u hu => ?_) (fun u q hu hq => ?_) ⟨?_, ?_⟩
  · rw [hthr, if_neg hu]
    exact .refl _
  · exact (hon u q hq).resolve_right fun e => hu e.1
  · rw [hthr, if_pos rfl]
    exact ht.1.2.1
  · intro q hq
    rw [hthr, if_pos rfl]
    exact ⟨((hon t q hq).resolve_left (ht.running rfl q)).2, rfl, ht.1.1⟩

theorem WaitInv.stmt (h : WaitInv s) {time : Int} {ph : Ph}
    (hp : s.pc s.kern.current = .take m time ph) (hd : ph = .dec → 0 < (s.mutex m).value)
    (hs : takeStmt s m time ph = some s') : WaitInv s' := by
  have ht := h.thread s.kern.current
  rw [hp] at ht
  have hok := ht.1
  cases ph with
  | sched => cases hs
  | switched =>
    simp only [takeStmt] at hs
    split at hs
    · next hr =>
      cases hs
      exact h.switched hp hr
    · cases hs
  | test =>
    simp only [takeStmt] at hs
    split at hs <;> cases hs
    · exact h.goOn hp rfl (by decide) (by decide) ⟨hok.1, ‹_›⟩
    · exact h.finish _ hp rfl (by decide) hok.1
  | testIntr | again =>
    simp only [takeStmt] at hs
    split at hs <;> cases hs
    · exact h.goOn hp rfl (by decide) (by decide) hok
    · exact h.goOn hp rfl (by decide) (by decide) hok
  | fail =>
    cases hs
    exact h.finish _ hp rfl (by decide) hok.1
  | dec =>
    cases hs
    exact h.dec hp (hd rfl)
  | own =>
    cases hs
    exact h.own hp
  | prio =>
    cases hs
    have h' : WaitInv (s.setMutex m { s.mutex m with
        originalPriority := (s.kern.thread s.kern.current).currentPriority }) :=
      h.setMutex rfl rfl
    refine h'.goOn (m := m) hp rfl (by decide) (by decide) ⟨hok.1, hok.2.1, ?_⟩
    simpa [Owns, MutexSys.setMutex] using hok.2.2
  | hold =>
    cases hs
    have h' : WaitInv (s.setMutex m { s.mutex m with hold := ((s.mutex m).hold + 1) % 2 ^ 8 }) :=
      h.setMutex rfl rfl
    exact h'.finish _ hp rfl (by decide) hok.1
  | poll =>
    simp only [takeStmt] at hs
    split at hs <;> cases hs
    · have h' : WaitInv ((s.setKern (s.kern.setError s.kern.current (-rtEtimeout))).goto
          s.kern.current (.done m (-rtEtimeout))) := by
        refine h.gotoKern _ _ (fun u hu => ?_) (fun u q _ hq => hq)
          (fun q => by rw [hp]; exact Iff.rfl) ⟨?_, ht.running rfl⟩
        · rw [setError, setThread_thread, if_neg hu]
          exact .refl _
        · rw [setError, setThread_thread, if_pos rfl]
          exact hok.1
      exact h'.setHeld ..
    · exact h.goOn hp rfl (by decide) (by decide) hok
  | inherit =>
    simp only [takeStmt] at hs
    split at hs
    · cases hs
    · split at hs <;> cases hs
      · exact h.goOn hp rfl (by decide) (by decide) hok
      · exact h.goOn hp rfl (by decide) (by decide) hok
  | raise =>
    simp only [takeStmt] at hs
    split at hs <;> cases hs
    refine h.goKern hp (by decide) (by decide) (fun u _ => changePriority_same ..)
      (fun u q _ hq => hq) ⟨?_, fun q hq => absurd hq (ht.running rfl q)⟩
    exact hok.mono (changePriority_same ..) id
  | susp =>
    cases hs
    exact h.susp hp
  | link =>
    obtain ⟨k, hk, rfl⟩ := Option.map_eq_some_iff.mp hs
    exact h.link hp hk
  | timer =>
    cases hs
    refine h.goKern hp (by decide) (by decide) (fun u hu => ?_) (fun u q _ hq => ?_) ⟨?_, ?_⟩
    · rw [startTimer_thread, if_neg hu]
      exact .refl _
    · rwa [startTimer_suspendThread] at hq
    · rw [startTimer_thread, if_pos rfl]
      exact fun e => absurd e hok
    · intro q hq
      rw [startTimer_suspendThread] at hq
      rw [startTimer_thread, if_pos rfl]
      exact ht.2 q hq

/-! ## The first try -/

/-- A thread outside `rt_mutex_take`. -/
theorem WaitInv.user (h : WaitInv s) (hp : s.pc t = .user) :
    (s.kern.thread t).stat = .ready ∧ ∀ q, ¬ s.On t q := by
  have ht := h.thread t
  rw [hp] at ht
  exact ht

/-- The first try ends the call, with or without the mutex. -/
theorem WaitInv.tryDone (h : WaitInv s) (hp : s.pc t = .user) (e r : Int) (n : Nat) {x : RtMutex}
    (hx : x.owner ≠ (s.mutex m).owner → (s.mutex m).owner = none)
    (hm : MutexOk (s.mutex m) (fun u => AtOwn m (s.pc u)) → MutexOk x fun u => AtOwn m (s.pc u)) :
    WaitInv ((((s.setKern (s.kern.setError t e)).setMutex m x).goto t (.done m r)).setHeld t m n) := by
  obtain ⟨hr, hoff⟩ := h.user hp
  have hpc : ∀ u, AtOwn m (Function.update s.pc t (.done m r) u) ↔ AtOwn m (s.pc u) := by
    intro u
    by_cases hu : u = t
    · subst hu; simp [hp, AtOwn]
    · rw [Function.update_of_ne hu]
  suffices h' : WaitInv (((s.setKern (s.kern.setError t e)).setMutex m x).goto t (.done m r)) from
    h'.setHeld ..
  refine h.update t m (fun u hu => Function.update_of_ne hu ..) (fun u hu => ?_)
    (fun _ _ _ hq => hq) (fun q hq => Function.update_of_ne hq ..) ?_ (fun q hq => ?_) ?_ ?_
  · show Same _ ((s.kern.setError t e).thread u)
    rw [setError, setThread_thread, if_neg hu]
    exact .refl _
  · intro u time ph hu hpu hown
    have : x.owner = (s.mutex m).owner := by
      by_contra hne
      have hnone := hx hne
      rw [Owns, hnone] at hown
      cases hown
    show (Function.update s.mutex m x m).owner = some u
    rw [Function.update_self, this]
    exact hown
  · simp [MutexSys.goto, MutexSys.setMutex, setKern, hp, AtOwn]
  · simp only [MutexSys.goto, MutexSys.setMutex, setKern, Function.update_self]
    refine ⟨?_, hoff⟩
    rw [setError, setThread_thread, if_pos rfl]
    exact hr
  · simp only [MutexSys.goto, MutexSys.setMutex, setKern, Function.update_self, hpc]
    exact hm (h.mutex m)

/-- The first try suspends the thread on the list. -/
theorem WaitInv.trySuspend (h : WaitInv s) {time : Int} {flag : Nat} {k1 k2 : Kern}
    (hp : s.pc t = .user) (hsame : ∀ u, u ≠ t → Same (s.kern.thread u) (k1.thread u))
    (hr : (k1.thread t).stat = .ready) (hsus : k1.suspendThread = s.kern.suspendThread)
    (hk : k1.rtIpcListSuspend m t flag = some k2) :
    WaitInv ((s.setKern (if time > 0 then k2.startTimer t else k2)).goto t
      (.take m time .sched)) := by
  obtain ⟨-, hoff⟩ := h.user hp
  obtain ⟨-, hthr, hon, -⟩ := rtIpcListInsert_some hk
  have hready : k1.rtThreadSuspend t =
      k1.setThread t { k1.thread t with stat := .suspend, timer := false } := if_pos hr
  have hstat : (k2.thread t).stat = .suspend := by
    rw [hthr, if_pos rfl, hready, setThread_thread, if_pos rfl]
  have hon' : ∀ u q, u ∈ k2.suspendThread q → s.On u q ∨ u = t ∧ q = m := by
    intro u q hq
    have := hon u q hq
    rwa [hready, setThread_suspendThread, hsus] at this
  refine h.gotoKern t _ (fun u hu => ?_) (fun u q hu hq => ?_) (fun q => by rw [hp]; exact Iff.rfl)
    ⟨fun _ => .inl ?_, fun q hq => ?_⟩
  · rw [startTimer_thread, if_neg hu, hthr, if_neg hu, hready, setThread_thread, if_neg hu]
    exact hsame u hu
  · rw [startTimer_suspendThread] at hq
    exact (hon' u q hq).resolve_right fun e => hu e.1
  · rw [startTimer_thread, if_pos rfl]
    exact hstat
  · rw [startTimer_suspendThread] at hq
    rw [startTimer_thread, if_pos rfl]
    exact ⟨((hon' t q hq).resolve_left (hoff q)).2, rfl, hstat⟩

theorem WaitInv.take (h : WaitInv s) {time : Int} (hp : s.pc s.kern.current = .user)
    (hs : rtMutexTake s m time = some s') : WaitInv s' := by
  obtain ⟨hr, hoff⟩ := h.user hp
  have hsame : ∀ u, u ≠ s.kern.current →
      Same (s.kern.thread u) ((s.kern.setError s.kern.current rtEok).thread u) := by
    intro u hu
    rw [setError, setThread_thread, if_neg hu]
    exact .refl _
  unfold rtMutexTake at hs
  simp only at hs
  split at hs
  · cases hs
    exact h.tryDone hp _ _ _ (fun hne => absurd rfl hne) id
  split at hs
  · next hv =>
    -- the mutex is free
    cases hs
    have hfree : (s.mutex m).value = 1 ∧ (s.mutex m).owner = none ∧
        ∀ u, ¬ AtOwn m (s.pc u) := by
      rcases h.mutex m with hm | hm | hm
      · exact hm
      · omega
      · omega
    refine h.tryDone hp _ _ _ (fun _ => hfree.2.1) fun _ => .inr (.inr ⟨?_, ?_, hfree.2.2⟩)
    · show (s.mutex m).value - 1 = 0
      rw [hfree.1]
    · exact Option.some_ne_none _
  split at hs
  · -- no waiting
    cases hs
    have h' : WaitInv ((s.setKern ((s.kern.setError s.kern.current rtEok).setError s.kern.current
        (-rtEtimeout))).goto s.kern.current (.done m (-rtEtimeout))) := by
      refine h.gotoKern _ _ (fun u hu => ?_) (fun u q _ hq => hq)
        (fun q => by rw [hp]; exact Iff.rfl) ⟨?_, hoff⟩
      · rw [setError, setThread_thread, if_neg hu]
        exact hsame u hu
      · rw [setError, setThread_thread, if_pos rfl, setError, setThread_thread, if_pos rfl]
        exact hr
    exact h'.setHeld ..
  split at hs
  · cases hs
  · next o ho =>
    obtain ⟨k, hk, rfl⟩ := Option.map_eq_some_iff.mp hs
    have hself : ((s.kern.setError s.kern.current rtEok).thread s.kern.current).stat = .ready := by
      rw [setError, setThread_thread, if_pos rfl]
      exact hr
    refine h.trySuspend hp (fun u hu => ?_) ?_ ?_ hk
    · have h1 := hsame u hu
      split
      · have h2 := changePriority_same (k := s.kern.setError s.kern.current rtEok) o
          ((s.kern.setError s.kern.current rtEok).thread s.kern.current).currentPriority u
        exact h1.trans h2
      · exact h1
    · split
      · exact (changePriority_same ..).stat.trans hself
      · exact hself
    · split <;> rfl

/-! ## The scheduler, timers and signals -/

theorem WaitInv.preempt (h : WaitInv s) (u : Nat) :
    WaitInv (s.setKern { s.kern with current := u }) := ⟨h.thread, h.mutex⟩

theorem WaitInv.schedule (h : WaitInv s) {next : Option Nat}
    (hs : mutexStep s (.schedule next) = some s') : WaitInv s' := by
  simp only [mutexStep] at hs
  split at hs
  · next m time hp =>
    have ht := h.thread s.kern.current
    rw [hp] at ht
    split at hs
    · next u =>
      split at hs <;> cases hs
      refine WaitInv.preempt (h.goto s.kern.current (.take m time .switched)
        (fun q => by rw [hp]; exact Iff.rfl) ⟨ht.1, fun q hq => ?_⟩) u
      exact ⟨(ht.2 q hq).1, rfl, (ht.2 q hq).2.2⟩
    · split at hs <;> cases hs
      have hr : (s.kern.thread s.kern.current).stat = .ready := ‹_›
      refine h.goto _ _ (fun q => by rw [hp]; exact Iff.rfl) ⟨⟨hr, fun e => ?_⟩, fun q hq => ?_⟩
      · rcases ht.1 e with hsus | hown
        · rw [hr] at hsus
          cases hsus
        · exact hown
      · have := (ht.2 q hq).2.2
        rw [hr] at this
        cases this
  · cases hs

theorem WaitInv.ret (h : WaitInv s) {r : Int} (hp : s.pc t = .done m r) :
    WaitInv (s.goto t .user) := by
  have ht := h.thread t
  rw [hp] at ht
  exact h.goto t .user (fun q => by rw [hp]; exact Iff.rfl) ht

/-- A thread is made ready by a timer or a signal, which leaves an error or a signal to handle. -/
theorem WaitInv.wake (h : WaitInv s) (u : Nat) (hu : (s.kern.thread u).stat = .suspend)
    (hk : ∀ v, v ≠ u → Same (s.kern.thread v) (k.thread v))
    (hsig : (k.thread u).error ≠ rtEok ∨ (k.thread u).error = (s.kern.thread u).error ∧ (k.thread u).sigPending = true)
    (hon : ∀ v q, v ∈ k.suspendThread q → s.On v q ∧ v ≠ u)
    (hlink : ∀ m time, s.pc u ≠ .take m time .link) : WaitInv (s.setKern k) := by
  have hoff : ∀ q, ¬ u ∈ k.suspendThread q := fun q hq => (hon u q hq).2 rfl
  refine h.update u 0 (fun _ _ => rfl) hk (fun v q hv hq => (hon v q hq).1) (fun _ _ => rfl)
    (fun _ _ _ _ _ ho => ho) (fun _ _ => Iff.rfl) ?_ (h.mutex 0)
  have ht := h.thread u
  show ThreadOk (k.thread u) (s.Owns u) (fun q => u ∈ k.suspendThread q) (s.pc u)
  cases hp : s.pc u with
  | user | done =>
    rw [hp] at ht
    have := ht.1
    rw [hu] at this
    cases this
  | take m time ph =>
    rw [hp] at ht
    have hok := ht.1
    have hbad : (s.kern.thread u).stat ≠ .ready := by rw [hu]; decide
    refine ⟨?_, fun q hq => absurd hq (hoff q)⟩
    cases ph with
    | sched | switched =>
      intro e
      exact .inr (.inr (hsig.resolve_left fun hne => hne e).2)
    | timer =>
      rcases hsig with he | he
      · exact he
      · exact fun e => hok (he.1.symm.trans e)
    | link => exact absurd hp (hlink m time)
    | _ => exact absurd hok.1 hbad

theorem WaitInv.timeout (h : WaitInv s) {u : Nat} (hs : mutexStep s (.timeout u) = some s') :
    WaitInv s' := by
  obtain ⟨k, hk, rfl⟩ := Option.map_eq_some_iff.mp hs
  unfold rtThreadTimeout at hk
  split at hk
  · next hu =>
    cases hk
    -- a thread on its way to the list has no timer
    have hlink : ∀ m time, s.pc u ≠ .take m time .link := by
      intro m time hp
      have ht := h.thread u
      rw [hp] at ht
      have := ht.1.2.2
      rw [hu.2] at this
      cases this
    refine h.wake u hu.1 (fun v hv => ?_) (.inl ?_) (fun v q hq => ?_) hlink
    · rw [unlinkReady_thread, if_neg hv, setError, setThread_thread, if_neg hv]
      exact .refl _
    · rw [unlinkReady_thread, if_pos rfl, setError, setThread_thread, if_pos rfl]
      exact show -rtEtimeout ≠ rtEok by decide
    · exact mem_unlinkReady.mp hq
  · cases hk

theorem WaitInv.sigResume (h : WaitInv s) {u : Nat} (hc : LinkWhole s (.sigResume u))
    (hs : mutexStep s (.sigResume u) = some s') : WaitInv s' := by
  obtain ⟨k, hk, rfl⟩ := Option.map_eq_some_iff.mp hs
  unfold Kern.sigResume at hk
  split at hk
  · next hu =>
    cases hk
    have hlink : ∀ m time, s.pc u ≠ .take m time .link := by
      intro m time hp
      exact hc (m, .link) (by rw [hp]; rfl) rfl
    refine h.wake u hu (fun v hv => ?_) (.inr ?_) (fun v q hq => ?_) hlink
    · rw [setThread_thread, if_neg hv, unlinkReady_thread, if_neg hv]
      exact .refl _
    · rw [setThread_thread, if_pos rfl, unlinkReady_thread, if_pos rfl]
      exact ⟨rfl, rfl⟩
    · exact mem_unlinkReady.mp hq
  · cases hk

/-- An error that a signal leaves takes nothing from a waiting thread. -/
theorem WaitInv.sigHandle (h : WaitInv s) {u : Nat} (hs : mutexStep s (.sigHandle u) = some s') :
    WaitInv s' := by
  obtain ⟨k, hk, rfl⟩ := Option.map_eq_some_iff.mp hs
  unfold Kern.sigHandle at hk
  split at hk
  · next hu =>
    cases hk
    refine h.update u 0 (fun _ _ => rfl) (fun v hv => ?_) (fun _ _ _ hq => hq) (fun _ _ => rfl)
      (fun _ _ _ _ _ ho => ho) (fun _ _ => Iff.rfl) ?_ (h.mutex 0)
    · show Same _ ((s.kern.setThread u _).thread v)
      rw [setThread_thread, if_neg hv]
      exact .refl _
    · have ht := h.thread u
      show ThreadOk ((s.kern.setThread u _).thread u) (s.Owns u) (s.On u) (s.pc u)
      rw [setThread_thread, if_pos rfl]
      have hbad : (s.kern.thread u).stat ≠ .suspend := by rw [hu]; decide
      have herr : -rtEintr ≠ rtEok := by decide
      cases hp : s.pc u with
      | user | done =>
        rw [hp] at ht
        exact ht
      | take m time ph =>
        rw [hp] at ht
        refine ⟨?_, ht.2⟩
        have hok := ht.1
        cases ph with
        | sched | switched => exact fun e => absurd e herr
        | test => exact ⟨hu, fun e => absurd e herr⟩
        | prio | hold => exact ⟨hu, herr, hok.2.2⟩
        | link => exact absurd hok.1 hbad
        | timer => exact herr
        | _ => exact ⟨hu, herr⟩
  · cases hk

/-! ## `rt_mutex_release` -/

/-- The three ends of `rt_mutex_release`: it is not the owner's, or the mutex is still held, or the
last hold ends and the mutex goes to the first waiting thread or is free. -/
theorem rtMutexRelease_cases (s : MutexSys) (m : Nat) :
    ((s.mutex m).owner ≠ some s.kern.current ∧
      rtMutexRelease s m = s.setKern (s.kern.setError s.kern.current (-rtError))) ∨
    ∃ n k, (s.mutex m).owner = some s.kern.current ∧
      n = ((s.mutex m).hold + (2 ^ 8 - 1)) % 2 ^ 8 ∧ (∀ u, Same (s.kern.thread u) (k.thread u)) ∧
      k.suspendThread = s.kern.suspendThread ∧
      (∀ u, (k.thread u).currentPriority = if u = s.kern.current then
        (s.mutex m).originalPriority else (s.kern.thread u).currentPriority) ∧
      ((n ≠ 0 ∧ rtMutexRelease s m = (s.setHeld s.kern.current m
          (s.held s.kern.current m - 1)).setMutex m { s.mutex m with hold := n }) ∨
        (n = 0 ∧ ∃ u us p, k.suspendThread m = u :: us ∧
          rtMutexRelease s m = ((s.setHeld s.kern.current m (s.held s.kern.current m - 1)).setMutex m
            { s.mutex m with owner := some u, originalPriority := p, hold := 1 }).setKern
              (k.rtThreadResume u)) ∨
        (n = 0 ∧ k.suspendThread m = [] ∧
          rtMutexRelease s m = ((s.setHeld s.kern.current m (s.held s.kern.current m - 1)).setMutex m
            { s.mutex m with value := ((s.mutex m).value + 1) % 2 ^ 16, owner := none,
                             originalPriority := 0xff, hold := 0 }).setKern k)) := by
  have hkern : ∀ t n, (s.setHeld t m n).kern = s.kern := fun _ _ => rfl
  unfold rtMutexRelease
  simp only [hkern]
  split
  · exact .inl ⟨‹_›, rfl⟩
  next ho =>
  -- the thread with its own priority again
  generalize hk : (if (s.mutex m).originalPriority ≠ (s.kern.thread s.kern.current).currentPriority
    then s.kern.changePriority s.kern.current (s.mutex m).originalPriority else s.kern) = k
  have hsame : ∀ u, Same (s.kern.thread u) (k.thread u) := by
    intro u
    subst hk
    split
    · exact changePriority_same ..
    · exact .refl _
  have hsus : k.suspendThread = s.kern.suspendThread := by
    subst hk
    split <;> rfl
  have hprio : ∀ u, (k.thread u).currentPriority = if u = s.kern.current then
      (s.mutex m).originalPriority else (s.kern.thread u).currentPriority := by
    intro u
    subst hk
    split
    · unfold changePriority
      rw [setThread_thread]
      split <;> rfl
    · next he =>
      split
      · next hu => rw [hu]; exact (not_not.mp he).symm
      · rfl
  refine .inr ⟨_, k, not_not.mp ho, rfl, hsame, hsus, hprio, ?_⟩
  split
  · next h0 =>
    right
    split
    · next u us hl =>
      refine .inl ⟨h0, u, us, (k.thread u).currentPriority, hl, ?_⟩
      simp only [h0]
      rfl
    · next hl =>
      refine .inr ⟨h0, hl, ?_⟩
      simp only [h0]
  · exact .inl ⟨‹_›, rfl⟩

/-- A mutex with an owner. -/
theorem WaitInv.owned (h : WaitInv s) (ho : (s.mutex m).owner = some t) :
    (s.mutex m).value = 0 ∧ ∀ u, ¬ AtOwn m (s.pc u) := by
  rcases h.mutex m with hm | hm | hm
  · rw [hm.2.1] at ho
    cases ho
  · rw [hm.2.1] at ho
    cases ho
  · exact ⟨hm.1, hm.2.2⟩

theorem WaitInv.release (h : WaitInv s) (hp : s.pc s.kern.current = .user) (m : Nat) :
    WaitInv (rtMutexRelease s m) := by
  obtain ⟨hr, hoff⟩ := h.user hp
  rcases rtMutexRelease_cases s m with ⟨-, he⟩ | ⟨n, k, ho, -, hsame, hsus, -, hx⟩
  · rw [he]
    refine h.update s.kern.current m (fun _ _ => rfl) (fun v hv => ?_) (fun _ _ _ hq => hq)
      (fun _ _ => rfl) (fun _ _ _ _ _ ho => ho) (fun _ _ => Iff.rfl) ?_ (h.mutex m)
    · show Same _ ((s.kern.setError s.kern.current _).thread v)
      rw [setError, setThread_thread, if_neg hv]
      exact .refl _
    · show ThreadOk ((s.kern.setError s.kern.current _).thread s.kern.current) _ _
        (s.pc s.kern.current)
      rw [setError, setThread_thread, if_pos rfl, hp]
      exact ⟨hr, hoff⟩
  obtain ⟨hv, hno⟩ := h.owned ho
  -- no waiting thread loses the mutex
  have hlose : ∀ v time ph, s.pc v = .take m time ph → ¬ s.Owns v m := by
    intro v time ph hpv hown
    have : s.kern.current = v := Option.some.inj (ho.symm.trans hown)
    rw [← this, hp] at hpv
    cases hpv
  rcases hx with ⟨-, he⟩ | ⟨-, u, us, p, hl, he⟩ | ⟨-, -, he⟩
  · rw [he]
    exact (h.setHeld s.kern.current m _).setMutex rfl rfl
  · rw [he]
    have hu : s.On u m := by
      rw [On, ← hsus, hl]
      exact List.mem_cons_self
    have ht := h.thread u
    have hsusp : (k.thread u).stat = .suspend := by
      rw [(hsame u).stat]
      cases hpu : s.pc u with
      | user | done =>
        rw [hpu] at ht
        exact absurd hu (ht.2 m)
      | take => rw [hpu] at ht; exact (ht.2 m hu).2.2
    have hres : k.rtThreadResume u = k.unlinkReady u := if_pos hsusp
    rw [hres]
    refine h.update u m (fun _ _ => rfl) (fun v hvu => ?_) (fun v q _ hq => ?_)
      (fun q hq => Function.update_of_ne hq ..) (fun v time ph _ hpv hown =>
        absurd hown (hlose v time ph hpv)) (fun _ _ => Iff.rfl) ?_ ?_
    · show Same _ ((k.unlinkReady u).thread v)
      rw [unlinkReady_thread, if_neg hvu]
      exact hsame v
    · have hq' : v ∈ k.suspendThread q := (mem_unlinkReady.mp hq).1
      rwa [hsus] at hq'
    · have hgone : ∀ q, ¬ u ∈ (k.unlinkReady u).suspendThread q := fun q hq =>
        (mem_unlinkReady.mp hq).2 rfl
      show ThreadOk ((k.unlinkReady u).thread u) _ (fun q => u ∈ (k.unlinkReady u).suspendThread q)
        (s.pc u)
      rw [unlinkReady_thread, if_pos rfl]
      cases hpu : s.pc u with
      | user | done =>
        rw [hpu] at ht
        exact absurd hu (ht.2 m)
      | take m' time ph =>
        rw [hpu] at ht
        obtain ⟨rfl, hlk, -⟩ := ht.2 m hu
        refine ⟨?_, fun q hq => absurd hq (hgone q)⟩
        have hown : (((s.setHeld s.kern.current m (s.held s.kern.current m - 1)).setMutex m
            { s.mutex m with owner := some u, originalPriority := p, hold := 1 }).setKern
              (k.unlinkReady u)).Owns u m := by
          simp [Owns, MutexSys.setMutex, setKern]
        cases ph with
        | sched | switched => exact fun _ => .inr (.inl hown)
        | timer => exact fun e => ht.1 ((hsame u).error.symm.trans e)
        | _ => cases hlk
    · refine .inr (.inr ⟨?_, ?_, hno⟩)
      · simp [MutexSys.setMutex, setKern, hv]
      · simp [MutexSys.setMutex, setKern]
  · rw [he]
    refine h.update s.kern.current m (fun _ _ => rfl) (fun v _ => hsame v) (fun v q _ hq => ?_)
      (fun q hq => Function.update_of_ne hq ..) (fun v time ph _ hpv hown =>
        absurd hown (hlose v time ph hpv)) (fun _ _ => Iff.rfl) ?_ ?_
    · have hq' : v ∈ k.suspendThread q := hq
      rwa [hsus] at hq'
    · show ThreadOk (k.thread s.kern.current) _ (fun q => s.kern.current ∈ k.suspendThread q)
        (s.pc s.kern.current)
      rw [hp, hsus]
      exact ⟨(hsame _).stat.trans hr, hoff⟩
    · refine .inl ⟨?_, ?_, hno⟩
      · simp [MutexSys.setMutex, setKern, hv]
      · simp [MutexSys.setMutex, setKern]

/-! ## Every step -/

/-- The steps keep the invariant, but for the two that `WaitKeeps` names. -/
theorem WaitInv.step (h : WaitInv s) {act : MutexAct} (hc : WaitKeeps s act)
    (hs : mutexStep s act = some s') : WaitInv s' := by
  cases act with
  | preempt u =>
    simp only [mutexStep] at hs
    split at hs <;> cases hs
    exact h.preempt u
  | take m time =>
    simp only [mutexStep] at hs
    split at hs
    · exact h.take ‹_› hs
    · cases hs
  | stmt =>
    have hd := hc.dec
    simp only [mutexStep] at hs
    split at hs
    · next m time ph hp =>
      refine h.stmt hp (fun e => ?_) hs
      subst e
      exact hd _ (stmtOf_stmt hp) rfl
    · cases hs
  | schedule next => exact h.schedule hs
  | ret =>
    simp only [mutexStep] at hs
    split at hs <;> cases hs
    exact h.ret ‹_›
  | release m =>
    simp only [mutexStep] at hs
    split at hs <;> cases hs
    exact h.release ‹_› m
  | timeout u => exact h.timeout hs
  | sigResume u => exact h.sigResume hc.link hs
  | sigHandle u => exact h.sigHandle hs

theorem WaitInv.init (flag priority : Nat → Nat) : WaitInv (mutexInit flag priority) :=
  ⟨fun _ => ⟨rfl, fun _ h => by cases h⟩, fun _ => .inl ⟨rfl, rfl, fun _ h => h⟩⟩

/-- The thread 1 waits for the mutex until the thread 0 releases it. -/
def handOver : List MutexAct :=
  [.take 0 (-1), .ret, .preempt 1, .take 0 (-1), .schedule (some 0), .release 0, .preempt 1, .stmt,
    .stmt]

end Tudu.Mutex
