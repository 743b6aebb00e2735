import Mathlib.Logic.Function.Basic
import TuduOS.Lib.Lts

/-!
# Once-only initialization (`pthread.c`)

Any number of threads that call `pthread_once` with one control, on one processor. The thread that
runs makes the steps, and another one runs only where the scheduler is not locked, which includes
that the running thread blocks.

* `rt_enter_critical` and `rt_exit_critical` are steps; `nest` is `rt_scheduler_lock_nest`. A nesting
  that overflows has no next state.
* Threads lock the scheduler in code of their own and in `init_routine`. The ghost `depth t` counts
  the levels that `t` has entered and not left. `init_routine` leaves as many as it enters.
* A call keeps the nesting that it found (`n`) and, in the routine, the depth (`d`).
* The ghosts `runs` and `done` count the calls of `init_routine` and say whether it has returned.
  `early`: a call has returned before that. `moved`: one has left another nesting than it found.
-/

namespace Tudu.Pthread

open Lts

/-- Where a thread is in `pthread_once`. -/
inductive OncePc where
  | user
  /-- Behind `rt_enter_critical`. -/
  | entered (n : Nat)
  /-- It has set the control. -/
  | marked (n : Nat)
  | routine (n d : Nat)
  /-- Behind `init_routine`. -/
  | ran (n : Nat)
  /-- The control was set before. -/
  | skipped (n : Nat)
  deriving DecidableEq

structure OnceSys (T : Type) where
  current : T
  nest : Nat
  onceControl : Bool
  pc : T → OncePc
  depth : T → Nat
  runs : Nat
  done : Bool
  early : Bool
  moved : Bool

inductive OnceAct (T : Type) where
  /-- Another thread runs. -/
  | switch (t : T)
  /-- The running thread locks the scheduler, or unlocks it. -/
  | enter
  | exit
  /-- It calls `pthread_once`. -/
  | call
  | goOn
  deriving DecidableEq

namespace OnceSys

variable {T : Type} [DecidableEq T]

def goto (s : OnceSys T) (p : OncePc) : OnceSys T :=
  { s with pc := Function.update s.pc s.current p }

/-- `rt_enter_critical` -/
def enterCritical (s : OnceSys T) : Option (OnceSys T) :=
  if s.nest < 32767 then some { s with nest := s.nest + 1 } else none

/-- `rt_exit_critical`: a nesting below 0 is made 0. -/
def exitCritical (s : OnceSys T) : OnceSys T := { s with nest := s.nest - 1 }

def setDepth (s : OnceSys T) (d : Nat) : OnceSys T :=
  { s with depth := Function.update s.depth s.current d }

/-- Code of its own, where the thread may lock the scheduler; of the levels it has entered it may
leave those above `d`. -/
def own (s : OnceSys T) : Option Nat :=
  match s.pc s.current with
  | .user => some 0
  | .routine _ d => some d
  | _ => none

/-- The last `rt_exit_critical` of a call that found the nesting `n`, and the return. -/
def leave (s : OnceSys T) (n : Nat) : OnceSys T :=
  let s := s.exitCritical
  { s.goto .user with
    early := s.early || !s.done
    moved := s.moved || decide (s.nest ≠ n) }

def goOn (s : OnceSys T) : Option (OnceSys T) :=
  match s.pc s.current with
  | .user => none
  | .entered n =>
    if s.onceControl then some (s.goto (.skipped n))
    else some ({ s with onceControl := true }.goto (.marked n))
  | .marked n =>
    let s := s.exitCritical
    some ({ s with runs := s.runs + 1 }.goto (.routine n (s.depth s.current)))
  | .routine n d =>
    if s.depth s.current = d then some ({ s with done := true }.goto (.ran n)) else none
  | .ran n => some (s.leave n)
  | .skipped n => some (s.leave n)

end OnceSys

variable {T : Type} [DecidableEq T]

def onceStep (s : OnceSys T) : OnceAct T → Option (OnceSys T)
  | .switch t => if s.nest = 0 then some { s with current := t } else none
  | .enter =>
    match s.own with
    | some _ => s.enterCritical.map fun s => s.setDepth (s.depth s.current + 1)
    | none => none
  | .exit =>
    match s.own with
    | some d =>
      if d < s.depth s.current then some (s.exitCritical.setDepth (s.depth s.current - 1)) else none
    | none => none
  | .call =>
    if s.pc s.current = .user then s.enterCritical.map fun s' => s'.goto (.entered s.nest) else none
  | .goOn => s.goOn

/-- `PTHREAD_ONCE_INIT`, and the thread `t` runs. -/
def onceInit (t : T) : OnceSys T :=
  ⟨t, 0, false, fun _ => .user, fun _ => 0, 0, false, false, false⟩

/-! ## The property and the condition -/

/-- The routine has not run twice, and no call has returned before it or with another nesting. -/
structure OnceOk (s : OnceSys T) : Prop where
  le : s.runs ≤ 1
  once : s.done = true → s.runs = 1
  waits : s.early = false
  nests : s.moved = false

/-- No call is made while the routine runs, and the first one is made with the scheduler unlocked. -/
def Undisturbed (s : OnceSys T) (act : OnceAct T) : Prop :=
  act = .call → (s.onceControl = true → s.done = true) ∧ (s.onceControl = false → s.nest = 0)

instance (s : OnceSys T) (act : OnceAct T) : Decidable (Undisturbed s act) :=
  inferInstanceAs (Decidable (_ → _ ∧ _))

/-! ## The invariant -/

/-- The `rt_enter_critical` of the call that is not undone yet. -/
def OncePc.locks : OncePc → Nat
  | entered _ => 1
  | marked _ => 1
  | skipped _ => 1
  | _ => 0

/-- The nesting that the call found, where it has locked the scheduler. -/
def OncePc.found : OncePc → Option Nat
  | entered n => some n
  | marked n => some n
  | skipped n => some n
  | _ => none

/-- Nobody has set the control. -/
structure Fresh (s : OnceSys T) : Prop where
  control : s.onceControl = false
  done : s.done = false
  runs : s.runs = 0
  pc : ∀ u, s.pc u = .user ∨ s.pc u = .entered 0

/-- The thread `t` has set the control, and runs the routine. -/
structure Running (s : OnceSys T) (t : T) : Prop where
  control : s.onceControl = true
  done : s.done = false
  self : s.pc t = .marked 0 ∧ s.runs = 0 ∨ s.pc t = .routine 0 0 ∧ s.runs = 1
  other : ∀ u, u ≠ t → s.pc u = .user

/-- Where a thread can be then; `d` is its depth. -/
def OncePc.Late (q : OncePc) (d : Nat) : Prop :=
  q = .user ∨ (∃ n, q = .entered n) ∨ (∃ n, q = .skipped n) ∨ q = .ran 0 ∧ d = 0

/-- The routine has returned. -/
structure Over (s : OnceSys T) : Prop where
  control : s.onceControl = true
  done : s.done = true
  runs : s.runs = 1
  pc : ∀ u, (s.pc u).Late (s.depth u)

def Phase (s : OnceSys T) : Prop := Fresh s ∨ (∃ t, Running s t) ∨ Over s

structure OnceInv (s : OnceSys T) : Prop where
  nest : s.nest = s.depth s.current + (s.pc s.current).locks
  rest : ∀ u, u ≠ s.current → s.depth u = 0 ∧ (s.pc u).locks = 0
  found : ∀ n, (s.pc s.current).found = some n → n = s.depth s.current
  phase : Phase s
  early : s.early = false
  moved : s.moved = false

variable {s s' : OnceSys T} {act : OnceAct T} {t u : T} {p : OncePc} {n d : Nat}

omit [DecidableEq T] in
theorem OncePc.found_none (h : p.locks = 0) : p.found = none := by
  cases p <;> first | rfl | cases h

omit [DecidableEq T] in
theorem Phase.congr (h : Phase s) (hc : s'.onceControl = s.onceControl) (hd : s'.done = s.done)
    (hr : s'.runs = s.runs) (hpc : s'.pc = s.pc)
    (hdepth : ∀ u, s.pc u = .ran 0 → s'.depth u = s.depth u) : Phase s' := by
  rcases h with hf | ⟨t, ht⟩ | hv
  · exact .inl ⟨hc.trans hf.control, hd.trans hf.done, hr.trans hf.runs, hpc ▸ hf.pc⟩
  · exact .inr (.inl ⟨t, hc.trans ht.control, hd.trans ht.done, hpc ▸ hr ▸ ht.self, hpc ▸ ht.other⟩)
  · refine .inr (.inr ⟨hc.trans hv.control, hd.trans hv.done, hr.trans hv.runs, fun u => ?_⟩)
    rw [hpc]
    refine Or.imp_right (Or.imp_right (Or.imp_right fun hran => ⟨hran.1, ?_⟩)) (hv.pc u)
    exact (hdepth u hran.1).trans hran.2

theorem OnceSys.forall_late (s : OnceSys T) :
    (∀ u, (Function.update s.pc s.current p u).Late (s.depth u)) ↔
      p.Late (s.depth s.current) ∧ ∀ u, u ≠ s.current → (s.pc u).Late (s.depth u) :=
  Function.forall_update_iff s.pc fun u q => q.Late (s.depth u)

namespace OnceInv

omit [DecidableEq T] in
theorem ok (h : OnceInv s) : OnceOk s := by
  refine ⟨?_, fun hd => ?_, h.early, h.moved⟩
  · rcases h.phase with hf | ⟨t, ht⟩ | hv
    · rw [hf.runs]
      exact Nat.zero_le 1
    · rcases ht.self with ⟨-, hr⟩ | ⟨-, hr⟩
      · rw [hr]
        exact Nat.zero_le 1
      · exact Nat.le_of_eq hr
    · exact Nat.le_of_eq hv.runs
  · rcases h.phase with hf | ⟨t, ht⟩ | hv
    · rw [hf.done] at hd
      cases hd
    · rw [ht.done] at hd
      cases hd
    · exact hv.runs

theorem switch (h : OnceInv s) (h0 : s.nest = 0) : OnceInv { s with current := t } := by
  have hnest := h.nest
  have hall : ∀ u, s.depth u = 0 ∧ (s.pc u).locks = 0 := by
    intro u
    by_cases hu : u = s.current
    · rw [hu]
      omega
    · exact h.rest u hu
  refine ⟨?_, fun u _ => hall u, fun n hn => ?_, h.phase.congr rfl rfl rfl rfl fun _ _ => rfl,
    h.early, h.moved⟩
  · show s.nest = s.depth t + (s.pc t).locks
    have := hall t
    omega
  · have hn' : (s.pc t).found = some n := hn
    rw [OncePc.found_none (hall t).2] at hn'
    cases hn'

omit [DecidableEq T] in
/-- Where the running thread is in code of its own, it has not locked the scheduler in the call. -/
theorem own_locks (ho : s.own = some d) :
    (s.pc s.current).locks = 0 ∧ ∀ n, s.pc s.current ≠ .ran n := by
  unfold OnceSys.own at ho
  split at ho
  · next hp =>
    rw [hp]
    exact ⟨rfl, fun n hn => (by cases hn)⟩
  · next hp =>
    rw [hp]
    exact ⟨rfl, fun n hn => (by cases hn)⟩
  · cases ho

/-- The running thread locks the scheduler or unlocks it. -/
theorem setDepth (h : OnceInv s) (ho : s.own = some d) {k : Nat} :
    OnceInv (({ s with nest := k } : OnceSys T).setDepth k) := by
  obtain ⟨hlocks, hran⟩ := own_locks ho
  refine ⟨?_, fun u hu => ?_, fun n hn => ?_, h.phase.congr rfl rfl rfl rfl fun u hu => ?_, h.early,
    h.moved⟩
  · show k = Function.update s.depth s.current k s.current + (s.pc s.current).locks
    rw [Function.update_self, hlocks, Nat.add_zero]
  · have hu' : u ≠ s.current := hu
    show Function.update s.depth s.current k u = 0 ∧ _
    rw [Function.update_of_ne hu']
    exact h.rest u hu'
  · have hn' : (s.pc s.current).found = some n := hn
    rw [OncePc.found_none hlocks] at hn'
    cases hn'
  · show Function.update s.depth s.current k u = s.depth u
    refine Function.update_of_ne (fun he => ?_) ..
    rw [he] at hu
    exact hran 0 hu

/-- The running thread goes on in the call. -/
theorem goto (h : OnceInv s) {k runs : Nat} {ctl done : Bool} (hk : k = s.depth s.current + p.locks)
    (hfound : ∀ n, p.found = some n → n = s.depth s.current)
    (hphase : Phase (({ s with nest := k, onceControl := ctl, runs := runs, done := done } :
      OnceSys T).goto p)) :
    OnceInv (({ s with nest := k, onceControl := ctl, runs := runs, done := done } :
      OnceSys T).goto p) := by
  refine ⟨?_, fun u hu => ?_, fun n hn => ?_, hphase, h.early, h.moved⟩
  · show k = s.depth s.current + (Function.update s.pc s.current p s.current).locks
    rw [Function.update_self]
    exact hk
  · have hu' : u ≠ s.current := hu
    show s.depth u = 0 ∧ (Function.update s.pc s.current p u).locks = 0
    rw [Function.update_of_ne hu']
    exact h.rest u hu'
  · have hn' : (Function.update s.pc s.current p s.current).found = some n := hn
    rw [Function.update_self] at hn'
    exact hfound n hn'

/-! ## The parts of a call -/

omit [DecidableEq T] in
/-- Who is behind its test of the control. -/
theorem phase_of_control (h : OnceInv s) (hc : s.onceControl = true) :
    (∃ t, Running s t) ∨ Over s := by
  refine h.phase.resolve_left fun hf => ?_
  rw [hf.control] at hc
  cases hc

omit [DecidableEq T] in
theorem running_current {t : T} (ht : Running s t) (hu : s.pc s.current ≠ .user) :
    Running s s.current := by
  by_cases hts : s.current = t
  · exact hts ▸ ht
  · exact absurd (ht.other _ hts) hu

theorem call (h : OnceInv s) (hpc : s.pc s.current = .user) (hc : Undisturbed s .call) :
    OnceInv (({ s with nest := s.nest + 1 } : OnceSys T).goto (.entered s.nest)) := by
  obtain ⟨hset, hclear⟩ := hc rfl
  have hnest := h.nest
  rw [hpc] at hnest
  refine h.goto (congrArg (· + 1) hnest) (fun n hn => ?_) ?_
  · rw [← Option.some.inj hn, hnest]
    rfl
  · rcases h.phase with hf | ⟨t, ht⟩ | hv
    · refine .inl ⟨hf.control, hf.done, hf.runs, (Function.forall_update_iff s.pc
        fun _ q => q = .user ∨ q = .entered 0).mpr ⟨.inr ?_, fun u _ => hf.pc u⟩⟩
      rw [hclear hf.control]
    · have hdone := hset ht.control
      rw [ht.done] at hdone
      cases hdone
    · exact .inr (.inr ⟨hv.control, hv.done, hv.runs, s.forall_late.mpr
        ⟨.inr (.inl ⟨_, rfl⟩), fun u _ => hv.pc u⟩⟩)

theorem entered (h : OnceInv s) (hpc : s.pc s.current = .entered n) (hs : s.goOn = some s') :
    OnceInv s' := by
  have hnest := h.nest
  have hfound : n = s.depth s.current := h.found n (by rw [hpc]; rfl)
  rw [hpc] at hnest
  simp only [OnceSys.goOn, hpc] at hs
  split at hs
  · next hc =>
    cases hs
    refine h.goto hnest (fun m hm => (Option.some.inj hm).symm.trans hfound) ?_
    rcases h.phase_of_control hc with ⟨t, ht⟩ | hv
    · -- the thread that runs the routine is not here
      rcases (running_current ht (by rw [hpc]; exact fun he => (by cases he))).self with hp | hp
      · rw [hpc] at hp
        cases hp.1
      · rw [hpc] at hp
        cases hp.1
    · exact .inr (.inr ⟨hv.control, hv.done, hv.runs, s.forall_late.mpr
        ⟨.inr (.inr (.inl ⟨_, rfl⟩)), fun u _ => hv.pc u⟩⟩)
  · next hc =>
    cases hs
    refine h.goto hnest (fun m hm => (Option.some.inj hm).symm.trans hfound) ?_
    rcases h.phase with hf | ⟨t, ht⟩ | hv
    · have hn0 : n = 0 := by
        rcases hf.pc s.current with hp | hp
        · rw [hpc] at hp
          cases hp
        · rw [hpc] at hp
          exact OncePc.entered.inj hp
      subst hn0
      refine .inr (.inl ⟨s.current, rfl, hf.done, .inl ⟨Function.update_self .., hf.runs⟩,
        fun u hu => ?_⟩)
      refine (Function.update_of_ne hu ..).trans ((hf.pc u).resolve_right fun hp => ?_)
      have hl := (h.rest u hu).2
      rw [hp] at hl
      cases hl
    · exact absurd ht.control hc
    · exact absurd hv.control hc

omit [DecidableEq T] in
/-- The thread that has set the control runs the routine. -/
theorem running_of_pc (h : OnceInv s) (hu : s.pc s.current ≠ .user)
    (he : ∀ n, s.pc s.current ≠ .entered n) (hk : ∀ n, s.pc s.current ≠ .skipped n)
    (hr : ∀ n, s.pc s.current ≠ .ran n) : Running s s.current := by
  rcases h.phase with hf | ⟨t, ht⟩ | hv
  · exact absurd (hf.pc s.current) (not_or.mpr ⟨hu, he 0⟩)
  · exact running_current ht hu
  · rcases hv.pc s.current with hp | ⟨m, hp⟩ | ⟨m, hp⟩ | hp
    · exact absurd hp hu
    · exact absurd hp (he m)
    · exact absurd hp (hk m)
    · exact absurd hp.1 (hr 0)

theorem marked (h : OnceInv s) (hpc : s.pc s.current = .marked n) (hs : s.goOn = some s') :
    OnceInv s' := by
  have hnest := h.nest
  have hfound : n = s.depth s.current := h.found n (by rw [hpc]; rfl)
  have ht := h.running_of_pc (by rw [hpc]; exact fun he => (by cases he))
    (fun m => by rw [hpc]; exact fun he => (by cases he))
    (fun m => by rw [hpc]; exact fun he => (by cases he))
    (fun m => by rw [hpc]; exact fun he => (by cases he))
  rw [hpc] at hnest
  simp only [OnceSys.goOn, hpc] at hs
  cases hs
  rcases ht.self with ⟨hp, hruns⟩ | ⟨hp, -⟩
  · rw [hpc] at hp
    obtain rfl := OncePc.marked.inj hp
    refine h.goto (k := s.nest - 1) (by rw [hnest]; rfl) (fun m hm => (by cases hm)) ?_
    refine .inr (.inl ⟨s.current, ht.control, ht.done, .inr ⟨?_, congrArg (· + 1) hruns⟩,
      fun u hu => (Function.update_of_ne hu ..).trans (ht.other u hu)⟩)
    refine (Function.update_self ..).trans ?_
    show OncePc.routine 0 (s.depth s.current) = _
    rw [← hfound]
  · rw [hpc] at hp
    cases hp

theorem routine (h : OnceInv s) (hpc : s.pc s.current = .routine n d) (hs : s.goOn = some s') :
    OnceInv s' := by
  have hnest := h.nest
  have ht := h.running_of_pc (by rw [hpc]; exact fun he => (by cases he))
    (fun m => by rw [hpc]; exact fun he => (by cases he))
    (fun m => by rw [hpc]; exact fun he => (by cases he))
    (fun m => by rw [hpc]; exact fun he => (by cases he))
  rw [hpc] at hnest
  simp only [OnceSys.goOn, hpc] at hs
  split at hs <;> cases hs
  next hd =>
  rcases ht.self with ⟨hp, -⟩ | ⟨hp, hruns⟩
  · rw [hpc] at hp
    cases hp
  · rw [hpc] at hp
    obtain ⟨rfl, rfl⟩ := OncePc.routine.inj hp
    refine h.goto hnest (fun m hm => (by cases hm)) ?_
    exact .inr (.inr ⟨ht.control, rfl, hruns, s.forall_late.mpr
      ⟨.inr (.inr (.inr ⟨rfl, hd⟩)), fun u hu => .inl (ht.other u hu)⟩⟩)

/-- A call returns when the routine has returned, with the nesting that it found. -/
theorem leave (h : OnceInv s) (hv : Over s) (hn : s.nest - 1 = n) (hd : n = s.depth s.current) :
    OnceInv (s.leave n) := by
  have hgo : OnceInv (({ s with nest := s.nest - 1 } : OnceSys T).goto .user) := by
    refine h.goto (hn.trans hd) (fun m hm => (by cases hm)) ?_
    exact .inr (.inr ⟨hv.control, hv.done, hv.runs, s.forall_late.mpr
      ⟨.inl rfl, fun u _ => hv.pc u⟩⟩)
  refine ⟨hgo.nest, hgo.rest, hgo.found, hgo.phase.congr rfl rfl rfl rfl fun _ _ => rfl, ?_, ?_⟩
  · show (s.early || !s.done) = false
    rw [h.early, hv.done]
    rfl
  · show (s.moved || decide (s.nest - 1 ≠ n)) = false
    rw [h.moved, hn]
    simp

omit [DecidableEq T] in
theorem over_of_pc (h : OnceInv s) (hp : (∃ n, s.pc s.current = .ran n) ∨
    ∃ n, s.pc s.current = .skipped n) : Over s := by
  have hne : ∀ q, s.pc s.current = q → (∃ n, q = .ran n) ∨ ∃ n, q = .skipped n := by
    rintro q rfl
    exact hp
  rcases h.phase with hf | ⟨t, ht⟩ | hv
  · rcases hf.pc s.current with hq | hq
    · rcases hne _ hq with ⟨n, hn⟩ | ⟨n, hn⟩ <;> cases hn
    · rcases hne _ hq with ⟨n, hn⟩ | ⟨n, hn⟩ <;> cases hn
  · have hu : s.pc s.current ≠ .user := by
      intro hq
      rcases hne _ hq with ⟨n, hn⟩ | ⟨n, hn⟩ <;> cases hn
    rcases (running_current ht hu).self with ⟨hq, -⟩ | ⟨hq, -⟩
    · rcases hne _ hq with ⟨n, hn⟩ | ⟨n, hn⟩ <;> cases hn
    · rcases hne _ hq with ⟨n, hn⟩ | ⟨n, hn⟩ <;> cases hn
  · exact hv

theorem step (h : OnceInv s) (hc : Undisturbed s act) (hs : onceStep s act = some s') :
    OnceInv s' := by
  cases act with
  | switch t =>
    simp only [onceStep] at hs
    split at hs <;> cases hs
    next h0 => exact h.switch h0
  | enter =>
    simp only [onceStep] at hs
    split at hs
    · next d ho =>
      obtain ⟨s1, he, rfl⟩ := Option.map_eq_some_iff.mp hs
      simp only [OnceSys.enterCritical] at he
      split at he <;> cases he
      have hnest : s.nest + 1 = s.depth s.current + 1 := by
        have := h.nest
        rw [(own_locks ho).1] at this
        omega
      have hset := h.setDepth ho (k := s.nest + 1)
      exact hnest ▸ hset
    · cases hs
  | exit =>
    simp only [onceStep] at hs
    split at hs
    · next d ho =>
      split at hs <;> cases hs
      have hnest : s.nest - 1 = s.depth s.current - 1 := by
        have := h.nest
        rw [(own_locks ho).1] at this
        omega
      have hset := h.setDepth ho (k := s.nest - 1)
      exact hnest ▸ hset
    · cases hs
  | call =>
    simp only [onceStep] at hs
    split at hs
    · next hpc =>
      obtain ⟨s1, he, rfl⟩ := Option.map_eq_some_iff.mp hs
      simp only [OnceSys.enterCritical] at he
      split at he <;> cases he
      exact h.call hpc hc
    · cases hs
  | goOn =>
    simp only [onceStep] at hs
    cases hpc : s.pc s.current with
    | user =>
      simp only [OnceSys.goOn, hpc] at hs
      cases hs
    | entered n => exact h.entered hpc hs
    | marked n => exact h.marked hpc hs
    | routine n d => exact h.routine hpc hs
    | ran n =>
      have hv := h.over_of_pc (.inl ⟨n, hpc⟩)
      have hnest := h.nest
      rw [hpc] at hnest
      simp only [OnceSys.goOn, hpc] at hs
      cases hs
      rcases hv.pc s.current with hp | ⟨m, hp⟩ | ⟨m, hp⟩ | ⟨hp, hd⟩
      · rw [hpc] at hp
        cases hp
      · rw [hpc] at hp
        cases hp
      · rw [hpc] at hp
        cases hp
      · rw [hpc] at hp
        obtain rfl := OncePc.ran.inj hp
        refine h.leave hv ?_ hd.symm
        rw [hnest, hd]
        rfl
    | skipped n =>
      have hv := h.over_of_pc (.inr ⟨n, hpc⟩)
      have hnest := h.nest
      have hfound : n = s.depth s.current := h.found n (by rw [hpc]; rfl)
      rw [hpc] at hnest
      simp only [OnceSys.goOn, hpc] at hs
      cases hs
      refine h.leave hv ?_ hfound
      rw [hnest, hfound]
      rfl

omit [DecidableEq T] in
theorem init (t : T) : OnceInv (onceInit t) where
  nest := rfl
  rest _ _ := ⟨rfl, rfl⟩
  found n hn := by cases hn
  phase := .inl ⟨rfl, rfl, rfl, fun _ => .inl rfl⟩
  early := rfl
  moved := rfl

end OnceInv

/-- **When `pthread_once` does what it should.** In every run in which no call is made while the
routine runs, and the first one is made with the scheduler unlocked: the routine runs once, no call
returns before it, and every call leaves the nesting that it found. -/
theorem once_ok {t : T} {acts : List (OnceAct T)} (hc : Along onceStep Undisturbed (onceInit t) acts)
    (hx : exec onceStep (onceInit t) acts = some s) : OnceOk s :=
  (hc.inv (I := OnceInv) (fun _ _ _ h ha hs => h.step ha hs) hx (OnceInv.init t)).ok

/-- The routine is left for another thread; the second call comes when it has returned. -/
def lateCall : List (OnceAct Bool) :=
  [.call, .goOn, .goOn, .switch false, .enter, .exit, .switch true, .goOn, .goOn, .enter, .call,
    .goOn, .goOn]

theorem once_ok_late : ∃ s, exec onceStep (onceInit true) lateCall = some s ∧ OnceOk s ∧
    s.nest = 1 ∧ s.runs = 1 :=
  ⟨_, rfl, @once_ok Bool _ _ true lateCall (by decide) rfl, rfl, rfl⟩

/-- The first call finds the scheduler locked; and a call comes while the routine is blocked. -/
theorem once_fails :
    (∃ s, exec onceStep (onceInit true) [.enter, .call, .goOn, .goOn, .goOn, .goOn] = some s ∧
      s.nest = 0 ∧ s.depth true = 1 ∧ ¬OnceOk s) ∧
    ∃ s, exec onceStep (onceInit true) [.call, .goOn, .goOn, .switch false, .call, .goOn,
      .goOn] = some s ∧ s.pc true = .routine 0 0 ∧ ¬OnceOk s := by
  refine ⟨⟨_, rfl, rfl, rfl, fun h => ?_⟩, _, rfl, rfl, fun h => ?_⟩
  · cases h.nests
  · cases h.waits

end Tudu.Pthread
