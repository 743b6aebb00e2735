import TuduOS.Lib.Lts

/-!
# The end of a POSIX thread (`pthread.c`, `idle.c`)

One thread that ends, the idle thread that cleans up after it, one thread that joins it and one
that detaches it. A section with interrupts disabled or with the scheduler locked is one step,
between two steps any thread may run. An access to freed memory sets the ghost `bad`; a call through
a null pointer or with a null semaphore has no next state.

* A thread that returns from its entry goes to the list of the defunct threads in one section. One
  that calls `pthread_exit` removes itself from the scheduler first, with interrupts enabled; if
  another thread runs then, it never runs again.
* The idle thread handles a defunct thread from `cleanup` to `rt_object_detach` in one section.
* `_pthread_data_destroy` is five steps of the thread that joins, and a part of one step of the
  others.

`Good s` is what should hold, `Kept s act` what a step is not to do.
-/

namespace Tudu.Pthread

open Lts

inductive TState where
  | running
  /-- Its value is set. -/
  | ended
  /-- Removed from the scheduler in `rt_thread_detach`. -/
  | removed
  | lost
  /-- In the list of the defunct threads. -/
  | closed
  /-- The idle thread is done with it. -/
  | handled
  deriving DecidableEq

inductive JState where
  | out
  /-- It has the pointer to the data. -/
  | got
  /-- The thread is joinable. -/
  | checked
  | suspended
  | took
  /-- The number of steps of `_pthread_data_destroy` that are made. -/
  | destroying (i : Nat)
  /-- It returned 0. -/
  | done
  /-- It returned an error. -/
  | failed
  deriving DecidableEq

inductive DState where
  | out | got | done
  /-- It destroyed the data and returned 0. -/
  | destroyed
  | failed
  deriving DecidableEq

structure LifeSys where
  thread : TState
  /-- `return_value` -/
  value : Nat
  /-- What the thread returned. -/
  result : Option Nat
  /-- `detachstate == PTHREAD_CREATE_DETACHED` -/
  detached : Bool
  /-- The value of `joinable_sem`, if there is one. -/
  sem : Option Nat
  inTable : Bool
  /-- `pthread_create` allocated the stack, and it is not freed yet. -/
  stackAddr : Bool
  /-- How often the stack, the thread structure and the data were freed. -/
  stackFreed : Nat
  tidFreed : Nat
  ptdFreed : Nat
  bad : Bool
  join : JState
  detach : DState
  joined : Option Nat
  deriving DecidableEq

namespace LifeSys

/-- An access to the data. -/
def usePtd (s : LifeSys) : LifeSys := { s with bad := s.bad || decide (0 < s.ptdFreed) }

/-- An access to the thread structure. -/
def useTid (s : LifeSys) : LifeSys := { s with bad := s.bad || decide (0 < s.tidFreed) }

/-- `rt_sem_release(ptd->joinable_sem)` -/
def release (s : LifeSys) : LifeSys :=
  if s.join = .suspended then { s with join := .took }
  else { s with sem := s.sem.map (· + 1) }

/-- `rt_sem_delete`; who is suspended gets an error. -/
def semDelete (s : LifeSys) : LifeSys :=
  { s with sem := none, join := if s.join = .suspended then .failed else s.join }

/-- The steps of `_pthread_data_destroy`, in their order. -/
def destroyStep (s : LifeSys) : Nat → LifeSys
  | 0 => { s.usePtd with inTable := false }
  | 1 => if s.sem.isSome then s.usePtd.semDelete else s.usePtd
  | 2 =>
    { s.usePtd.useTid with
      stackFreed := if s.stackAddr then s.stackFreed + 1 else s.stackFreed, stackAddr := false }
  | 3 => { s.usePtd with tidFreed := s.tidFreed + 1 }
  | _ => { s.usePtd with ptdFreed := s.ptdFreed + 1 }

/-- `_pthread_destroy`, in a section: nothing if the data is not in the table. -/
def destroy (s : LifeSys) : LifeSys :=
  if s.inTable then
    ((((s.destroyStep 0).destroyStep 1).destroyStep 2).destroyStep 3).destroyStep 4
  else s

/-- `_pthread_cleanup` -/
def cleanup (s : LifeSys) : LifeSys :=
  let s := s.useTid.usePtd
  if s.detached then s.destroy else s.release

/-- The turn of the loop of `rt_thread_idle_excute` for the thread. It uses the thread structure
before and after `cleanup`. -/
def idle (s : LifeSys) : LifeSys := { s.useTid.cleanup.useTid with thread := .handled }

/-- The section of `pthread_detach`; `none` for a call with a null semaphore. -/
def detachSection (s : LifeSys) : Option LifeSys :=
  let s := s.usePtd
  if s.detached then some { s with detach := .failed }
  else
    let s := s.useTid
    if s.thread = .closed ∨ s.thread = .handled then
      match s.sem with
      | none => none
      | some 0 => some { { s.release with detached := true }.semDelete with detach := .done }
      | some (n + 1) => some { { s with sem := some n }.destroy with detach := .destroyed }
    else
      let s := { s with detached := true }
      some { (if s.sem.isSome then s.semDelete else s) with detach := .done }

end LifeSys

inductive LifeAct where
  /-- The thread returns from its entry, or calls `pthread_exit`, with the value `v`. -/
  | finish (v : Nat)
  /-- `rt_thread_exit` -/
  | exit
  /-- `rt_thread_detach`, called by the thread itself: `rt_schedule_remove_thread`, and the rest. -/
  | remove
  | insert
  | idle
  | joinCall
  | check
  | take
  | read
  /-- One step of `_pthread_data_destroy` in `pthread_join`. -/
  | destroy
  | detachCall
  | detach
  deriving DecidableEq

namespace LifeSys

/-- A step of another thread. The thread that has removed itself does not run again. -/
def switch (s : LifeSys) : LifeSys :=
  if s.thread = .removed then { s with thread := .lost } else s

/-- A step of the thread itself. -/
def own (s : LifeSys) : LifeAct → Option LifeSys
  | .finish v =>
    if s.thread = .running then
      some { s.usePtd with thread := .ended, value := v, result := some v }
    else none
  | .exit => if s.thread = .ended then some { s.useTid with thread := .closed } else none
  | .remove => if s.thread = .ended then some { s.useTid with thread := .removed } else none
  | .insert => if s.thread = .removed then some { s.useTid with thread := .closed } else none
  | _ => none

/-- A step of `pthread_join`. -/
def joiner (s : LifeSys) : LifeAct → Option LifeSys
  | .joinCall =>
    if s.join = .out ∧ s.inTable = true then some { s.usePtd with join := .got } else none
  | .check =>
    if s.join = .got then
      some { s.usePtd with join := if s.detached = true then .failed else .checked }
    else none
  | .take =>
    if s.join = .checked then
      match s.sem with
      | none => none
      | some 0 => some { s.usePtd with join := .suspended }
      | some (n + 1) => some { s.usePtd with join := .took, sem := some n }
    else none
  | .read =>
    if s.join = .took then
      some { s.usePtd with joined := some s.value, join := .destroying 0 }
    else none
  | .destroy =>
    match s.join with
    | .destroying i =>
      if i = 0 ∧ s.inTable = false then some { s with join := .done }
      else if i < 4 then some { s.destroyStep i with join := .destroying (i + 1) }
      else some { s.destroyStep i with join := .done }
    | _ => none
  | _ => none

/-- A step of `pthread_detach`. -/
def detacher (s : LifeSys) : LifeAct → Option LifeSys
  | .detachCall =>
    if s.detach = .out ∧ s.inTable = true then some { s.usePtd with detach := .got } else none
  | .detach => if s.detach = .got then s.detachSection else none
  | _ => none

end LifeSys

def LifeAct.IsOwn : LifeAct → Bool
  | .finish _ | .exit | .remove | .insert => true
  | _ => false

def lifeStep (s : LifeSys) (act : LifeAct) : Option LifeSys :=
  if act.IsOwn then s.own act
  else if act = .idle then
    if s.thread = .closed then some s.switch.idle else none
  else if act = .detachCall ∨ act = .detach then s.switch.detacher act
  else s.switch.joiner act

/-- A thread that runs; `pthread_create` made its stack or not, and its semaphore if it is
joinable. -/
def lifeInit (stack detached : Bool) : LifeSys :=
  ⟨.running, 0, none, detached, if detached then none else some 0, true, stack, 0, 0, 0, false,
    .out, .out, none⟩

/-! ## The property and the condition -/

/-- Nobody can go on without a new call. -/
def LifeSys.Quiet (s : LifeSys) : Prop :=
  ∀ act, act ≠ .joinCall → act ≠ .detachCall → lifeStep s act = none

/-- What should hold of a thread with a stack that `pthread_create` made, or not. -/
structure Good (stack : Bool) (s : LifeSys) : Prop where
  /-- Nothing is used after it was freed. -/
  safe : s.bad = false
  /-- Nothing is freed twice. -/
  once : s.stackFreed ≤ (if stack then 1 else 0) ∧ s.tidFreed ≤ 1 ∧ s.ptdFreed ≤ 1
  /-- Who joins returns after the thread has finished, with its value. -/
  joined : ∀ v, s.joined = some v → s.thread = .handled ∧ s.result = some v
  /-- When nobody can go on, all is freed if the thread was joined or detached. -/
  freed : s.Quiet → s.join = .done ∨ s.detach = .done ∨ s.detach = .destroyed →
    s.stackFreed = (if stack then 1 else 0) ∧ s.tidFreed = 1 ∧ s.ptdFreed = 1

/-- What a step is not to do.
* No other thread runs while the thread has removed itself from the scheduler.
* `pthread_detach` comes when the idle thread has handled the thread, and not while the joining one
  is between its first look at the data and the semaphore.
* The joining thread does not destroy the data while a `pthread_detach` has the pointer to it. -/
def Kept (s : LifeSys) (act : LifeAct) : Prop :=
  (act.IsOwn = true ∨ s.thread ≠ .removed) ∧
    (act = .detach → s.thread = .handled ∧ s.join ≠ .got ∧ s.join ≠ .checked) ∧
    (act = .destroy → s.detach ≠ .got)

instance (s : LifeSys) (act : LifeAct) : Decidable (Kept s act) :=
  inferInstanceAs (Decidable (_ ∧ (_ → _) ∧ (_ → _)))

/-! ## The invariant -/

/-- The states of a joinable thread. -/
inductive LifeInv (stack : Bool) : LifeSys → Prop where
  /-- The idle thread has not handled the thread yet. -/
  | before (T : TState) (v : Nat) (r : Option Nat) (j : JState) (d : DState)
      (hT : T = .running ∨ r = some v ∧ (T = .ended ∨ T = .removed ∨ T = .closed))
      (hj : j = .out ∨ j = .got ∨ j = .checked ∨ j = .suspended) (hd : d = .out ∨ d = .got) :
      LifeInv stack ⟨T, v, r, false, some 0, true, stack, 0, 0, 0, false, j, d, none⟩
  /-- The semaphore is there to be taken. -/
  | «open» (v : Nat) (j : JState) (d : DState) (hj : j = .out ∨ j = .got ∨ j = .checked)
      (hd : d = .out ∨ d = .got) :
      LifeInv stack ⟨.handled, v, some v, false, some 1, true, stack, 0, 0, 0, false, j, d, none⟩
  /-- The joining thread has taken it. -/
  | took (v : Nat) (b : Bool) (n : Option Nat) (j : JState) (d : DState) (o : Option Nat)
      (hj : j = .took ∧ o = none ∨ j = .destroying 0 ∧ o = some v)
      (hd : (d = .out ∨ d = .got) ∧ b = false ∧ n = some 0 ∨ d = .done) :
      LifeInv stack ⟨.handled, v, some v, b, n, true, stack, 0, 0, 0, false, j, d, o⟩
  /-- It destroys the data. -/
  | freeing (v : Nat) (b : Bool) (n : Option Nat) (i : Nat) (d : DState) (hi : 1 ≤ i ∧ i ≤ 4)
      (hd : d = .out ∨ d = .done) :
      LifeInv stack ⟨.handled, v, some v, b, n, false, stack && decide (i ≤ 2),
        if stack = true ∧ 2 < i then 1 else 0, if 3 < i then 1 else 0, 0, false, .destroying i, d,
        some v⟩
  | joined (v : Nat) (b : Bool) (n : Option Nat) (d : DState) (hd : d = .out ∨ d = .done) :
      LifeInv stack ⟨.handled, v, some v, b, n, false, false, if stack then 1 else 0, 1, 1, false,
        .done, d, some v⟩
  /-- The detaching thread has destroyed it. -/
  | detached (v : Nat) (b : Bool) (n : Option Nat) :
      LifeInv stack ⟨.handled, v, some v, b, n, false, false, if stack then 1 else 0, 1, 1, false,
        .out, .destroyed, none⟩

variable {stack : Bool} {s s' : LifeSys} {act : LifeAct}

theorem lifeInit_inv : LifeInv stack (lifeInit stack false) :=
  .before .running 0 none .out .out (.inl rfl) (.inl rfl) (.inl rfl)

namespace LifeInv

attribute [simp] lifeStep LifeAct.IsOwn LifeSys.own LifeSys.switch LifeSys.joiner LifeSys.detacher
  LifeSys.usePtd

theorem before_step {T : TState} {v : Nat} {r : Option Nat} {j : JState} {d : DState}
    (hT : T = .running ∨ r = some v ∧ (T = .ended ∨ T = .removed ∨ T = .closed))
    (hj : j = .out ∨ j = .got ∨ j = .checked ∨ j = .suspended) (hd : d = .out ∨ d = .got)
    (hc : Kept ⟨T, v, r, false, some 0, true, stack, 0, 0, 0, false, j, d, none⟩ act)
    (hs : lifeStep ⟨T, v, r, false, some 0, true, stack, 0, 0, 0, false, j, d, none⟩ act
      = some s') :
    LifeInv stack s' := by
  obtain ⟨hrem, hdet, -⟩ := hc
  have hne : act.IsOwn = false → T ≠ .removed := fun h => hrem.resolve_left (Bool.eq_false_iff.mp h)
  have hd' : d ≠ .done ∧ d ≠ .destroyed ∧ d ≠ .failed := by grind
  cases act with
  | finish w =>
    simp at hs
    obtain ⟨-, rfl⟩ := hs
    exact .before .ended w (some w) j d (.inr ⟨rfl, .inl rfl⟩) hj hd
  | exit | insert =>
    simp [LifeSys.useTid] at hs
    obtain ⟨rfl, rfl⟩ := hs
    exact .before .closed v r j d (by grind) hj hd
  | remove =>
    simp [LifeSys.useTid] at hs
    obtain ⟨rfl, rfl⟩ := hs
    exact .before .removed v r j d (by grind) hj hd
  | idle =>
    simp at hs
    obtain ⟨rfl, rfl⟩ := hs
    have hr : r = some v := by grind
    subst hr
    rcases hj with rfl | rfl | rfl | rfl
    · exact .open v .out d (.inl rfl) hd
    · exact .open v .got d (.inr (.inl rfl)) hd
    · exact .open v .checked d (.inr (.inr rfl)) hd
    · exact .took v false (some 0) .took d none (.inl ⟨rfl, rfl⟩) (.inl ⟨hd, rfl, rfl⟩)
  | joinCall =>
    have hT' := hne rfl
    simp [hT'] at hs
    obtain ⟨-, rfl⟩ := hs
    exact .before T v r .got d hT (by grind) hd
  | check =>
    have hT' := hne rfl
    simp [hT'] at hs
    obtain ⟨-, rfl⟩ := hs
    exact .before T v r .checked d hT (by grind) hd
  | take =>
    have hT' := hne rfl
    simp [hT'] at hs
    obtain ⟨-, rfl⟩ := hs
    exact .before T v r .suspended d hT (by grind) hd
  | read =>
    have hT' := hne rfl
    simp [hT'] at hs
    grind
  | destroy =>
    have hT' := hne rfl
    simp [hT'] at hs
    grind
  | detachCall =>
    have hT' := hne rfl
    simp [hT'] at hs
    obtain ⟨-, rfl⟩ := hs
    exact .before T v r j .got hT hj (.inr rfl)
  | detach =>
    have := (hdet rfl).1
    grind

theorem open_step {v : Nat} {j : JState} {d : DState} (hj : j = .out ∨ j = .got ∨ j = .checked)
    (hd : d = .out ∨ d = .got)
    (hc : Kept ⟨.handled, v, some v, false, some 1, true, stack, 0, 0, 0, false, j, d, none⟩ act)
    (hs : lifeStep ⟨.handled, v, some v, false, some 1, true, stack, 0, 0, 0, false, j, d, none⟩ act
      = some s') :
    LifeInv stack s' := by
  obtain ⟨-, hdet, -⟩ := hc
  cases act with
  | finish w => simp at hs
  | exit => simp at hs
  | remove => simp at hs
  | insert => simp at hs
  | idle => simp at hs
  | joinCall =>
    simp at hs
    obtain ⟨-, rfl⟩ := hs
    exact .open v .got d (.inr (.inl rfl)) hd
  | check =>
    simp at hs
    obtain ⟨-, rfl⟩ := hs
    exact .open v .checked d (.inr (.inr rfl)) hd
  | take =>
    simp at hs
    obtain ⟨-, rfl⟩ := hs
    exact .took v false (some 0) .took d none (.inl ⟨rfl, rfl⟩) (.inl ⟨hd, rfl, rfl⟩)
  | read =>
    simp at hs
    grind
  | destroy =>
    simp at hs
    grind
  | detachCall =>
    simp at hs
    obtain ⟨-, rfl⟩ := hs
    exact .open v j .got hj (.inr rfl)
  | detach =>
    obtain ⟨-, hgot, hchecked⟩ := hdet rfl
    obtain rfl : j = .out := by grind
    simp at hs
    obtain ⟨-, hs⟩ := hs
    obtain rfl := Option.some.inj hs
    cases stack
    · exact .detached v false none
    · exact .detached v false none

theorem took_step {v : Nat} {b : Bool} {n : Option Nat} {j : JState} {d : DState} {o : Option Nat}
    (hj : j = .took ∧ o = none ∨ j = .destroying 0 ∧ o = some v)
    (hd : (d = .out ∨ d = .got) ∧ b = false ∧ n = some 0 ∨ d = .done)
    (hc : Kept ⟨.handled, v, some v, b, n, true, stack, 0, 0, 0, false, j, d, o⟩ act)
    (hs : lifeStep ⟨.handled, v, some v, b, n, true, stack, 0, 0, 0, false, j, d, o⟩ act
      = some s') :
    LifeInv stack s' := by
  obtain ⟨-, -, hfree⟩ := hc
  cases act with
  | finish w => simp at hs
  | exit => simp at hs
  | remove => simp at hs
  | insert => simp at hs
  | idle => simp at hs
  | joinCall =>
    simp at hs
    grind
  | check =>
    simp at hs
    grind
  | take =>
    simp at hs
    grind
  | read =>
    simp at hs
    obtain ⟨-, rfl⟩ := hs
    exact .took v b n (.destroying 0) d (some v) (.inr ⟨rfl, rfl⟩) hd
  | destroy =>
    obtain ⟨rfl, rfl⟩ : j = .destroying 0 ∧ o = some v := by
      rcases hj with ⟨rfl, -⟩ | hj
      · simp at hs
      · exact hj
    obtain rfl := Option.some.inj hs
    have hd' : d = .out ∨ d = .done := by grind
    cases stack
    · exact .freeing v b n 1 d ⟨by omega, by omega⟩ hd'
    · exact .freeing v b n 1 d ⟨by omega, by omega⟩ hd'
  | detachCall =>
    simp at hs
    obtain ⟨hd', rfl⟩ := hs
    obtain ⟨-, rfl, rfl⟩ := hd.resolve_right (by simp [hd'])
    exact .took v false (some 0) j .got o hj (.inl ⟨.inr rfl, rfl, rfl⟩)
  | detach =>
    simp at hs
    obtain ⟨hd', hs⟩ := hs
    obtain ⟨-, rfl, rfl⟩ := hd.resolve_right (by simp [hd'])
    obtain rfl := Option.some.inj hs
    rcases hj with ⟨rfl, rfl⟩ | ⟨rfl, rfl⟩
    · exact .took v true none .took .done none (.inl ⟨rfl, rfl⟩) (.inr rfl)
    · exact .took v true none (.destroying 0) .done (some v) (.inr ⟨rfl, rfl⟩) (.inr rfl)

theorem freeing_step {v : Nat} {b : Bool} {n : Option Nat} {i : Nat} {d : DState}
    (hi : 1 ≤ i ∧ i ≤ 4) (hd : d = .out ∨ d = .done)
    (hs : lifeStep ⟨.handled, v, some v, b, n, false, stack && decide (i ≤ 2),
      if stack = true ∧ 2 < i then 1 else 0, if 3 < i then 1 else 0, 0, false, .destroying i, d,
      some v⟩ act = some s') :
    LifeInv stack s' := by
  cases act with
  | finish _ | exit | remove | insert | idle | joinCall | check | take | read | detachCall =>
    simp at hs
  | destroy =>
    obtain rfl | rfl | rfl | rfl : i = 1 ∨ i = 2 ∨ i = 3 ∨ i = 4 := by omega
    -- the semaphore
    · obtain rfl := Option.some.inj hs
      cases n <;> cases stack <;> exact .freeing v b none 2 d ⟨by omega, by omega⟩ hd
    -- the stack
    · obtain rfl := Option.some.inj hs
      cases stack <;> exact .freeing v b n 3 d ⟨by omega, by omega⟩ hd
    -- the thread structure
    · obtain rfl := Option.some.inj hs
      cases stack <;> exact .freeing v b n 4 d ⟨by omega, by omega⟩ hd
    -- the data
    · obtain rfl := Option.some.inj hs
      cases stack <;> exact .joined v b n d hd
  | detach =>
    simp at hs
    grind

/-- After the data is destroyed nothing goes on. -/
theorem gone_step {v : Nat} {b : Bool} {n : Option Nat} {j : JState} {d : DState}
    {o : Option Nat} {k : Nat} (hj : j = .done ∨ j = .out) (hd : d ≠ .got) :
    lifeStep ⟨.handled, v, some v, b, n, false, false, k, 1, 1, false, j, d, o⟩ act = none := by
  cases act with
  | finish w => simp
  | exit => simp
  | remove => simp
  | insert => simp
  | idle => simp
  | joinCall => simp
  | check =>
    simp
    grind
  | take =>
    simp
    grind
  | read =>
    simp
    grind
  | destroy =>
    rcases hj with rfl | rfl
    · simp
    · simp
  | detachCall => simp
  | detach => simp [hd]

theorem step (h : LifeInv stack s) (hc : Kept s act) (hs : lifeStep s act = some s') :
    LifeInv stack s' := by
  cases h with
  | before T v r j d hT hj hd => exact before_step hT hj hd hc hs
  | «open» v j d hj hd => exact open_step hj hd hc hs
  | took v b n j d o hj hd => exact took_step hj hd hc hs
  | freeing v b n i d hi hd => exact freeing_step hi hd hs
  | joined v b n d hd => rw [gone_step (.inl rfl) (by grind)] at hs; cases hs
  | detached v b n => rw [gone_step (.inr rfl) (by grind)] at hs; cases hs

theorem good (h : LifeInv stack s) : Good stack s := by
  cases h with
  | before T v r j d hT hj hd =>
    refine ⟨rfl, ⟨Nat.zero_le _, Nat.zero_le _, Nat.zero_le _⟩, fun v hv => (by cases hv), ?_⟩
    intro hq hdone
    grind
  | «open» v j d hj hd =>
    refine ⟨rfl, ⟨Nat.zero_le _, Nat.zero_le _, Nat.zero_le _⟩, fun v hv => (by cases hv), ?_⟩
    intro hq hdone
    grind
  | took v b n j d o hj hd =>
    refine ⟨rfl, ⟨Nat.zero_le _, Nat.zero_le _, Nat.zero_le _⟩, fun w hw => ⟨rfl, ?_⟩, ?_⟩
    · have ho : o = some w := hw
      grind
    -- the joining thread can go on
    · intro hq hdone
      rcases hj with ⟨rfl, rfl⟩ | ⟨rfl, rfl⟩
      · cases hq .read (by simp) (by simp)
      · cases hq .destroy (by simp) (by simp)
  | freeing v b n i d hi hd =>
    refine ⟨rfl, ⟨?_, ?_, Nat.zero_le _⟩, fun w hw => ⟨rfl, hw⟩, ?_⟩
    · show (if stack = true ∧ 2 < i then 1 else 0) ≤ if stack = true then 1 else 0
      grind
    · show (if 3 < i then 1 else 0) ≤ 1
      grind
    · intro hq hdone
      have hgo := hq .destroy (by simp) (by simp)
      obtain rfl | rfl | rfl | rfl : i = 1 ∨ i = 2 ∨ i = 3 ∨ i = 4 := by omega
      · cases hgo
      · cases hgo
      · cases hgo
      · cases hgo
  | joined v b n d hd =>
    exact ⟨rfl, ⟨Nat.le_refl _, Nat.le_refl _, Nat.le_refl _⟩, fun w hw => ⟨rfl, hw⟩,
      fun _ _ => ⟨rfl, rfl, rfl⟩⟩
  | detached v b n =>
    exact ⟨rfl, ⟨Nat.le_refl _, Nat.le_refl _, Nat.le_refl _⟩, fun w hw => (by cases hw),
      fun _ _ => ⟨rfl, rfl, rfl⟩⟩

end LifeInv

/-- Every run without a step of those kinds keeps it. -/
theorem pthread_ends {stack : Bool} {acts : List LifeAct} {s : LifeSys}
    (hs : exec lifeStep (lifeInit stack false) acts = some s)
    (hc : Along lifeStep Kept (lifeInit stack false) acts) : Good stack s :=
  (hc.inv (fun _ _ _ h hk hs => LifeInv.step h hk hs) hs lifeInit_inv).good

theorem pthread_ends_joined :
    ∃ s, exec lifeStep (lifeInit true false)
        [.joinCall, .check, .take, .finish 7, .remove, .insert, .idle, .read, .destroy, .destroy,
          .destroy, .destroy, .destroy] = some s ∧
      Good true s ∧ s.joined = some 7 ∧ s.tidFreed = 1 := by
  refine ⟨_, rfl, ?_, rfl, rfl⟩
  exact pthread_ends (show exec lifeStep (lifeInit true false)
    [.joinCall, .check, .take, .finish 7, .remove, .insert, .idle, .read, .destroy, .destroy,
      .destroy, .destroy, .destroy] = some _ from rfl) (by decide)

/-- Any run of a detached thread to its end is wrong: the idle thread reads the thread structure
after `_pthread_cleanup` freed it. -/
theorem detached_used :
    ¬ ∀ (stack detached : Bool) (acts : List LifeAct) (s : LifeSys),
      exec lifeStep (lifeInit stack detached) acts = some s → Good stack s := by
  intro h
  have := (h true true [.finish 0, .exit, .idle] _ rfl).safe
  cases this

end Tudu.Pthread
