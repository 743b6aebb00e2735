import TuduOS.Pthread.Cond

/-!
# Barriers (`pthread_barrier.c`)

Any number of threads in `pthread_barrier_wait`. What they do with the mutex and the condition
variable are the steps of `condStep`; the count is read and written by the owner of the mutex.

* A call arrives when it has the mutex, and the ghost `index t` is its place in the order of
  arrival. The calls `n * r, …, n * r + n - 1` are the round `r` of a barrier for `n` threads. The
  ghost `returned` has the calls that have returned.
* `Met n s`: no call returns before its round is complete, and when nobody can go on without a new
  call, every call of a complete round has returned.

The count is not set again after the first round, so a call of a later round returns at once; and
the broadcast may leave threads behind that have not come to `rt_sem_take` yet. `barrier_meets` says
that this is all that may go wrong.
-/

namespace Tudu.Pthread

open Lts

/-- Where a thread is in `pthread_barrier_wait`. -/
inductive BarrierPhase where
  /-- It is not in it. -/
  | out
  /-- It has the mutex, and is to read the count. -/
  | locked
  /-- It is to call `pthread_cond_wait`. -/
  | waits
  | waiting
  /-- It is to call `pthread_cond_broadcast`. -/
  | last
  /-- It is to release the mutex and to return. -/
  | leave
  deriving DecidableEq

structure BarrierSys where
  cond : CondSys
  count : Nat
  phase : Nat → BarrierPhase
  index : Nat → Nat
  arrived : Nat
  returned : List Nat

inductive BarrierAct where
  /-- The thread `t` calls `pthread_barrier_wait` and takes the mutex. -/
  | lock (t : Nat)
  /-- It reads the count, and decrements it. -/
  | arrive (t : Nat)
  | wait (t : Nat)
  | take (t : Nat)
  | relock (t : Nat)
  | broadcast (t : Nat)
  /-- It releases the mutex and returns. -/
  | unlock (t : Nat)
  deriving DecidableEq

namespace BarrierSys

/-- The condition variable goes to `c`, the thread `t` to `p`. -/
def goes (s : BarrierSys) (t : Nat) (p : BarrierPhase) (c : CondSys) : BarrierSys :=
  { s with cond := c, phase := Function.update s.phase t p }

/-- `if (barrier->count == 0) result = EINVAL; else { barrier->count -= 1; … }` -/
def arrive (s : BarrierSys) (t : Nat) : BarrierSys :=
  { s with
    count := s.count - 1
    phase := Function.update s.phase t
      (if s.count = 0 then .leave else if s.count - 1 = 0 then .last else .waits)
    index := Function.update s.index t s.arrived
    arrived := s.arrived + 1 }

end BarrierSys

def barrierStep (s : BarrierSys) : BarrierAct → Option BarrierSys
  | .lock t => if s.phase t = .out then (condStep s.cond (.lock t)).map (s.goes t .locked) else none
  | .arrive t => if s.phase t = .locked then some (s.arrive t) else none
  | .wait t =>
    if s.phase t = .waits then (condStep s.cond (.wait t)).map (s.goes t .waiting) else none
  | .take t => (condStep s.cond (.take t)).map fun c => { s with cond := c }
  | .relock t => (condStep s.cond (.relock t)).map (s.goes t .leave)
  | .broadcast t =>
    if s.phase t = .last then (condStep s.cond (.broadcast t)).map (s.goes t .leave) else none
  | .unlock t =>
    if s.phase t = .leave then
      (condStep s.cond (.unlock t)).map fun c =>
        { s.goes t .out c with returned := s.index t :: s.returned }
    else none

/-- `pthread_barrier_init` for `n` threads. -/
def barrierInit (n : Nat) : BarrierSys := ⟨condInit, n, fun _ => .out, fun _ => 0, 0, []⟩

/-! ## The property and the condition -/

/-- Nobody can go on without a new call. -/
def BarrierSys.Quiet (s : BarrierSys) : Prop :=
  ∀ act, (∀ t, act ≠ .lock t) → barrierStep s act = none

/-- A barrier for `n` threads does what it is for. -/
structure Met (n : Nat) (s : BarrierSys) : Prop where
  early : ∀ i ∈ s.returned, (i / n + 1) * n ≤ s.arrived
  all : s.Quiet → ∀ i < s.arrived / n * n, i ∈ s.returned

/-- What a step is not to do: no call comes after the first round of more than one thread, and when
the last thread broadcasts, no more than one of the others is still on its way to
`rt_sem_take`. -/
def OneRound (n : Nat) (s : BarrierSys) : BarrierAct → Prop
  | .arrive _ => 0 < s.count ∨ n = 1
  | .broadcast _ => s.cond.unlocked.length ≤ 1
  | _ => True

instance (n : Nat) (s : BarrierSys) : (act : BarrierAct) → Decidable (OneRound n s act)
  | .arrive _ => inferInstanceAs (Decidable (_ ∨ _))
  | .broadcast _ => inferInstanceAs (Decidable (_ ≤ _))
  | .lock _ => inferInstanceAs (Decidable True)
  | .wait _ => inferInstanceAs (Decidable True)
  | .take _ => inferInstanceAs (Decidable True)
  | .relock _ => inferInstanceAs (Decidable True)
  | .unlock _ => inferInstanceAs (Decidable True)

/-! ## The invariant -/

/-- The thread has the mutex. -/
def BarrierPhase.Inside (p : BarrierPhase) : Prop :=
  p = .locked ∨ p = .waits ∨ p = .last ∨ p = .leave

/-- The call has arrived. -/
def BarrierPhase.Counted (p : BarrierPhase) : Prop := p ≠ .out ∧ p ≠ .locked

/-- The threads in `pthread_cond_wait`. -/
def CondSys.waiters (s : CondSys) : List Nat := s.unlocked ++ s.sem.suspendThread ++ s.woken

structure BarrierInv (n : Nat) (s : BarrierSys) : Prop where
  owner : ∀ t, s.cond.owner = some t ↔ (s.phase t).Inside
  waiting : ∀ t, t ∈ s.cond.waiters ↔ s.phase t = .waiting
  nodup : s.cond.waiters.Nodup
  good : s.cond.sem.Good
  count : s.count = n - s.arrived
  round : s.arrived ≤ n ∨ n = 1
  waits : ∀ t, s.phase t = .waits → s.arrived < n
  last : ∀ t, s.phase t = .last → n ≤ s.arrived
  /-- The broadcast is still to come. -/
  before : (s.arrived < n ∨ ∃ t, s.phase t = .last) →
    s.cond.sem.value = 0 ∧ s.cond.woken = [] ∧ s.returned = [] ∧ ∀ t, s.phase t ≠ .leave
  /-- The threads that are on their way each have a token. -/
  after : n ≤ s.arrived → (∀ t, s.phase t ≠ .last) →
    s.cond.sem.suspendThread = [] ∧ s.cond.unlocked.length ≤ s.cond.sem.value
  index : ∀ t, (s.phase t).Counted → s.index t < s.arrived
  returned : ∀ i ∈ s.returned, i < s.arrived
  calls : ∀ i < s.arrived, i ∈ s.returned ∨ ∃ t, (s.phase t).Counted ∧ s.index t = i

variable {n t : Nat} {s s' : BarrierSys} {act : BarrierAct}

theorem barrierInit_inv (hn : 0 < n) : BarrierInv n (barrierInit n) where
  owner t := by simp [barrierInit, condInit, BarrierPhase.Inside]
  waiting t := by simp [barrierInit, condInit, CondSys.waiters]
  nodup := List.nodup_nil
  good := condInit_inv.good
  count := rfl
  round := .inl (Nat.zero_le n)
  waits _ _ := hn
  last _ h := by cases h
  before _ := ⟨rfl, rfl, rfl, fun _ h => by cases h⟩
  after h := absurd hn (Nat.not_lt.mpr h)
  index _ h := absurd rfl h.1
  returned _ h := absurd h List.not_mem_nil
  calls _ h := absurd h (Nat.not_lt_zero _)

namespace BarrierInv

theorem free (h : BarrierInv n s) (ht : s.phase t ≠ .waiting) : s.cond.Free t := by
  have hw : t ∉ s.cond.waiters := fun hmem => ht ((h.waiting t).mp hmem)
  simp only [CondSys.waiters, List.mem_append, not_or] at hw
  exact ⟨hw.1.1, hw.1.2, hw.2⟩

/-- Whoever has the mutex can go on. -/
theorem quiet_owner (h : BarrierInv n s) (hq : s.Quiet) : s.cond.owner = none := by
  by_contra hne
  obtain ⟨t, ht⟩ := Option.ne_none_iff_exists'.mp hne
  rcases (h.owner t).mp ht with hp | hp | hp | hp
  · have harr := hq (.arrive t) fun _ => BarrierAct.noConfusion
    rw [barrierStep, if_pos hp] at harr
    cases harr
  · have hwait := hq (.wait t) fun _ => BarrierAct.noConfusion
    rw [barrierStep, if_pos hp, condStep, if_pos ht] at hwait
    cases hwait
  · have hcast := hq (.broadcast t) fun _ => BarrierAct.noConfusion
    have hfree : s.cond.Free t := h.free (by rw [hp]; exact BarrierPhase.noConfusion)
    rw [barrierStep, if_pos hp, condStep, if_pos hfree, CondSys.broadcast,
      CondSem.broadcast_eq h.good] at hcast
    cases hcast
  · have hun := hq (.unlock t) fun _ => BarrierAct.noConfusion
    rw [barrierStep, if_pos hp, condStep, if_pos ht] at hun
    cases hun

/-- The threads that are left wait for the broadcast. -/
theorem quiet_waiters (h : BarrierInv n s) (hq : s.Quiet) :
    s.cond.unlocked = [] ∧ s.cond.woken = [] := by
  constructor
  · refine List.eq_nil_iff_forall_not_mem.mpr fun t ht => ?_
    have htake := hq (.take t) fun _ => BarrierAct.noConfusion
    rw [barrierStep, condStep, if_pos ht] at htake
    cases htake
  · refine List.eq_nil_iff_forall_not_mem.mpr fun t ht => ?_
    have hre := hq (.relock t) fun _ => BarrierAct.noConfusion
    rw [barrierStep, condStep, if_pos ⟨h.quiet_owner hq, ht⟩] at hre
    cases hre

/-- The broadcast has come when a call returns. -/
theorem returned_late (h : BarrierInv n s) {i : Nat} (hi : i ∈ s.returned) : n ≤ s.arrived := by
  by_contra hlt
  have hnil := (h.before (.inl (Nat.lt_of_not_le hlt))).2.2.1
  rw [hnil] at hi
  cases hi

/-- Nobody has returned from an incomplete round; nobody is left behind. -/
theorem met (h : BarrierInv n s) : Met n s := by
  constructor
  case early =>
    intro i hi
    have hlt := h.returned i hi
    rcases h.round with hle | rfl
    · have hin : i < n := Nat.lt_of_lt_of_le hlt hle
      rw [Nat.div_eq_of_lt hin, Nat.zero_add, Nat.one_mul]
      exact h.returned_late hi
    · rw [Nat.div_one, Nat.mul_one]
      exact hlt
  case all =>
    intro hq i hi
    have howner := h.quiet_owner hq
    obtain ⟨hun, hwo⟩ := h.quiet_waiters hq
    have hin : ∀ t, ¬ (s.phase t).Inside := fun t ht => by
      rw [← h.owner t, howner] at ht
      cases ht
    have hle : n ≤ s.arrived := by
      by_contra hlt
      rw [Nat.div_eq_of_lt (Nat.lt_of_not_le hlt), Nat.zero_mul] at hi
      exact absurd hi (Nat.not_lt_zero i)
    have hsus := (h.after hle fun t ht => hin t (.inr (.inr (.inl ht)))).1
    rcases h.calls i (Nat.lt_of_lt_of_le hi (Nat.div_mul_le_self _ _)) with hr | ⟨t, hc, -⟩
    · exact hr
    · -- the thread is neither inside nor in `pthread_cond_wait`
      exfalso
      have hwait : s.phase t ≠ .waiting := fun hp => by
        have hmem := (h.waiting t).mpr hp
        simp [CondSys.waiters, hun, hwo, hsus] at hmem
      have hnot := hin t
      cases hp : s.phase t with
      | out => exact hc.1 hp
      | locked => exact hc.2 hp
      | waits => exact hnot (.inr (.inl hp))
      | waiting => exact hwait hp
      | last => exact hnot (.inr (.inr (.inl hp)))
      | leave => exact hnot (.inr (.inr (.inr hp)))

/-! ### Steps -/

/-- The only thread that has the mutex. -/
theorem inside (h : BarrierInv n s) (ht : (s.phase t).Inside) {u : Nat} (hu : u ≠ t) :
    ¬ (s.phase u).Inside := by
  intro hin
  have h1 := (h.owner t).mpr ht
  have h2 := (h.owner u).mpr hin
  rw [h1, Option.some.injEq] at h2
  exact hu h2.symm

/-- A thread goes on with the call that it is in. -/
theorem goes (h : BarrierInv n s) {p : BarrierPhase} {c : CondSys}
    (hp : p ≠ .waits ∧ p ≠ .last) (hcount : p.Counted ↔ (s.phase t).Counted)
    (howner : ∀ u, c.owner = some u ↔ if u = t then p.Inside else (s.phase u).Inside)
    (hwait : ∀ u, u ∈ c.waiters ↔ if u = t then p = .waiting else s.phase u = .waiting)
    (hnodup : c.waiters.Nodup) (hgood : c.sem.Good)
    (hbefore : (s.arrived < n ∨ ∃ u, u ≠ t ∧ s.phase u = .last) →
      c.sem.value = 0 ∧ c.woken = [] ∧ s.returned = [] ∧ p ≠ .leave ∧ ∀ u ≠ t, s.phase u ≠ .leave)
    (hafter : n ≤ s.arrived → (∀ u ≠ t, s.phase u ≠ .last) →
      c.sem.suspendThread = [] ∧ c.unlocked.length ≤ c.sem.value) :
    BarrierInv n (s.goes t p c) := by
  have hphase : ∀ u, (s.goes t p c).phase u = if u = t then p else s.phase u := fun u =>
    Function.update_apply ..
  have hlast : ∀ u, (s.goes t p c).phase u = .last ↔ u ≠ t ∧ s.phase u = .last := fun u => by grind
  constructor
  case owner =>
    intro u
    have hu := howner u
    rw [hphase]
    show c.owner = some u ↔ _
    grind
  case waiting =>
    intro u
    have hu := hwait u
    rw [hphase]
    show u ∈ c.waiters ↔ _
    grind
  case nodup => exact hnodup
  case good => exact hgood
  case count => exact h.count
  case round => exact h.round
  case waits =>
    intro u hu
    refine h.waits u ?_
    grind
  case last => exact fun u hu => h.last u ((hlast u).mp hu).2
  case before =>
    intro hb
    simp only [hlast] at hb
    obtain ⟨hv, hwo, hr, hpl, hl⟩ := hbefore hb
    refine ⟨hv, hwo, hr, fun u => ?_⟩
    have hu := hl u
    rw [hphase]
    grind
  case after =>
    intro hle hno
    exact hafter hle fun u hu hul => hno u ((hlast u).mpr ⟨hu, hul⟩)
  case index =>
    intro u hu
    refine h.index u ?_
    rw [hphase] at hu
    split at hu
    · next hut => exact hut ▸ hcount.mp hu
    · exact hu
  case returned => exact h.returned
  case calls =>
    intro i hi
    rcases h.calls i hi with hr | ⟨u, hc, hu⟩
    · exact .inl hr
    · refine .inr ⟨u, ?_, hu⟩
      rw [hphase]
      split
      · next hut => exact hcount.mpr (hut ▸ hc)
      · exact hc

theorem lock (h : BarrierInv n s) (ho : s.cond.owner = none) (hp : s.phase t = .out) :
    BarrierInv n (s.goes t .locked { s.cond with owner := some t }) := by
  have hin : ∀ u, ¬ (s.phase u).Inside := fun u hu => by
    rw [← h.owner u, ho] at hu
    cases hu
  refine h.goes (by decide) ?_ (fun u => ?_) (fun u => ?_) h.nodup h.good (fun hb => ?_) fun hle hno => ?_
  · simp [BarrierPhase.Counted, hp]
  · have hu := hin u
    show some t = some u ↔ _
    grind [BarrierPhase.Inside]
  · have hu := h.waiting u
    show u ∈ s.cond.waiters ↔ _
    grind
  · obtain ⟨hv, hwo, hr, hl⟩ := h.before (hb.imp_right fun ⟨u, _, hu⟩ => ⟨u, hu⟩)
    exact ⟨hv, hwo, hr, by decide, fun u _ => hl u⟩
  · refine h.after hle fun u => ?_
    have hu := hno u
    grind

theorem wait (h : BarrierInv n s) (hp : s.phase t = .waits) :
    BarrierInv n (s.goes t .waiting { s.cond with
      owner := none, unlocked := t :: s.cond.unlocked
      since := Function.update s.cond.since t s.cond.epoch }) := by
  have hlt := h.waits t hp
  have hin := fun u => h.inside (t := t) (u := u) (.inr (.inl hp))
  have hmem : t ∉ s.cond.waiters := fun ht => by
    rw [h.waiting t, hp] at ht
    cases ht
  refine h.goes (by decide) ?_ (fun u => ?_) (fun u => ?_) ?_ h.good (fun _ => ?_) fun hle => ?_
  · simp [BarrierPhase.Counted, hp]
  · have hu := hin u
    show none = some u ↔ _
    grind [BarrierPhase.Inside]
  · have hu := h.waiting u
    show u ∈ t :: s.cond.waiters ↔ _
    grind
  · exact List.nodup_cons.mpr ⟨hmem, h.nodup⟩
  · obtain ⟨hv, hwo, hr, hl⟩ := h.before (.inl hlt)
    exact ⟨hv, hwo, hr, by decide, fun u _ => hl u⟩
  · omega

theorem relock (h : BarrierInv n s) (ho : s.cond.owner = none) (ht : t ∈ s.cond.woken) :
    BarrierInv n (s.goes t .leave { s.cond with
      owner := some t, woken := s.cond.woken.erase t }) := by
  have hperm : s.cond.waiters.Perm
      (t :: (s.cond.unlocked ++ s.cond.sem.suspendThread ++ s.cond.woken.erase t)) :=
    ((List.perm_cons_erase ht).append_left _).trans List.perm_middle
  have hnd := List.nodup_cons.mp (hperm.nodup_iff.mp h.nodup)
  have hp : s.phase t = .waiting := (h.waiting t).mp (hperm.mem_iff.mpr List.mem_cons_self)
  have hin : ∀ u, ¬ (s.phase u).Inside := fun u hu => by
    rw [← h.owner u, ho] at hu
    cases hu
  -- a thread is woken by the broadcast
  have hnot : ¬ (s.arrived < n ∨ ∃ u, s.phase u = .last) := fun hb => by
    rw [(h.before hb).2.1] at ht
    cases ht
  obtain ⟨hge, hlast⟩ := not_or.mp hnot
  refine h.goes (by decide) ?_ (fun u => ?_) (fun u => ?_) hnd.2 h.good (fun hb => ?_) fun hle _ => ?_
  · simp [BarrierPhase.Counted, hp]
  · have hu := hin u
    show some t = some u ↔ _
    grind [BarrierPhase.Inside]
  · have hu := h.waiting u
    rw [hperm.mem_iff, List.mem_cons] at hu
    show u ∈ s.cond.unlocked ++ s.cond.sem.suspendThread ++ s.cond.woken.erase t ↔ _
    grind
  · exact absurd (hb.imp_right fun ⟨u, _, hu⟩ => ⟨u, hu⟩) hnot
  · exact h.after hle fun u hu => hlast ⟨u, hu⟩

theorem broadcast (h : BarrierInv n s) (hp : s.phase t = .last) (hone : s.cond.unlocked.length ≤ 1)
    {c : CondSys} (hc : s.cond.broadcast t = some c) : BarrierInv n (s.goes t .leave c) := by
  have hb := h.before (.inr ⟨t, hp⟩)
  rw [CondSys.broadcast, CondSem.broadcast_eq h.good, Option.map_some] at hc
  obtain rfl := Option.some.inj hc
  have hin := fun u => h.inside (t := t) (u := u) (.inr (.inr (.inl hp)))
  have hown := (h.owner t).mpr (.inr (.inr (.inl hp)))
  have hwaiters : s.cond.unlocked ++ [] ++ (s.cond.sem.suspendThread ++ s.cond.woken) =
      s.cond.waiters := by simp [CondSys.waiters]
  refine h.goes (by decide) ?_ (fun u => ?_) (fun u => ?_) ?_ ?_ (fun hb' => ?_) fun _ _ => ?_
  · simp [BarrierPhase.Counted, hp]
  · have hu := hin u
    show s.cond.owner = some u ↔ _
    grind [BarrierPhase.Inside]
  · have hu := h.waiting u
    show u ∈ s.cond.unlocked ++ [] ++ (s.cond.sem.suspendThread ++ s.cond.woken) ↔ _
    rw [hwaiters]
    grind
  · show (s.cond.unlocked ++ [] ++ (s.cond.sem.suspendThread ++ s.cond.woken)).Nodup
    rw [hwaiters]
    exact h.nodup
  · refine ⟨fun _ => rfl, ?_⟩
    have hsmall := h.good.small
    show max s.cond.sem.value 1 < 65536
    omega
  · -- the round is complete, and no other thread has the mutex
    exfalso
    rcases hb' with hlt | ⟨u, hu, hul⟩
    · exact absurd (h.last t hp) (Nat.not_le.mpr hlt)
    · exact hin u hu (.inr (.inr (.inl hul)))
  · exact ⟨rfl, Nat.le_trans hone (Nat.le_max_right _ _)⟩

theorem take (h : BarrierInv n s) (ht : t ∈ s.cond.unlocked) :
    BarrierInv n { s with cond := s.cond.take t } := by
  have hperm := List.perm_cons_erase ht
  by_cases hv : 0 < s.cond.sem.value
  · -- it takes a token
    have htake : s.cond.sem.trytake = some { s.cond.sem with value := s.cond.sem.value - 1 } :=
      if_pos hv
    have hnot : ¬ (s.arrived < n ∨ ∃ u, s.phase u = .last) := fun hb =>
      absurd (h.before hb).1 (Nat.ne_of_gt hv)
    have hw : (s.cond.unlocked.erase t ++ s.cond.sem.suspendThread ++ t :: s.cond.woken).Perm
        s.cond.waiters := by
      refine List.perm_middle.trans ?_
      exact ((hperm.append_right s.cond.sem.suspendThread).append_right s.cond.woken).symm
    simp only [CondSys.take, htake]
    refine { h with
      waiting := fun u => hw.mem_iff.trans (h.waiting u), nodup := hw.nodup_iff.mpr h.nodup
      good := ⟨fun _ => h.good.empty hv, ?_⟩, before := fun hb => absurd hb hnot
      after := fun hle hno => ?_ }
    · have hsmall := h.good.small
      show s.cond.sem.value - 1 < 65536
      omega
    · obtain ⟨hs, hlen⟩ := h.after hle hno
      refine ⟨hs, ?_⟩
      show (s.cond.unlocked.erase t).length ≤ s.cond.sem.value - 1
      rw [List.length_erase_of_mem ht]
      omega
  · -- it is suspended, before the broadcast
    have hv0 : s.cond.sem.value = 0 := by omega
    have hw : (s.cond.unlocked.erase t ++ (s.cond.sem.suspendThread ++ [t]) ++ s.cond.woken).Perm
        s.cond.waiters := by
      refine List.Perm.append_right s.cond.woken ?_
      rw [← List.append_assoc]
      refine List.perm_append_comm.trans ?_
      exact (hperm.append_right s.cond.sem.suspendThread).symm
    simp only [CondSys.take, CondSem.trytake_zero hv0]
    refine { h with
      waiting := fun u => hw.mem_iff.trans (h.waiting u), nodup := hw.nodup_iff.mpr h.nodup
      good := ⟨fun hpos => absurd hv0 (Nat.ne_of_gt hpos), h.good.small⟩
      after := fun hle hno => ?_ }
    have hlen := (h.after hle hno).2
    have hpos := List.length_pos_of_mem ht
    omega

theorem unlock (h : BarrierInv n s) (hp : s.phase t = .leave) :
    BarrierInv n { s.goes t .out { s.cond with owner := none } with
      returned := s.index t :: s.returned } := by
  have hin := fun u => h.inside (t := t) (u := u) (.inr (.inr (.inr hp)))
  have hcnt : (s.phase t).Counted := by simp [BarrierPhase.Counted, hp]
  -- nobody is at `leave` before the broadcast
  have hnot : ¬ (s.arrived < n ∨ ∃ u, s.phase u = .last) := fun hb => (h.before hb).2.2.2 t hp
  obtain ⟨hge, hlast⟩ := not_or.mp hnot
  have hphase : ∀ u, (s.goes t .out { s.cond with owner := none }).phase u =
      if u = t then .out else s.phase u := fun u => Function.update_apply ..
  have hold : ∀ u, (s.goes t .out { s.cond with owner := none }).phase u ≠ .out →
      (s.goes t .out { s.cond with owner := none }).phase u = s.phase u := fun u => by grind
  constructor
  case owner =>
    intro u
    have hu := hin u
    show none = some u ↔ ((s.goes t .out { s.cond with owner := none }).phase u).Inside
    grind [BarrierPhase.Inside]
  case waiting =>
    intro u
    have hu := h.waiting u
    show u ∈ s.cond.waiters ↔ (s.goes t .out { s.cond with owner := none }).phase u = .waiting
    grind
  case nodup => exact h.nodup
  case good => exact h.good
  case count => exact h.count
  case round => exact h.round
  case waits => exact fun u hu => h.waits u ((hold u (by grind)).symm.trans hu)
  case last => exact fun u hu => h.last u ((hold u (by grind)).symm.trans hu)
  case before =>
    refine fun hb => absurd (hb.imp_right fun ⟨u, hu⟩ => ⟨u, ?_⟩) hnot
    exact (hold u (by grind)).symm.trans hu
  case after => exact fun hle _ => h.after hle fun u hu => hlast ⟨u, hu⟩
  case index => exact fun u hu => h.index u (hold u hu.1 ▸ hu)
  case returned =>
    intro i hi
    rcases List.mem_cons.mp hi with rfl | hi
    · exact h.index t hcnt
    · exact h.returned i hi
  case calls =>
    intro i hi
    rcases h.calls i hi with hr | ⟨u, hc, hu⟩
    · exact .inl (List.mem_cons_of_mem _ hr)
    · by_cases hut : u = t
      · exact .inl (hu ▸ hut ▸ List.mem_cons_self)
      · refine .inr ⟨u, ?_, hu⟩
        show ((s.goes t .out { s.cond with owner := none }).phase u).Counted
        rw [hphase, if_neg hut]
        exact hc

theorem arrive (h : BarrierInv n s) (hp : s.phase t = .locked) (hc : 0 < s.count ∨ n = 1) :
    BarrierInv n (s.arrive t) := by
  have hin := fun u => h.inside (t := t) (u := u) (.inl hp)
  have hcount := h.count
  have hphase : ∀ u, (s.arrive t).phase u = if u = t then
      (if s.count = 0 then .leave else if s.count - 1 = 0 then .last else .waits) else s.phase u :=
    fun u => Function.update_apply ..
  have hindex : ∀ u, (s.arrive t).index u = if u = t then s.arrived else s.index u := fun u =>
    Function.update_apply ..
  have hother : ∀ u, u ≠ t → s.phase u ≠ .waits ∧ s.phase u ≠ .last := fun u hu => by
    have hu' := hin u hu
    grind [BarrierPhase.Inside]
  constructor
  case owner =>
    intro u
    have hu := h.owner u
    show s.cond.owner = some u ↔ _
    rw [hphase]
    grind [BarrierPhase.Inside]
  case waiting =>
    intro u
    have hu := h.waiting u
    show u ∈ s.cond.waiters ↔ _
    rw [hphase]
    grind
  case nodup => exact h.nodup
  case good => exact h.good
  case count =>
    show s.count - 1 = n - (s.arrived + 1)
    omega
  case round =>
    show s.arrived + 1 ≤ n ∨ n = 1
    omega
  case waits =>
    intro u hu
    have hu' := hother u
    rw [hphase] at hu
    show s.arrived + 1 < n
    grind
  case last =>
    intro u hu
    have hu' := hother u
    rw [hphase] at hu
    show n ≤ s.arrived + 1
    grind
  case before =>
    intro hb
    have hlt : s.arrived < n := by
      rcases hb with hlt | ⟨u, hu⟩
      · exact Nat.lt_of_succ_lt hlt
      · have hu' := hother u
        rw [hphase] at hu
        grind
    obtain ⟨hv, hwo, hr, hl⟩ := h.before (.inl hlt)
    refine ⟨hv, hwo, hr, fun u => ?_⟩
    have hu := hl u
    rw [hphase]
    grind
  case after =>
    intro hle hno
    have hle' : n ≤ s.arrived + 1 := hle
    have ht := hno t
    rw [hphase, if_pos rfl] at ht
    refine h.after (by grind) fun u => ?_
    have hu := hother u
    grind
  case index =>
    intro u hu
    have hu' := h.index u
    rw [hphase] at hu
    rw [hindex]
    show _ < s.arrived + 1
    grind
  case returned => exact fun i hi => Nat.lt_succ_of_lt (h.returned i hi)
  case calls =>
    intro i hi
    rcases Nat.lt_succ_iff_lt_or_eq.mp hi with hi | rfl
    · rcases h.calls i hi with hr | ⟨u, hu, hui⟩
      · exact .inl hr
      · have hut : u ≠ t := by
          rintro rfl
          exact hu.2 hp
        refine .inr ⟨u, ?_, ?_⟩
        · rw [hphase, if_neg hut]
          exact hu
        · rw [hindex, if_neg hut]
          exact hui
    · refine .inr ⟨t, ?_, ?_⟩
      · rw [hphase, if_pos rfl]
        grind [BarrierPhase.Counted]
      · rw [hindex, if_pos rfl]

theorem step (h : BarrierInv n s) (hc : OneRound n s act) (hs : barrierStep s act = some s') :
    BarrierInv n s' := by
  cases act with
  | lock t =>
    simp only [barrierStep, condStep] at hs
    split at hs
    · split at hs
      · next hp hf =>
        cases hs
        exact h.lock hf.1 hp
      · cases hs
    · cases hs
  | arrive t =>
    simp only [barrierStep] at hs
    split at hs <;> cases hs
    exact h.arrive ‹_› hc
  | wait t =>
    simp only [barrierStep, condStep] at hs
    split at hs
    · split at hs <;> cases hs
      exact h.wait ‹_›
    · cases hs
  | take t =>
    simp only [barrierStep, condStep] at hs
    split at hs <;> cases hs
    exact h.take ‹_›
  | relock t =>
    simp only [barrierStep, condStep] at hs
    split at hs
    · next hf =>
      cases hs
      exact h.relock hf.1 hf.2
    · cases hs
  | broadcast t =>
    simp only [barrierStep, condStep] at hs
    split at hs
    · obtain ⟨c, hcast, rfl⟩ := Option.map_eq_some_iff.mp hs
      split at hcast
      · exact h.broadcast ‹_› hc hcast
      · cases hcast
    · cases hs
  | unlock t =>
    simp only [barrierStep, condStep] at hs
    split at hs
    · split at hs <;> cases hs
      exact h.unlock ‹_›
    · cases hs

end BarrierInv

/-- **When a barrier does what it is for.** In every run in which no call comes after the first
round, and no more than one thread is on its way to `rt_sem_take` when the last one broadcasts. -/
theorem barrier_meets (n : Nat) (hn : 0 < n) (acts : List BarrierAct) (s : BarrierSys)
    (hx : exec barrierStep (barrierInit n) acts = some s)
    (hc : Along barrierStep (OneRound n) (barrierInit n) acts) : Met n s :=
  (Along.inv (I := BarrierInv n) (fun _ _ _ h hr hs => h.step hr hs) hc hx (barrierInit_inv hn)).met

/-- Two threads go through the barrier. -/
def pairRun : List BarrierAct :=
  [.lock 0, .arrive 0, .wait 0, .take 0, .lock 1, .arrive 1, .broadcast 1, .unlock 1, .relock 0,
    .unlock 0]

theorem barrier_meets_pairRun : ∃ s, exec barrierStep (barrierInit 2) pairRun = some s ∧
    s.returned = [0, 1] ∧ Met 2 s := by
  have hx : (exec barrierStep (barrierInit 2) pairRun).map (fun s => s.returned) =
      some [0, 1] := by decide
  obtain ⟨s, hs, hr⟩ := Option.map_eq_some_iff.mp hx
  exact ⟨s, hs, hr, barrier_meets 2 (by decide) pairRun s hs (by decide)⟩

/-- A third thread comes, and returns at once. -/
theorem second_round_open : ¬ ∀ n, 0 < n → ∀ acts s,
    exec barrierStep (barrierInit n) acts = some s → Met n s := by
  intro h
  have hx : (exec barrierStep (barrierInit 2) (pairRun ++ [.lock 2, .arrive 2, .unlock 2])).map
      (fun s => (s.returned, s.arrived)) = some ([2, 0, 1], 3) := by decide
  obtain ⟨s, hs, ho⟩ := Option.map_eq_some_iff.mp hx
  obtain ⟨hr, ha⟩ := Prod.mk.inj ho
  have hearly := (h 2 (by decide) _ s hs).early 2 (by rw [hr]; exact List.mem_cons_self)
  rw [ha] at hearly
  exact absurd hearly (by decide)

end Tudu.Pthread
