import TuduOS.Pthread.RwlockRun

/-!
# The end of a read-write lock (`pthread_rwlock.c`)

`pthread_rwlock_destroy`, called in any state that the operations of the lock can leave.

* The caller gets `rw_mutex` when it is free, so that every state with a free mutex is one to call
  in. What it does then is one step: nobody else changes the counters without the mutex.
* `attr` is the `attr` member of the lock, -1 for a lock that is not initialized.
* `RwCore`: the holders and the waiters are those that are counted. Unlike `RwInv` it holds of every
  run, so the counters that the function tests say whether the lock is idle.
-/

namespace Tudu.Pthread

open Lts RwSys

/-- `EBUSY` -/
def ebusy : Nat := 16

namespace CondSem

/-- `pthread_cond_destroy`, of an initialized condition variable. -/
def destroy (s : CondSem) : CondSem :=
  match s.trytake with
  | some _ => ⟨0, []⟩
  | none => s

end CondSem

namespace RwSys

/-- `pthread_rwlock_destroy` by the thread `t`: the result and the lock then. -/
def destroy (attr : Int) (s : RwSys) (t : Nat) : Option (Nat × RwSys) :=
  if attr = -1 then some (0, s)
  else if s.owner = none then
    let s := { s with owner := some t }
    if s.refcount ≠ 0 ∨ s.nwait .reader ≠ 0 ∨ s.nwait .writer ≠ 0 then some (ebusy, s)
    else
      match (s.cond .reader).trytake with
      | none => some (ebusy, { s with owner := none })
      | some r =>
        let s := s.setCond .reader r
        match (s.cond .writer).trytake with
        | none =>
          let s := s.resume .reader (s.cond .reader).release
          some (ebusy, { s with owner := none })
        | some w =>
          let s := s.setCond .writer w
          let s := s.resume .reader (s.cond .reader).release
          let s := s.resume .writer (s.cond .writer).release
          let s := s.setCond .reader (s.cond .reader).destroy
          let s := s.setCond .writer (s.cond .writer).destroy
          -- `pthread_mutex_destroy` finds no owner
          some (0, { s with owner := none })
  else none

/-- Nobody has the lock, and nobody waits for it. -/
structure Idle (s : RwSys) : Prop where
  rd : s.rd = []
  wr : s.wr = []
  waits : ∀ t, (s.pc t).waits = none

/-- Both semaphores have a token. -/
def HasTokens (s : RwSys) : Prop := 0 < (s.cond .reader).value ∧ 0 < (s.cond .writer).value

instance (s : RwSys) : Decidable s.HasTokens := inferInstanceAs (Decidable (_ ∧ _))

/-- What a call of `pthread_rwlock_destroy` is to do. -/
def DestroyOk (attr : Int) (s : RwSys) (t : Nat) : Prop :=
  ∀ r s', s.destroy attr t = some (r, s') → (r ≠ 0 → s' = s) ∧ (s.Idle → r = 0)

end RwSys

/-! ## The counters -/

structure RwCore (s : RwSys) : Prop where
  holds : Holds s
  counts : Counts s

variable {s s' : RwSys} {act : RwAct} {t u : Nat} {p : RwPc} {side sd : RwSide}
  {timed ok late : Bool} {attr : Int}

theorem RwPc.woken_waits : p.woken.waits = p.waits := by
  cases p <;> rfl

theorem RwPc.woken_unlock (h : p.woken = .entering .unlock ∨ p.woken = .body .unlock) :
    p = .entering .unlock ∨ p = .body .unlock := by
  cases p with
  | suspended => rcases h with h | h <;> cases h
  | _ => exact h

namespace RwCore

theorem goto (h : RwCore s) (hw : p.waits = (s.pc t).waits)
    (hp : p = .entering .unlock ∨ p = .body .unlock → t ∈ s.rd ∨ t ∈ s.wr) :
    RwCore (s.goto t p) := ⟨h.holds.goto hp, h.counts.goto hw⟩

theorem setCond (h : RwCore s) {c : CondSem} : RwCore (s.setCond side c) :=
  ⟨⟨h.holds.holders, h.holds.unlocks⟩, h.counts⟩

theorem setOwner (h : RwCore s) {owner : Option Nat} : RwCore { s with owner := owner } :=
  ⟨⟨h.holds.holders, h.holds.unlocks⟩, h.counts⟩

/-- Being resumed changes nothing that is counted. -/
theorem resume (h : RwCore s) {r : CondSem × List Nat} : RwCore (s.resume side r) := by
  have hpc : ∀ u, (s.resume side r).pc u = if u ∈ r.2 then (s.pc u).woken else s.pc u :=
    fun _ => rfl
  refine ⟨⟨h.holds.holders, fun u hu => h.holds.unlocks u ?_⟩, fun sd => (h.counts sd).congr ?_⟩
  · rw [hpc] at hu
    split at hu
    · exact RwPc.woken_unlock hu
    · exact hu
  · intro u
    rw [hpc]
    split
    · rw [RwPc.woken_waits]
    · exact Iff.rfl

theorem loopTest (hh : Holds s) (hleave : Counts (s.goto t .leaving))
    (hwait : Counts ((s.setWait side (s.nwait side + 1)).goto t (.unlocking side timed)))
    (hs : s.loopTest t side timed = some s') : RwCore s' := by
  simp only [RwSys.loopTest] at hs
  split at hs
  · next hmay =>
    obtain ⟨s1, ha, rfl⟩ := Option.map_eq_some_iff.mp hs
    obtain ⟨hh', -, hpc, -, hnwait⟩ := acquire_spec hh hmay ha
    refine ⟨hh'.goto fun hp => ?_, fun sd => ?_⟩
    · rcases hp with hp | hp <;> cases hp
    · have hcount := hleave sd
      show Count _ (Function.update s1.pc t .leaving) (s1.nwait sd)
      rw [hpc, hnwait]
      exact hcount
  · cases hs
    have hh' : Holds (s.setWait side (s.nwait side + 1)) := ⟨hh.holders, hh.unlocks⟩
    refine ⟨hh'.goto fun hp => ?_, hwait⟩
    rcases hp with hp | hp <;> cases hp

theorem take (h : RwCore s) (hpc : s.pc t = .between side timed) :
    RwCore (s.take t side timed late) := by
  have hwaits : (s.pc t).waits = some side := by rw [hpc]; rfl
  simp only [RwSys.take]
  split
  · refine h.setCond.goto (s := s.setCond side _) hwaits.symm fun hp => ?_
    rcases hp with hp | hp <;> cases hp
  · split
    · refine h.goto hwaits.symm fun hp => ?_
      rcases hp with hp | hp <;> cases hp
    · refine h.setCond.goto (s := s.setCond side _) hwaits.symm fun hp => ?_
      rcases hp with hp | hp <;> cases hp

theorem again (h : RwCore s) (hpc : s.pc t = .again side timed ok)
    (hs : s.again t side timed ok = some s') : RwCore s' := by
  have hwaits : (s.pc t).waits = some side := by rw [hpc]; rfl
  have hpos : 0 < s.nwait side := (h.counts side).pos_iff.mpr ⟨t, hwaits⟩
  have hh : Holds (s.setWait side (s.nwait side - 1)) := ⟨h.holds.holders, h.holds.unlocks⟩
  have hleave := h.counts.leave hwaits (show RwPc.leaving.waits = none from rfl)
  simp only [RwSys.again] at hs
  split at hs
  · refine loopTest hh hleave ?_ hs
    rw [setWait_back hpos]
    exact h.counts.goto hwaits.symm
  · cases hs
    refine ⟨hh.goto fun hp => ?_, hleave⟩
    rcases hp with hp | hp <;> cases hp

theorem unlock (h : RwCore s) (hpc : s.pc t = .body .unlock) (hs : s.body t .unlock = some s') :
    RwCore s' := by
  obtain ⟨hh, hdpc, hdcond, hdn, -⟩ := drop_spec h.holds hpc
  obtain ⟨s2, hw, rfl⟩ := Option.map_eq_some_iff.mp hs
  -- the thread leaves, then the others are resumed
  have hd : RwCore ((s.drop t).goto t .leaving) := by
    refine ⟨hh, fun sd => ?_⟩
    have hcount := h.counts.goto (t := t) (p := .leaving) (by rw [hpc]; rfl) sd
    show Count _ (Function.update (s.drop t).pc t .leaving) ((s.drop t).nwait sd)
    rw [hdpc, hdn]
    exact hcount
  have hcomm : ∀ sd r, ((s.drop t).resume sd r).goto t .leaving =
      ((s.drop t).goto t .leaving).resume sd r := by
    intro sd r
    have hfun : Function.update ((s.drop t).resume sd r).pc t .leaving =
        fun u => if u ∈ r.2 then (Function.update (s.drop t).pc t .leaving u).woken
          else Function.update (s.drop t).pc t .leaving u := by
      funext u
      rcases eq_or_ne u t with rfl | hut
      · simp only [Function.update_self]
        split <;> rfl
      · simp only [Function.update_of_ne hut]
        rfl
    exact congrArg (fun pc => { (s.drop t).resume sd r with pc := pc }) hfun
  simp only [wakeUp] at hw
  split at hw
  · split at hw <;> cases hw
    · rw [hcomm]
      exact hd.resume
    · exact hd
  · split at hw
    · obtain ⟨r, -, rfl⟩ := Option.map_eq_some_iff.mp hw
      rw [hcomm]
      exact hd.resume
    · cases hw
      exact hd

theorem body (h : RwCore s) {op : RwOp} (hpc : s.pc t = .body op) (hs : s.body t op = some s') :
    RwCore s' := by
  have hwaits : (s.pc t).waits = none := by rw [hpc]; rfl
  have hlock : ∀ side timed, s.loopTest t side timed = some s' → RwCore s' := fun side timed hs =>
    loopTest h.holds (h.counts.goto hwaits.symm) (h.counts.enter hwaits rfl) hs
  cases op with
  | lock side timed => exact hlock side timed hs
  | trylock side =>
    simp only [RwSys.body] at hs
    split at hs
    · next hmay => exact hlock side false ((if_pos hmay).trans hs)
    · cases hs
      refine h.goto hwaits.symm fun hp => ?_
      rcases hp with hp | hp <;> cases hp
  | unlock => exact h.unlock hpc hs

theorem step (h : RwCore s) (hs : rwStep s act = some s') : RwCore s' := by
  cases act with
  | call t op =>
    simp only [rwStep] at hs
    split at hs <;> cases hs
    next hcall =>
    refine h.goto (by rw [hcall.1]; rfl) fun hp => ?_
    rcases hp with hp | hp
    · exact hcall.2 (RwPc.entering.inj hp)
    · cases hp
  | goOn t late =>
    simp only [rwStep, RwSys.goOn] at hs
    split at hs
    · cases hs
    · next op hpc =>
      split at hs <;> cases hs
      refine h.setOwner.goto (by rw [show ({ s with owner := some t } : RwSys).pc t = _ from hpc]; rfl)
        fun hp => h.holds.unlocks t ?_
      rcases hp with hp | hp
      · cases hp
      · rw [hpc, RwPc.body.inj hp]
        exact .inl rfl
    · next op hpc => exact h.body hpc hs
    · next side timed hpc =>
      cases hs
      refine h.setOwner.goto (by rw [show ({ s with owner := none } : RwSys).pc t = _ from hpc]; rfl)
        fun hp => ?_
      rcases hp with hp | hp <;> cases hp
    · next side timed hpc =>
      cases hs
      exact h.take hpc
    · cases hs
    · next side timed ok hpc =>
      split at hs <;> cases hs
      refine h.setOwner.goto (by rw [show ({ s with owner := some t } : RwSys).pc t = _ from hpc]; rfl)
        fun hp => ?_
      rcases hp with hp | hp <;> cases hp
    · next side timed ok hpc => exact h.again hpc hs
    · next hpc =>
      cases hs
      refine h.setOwner.goto (by rw [show ({ s with owner := none } : RwSys).pc t = _ from hpc]; rfl)
        fun hp => ?_
      rcases hp with hp | hp <;> cases hp
  | timeout t =>
    simp only [rwStep] at hs
    split at hs
    · next side hpc =>
      cases hs
      refine h.setCond.goto (s := s.setCond side _)
        (by rw [show (s.setCond side _).pc t = _ from hpc]; rfl) fun hp => ?_
      rcases hp with hp | hp <;> cases hp
    · cases hs

/-- The counters are 0 for an idle lock, and for no other. -/
theorem idle_iff (h : RwCore s) :
    s.Idle ↔ s.refcount = 0 ∧ s.nwait .reader = 0 ∧ s.nwait .writer = 0 := by
  constructor
  · intro hi
    have hn : ∀ side, s.nwait side = 0 := by
      intro side
      by_contra hne
      obtain ⟨t, ht⟩ := (h.counts side).pos_iff.mp (Nat.pos_of_ne_zero hne)
      rw [hi.waits t] at ht
      cases ht
    refine ⟨?_, hn .reader, hn .writer⟩
    rcases h.holds.holders with ⟨hcount, -⟩ | ⟨-, -, t, hwr⟩
    · rw [hcount, hi.rd]
      rfl
    · rw [hi.wr] at hwr
      cases hwr
  · rintro ⟨h0, hr, hw⟩
    have hwaits : ∀ t, (s.pc t).waits = none := by
      intro t
      cases hp : (s.pc t).waits with
      | none => rfl
      | some side =>
        have hpos := (h.counts side).pos_iff.mpr ⟨t, hp⟩
        cases side <;> omega
    rcases h.holds.holders with ⟨hcount, hwr⟩ | ⟨hcount, -⟩
    · exact ⟨List.length_eq_zero_iff.mp (by omega), hwr, hwaits⟩
    · omega

end RwCore

theorem rwCore_of_run {as : List RwAct} (hx : exec rwStep rwInit as = some s) : RwCore s :=
  exec_inv (I := RwCore) (fun _ _ _ h hs => h.step hs) hx ⟨rwInit_inv.holds, rwInit_inv.counts⟩

/-! ## The call -/

theorem cond_setCond_writer {c : CondSem} :
    (s.setCond .reader c).cond .writer = s.cond .writer := rfl

section Destroy

variable (hattr : attr ≠ -1) (hfree : s.owner = none)

include hattr hfree

/-- A lock that is in use: the mutex stays taken. -/
theorem destroy_busy (h : ¬(s.refcount = 0 ∧ s.nwait .reader = 0 ∧ s.nwait .writer = 0)) :
    s.destroy attr t = some (ebusy, { s with owner := some t }) := by
  have hbusy : s.refcount ≠ 0 ∨ s.nwait .reader ≠ 0 ∨ s.nwait .writer ≠ 0 := by tauto
  simp only [RwSys.destroy]
  rw [if_neg hattr, if_pos hfree, if_pos hbusy]

variable (h0 : s.refcount = 0 ∧ s.nwait .reader = 0 ∧ s.nwait .writer = 0)

include h0

theorem destroy_idle (hv : s.HasTokens) : ∃ s', s.destroy attr t = some (0, s') := by
  have hr : (s.cond .reader).trytake = some { s.cond .reader with
    value := (s.cond .reader).value - 1 } := if_pos hv.1
  have hw : (s.cond .writer).trytake = some { s.cond .writer with
    value := (s.cond .writer).value - 1 } := if_pos hv.2
  simp only [RwSys.destroy, if_neg hattr, if_pos hfree, h0.1, h0.2.1, h0.2.2, ne_eq,
    not_true_eq_false, or_self, if_false, hr, cond_setCond_writer, hw]
  exact ⟨_, rfl⟩

/-- An idle lock without a token cannot be destroyed. -/
theorem destroy_noToken (hv : ¬s.HasTokens) : ∃ s', s.destroy attr t = some (ebusy, s') := by
  simp only [RwSys.destroy, if_neg hattr, if_pos hfree, h0.1, h0.2.1, h0.2.2, ne_eq,
    not_true_eq_false, or_self, if_false, cond_setCond_writer]
  cases hr : (s.cond .reader).trytake with
  | none => exact ⟨_, rfl⟩
  | some r =>
    cases hw : (s.cond .writer).trytake with
    | none => exact ⟨_, rfl⟩
    | some w =>
      have hpos : ∀ sd c, (s.cond sd).trytake = some c → 0 < (s.cond sd).value := by
        intro sd c h
        by_contra hn
        rw [CondSem.trytake_zero (by omega)] at h
        cases h
      exact absurd ⟨hpos _ _ hr, hpos _ _ hw⟩ hv

end Destroy

/-- **When `pthread_rwlock_destroy` does what it should.** In every state that the operations of the
lock can leave with `rw_mutex` free: a failure leaves the lock as it was and an idle lock is
destroyed if and only if the lock is not initialized, or it is idle and both of its semaphores have
a token. -/
theorem rwlock_destroy_iff {as : List RwAct} (hx : exec rwStep rwInit as = some s)
    (hfree : s.owner = none) : s.DestroyOk attr t ↔ attr = -1 ∨ s.Idle ∧ s.HasTokens := by
  by_cases hattr : attr = -1
  · refine iff_of_true (fun r s' h => ?_) (.inl hattr)
    rw [RwSys.destroy, if_pos hattr] at h
    cases h
    exact ⟨fun h => absurd rfl h, fun _ => rfl⟩
  · rw [or_iff_right hattr]
    have hcore := rwCore_of_run hx
    by_cases h0 : s.refcount = 0 ∧ s.nwait .reader = 0 ∧ s.nwait .writer = 0
    · have hidle := hcore.idle_iff.mpr h0
      rw [and_iff_right hidle]
      by_cases hv : s.HasTokens
      · obtain ⟨s', hs'⟩ := destroy_idle (t := t) hattr hfree h0 hv
        refine iff_of_true (fun r s'' h => ?_) hv
        rw [hs'] at h
        cases h
        exact ⟨fun h => absurd rfl h, fun _ => rfl⟩
      · obtain ⟨s', hs'⟩ := destroy_noToken (t := t) hattr hfree h0 hv
        refine iff_of_false (fun h => ?_) hv
        exact absurd ((h _ _ hs').2 hidle) (by decide)
    · refine iff_of_false (fun h => ?_) fun h => h0 (hcore.idle_iff.mp h.1)
      have howner := congrArg RwSys.owner ((h _ _ (destroy_busy hattr hfree h0)).1 (by decide))
      rw [hfree] at howner
      cases howner

/-- The thread 1 has waited to read, and in vain to write. -/
def leavesTokens : List RwAct :=
  writerHolds ++ [.call 0 .unlock, .goOn 0 false, .goOn 0 false, .goOn 0 false, .goOn 1 false,
    .goOn 1 false, .goOn 1 false, .call 1 .unlock, .goOn 1 false, .goOn 1 false, .goOn 1 false,
    .call 0 (.lock .writer false), .goOn 0 false, .goOn 0 false, .goOn 0 false,
    .call 1 (.lock .writer true), .goOn 1 false, .goOn 1 false, .goOn 1 false, .goOn 1 true,
    .call 0 .unlock, .goOn 0 false, .goOn 0 false, .goOn 0 false, .goOn 1 false, .goOn 1 false,
    .goOn 1 false]

/-- Such a lock can be destroyed. -/
theorem rwlock_destroy_tokens : ∃ s, exec rwStep rwInit leavesTokens = some s ∧
    s.owner = none ∧ s.DestroyOk 0 0 := by
  have hx : (exec rwStep rwInit leavesTokens).map (fun s => (s.owner, s.refcount, s.nwait .reader,
      s.nwait .writer, (s.cond .reader).value, (s.cond .writer).value)) =
      some (none, 0, 0, 0, 1, 1) := by decide +kernel
  obtain ⟨s, hs, he⟩ := Option.map_eq_some_iff.mp hx
  simp only [Prod.mk.injEq] at he
  obtain ⟨hfree, hcount, hr, hw, hvr, hvw⟩ := he
  refine ⟨s, hs, hfree, (rwlock_destroy_iff hs hfree).mpr (.inr ⟨?_, ?_, ?_⟩)⟩
  · exact (rwCore_of_run hs).idle_iff.mpr ⟨hcount, hr, hw⟩
  · rw [hvr]
    exact Nat.one_pos
  · rw [hvw]
    exact Nat.one_pos

/-- A new lock cannot be destroyed, and one that is held keeps the mutex. -/
theorem rwlock_destroy_fails : ¬RwSys.DestroyOk 0 rwInit 0 ∧
    ∃ s, exec rwStep rwInit [.call 1 (.lock .reader false), .goOn 1 false, .goOn 1 false,
      .goOn 1 false] = some s ∧ s.owner = none ∧
      ∃ s', s.destroy 0 2 = some (ebusy, s') ∧ s'.owner = some 2 := by
  constructor
  · intro h
    have hidle : RwSys.Idle rwInit := ⟨rfl, rfl, fun _ => rfl⟩
    have hzero : ebusy = 0 := (h ebusy _ rfl).2 hidle
    cases hzero
  · exact ⟨_, rfl, rfl, _, rfl, rfl⟩

end Tudu.Pthread
