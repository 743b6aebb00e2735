import TuduOS.Lib.Lts
import TuduOS.Lwt.Def

/-!
# Process numbers

Processes are created by `rt_lwt_new` and end when `lwt_ref_dec` drops their last reference. The
search of `rt_lwt_new` looks at the slots below `lastpid` only, and each call sets `lastpid` behind
the slot it took: slots behind it may still be in use.

* `NewFinds s act`: the search can end at a slot that is free.
* `NewOk s act`: the call stores the process in an empty slot, or fails for a reason and changes no
  slot.
* `UniquePids s`: every live process is in its slot, and no two have one number.

**The runs along `NewFinds` are the runs along `NewOk`, and the runs through `UniquePids` states**
(`pid_unique_iff`).
-/

namespace Tudu.Lwt

open Lts

/-- The map, the processes by address, and the addresses of the live ones. -/
structure PidRun where
  pids : LwtPidmap
  lwt : Nat → RtLwt
  live : List Nat

inductive PidAct where
  /-- `rt_lwt_new`; `malloc`: what `rt_malloc` returns. -/
  | new (malloc : Option Nat)
  /-- A live process ends: `lwt_ref_dec` of its last reference. -/
  | exit (a : Nat)
  deriving DecidableEq

/-- One call. `rt_malloc` never returns a live process's memory. -/
def pidStep (s : PidRun) : PidAct → Option PidRun
  | .new malloc =>
    if ∃ a ∈ s.live, malloc = some a then none
    else
      match rtLwtNew s.pids malloc with
      | (none, pids) => some { s with pids }
      | (some (a, lwt), pids) =>
        some ⟨pids, Function.update s.lwt a lwt, a :: s.live⟩
  | .exit a =>
    if a ∈ s.live then
      let (pids, lwt, freed) := lwtRefDec s.pids (s.lwt a)
      some ⟨pids, Function.update s.lwt a lwt, if freed then s.live.erase a else s.live⟩
    else none

/-- `lwt_pid` as the program starts, all zero. -/
def pidInit : PidRun := ⟨⟨fun _ => none, 0⟩, fun _ => ⟨0, 0, []⟩, []⟩

/-- Every live process is in its slot, and no two have one number. -/
structure UniquePids (s : PidRun) : Prop where
  slot : ∀ a ∈ s.live, s.pids.pidmap (s.lwt a).pid = some a
  unique : ∀ a ∈ s.live, ∀ c ∈ s.live, (s.lwt a).pid = (s.lwt c).pid → a = c

/-- `rt_lwt_new` stores the process in an empty slot; or it returns `NULL`, changes no slot, and
memory ran out or all slots are taken. -/
def NewOk (s : PidRun) : PidAct → Prop
  | .new malloc =>
    match rtLwtNew s.pids malloc with
    | (none, pids) => pids.pidmap = s.pids.pidmap ∧
        (malloc = none ∨ ∀ pid, pid < lwtPidmapSize → s.pids.pidmap pid ≠ none)
    | (some (a, lwt), pids) => s.pids.pidmap lwt.pid = none ∧
        pids.pidmap = Function.update s.pids.pidmap lwt.pid (some a)
  | .exit _ => True

/-- The search can end at a slot that is free: one below `lastpid`, or `lastpid` itself; or the
call fails. -/
def NewFinds (s : PidRun) : PidAct → Prop
  | .new malloc => malloc = none ∨ s.pids.lastpid = lwtPidmapSize ∨
      (∃ pid, pid < s.pids.lastpid ∧ s.pids.pidmap pid = none) ∨ s.pids.pidmap s.pids.lastpid = none
  | .exit _ => True

instance (s : PidRun) : ∀ act, Decidable (NewFinds s act)
  | .new malloc => inferInstanceAs (Decidable (malloc = none ∨ s.pids.lastpid = lwtPidmapSize ∨
      (∃ pid, pid < s.pids.lastpid ∧ s.pids.pidmap pid = none) ∨
        s.pids.pidmap s.pids.lastpid = none))
  | .exit _ => inferInstanceAs (Decidable True)

/-- The invariant: the map and the live processes name each other, and `lastpid` is in range. -/
structure PidInv (s : PidRun) : Prop extends UniquePids s where
  back : ∀ pid a, s.pids.pidmap pid = some a → a ∈ s.live ∧ (s.lwt a).pid = pid
  nodup : s.live.Nodup
  ref : ∀ a ∈ s.live, (s.lwt a).ref = 1
  lastpid : s.pids.lastpid ≤ lwtPidmapSize

variable {s s' : PidRun}

/-! ## `rt_lwt_new` -/

theorem newOk_iff (h : PidInv s) (act : PidAct) : NewFinds s act ↔ NewOk s act := by
  cases act with
  | exit a => exact Iff.rfl
  | new malloc =>
    have hlast := h.lastpid
    unfold NewFinds NewOk rtLwtNew
    rcases pidSearch_cases s.pids with ⟨hlt, hnone⟩ | ⟨he, hall⟩
    · -- an empty slot below `lastpid`
      have hsize : ¬ pidSearch s.pids ≥ lwtPidmapSize := by omega
      refine iff_of_true (.inr (.inr (.inl ⟨_, hlt, hnone⟩))) ?_
      cases malloc with
      | none => simp [hsize]
      | some a => simp [hsize, hnone]
    · by_cases hfull : s.pids.lastpid = lwtPidmapSize
      · refine iff_of_true (.inr (.inl hfull)) ?_
        have hge : pidSearch s.pids ≥ lwtPidmapSize := by omega
        rw [hfull] at hall
        simp only [if_pos hge, true_and]
        exact .inr hall
      · have hsize : ¬ pidSearch s.pids ≥ lwtPidmapSize := by omega
        cases malloc with
        | none => simp [hsize]
        | some a =>
          have hno : ¬ ∃ pid, pid < s.pids.lastpid ∧ s.pids.pidmap pid = none :=
            fun ⟨pid, hlt, hp⟩ => hall pid hlt hp
          rw [he] at hsize
          simp only [reduceCtorEq, hfull, hno, false_or, he, if_neg hsize, and_true]

/-- What a call of `rt_lwt_new` does. -/
theorem pidStep_new {malloc : Option Nat} (hs : pidStep s (.new malloc) = some s') :
    (∃ last, last ≤ lwtPidmapSize ∧ (malloc = none ∨ lwtPidmapSize ≤ pidSearch s.pids) ∧
        s' = { s with pids := { s.pids with lastpid := last } }) ∨
      ∃ a pid, malloc = some a ∧ a ∉ s.live ∧ pid = pidSearch s.pids ∧ pid < lwtPidmapSize ∧
        s' = ⟨⟨Function.update s.pids.pidmap pid (some a), pid + 1⟩,
          Function.update s.lwt a ⟨pid, 1, []⟩, a :: s.live⟩ := by
  unfold pidStep rtLwtNew at hs
  simp only at hs
  split at hs
  · cases hs
  next hfresh =>
  by_cases hsize : pidSearch s.pids ≥ lwtPidmapSize
  · rw [if_pos hsize] at hs
    exact .inl ⟨0, Nat.zero_le _, .inr hsize, (Option.some.inj hs).symm⟩
  · rw [if_neg hsize] at hs
    cases malloc with
    | none => exact .inl ⟨_, by omega, .inl rfl, (Option.some.inj hs).symm⟩
    | some a =>
      refine .inr ⟨a, _, rfl, fun ha => hfresh ⟨a, ha, rfl⟩, rfl, by omega, ?_⟩
      exact (Option.some.inj hs).symm

theorem PidInv.new (h : PidInv s) {malloc : Option Nat} (hc : NewFinds s (.new malloc))
    (hs : pidStep s (.new malloc) = some s') : PidInv s' := by
  rcases pidStep_new hs with ⟨last, hlast, -, rfl⟩ | ⟨a, pid, rfl, ha, hpid, hlt, rfl⟩
  · exact ⟨⟨h.slot, h.unique⟩, h.back, h.nodup, h.ref, hlast⟩
  -- the slot was empty, so no live process has its number
  have hempty : s.pids.pidmap pid = none := by
    have hok := (newOk_iff h _).mp hc
    simp only [NewOk, rtLwtNew, ← hpid, if_neg (Nat.not_le.mpr hlt)] at hok
    exact hok.1
  have hne : ∀ c ∈ s.live, c ≠ a := fun c hc e => ha (e ▸ hc)
  have hpne : ∀ c ∈ s.live, (s.lwt c).pid ≠ pid := by
    intro c hc e
    have := h.slot c hc
    rw [e, hempty] at this
    cases this
  refine ⟨⟨fun c hc => ?_, fun c hc d hd e => ?_⟩, fun q c hq => ?_, ?_, fun c hc => ?_, hlt⟩
  · rcases List.mem_cons.mp hc with rfl | hc
    · simp
    · have hc : c ∈ s.live := hc
      simp [Function.update_of_ne (hne c hc), Function.update_of_ne (hpne c hc), h.slot c hc]
  · rcases List.mem_cons.mp hc with rfl | hcl <;> rcases List.mem_cons.mp hd with rfl | hdl
    · rfl
    · simp only [Function.update_self, Function.update_of_ne (hne d hdl)] at e
      exact absurd e.symm (hpne d hdl)
    · simp only [Function.update_self, Function.update_of_ne (hne c hcl)] at e
      exact absurd e (hpne c hcl)
    · simp only [Function.update_of_ne (hne c hcl), Function.update_of_ne (hne d hdl)] at e
      exact h.unique c hcl d hdl e
  · by_cases hqp : q = pid
    · subst hqp
      simp only [Function.update_self, Option.some_inj] at hq
      subst hq
      simp
    · simp only [Function.update_of_ne hqp] at hq
      obtain ⟨hcl, hcp⟩ := h.back q c hq
      simp [Function.update_of_ne (hne c hcl), hcl, hcp]
  · exact List.nodup_cons.mpr ⟨ha, h.nodup⟩
  · rcases List.mem_cons.mp hc with rfl | hc
    · simp
    · simp [Function.update_of_ne (hne c hc), h.ref c hc]

/-- A call that takes a slot in use: the process in it is no more in its slot. -/
theorem PidInv.new_lost (h : PidInv s) {malloc : Option Nat} (hc : ¬ NewFinds s (.new malloc))
    (hs : pidStep s (.new malloc) = some s') : ¬ UniquePids s' := by
  have hbad := fun hok => hc ((newOk_iff h _).mpr hok)
  rcases pidStep_new hs with ⟨_, -, hfail, -⟩ | ⟨a, pid, rfl, ha, hpid, hlt, rfl⟩
  · refine absurd ?_ hc
    rcases hfail with rfl | hfull
    · exact .inl rfl
    · have hlast := h.lastpid
      rcases pidSearch_cases s.pids with ⟨hlt, -⟩ | ⟨he, -⟩
      · omega
      · exact .inr (.inl (by omega))
  · intro hP
    simp only [NewOk, rtLwtNew, ← hpid, if_neg (Nat.not_le.mpr hlt), and_true] at hbad
    obtain ⟨c, hcs⟩ := Option.ne_none_iff_exists'.mp hbad
    obtain ⟨hcl, hcp⟩ := h.back pid c hcs
    have hca : c ≠ a := fun e => ha (e ▸ hcl)
    have hslot := hP.slot c (List.mem_cons_of_mem _ hcl)
    simp only [Function.update_of_ne hca, hcp, Function.update_self, Option.some_inj] at hslot
    exact hca hslot.symm

/-! ## The end of a process -/

theorem PidInv.exit (h : PidInv s) {a : Nat} (hs : pidStep s (.exit a) = some s') : PidInv s' := by
  unfold pidStep at hs
  simp only at hs
  split at hs
  next ha =>
    have hfree : lwtRefDec s.pids (s.lwt a) =
        ({ s.pids with pidmap := Function.update s.pids.pidmap (s.lwt a).pid none },
          { s.lwt a with ref := 0 }, true) := by
      simp [lwtRefDec, h.ref a ha]
    rw [hfree] at hs
    cases hs
    have hmem : ∀ c, c ∈ s.live.erase a ↔ c ≠ a ∧ c ∈ s.live :=
      fun c => List.Nodup.mem_erase_iff h.nodup
    have hpne : ∀ c, c ≠ a → c ∈ s.live → (s.lwt c).pid ≠ (s.lwt a).pid :=
      fun c hne hc e => hne (h.unique c hc a ha e)
    refine ⟨⟨fun c hc => ?_, fun c hc d hd e => ?_⟩, fun q c hq => ?_, h.nodup.erase a,
      fun c hc => ?_, h.lastpid⟩
    · obtain ⟨hne, hcl⟩ := (hmem c).mp hc
      simp [Function.update_of_ne hne, Function.update_of_ne (hpne c hne hcl), h.slot c hcl]
    · obtain ⟨hcn, hcl⟩ := (hmem c).mp hc
      obtain ⟨hdn, hdl⟩ := (hmem d).mp hd
      simp only [Function.update_of_ne hcn, Function.update_of_ne hdn] at e
      exact h.unique c hcl d hdl e
    · by_cases hqp : q = (s.lwt a).pid
      · subst hqp
        simp at hq
      · simp only [Function.update_of_ne hqp] at hq
        obtain ⟨hcl, hcp⟩ := h.back q c hq
        have hne : c ≠ a := fun e => hqp (e ▸ hcp).symm
        exact ⟨(hmem c).mpr ⟨hne, hcl⟩, by simpa [Function.update_of_ne hne] using hcp⟩
    · obtain ⟨hne, hcl⟩ := (hmem c).mp hc
      simp [Function.update_of_ne hne, h.ref c hcl]
  · cases hs

/-! ## Runs -/

theorem PidInv.init : PidInv pidInit where
  slot := by simp [pidInit]
  unique := by simp [pidInit]
  back := by simp [pidInit]
  nodup := List.nodup_nil
  ref := by simp [pidInit]
  lastpid := Nat.zero_le _

theorem PidInv.step (h : PidInv s) {act : PidAct} (hc : NewFinds s act)
    (hs : pidStep s act = some s') : PidInv s' := by
  cases act with
  | new malloc => exact h.new hc hs
  | exit a => exact h.exit hs

/-- **The runs whose calls of `rt_lwt_new` can end at a free slot are those whose calls store the
process in an empty slot or fail for a reason, and those through states where the live processes
have numbers of their own.** -/
theorem pid_unique_iff (acts : List PidAct) (s : PidRun) (hx : exec pidStep pidInit acts = some s) :
    (Along pidStep NewFinds pidInit acts ↔ Along pidStep NewOk pidInit acts) ∧
      (Along pidStep NewFinds pidInit acts ↔ Visits pidStep UniquePids pidInit acts) := by
  constructor
  · exact along_congr (fun _ act _ h _ => newOk_iff h act) (fun _ _ _ h hc hs => h.step hc hs) hx
      PidInv.init
  · refine along_iff_visits (fun _ h => h.toUniquePids) (fun _ _ _ h hc hs => h.step hc hs) ?_ hx
      PidInv.init
    rintro s (malloc | a) s' h hc hs
    · exact h.new_lost hc hs
    · exact absurd trivial hc

/-- Three processes, the first ends, and its number is used again. -/
theorem pid_unique_iff_reuse : Visits pidStep UniquePids pidInit
    [.new (some 100), .new (some 101), .new (some 102), .exit 100, .new (some 103)] :=
  ((pid_unique_iff _ _ rfl).2).mp (by decide)

/-- The next process takes the slot of process 1, which is live. -/
theorem pid_overwritten : ¬ ∀ (acts : List PidAct) (s : PidRun),
    exec pidStep pidInit acts = some s → Along pidStep NewOk pidInit acts ∧ UniquePids s := by
  intro h
  have hu := (h [.new (some 100), .new (some 101), .new (some 102), .exit 100, .new (some 103),
    .new (some 104)] _ rfl).2.slot 101
  exact absurd (hu (by decide)) (by decide)

end Tudu.Lwt
