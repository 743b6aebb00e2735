import Mathlib.Tactic.IntervalCases
import TuduOS.Pthread.Rwlock

/-!
# Runs of a read-write lock

`RwInv` is the invariant. What it says of waiting threads is about a free lock (`Wakens`): where a
writer has not been woken, another one has been, or finds a token; where a reader has not, a writer
is counted, or a reader has been woken or finds a token. An unlock establishes it, and each other
step that leaves the lock free keeps it, but the one that `Passes` excludes.
-/

namespace Tudu.Pthread

open Lts RwSys

structure Holds (s : RwSys) : Prop where
  holders : (s.refcount = s.rd.length ∧ s.wr = []) ∨
    (s.refcount = -1 ∧ s.rd = [] ∧ ∃ t, s.wr = [t])
  unlocks : ∀ t, s.pc t = .entering .unlock ∨ s.pc t = .body .unlock → t ∈ s.rd ∨ t ∈ s.wr

structure Lists (s : RwSys) : Prop where
  good : ∀ side, (s.cond side).Good
  nodup : ∀ side, (s.cond side).suspendThread.Nodup
  mem : ∀ side t, t ∈ (s.cond side).suspendThread ↔ (s.pc t).sleeps = some side

def Counts (s : RwSys) : Prop :=
  ∀ side, Count (fun p => RwPc.waits p = some side) s.pc (s.nwait side)

structure Wakens (s : RwSys) : Prop where
  writer : s.refcount = 0 → Queued s .writer → Comes s .writer ∨ 0 < (s.cond .writer).value
  reader : s.refcount = 0 → Queued s .reader →
    0 < s.nwait .writer ∨ Comes s .reader ∨ 0 < (s.cond .reader).value

structure RwInv (s : RwSys) : Prop where
  holds : Holds s
  lists : Lists s
  counts : Counts s
  wakens : Wakens s

variable {s s' : RwSys} {act : RwAct} {t u : Nat} {p : RwPc} {side sd : RwSide}
  {timed ok late : Bool}

namespace RwPc

theorem queued_waits (h : p.queued = some side) : p.waits = some side := by
  cases p <;> first | exact h | cases h

theorem sleeps_queued (h : p.sleeps = some side) : p.queued = some side := by
  cases p <;> first | exact h | cases h

theorem sleeps_eq (h : p.sleeps = some side) : ∃ timed, p = .suspended side timed := by
  cases p <;> first | exact ⟨_, congrArg (suspended · _) (Option.some.inj h)⟩ | cases h

end RwPc

/-! ## One thread moves -/

theorem pc_goto_self : (s.goto t p).pc t = p := Function.update_self ..

theorem pc_goto_of_ne (h : u ≠ t) : (s.goto t p).pc u = s.pc u := Function.update_of_ne h ..

theorem Queued.of_goto (h : Queued (s.goto t p) side)
    (hp : p.queued = some side → (s.pc t).queued = some side) : Queued s side := by
  obtain ⟨u, hu⟩ := h
  rcases eq_or_ne u t with rfl | hut
  · rw [pc_goto_self] at hu
    exact ⟨u, hp hu⟩
  · rw [pc_goto_of_ne hut] at hu
    exact ⟨u, hu⟩

theorem Comes.goto (h : Comes s side) (hp : (s.pc t).comes = some side → p.comes = some side) :
    Comes (s.goto t p) side := by
  obtain ⟨u, hu⟩ := h
  rcases eq_or_ne u t with rfl | hut
  · exact ⟨u, by rw [pc_goto_self]; exact hp hu⟩
  · exact ⟨u, by rw [pc_goto_of_ne hut]; exact hu⟩

theorem Holds.goto (h : Holds s)
    (hp : p = .entering .unlock ∨ p = .body .unlock → t ∈ s.rd ∨ t ∈ s.wr) :
    Holds (s.goto t p) := by
  refine ⟨h.holders, fun u hu => ?_⟩
  rcases eq_or_ne u t with rfl | hut
  · rw [pc_goto_self] at hu
    exact hp hu
  · rw [pc_goto_of_ne hut] at hu
    exact h.unlocks u hu

theorem Lists.goto (h : Lists s) (hp : p.sleeps = (s.pc t).sleeps) : Lists (s.goto t p) := by
  refine ⟨h.good, h.nodup, fun sd u => ?_⟩
  rcases eq_or_ne u t with rfl | hut
  · rw [pc_goto_self, hp]
    exact h.mem sd u
  · rw [pc_goto_of_ne hut]
    exact h.mem sd u

/-- Nobody is counted in or out. -/
theorem Counts.goto (h : Counts s) (hp : p.waits = (s.pc t).waits) : Counts (s.goto t p) :=
  fun sd => (h sd).stay (by rw [hp])

theorem Counts.enter (h : Counts s) (hpc : (s.pc t).waits = none) (hp : p.waits = some side) :
    Counts ((s.setWait side (s.nwait side + 1)).goto t p) := by
  intro sd
  show Count _ (Function.update s.pc t p) (Function.update s.nwait side _ sd)
  rcases eq_or_ne sd side with rfl | hsd
  · rw [Function.update_self]
    exact (h sd).enter (by rw [hpc]; exact fun he => (by cases he)) hp
  · rw [Function.update_of_ne hsd]
    refine (h sd).stay (iff_of_false ?_ ?_)
    · rw [hp]
      exact fun he => hsd (Option.some.inj he).symm
    · rw [hpc]
      exact fun he => (by cases he)

theorem Counts.leave (h : Counts s) (hpc : (s.pc t).waits = some side) (hp : p.waits = none) :
    Counts ((s.setWait side (s.nwait side - 1)).goto t p) := by
  intro sd
  show Count _ (Function.update s.pc t p) (Function.update s.nwait side _ sd)
  rcases eq_or_ne sd side with rfl | hsd
  · have hpos : 0 < s.nwait sd := (h sd).pos_iff.mpr ⟨t, hpc⟩
    have hcount := h sd
    rw [← Nat.sub_add_cancel hpos] at hcount
    rw [Function.update_self]
    exact hcount.leave hpc (by rw [hp]; exact fun he => (by cases he))
  · rw [Function.update_of_ne hsd]
    refine (h sd).stay (iff_of_false ?_ ?_)
    · rw [hp]
      exact fun he => (by cases he)
    · rw [hpc]
      exact fun he => hsd (Option.some.inj he).symm

/-- Nobody is queued, and nobody that has been woken goes away. -/
theorem Wakens.goto (h : Wakens s) (hq : ∀ sd, p.queued = some sd → (s.pc t).queued = some sd)
    (hc : ∀ sd, (s.pc t).comes = some sd → p.comes = some sd) : Wakens (s.goto t p) := by
  constructor
  · intro h0 hqu
    rcases h.writer h0 (hqu.of_goto (hq _)) with hco | hv
    · exact Or.inl (hco.goto (hc _))
    · exact Or.inr hv
  · intro h0 hqu
    rcases h.reader h0 (hqu.of_goto (hq _)) with hn | hco | hv
    · exact Or.inl hn
    · exact Or.inr (Or.inl (hco.goto (hc _)))
    · exact Or.inr (Or.inr hv)

/-- A lock that is held. -/
theorem Wakens.of_held (h : s.refcount ≠ 0) : Wakens s :=
  ⟨fun h0 => absurd h0 h, fun h0 => absurd h0 h⟩

/-! ## The test of the loops -/

/-- A thread takes the lock. -/
theorem acquire_spec (h : Holds s) (hmay : s.mayLock side = true)
    (ha : s.acquire t side = some s') :
    Holds s' ∧ s'.refcount ≠ 0 ∧ s'.pc = s.pc ∧ s'.cond = s.cond ∧ s'.nwait = s.nwait := by
  cases side with
  | reader =>
    simp only [acquire] at ha
    split at ha <;> cases ha
    simp only [mayLock, Bool.not_eq_true', Bool.or_eq_false_iff, decide_eq_false_iff_not] at hmay
    rcases h.holders with ⟨hcount, hwr⟩ | ⟨hcount, -⟩
    · refine ⟨⟨Or.inl ⟨?_, hwr⟩, fun u hu => ?_⟩, ?_, rfl, rfl, rfl⟩
      · show s.refcount + 1 = ((t :: s.rd).length : Int)
        rw [hcount, List.length_cons, Nat.cast_succ]
      · exact (h.unlocks u hu).imp_left (List.mem_cons_of_mem t)
      · show s.refcount + 1 ≠ 0
        omega
    · omega
  | writer =>
    cases ha
    have h0 : s.refcount = 0 := of_decide_eq_true hmay
    rcases h.holders with ⟨hcount, hwr⟩ | ⟨hcount, -⟩
    · have hrd : s.rd = [] := List.length_eq_zero_iff.mp (by omega)
      have href : (-1 : Int) ≠ 0 := by decide
      refine ⟨⟨Or.inr ⟨rfl, hrd, t, ?_⟩, fun u hu => ?_⟩, href, rfl, rfl, rfl⟩
      · show t :: s.wr = [t]
        rw [hwr]
      · exact (h.unlocks u hu).imp_right (List.mem_cons_of_mem t)
    · omega

theorem acquired_inv (hh : Holds s) (hl : Lists s) (hsl : (s.pc t).sleeps = none)
    (hc : Counts (s.goto t .leaving)) (hmay : s.mayLock side = true)
    (ha : s.acquire t side = some s') : RwInv (s'.goto t .leaving) := by
  obtain ⟨hh', href, hpc, hcond, hnwait⟩ := acquire_spec hh hmay ha
  have hl' : Lists s' := by
    refine ⟨fun sd => ?_, fun sd => ?_, fun sd u => ?_⟩
    · rw [hcond]
      exact hl.good sd
    · rw [hcond]
      exact hl.nodup sd
    · rw [hcond, hpc]
      exact hl.mem sd u
  refine ⟨hh'.goto fun hp => ?_, hl'.goto ?_, fun sd => ?_, .of_held href⟩
  · rcases hp with hp | hp <;> cases hp
  · rw [hpc, hsl]
    rfl
  · have hcount := hc sd
    show Count _ (Function.update s'.pc t .leaving) (s'.nwait sd)
    rw [hpc, hnwait]
    exact hcount

/-- A lock that is free is refused to a reader only, and for the writers that wait. -/
theorem refused_free (h : s.mayLock side = false) (h0 : s.refcount = 0) :
    side = .reader ∧ 0 < s.nwait .writer := by
  cases side with
  | reader =>
    refine ⟨rfl, ?_⟩
    simp only [mayLock, h0, Int.lt_irrefl, decide_false, Bool.false_or, Bool.not_eq_false',
      decide_eq_true_eq] at h
    exact h
  | writer =>
    simp only [mayLock, h0, decide_true] at h
    cases h

theorem loopTest_inv (hh : Holds s) (hl : Lists s) (hsl : (s.pc t).sleeps = none)
    (hco : ∀ sd, (s.pc t).comes = some sd → sd = side) (hleave : Counts (s.goto t .leaving))
    (hwait : Counts ((s.setWait side (s.nwait side + 1)).goto t (.unlocking side timed)))
    (hw : s.refcount = 0 → Queued s .writer → Comes s .writer ∨ 0 < (s.cond .writer).value)
    (hs : s.loopTest t side timed = some s') : RwInv s' := by
  simp only [RwSys.loopTest] at hs
  split at hs
  · next hmay =>
    obtain ⟨s1, ha, rfl⟩ := Option.map_eq_some_iff.mp hs
    exact acquired_inv hh hl hsl hleave hmay ha
  · next hmay =>
    cases hs
    have hmay' := Bool.eq_false_iff.mpr hmay
    have hh' : Holds (s.setWait side (s.nwait side + 1)) := ⟨hh.holders, hh.unlocks⟩
    have hl' : Lists (s.setWait side (s.nwait side + 1)) := ⟨hl.good, hl.nodup, hl.mem⟩
    refine ⟨hh'.goto fun hp => ?_, hl'.goto hsl.symm, hwait, ?_, ?_⟩
    · rcases hp with hp | hp <;> cases hp
    · intro h0 hq
      obtain ⟨rfl, -⟩ := refused_free hmay' h0
      have hq' : Queued (s.setWait .reader (s.nwait .reader + 1)) .writer :=
        hq.of_goto fun hp => (by cases hp)
      rcases hw h0 hq' with hc | hv
      · refine Or.inl (Comes.goto (s := s.setWait .reader (s.nwait .reader + 1)) hc fun ht => ?_)
        cases hco _ ht
      · exact Or.inr hv
    · intro h0 _
      obtain ⟨rfl, hn⟩ := refused_free hmay' h0
      exact Or.inl hn

/-! ## The semaphore -/

/-- Where a thread is put on the list, or taken off it. -/
theorem Lists.setCond (h : Lists s) {c : CondSem} (hg : c.Good) (hnd : c.suspendThread.Nodup)
    (hother : ∀ u, u ≠ t → (u ∈ c.suspendThread ↔ u ∈ (s.cond side).suspendThread))
    (hself : t ∈ c.suspendThread ↔ p.sleeps = some side)
    (hp : ∀ sd, sd ≠ side → (p.sleeps = some sd ↔ (s.pc t).sleeps = some sd)) :
    Lists ((s.setCond side c).goto t p) := by
  refine ⟨fun sd => ?_, fun sd => ?_, fun sd u => ?_⟩
  · show (Function.update s.cond side c sd).Good
    rcases eq_or_ne sd side with rfl | hsd
    · rw [Function.update_self]
      exact hg
    · rw [Function.update_of_ne hsd]
      exact h.good sd
  · show (Function.update s.cond side c sd).suspendThread.Nodup
    rcases eq_or_ne sd side with rfl | hsd
    · rw [Function.update_self]
      exact hnd
    · rw [Function.update_of_ne hsd]
      exact h.nodup sd
  · show u ∈ (Function.update s.cond side c sd).suspendThread ↔
      (Function.update s.pc t p u).sleeps = some sd
    rcases eq_or_ne sd side with rfl | hsd
    · rw [Function.update_self]
      rcases eq_or_ne u t with rfl | hut
      · rw [Function.update_self]
        exact hself
      · rw [Function.update_of_ne hut, hother u hut]
        exact h.mem sd u
    · rw [Function.update_of_ne hsd]
      rcases eq_or_ne u t with rfl | hut
      · rw [Function.update_self, hp sd hsd]
        exact h.mem sd u
      · rw [Function.update_of_ne hut]
        exact h.mem sd u

/-- A token is taken: the thread itself is the one that comes. -/
theorem Wakens.taken (h : Wakens s) {c : CondSem} (hpc : (s.pc t).comes = none)
    (hq : p.queued = none) (hp : p.comes = some side) : Wakens ((s.setCond side c).goto t p) := by
  have hcome : Comes ((s.setCond side c).goto t p) side := ⟨t, by rw [pc_goto_self]; exact hp⟩
  have hqu : ∀ sd, Queued ((s.setCond side c).goto t p) sd → Queued s sd := fun sd hsd =>
    Queued.of_goto (s := s.setCond side c) hsd fun he => (by rw [hq] at he; cases he)
  have hco : ∀ sd, Comes s sd → Comes ((s.setCond side c).goto t p) sd := fun sd hsd =>
    Comes.goto (s := s.setCond side c) hsd fun he => (by
      have he' : (s.pc t).comes = some sd := he
      rw [hpc] at he'
      cases he')
  cases side with
  | reader =>
    refine ⟨fun h0 hw => ?_, fun _ _ => Or.inr (Or.inl hcome)⟩
    exact (h.writer h0 (hqu _ hw)).imp (hco _) (fun hv => hv)
  | writer =>
    refine ⟨fun _ _ => Or.inl hcome, fun h0 hr => ?_⟩
    exact (h.reader h0 (hqu _ hr)).imp (fun hn => hn) (Or.imp (hco _) (fun hv => hv))

/-- The list of a semaphore changes, and not its value. -/
theorem Wakens.setCond (h : Wakens s) {c : CondSem} (hv : c.value = (s.cond side).value)
    (hq : ∀ sd, p.queued = some sd → (s.pc t).queued = some sd)
    (hc : ∀ sd, (s.pc t).comes = some sd → p.comes = some sd) :
    Wakens ((s.setCond side c).goto t p) := by
  have hvalue : ∀ sd, ((s.setCond side c).cond sd).value = (s.cond sd).value := by
    intro sd
    show (Function.update s.cond side c sd).value = _
    rcases eq_or_ne sd side with rfl | hsd
    · rw [Function.update_self, hv]
    · rw [Function.update_of_ne hsd]
  refine Wakens.goto (s := s.setCond side c) ⟨fun h0 hw => ?_, fun h0 hr => ?_⟩ hq hc
  · rw [hvalue]
    exact h.writer h0 hw
  · rw [hvalue]
    exact h.reader h0 hr

theorem RwInv.take (h : RwInv s) (hpc : s.pc t = .between side timed) :
    RwInv (s.take t side timed late) := by
  have hsl : (s.pc t).sleeps = none := by rw [hpc]; rfl
  have hcomes : (s.pc t).comes = none := by rw [hpc]; rfl
  have hqu : (s.pc t).queued = some side := by rw [hpc]; rfl
  have hwaits : (s.pc t).waits = some side := by rw [hpc]; rfl
  have hnot : t ∉ (s.cond side).suspendThread := by
    intro hm
    rw [h.lists.mem, hsl] at hm
    cases hm
  have hnone : ∀ {p : RwPc}, p.sleeps = none → ∀ sd, sd ≠ side →
      (p.sleeps = some sd ↔ (s.pc t).sleeps = some sd) := fun hp _ _ => by rw [hp, hsl]
  by_cases hv : 0 < (s.cond side).value
  · have htake : (s.cond side).trytake =
        some { s.cond side with value := (s.cond side).value - 1 } := if_pos hv
    have hsmall := (h.lists.good side).small
    simp only [RwSys.take, htake]
    refine ⟨Holds.goto (s := s.setCond side _) ⟨h.holds.holders, h.holds.unlocks⟩ fun hp => ?_, ?_,
      Counts.goto (s := s.setCond side _) h.counts hwaits.symm,
      h.wakens.taken hcomes rfl rfl⟩
    · rcases hp with hp | hp <;> cases hp
    · refine h.lists.setCond ⟨fun _ => (h.lists.good side).empty hv, ?_⟩ (h.lists.nodup side)
        (fun _ _ => Iff.rfl) (iff_of_false hnot fun hp => (by cases hp)) (hnone rfl)
      show (s.cond side).value - 1 < 65536
      omega
  · have hv0 : (s.cond side).value = 0 := by omega
    simp only [RwSys.take, CondSem.trytake_zero hv0]
    split
    · refine ⟨h.holds.goto fun hp => ?_, h.lists.goto hsl.symm, h.counts.goto hwaits.symm,
        h.wakens.goto (fun _ he => (by cases he)) (fun _ he => ?_)⟩
      · rcases hp with hp | hp <;> cases hp
      · rw [hcomes] at he
        cases he
    · refine ⟨Holds.goto (s := s.setCond side _) ⟨h.holds.holders, h.holds.unlocks⟩ fun hp => ?_,
        ?_, Counts.goto (s := s.setCond side _) h.counts hwaits.symm,
        h.wakens.setCond rfl (fun _ he => hqu.trans he) (fun _ he => ?_)⟩
      · rcases hp with hp | hp <;> cases hp
      · refine h.lists.setCond ⟨fun hpos => absurd hpos hv, (h.lists.good side).small⟩ ?_
          (fun u hu => ?_) (iff_of_true (List.mem_append_right _ (List.mem_singleton_self t)) rfl)
          (fun sd hsd => iff_of_false (fun he => hsd (Option.some.inj he).symm)
            (fun he => (by rw [hsl] at he; cases he)))
        · refine List.nodup_append.mpr ⟨h.lists.nodup side, List.nodup_singleton t, ?_⟩
          rintro a ha b hb rfl
          rw [List.mem_singleton.mp hb] at ha
          exact hnot ha
        · rw [List.mem_append, List.mem_singleton]
          exact or_iff_left hu
      · rw [hcomes] at he
        cases he

/-- The time of a wait is over. -/
theorem RwInv.timeout (h : RwInv s) (hpc : s.pc t = .suspended side timed) :
    RwInv ((s.setCond side { s.cond side with
      suspendThread := (s.cond side).suspendThread.erase t }).goto t
        (.relock side timed false)) := by
  have hsl : (s.pc t).sleeps = some side := by rw [hpc]; rfl
  have hwaits : (s.pc t).waits = some side := by rw [hpc]; rfl
  have hcomes : (s.pc t).comes = none := by rw [hpc]; rfl
  have hnd := h.lists.nodup side
  refine ⟨Holds.goto (s := s.setCond side _) ⟨h.holds.holders, h.holds.unlocks⟩ fun hp => ?_, ?_,
    Counts.goto (s := s.setCond side _) h.counts hwaits.symm,
    h.wakens.setCond rfl (fun _ he => (by cases he)) (fun _ he => ?_)⟩
  · rcases hp with hp | hp <;> cases hp
  · refine h.lists.setCond ⟨fun hpos => ?_, (h.lists.good side).small⟩ (hnd.erase t)
      (fun u hu => List.mem_erase_of_ne hu)
      (iff_of_false (fun hm => (hnd.mem_erase_iff.mp hm).1 rfl) (fun hp => (by cases hp)))
      (fun sd hsd => iff_of_false (fun he => (by cases he)) fun he => ?_)
    · show (s.cond side).suspendThread.erase t = []
      rw [(h.lists.good side).empty hpos, List.erase_nil]
    · rw [hsl] at he
      exact hsd (Option.some.inj he).symm
  · rw [hcomes] at he
    cases he

/-! ## Resumed threads -/

section Resume

variable {r : CondSem × List Nat}

theorem resume_pc (hl : Lists s)
    (hr : (s.cond side).suspendThread = r.2 ++ r.1.suspendThread) (u : Nat) :
    (s.resume side r).pc u = s.pc u ∧ u ∉ r.2 ∨
      u ∈ r.2 ∧ ∃ timed, s.pc u = .suspended side timed ∧
        (s.resume side r).pc u = .relock side timed true := by
  by_cases hu : u ∈ r.2
  · refine Or.inr ⟨hu, ?_⟩
    have hm : u ∈ (s.cond side).suspendThread := by
      rw [hr]
      exact List.mem_append_left _ hu
    obtain ⟨timed, hp⟩ := RwPc.sleeps_eq ((hl.mem side u).mp hm)
    refine ⟨timed, hp, ?_⟩
    show (if u ∈ r.2 then (s.pc u).woken else s.pc u) = _
    rw [if_pos hu, hp]
    rfl
  · exact Or.inl ⟨if_neg hu, hu⟩

theorem resume_holds (h : Holds (s.goto t p)) (hl : Lists s)
    (hr : (s.cond side).suspendThread = r.2 ++ r.1.suspendThread) :
    Holds ((s.resume side r).goto t p) := by
  refine ⟨h.holders, fun u hu => h.unlocks u ?_⟩
  rcases eq_or_ne u t with rfl | hut
  · rw [pc_goto_self] at hu ⊢
    exact hu
  · rw [pc_goto_of_ne hut] at hu ⊢
    rcases resume_pc hl hr u with ⟨hp, -⟩ | ⟨-, timed, -, hp⟩
    · rw [hp] at hu
      exact hu
    · rw [hp] at hu
      rcases hu with hu | hu <;> cases hu

theorem resume_lists (hl : Lists s) (hg : r.1.Good)
    (hr : (s.cond side).suspendThread = r.2 ++ r.1.suspendThread) : Lists (s.resume side r) := by
  have hnd := hl.nodup side
  rw [hr, List.nodup_append] at hnd
  refine ⟨fun sd => ?_, fun sd => ?_, fun sd u => ?_⟩
  · show (Function.update s.cond side r.1 sd).Good
    rcases eq_or_ne sd side with rfl | hsd
    · rw [Function.update_self]
      exact hg
    · rw [Function.update_of_ne hsd]
      exact hl.good sd
  · show (Function.update s.cond side r.1 sd).suspendThread.Nodup
    rcases eq_or_ne sd side with rfl | hsd
    · rw [Function.update_self]
      exact hnd.2.1
    · rw [Function.update_of_ne hsd]
      exact hl.nodup sd
  · show u ∈ (Function.update s.cond side r.1 sd).suspendThread ↔ _
    rcases resume_pc hl hr u with ⟨hp, hu⟩ | ⟨hu, timed, hsu, hp⟩
    · rw [hp, ← hl.mem]
      rcases eq_or_ne sd side with rfl | hsd
      · rw [Function.update_self, hr, List.mem_append]
        exact (or_iff_right hu).symm
      · rw [Function.update_of_ne hsd]
    · rw [hp]
      refine iff_of_false (fun hm => ?_) (fun he => (by cases he))
      rcases eq_or_ne sd side with rfl | hsd
      · rw [Function.update_self] at hm
        exact hnd.2.2 u hu u hm rfl
      · rw [Function.update_of_ne hsd, hl.mem, hsu] at hm
        exact hsd (Option.some.inj hm).symm

theorem resume_counts (hc : Counts s) (hl : Lists s)
    (hr : (s.cond side).suspendThread = r.2 ++ r.1.suspendThread) : Counts (s.resume side r) := by
  refine fun sd => (hc sd).congr fun u => ?_
  rcases resume_pc hl hr u with ⟨hp, -⟩ | ⟨-, timed, hsu, hp⟩
  · rw [hp]
  · rw [hp, hsu]
    rfl

end Resume

theorem release_split (c : CondSem) (hg : c.Good) :
    c.suspendThread = c.release.2 ++ c.release.1.suspendThread ∧ c.release.1.Good := by
  have hsmall := hg.small
  cases hts : c.suspendThread with
  | nil =>
    have hrel : c.release = ({ c with value := (c.value + 1) % 65536 }, []) := by
      simp only [CondSem.release, hts]
    rw [hrel]
    exact ⟨hts.symm, fun _ => hts, Nat.mod_lt _ (by decide)⟩
  | cons u ts =>
    have hrel : c.release = ({ c with suspendThread := ts }, [u]) := by
      rw [CondSem.release, hts]
    rw [hrel]
    refine ⟨rfl, fun hpos => ?_, hsmall⟩
    have hnil := hg.empty hpos
    rw [hts] at hnil
    cases hnil

/-! ## The unlock -/

/-- A holder gives its lock back. -/
theorem drop_spec (h : Holds s) (hpc : s.pc t = .body .unlock) :
    Holds ((s.drop t).goto t .leaving) ∧ (s.drop t).pc = s.pc ∧ (s.drop t).cond = s.cond ∧
      (s.drop t).nwait = s.nwait ∧
      ((s.drop t).refcount = 0 → s.refcount = 1 ∨ s.refcount = -1) := by
  have hmine := h.unlocks t (Or.inr hpc)
  rcases h.holders with ⟨hcount, hwr⟩ | ⟨hcount, hrd, w, hwr⟩
  · have ht : t ∈ s.rd := hmine.resolve_right (by rw [hwr]; exact List.not_mem_nil)
    have hpos : 0 < s.rd.length := List.length_pos_of_mem ht
    have hdrop : s.drop t = { s with refcount := s.refcount - 1, rd := s.rd.erase t } :=
      if_pos (by omega)
    rw [hdrop]
    refine ⟨⟨Or.inl ⟨?_, hwr⟩, fun u hu => ?_⟩, rfl, rfl, rfl, fun h0 => Or.inl ?_⟩
    · show s.refcount - 1 = ((s.rd.erase t).length : Int)
      rw [List.length_erase_of_mem ht]
      omega
    · rcases eq_or_ne u t with rfl | hut
      · rw [pc_goto_self] at hu
        rcases hu with hu | hu <;> cases hu
      · rw [pc_goto_of_ne hut] at hu
        exact (h.unlocks u hu).imp_left (List.mem_erase_of_ne hut).mpr
    · have h0' : s.refcount - 1 = 0 := h0
      omega
  · have ht : t = w := by
      rw [hrd, hwr] at hmine
      exact List.mem_singleton.mp (hmine.resolve_left List.not_mem_nil)
    subst ht
    have hdrop : s.drop t = { s with refcount := 0, wr := s.wr.erase t } := by
      rw [drop, if_neg (by omega), if_pos hcount]
    rw [hdrop]
    refine ⟨⟨Or.inl ⟨?_, ?_⟩, fun u hu => ?_⟩, rfl, rfl, rfl, fun _ => Or.inr hcount⟩
    · show (0 : Int) = s.rd.length
      rw [hrd]
      rfl
    · show s.wr.erase t = []
      rw [hwr, List.erase_cons_head]
    · rcases eq_or_ne u t with rfl | hut
      · rw [pc_goto_self] at hu
        rcases hu with hu | hu <;> cases hu
      · rw [pc_goto_of_ne hut] at hu
        have hm := h.unlocks u hu
        rw [hrd, hwr] at hm
        exact absurd (List.mem_singleton.mp (hm.resolve_left List.not_mem_nil)) hut

/-- A release for the writers that wait: one of them is woken, or there is a token. -/
theorem release_wakens (hl : Lists s) (hn : 0 < s.nwait .writer)
    (hroom : (s.cond .writer).value < 65535) :
    Wakens (s.resume .writer (s.cond .writer).release) := by
  refine ⟨fun _ _ => ?_, fun _ _ => Or.inl hn⟩
  cases hts : (s.cond .writer).suspendThread with
  | nil =>
    refine Or.inr ?_
    have hrel : (s.cond .writer).release =
        ({ s.cond .writer with value := ((s.cond .writer).value + 1) % 65536 }, []) := by
      simp only [CondSem.release, hts]
    rw [hrel]
    show 0 < ((s.cond .writer).value + 1) % 65536
    omega
  | cons u ts =>
    have hrel : (s.cond .writer).release = ({ s.cond .writer with suspendThread := ts }, [u]) := by
      rw [CondSem.release, hts]
    have hsplit := (release_split _ (hl.good .writer)).1
    have hu : u ∈ (s.cond .writer).release.2 := by
      rw [hrel]
      exact List.mem_singleton_self u
    rcases resume_pc hl hsplit u with ⟨-, hnot⟩ | ⟨-, timed, -, hp⟩
    · exact absurd hu hnot
    · exact Or.inl ⟨u, by rw [hp]; rfl⟩

/-- With the threads resumed, the one that unlocks is done. -/
theorem unlocked_inv {r : CondSem × List Nat} (hh : Holds (s.goto t .leaving)) (hl : Lists s)
    (hc : Counts s) (hpc : s.pc t = .body .unlock) (hg : r.1.Good)
    (hr : (s.cond side).suspendThread = r.2 ++ r.1.suspendThread)
    (hw : Wakens (s.resume side r)) : RwInv ((s.resume side r).goto t .leaving) := by
  have hpc' : (s.resume side r).pc t = .body .unlock := by
    rcases resume_pc hl hr t with ⟨hp, -⟩ | ⟨-, timed, hsu, -⟩
    · rw [hp, hpc]
    · rw [hpc] at hsu
      cases hsu
  refine ⟨resume_holds hh hl hr, (resume_lists hl hg hr).goto ?_,
    (resume_counts hc hl hr).goto ?_, hw.goto (fun _ he => (by cases he)) fun _ he => ?_⟩
  · rw [hpc']
    rfl
  · rw [hpc']
    rfl
  · rw [hpc'] at he
    cases he

theorem RwInv.unlock (h : RwInv s) (hpc : s.pc t = .body .unlock)
    (hroom : s.refcount = 1 ∨ s.refcount = -1 → s.nwait .writer > 0 → (s.cond .writer).value < 65535)
    (hs : s.body t .unlock = some s') : RwInv s' := by
  obtain ⟨hh, hdpc, hdcond, hdn, hd0⟩ := drop_spec h.holds hpc
  obtain ⟨s2, hw, rfl⟩ := Option.map_eq_some_iff.mp hs
  have hroom' : (s.drop t).refcount = 0 → (s.drop t).nwait .writer > 0 →
      ((s.drop t).cond .writer).value < 65535 := by
    rw [hdn, hdcond]
    exact fun h0 => hroom (hd0 h0)
  have hl : Lists (s.drop t) := by
    refine ⟨fun sd => ?_, fun sd => ?_, fun sd u => ?_⟩
    · rw [hdcond]
      exact h.lists.good sd
    · rw [hdcond]
      exact h.lists.nodup sd
    · rw [hdcond, hdpc]
      exact h.lists.mem sd u
  have hc : Counts (s.drop t) := by
    intro sd
    rw [hdpc, hdn]
    exact h.counts sd
  rw [← hdpc] at hpc
  generalize s.drop t = d at *
  have hquiet : Wakens d → RwInv (d.goto t .leaving) := by
    refine fun hwk => ⟨hh, hl.goto ?_, hc.goto ?_,
      hwk.goto (fun _ he => (by cases he)) fun _ he => ?_⟩
    · rw [hpc]
      rfl
    · rw [hpc]
      rfl
    · rw [hpc] at he
      cases he
  have hnoone : ∀ sd, ¬ 0 < d.nwait sd → ¬ Queued d sd := by
    rintro sd hn ⟨u, hu⟩
    exact hn ((hc sd).pos_iff.mpr ⟨u, RwPc.queued_waits hu⟩)
  simp only [wakeUp] at hw
  split at hw
  · next hn =>
    split at hw <;> cases hw
    · next h0 =>
      obtain ⟨hsplit, hg⟩ := release_split _ (hl.good .writer)
      exact unlocked_inv hh hl hc hpc hg hsplit (release_wakens hl hn (hroom' h0 hn))
    · next h0 => exact hquiet (.of_held h0)
  · next hn =>
    split at hw
    · rw [CondSem.broadcast_eq (hl.good .reader)] at hw
      cases hw
      have hsmall := (hl.good .reader).small
      refine unlocked_inv hh hl hc hpc ⟨fun _ => rfl, ?_⟩ (List.append_nil _).symm
        ⟨fun _ hq => ?_, fun _ _ => Or.inr (Or.inr ?_)⟩
      · show max (d.cond .reader).value 1 < 65536
        omega
      · refine absurd ?_ (hnoone .writer hn)
        obtain ⟨u, hu⟩ := hq
        have hpcs := @resume_pc d .reader
          (⟨max (d.cond .reader).value 1, []⟩, (d.cond .reader).suspendThread) hl
          (List.append_nil _).symm u
        rcases hpcs with ⟨hp, -⟩ | ⟨-, timed, -, hp⟩
        · exact ⟨u, by rw [← hp]; exact hu⟩
        · rw [hp] at hu
          cases hu
      · show 0 < max (d.cond .reader).value 1
        omega
    · next hr =>
      cases hw
      exact hquiet ⟨fun _ hq => absurd hq (hnoone .writer hn),
        fun _ hq => absurd hq (hnoone .reader hr)⟩

/-! ## The steps -/

theorem setWait_back (h : 0 < s.nwait side) :
    (s.setWait side (s.nwait side - 1)).setWait side
      ((s.setWait side (s.nwait side - 1)).nwait side + 1) = s := by
  have hn : Function.update (Function.update s.nwait side (s.nwait side - 1)) side
      (Function.update s.nwait side (s.nwait side - 1) side + 1) = s.nwait := by
    rw [Function.update_self, Function.update_idem, Nat.sub_add_cancel h, Function.update_eq_self]
  exact congrArg (fun n => { s with nwait := n }) hn

/-- Behind `pthread_cond_wait`. -/
theorem RwInv.again (h : RwInv s) (hpc : s.pc t = .again side timed ok)
    (hgives : side = .writer → ok = false → s.refcount = 0 → s.nwait .writer = 1 → s.nwait .reader = 0 ∨ Comes s .reader ∨ 0 < (s.cond .reader).value)
    (hs : s.again t side timed ok = some s') : RwInv s' := by
  have hsl : (s.pc t).sleeps = none := by rw [hpc]; rfl
  have hwaits : (s.pc t).waits = some side := by rw [hpc]; rfl
  have hpos : 0 < s.nwait side := (h.counts side).pos_iff.mpr ⟨t, hwaits⟩
  have hh : Holds (s.setWait side (s.nwait side - 1)) := ⟨h.holds.holders, h.holds.unlocks⟩
  have hl : Lists (s.setWait side (s.nwait side - 1)) := ⟨h.lists.good, h.lists.nodup, h.lists.mem⟩
  have hleave := h.counts.leave hwaits (show RwPc.leaving.waits = none from rfl)
  cases ok with
  | true =>
    simp only [RwSys.again, if_true] at hs
    refine loopTest_inv hh hl hsl (fun sd hc => ?_) hleave ?_ (fun h0 hq => ?_) hs
    · have hc' : (s.pc t).comes = some sd := hc
      rw [hpc] at hc'
      exact (Option.some.inj hc').symm
    · rw [setWait_back hpos]
      exact h.counts.goto hwaits.symm
    · exact h.wakens.writer h0 hq
  | false =>
    simp only [RwSys.again, Bool.false_eq_true, if_false] at hs
    cases hs
    have hcomes : (s.pc t).comes = none := by rw [hpc]; rfl
    refine ⟨hh.goto fun hp => ?_, hl.goto hsl.symm, hleave, Wakens.goto ⟨h.wakens.writer, ?_⟩
      (fun _ he => (by cases he)) (fun _ he => ?_)⟩
    · rcases hp with hp | hp <;> cases hp
    · intro h0 hq
      cases side with
      | reader => exact h.wakens.reader h0 hq
      | writer =>
        rcases Nat.lt_or_ge 1 (s.nwait .writer) with hmore | hle
        · refine Or.inl ?_
          show 0 < Function.update s.nwait .writer (s.nwait .writer - 1) .writer
          rw [Function.update_self]
          exact Nat.sub_pos_of_lt hmore
        · rcases hgives rfl rfl h0 (by omega) with hnone | hc
          · obtain ⟨u, hu⟩ := hq
            have hread := (h.counts .reader).pos_iff.mpr ⟨u, RwPc.queued_waits hu⟩
            omega
          · exact Or.inr hc
    · have he' : (s.pc t).comes = some _ := he
      rw [hcomes] at he'
      cases he'

theorem RwInv.body (h : RwInv s) {op : RwOp} (hpc : s.pc t = .body op)
    (hroom : op = .unlock → s.refcount = 1 ∨ s.refcount = -1 → s.nwait .writer > 0 → (s.cond .writer).value < 65535)
    (hs : s.body t op = some s') : RwInv s' := by
  have hsl : (s.pc t).sleeps = none := by rw [hpc]; rfl
  have hwaits : (s.pc t).waits = none := by rw [hpc]; rfl
  have hcomes : (s.pc t).comes = none := by rw [hpc]; rfl
  cases op with
  | lock side timed =>
    refine loopTest_inv h.holds h.lists hsl (fun sd hc => ?_) (h.counts.goto hwaits.symm)
      (h.counts.enter hwaits rfl) h.wakens.writer hs
    rw [hcomes] at hc
    cases hc
  | trylock side =>
    simp only [RwSys.body] at hs
    split at hs
    · next hmay =>
      obtain ⟨s1, ha, rfl⟩ := Option.map_eq_some_iff.mp hs
      exact acquired_inv h.holds h.lists hsl (h.counts.goto hwaits.symm) hmay ha
    · cases hs
      refine ⟨h.holds.goto fun hp => ?_, h.lists.goto hsl.symm, h.counts.goto hwaits.symm,
        h.wakens.goto (fun _ he => (by cases he)) (fun _ he => ?_)⟩
      · rcases hp with hp | hp <;> cases hp
      · rw [hcomes] at he
        cases he
  | unlock => exact h.unlock hpc (hroom rfl) hs

/-- A thread goes on, and nothing but the owner of `rw_mutex` changes besides. -/
theorem RwInv.moves (h : RwInv s) {owner : Option Nat} {p0 : RwPc} (hpc : s.pc t = p0)
    (hview : (p.sleeps, p.waits, p.queued, p.comes) = (p0.sleeps, p0.waits, p0.queued, p0.comes))
    (hun : p = .entering .unlock ∨ p = .body .unlock → t ∈ s.rd ∨ t ∈ s.wr) :
    RwInv ({ s with owner := owner }.goto t p) := by
  subst hpc
  simp only [Prod.mk.injEq] at hview
  obtain ⟨hsl, hwaits, hqu, hcomes⟩ := hview
  have hh : Holds { s with owner := owner } := ⟨h.holds.holders, h.holds.unlocks⟩
  have hl : Lists { s with owner := owner } := ⟨h.lists.good, h.lists.nodup, h.lists.mem⟩
  have hc : Counts { s with owner := owner } := h.counts
  have hw : Wakens { s with owner := owner } := ⟨h.wakens.writer, h.wakens.reader⟩
  refine ⟨hh.goto hun, hl.goto hsl, hc.goto hwaits, hw.goto (fun sd he => ?_) (fun sd he => ?_)⟩
  · rw [hqu] at he
    exact he
  · rw [hcomes]
    exact he

theorem RwInv.step (h : RwInv s) (hc : Passes s act) (hs : rwStep s act = some s') : RwInv s' := by
  cases act with
  | call t op =>
    simp only [rwStep] at hs
    split at hs
    · next hcall =>
      cases hs
      obtain ⟨hpc, hun⟩ := hcall
      refine RwInv.moves h hpc rfl fun hp => ?_
      rcases hp with hp | hp
      · injection hp with hp
        exact hun hp
      · cases hp
    · cases hs
  | goOn t late =>
    simp only [rwStep, RwSys.goOn] at hs
    split at hs
    · cases hs
    · next op hpc =>
      split at hs <;> cases hs
      refine h.moves hpc rfl fun hp => h.holds.unlocks t ?_
      rcases hp with hp | hp
      · cases hp
      · injection hp with hp
        rw [hpc, hp]
        exact Or.inl rfl
    · next op hpc =>
      refine h.body hpc (fun hop => ?_) hs
      rw [hop] at hpc
      exact hc.room t late rfl hpc
    · next side timed hpc =>
      cases hs
      refine h.moves hpc rfl fun hp => ?_
      rcases hp with hp | hp <;> cases hp
    · next side timed hpc =>
      cases hs
      exact h.take hpc
    · cases hs
    · next side timed ok hpc =>
      split at hs <;> cases hs
      refine h.moves hpc ?_ fun hp => ?_
      · cases ok <;> rfl
      · rcases hp with hp | hp <;> cases hp
    · next side timed ok hpc =>
      refine h.again hpc (fun hside hok => ?_) hs
      rw [hside, hok] at hpc
      exact hc.gives t late timed rfl hpc
    · next hpc =>
      cases hs
      refine h.moves hpc rfl fun hp => ?_
      rcases hp with hp | hp <;> cases hp
  | timeout t =>
    simp only [rwStep] at hs
    split at hs
    · next side hpc =>
      cases hs
      exact h.timeout hpc
    · cases hs

theorem rwInit_inv : RwInv rwInit where
  holds := ⟨Or.inl ⟨rfl, rfl⟩, fun t hp => (by rcases hp with hp | hp <;> cases hp)⟩
  lists := ⟨fun _ => ⟨fun _ => rfl, Nat.succ_pos 65535⟩, fun _ => List.nodup_nil,
    fun _ _ => iff_of_false List.not_mem_nil fun he => (by cases he)⟩
  counts := fun _ => Count.zero fun _ he => (by cases he)
  wakens := ⟨fun _ ⟨_, hq⟩ => (by cases hq), fun _ ⟨_, hq⟩ => (by cases hq)⟩

/-- Where every other thread sleeps or is in code of its own, nobody sleeps at a free lock. -/
theorem RwInv.works (h : RwInv s) : Works s := by
  refine ⟨h.holds.holders, fun ⟨h0, ⟨t, side, hsl⟩, hrest⟩ => ?_⟩
  have hnone : ∀ sd, ¬ Comes s sd := by
    rintro sd ⟨u, hu⟩
    rcases hrest u with hp | ⟨sd', hp⟩
    · rw [hp] at hu
      cases hu
    · obtain ⟨timed, hp'⟩ := RwPc.sleeps_eq hp
      rw [hp'] at hu
      cases hu
  have hempty : ∀ sd u, (s.pc u).sleeps = some sd → ¬ 0 < (s.cond sd).value := by
    intro sd u hu hpos
    have hm := (h.lists.mem sd u).mpr hu
    rw [(h.lists.good sd).empty hpos] at hm
    exact List.not_mem_nil hm
  have hwriter : ∀ u, (s.pc u).sleeps ≠ some .writer := by
    intro u hu
    rcases h.wakens.writer h0 ⟨u, RwPc.sleeps_queued hu⟩ with hc | hv
    · exact hnone _ hc
    · exact hempty _ u hu hv
  cases side with
  | writer => exact hwriter t hsl
  | reader =>
    rcases h.wakens.reader h0 ⟨t, RwPc.sleeps_queued hsl⟩ with hn | hc | hv
    · obtain ⟨u, hu⟩ := (h.counts .writer).pos_iff.mp hn
      rcases hrest u with hp | ⟨sd, hp⟩
      · rw [hp] at hu
        cases hu
      · have hwaits := RwPc.queued_waits (RwPc.sleeps_queued hp)
        rw [hu] at hwaits
        obtain rfl := Option.some.inj hwaits
        exact hwriter u hp
    · exact hnone _ hc
    · exact hempty _ t hsl hv

/-- **When a read-write lock works.** In every run in which the last waiting writer does not give up
a free lock that readers wait for, and no release of an unlock overflows: a writer holds the lock
alone, `rw_refcount` counts the holders, and nobody is left suspended at a free lock. -/
theorem rwlock_works (acts : List RwAct) (s : RwSys) (hx : exec rwStep rwInit acts = some s)
    (hc : Along rwStep Passes rwInit acts) : Works s :=
  (Along.inv (I := RwInv) (fun _ _ _ h hr hs => h.step hr hs) hc hx rwInit_inv).works

/-! ## Two runs -/

/-- The thread 0 has the lock, and the thread 1 waits to read. -/
def writerHolds : List RwAct :=
  [.call 0 (.lock .writer false), .goOn 0 false, .goOn 0 false, .goOn 0 false,
    .call 1 (.lock .reader false), .goOn 1 false, .goOn 1 false, .goOn 1 false, .goOn 1 false]

/-- A second writer comes, and its time is over before the thread 0 unlocks. -/
def givesUpInTime : List RwAct :=
  writerHolds ++ [.call 2 (.lock .writer true), .goOn 2 false, .goOn 2 false, .goOn 2 false,
    .goOn 2 true, .goOn 2 false, .goOn 2 false, .goOn 2 false, .call 0 .unlock, .goOn 0 false,
    .goOn 0 false, .goOn 0 false, .goOn 1 false, .goOn 1 false, .goOn 1 false]

/-- The writer gives up at a lock that is held. -/
def Held (s : RwSys) : RwAct → Prop
  | .goOn t _ => (s.refcount ≠ 0 ∨ ∀ timed, s.pc t ≠ .again .writer timed false) ∧
    (s.cond .writer).value < 65535
  | _ => True

instance (s : RwSys) : (act : RwAct) → Decidable (Held s act)
  | .goOn _ _ => inferInstanceAs (Decidable ((_ ∨ _) ∧ _))
  | .call _ _ => inferInstanceAs (Decidable True)
  | .timeout _ => inferInstanceAs (Decidable True)

theorem Held.passes (h : Held s act) : Passes s act := by
  constructor
  · rintro t late timed rfl hpc h0
    rcases h.1 with href | hno
    · exact absurd h0 href
    · exact absurd hpc (hno timed)
  · rintro t late rfl _ _ _
    exact h.2

theorem rwlock_works_inTime : ∃ s, exec rwStep rwInit givesUpInTime = some s ∧ s.rd = [1] ∧
    s.refcount = 1 ∧ Works s := by
  have hx : (exec rwStep rwInit givesUpInTime).map (fun s => (s.rd, s.refcount)) =
      some ([1], 1) := by decide +kernel
  obtain ⟨s, hs, he⟩ := Option.map_eq_some_iff.mp hx
  obtain ⟨hrd, href⟩ := Prod.mk.inj he
  have hheld : Along rwStep Held rwInit givesUpInTime := by decide +kernel
  exact ⟨s, hs, hrd, href,
    rwlock_works givesUpInTime s hs (hheld.mono fun _ _ h => h.passes)⟩

/-- The thread of an action. -/
def RwAct.thread : RwAct → Nat
  | .call t _ => t
  | .goOn t _ => t
  | .timeout t => t

theorem loopTest_pc (h : s.loopTest t side timed = some s') (hu : u ≠ t) : s'.pc u = s.pc u := by
  simp only [RwSys.loopTest] at h
  split at h
  · obtain ⟨s1, ha, rfl⟩ := Option.map_eq_some_iff.mp h
    rw [pc_goto_of_ne hu]
    cases side with
    | reader =>
      simp only [acquire] at ha
      split at ha <;> cases ha
      rfl
    | writer =>
      cases ha
      rfl
  · cases h
    exact pc_goto_of_ne hu

theorem wakeUp_pc (h : s.wakeUp = some s') (hu : s.pc u = .user) : s'.pc u = .user := by
  have hresume : ∀ sd r, (s.resume sd r).pc u = .user := by
    intro sd r
    show (if u ∈ r.2 then (s.pc u).woken else s.pc u) = _
    rw [hu]
    split <;> rfl
  simp only [wakeUp] at h
  split at h
  · split at h <;> cases h
    · exact hresume _ _
    · exact hu
  · split at h
    · obtain ⟨r, -, rfl⟩ := Option.map_eq_some_iff.mp h
      exact hresume _ _
    · cases h
      exact hu

theorem drop_pc (s : RwSys) (t : Nat) : (s.drop t).pc = s.pc := by
  unfold drop
  split
  · rfl
  · split <;> rfl

/-- A thread that makes no step stays in code of its own. -/
theorem rwStep_pc (h : rwStep s act = some s') (hu : u ≠ act.thread) (hpc : s.pc u = .user) :
    s'.pc u = .user := by
  cases act with
  | call _ _ | timeout _ =>
    simp only [rwStep] at h
    split at h <;> cases h
    exact (pc_goto_of_ne hu).trans hpc
  | goOn t late =>
    have hut : u ≠ t := hu
    simp only [rwStep, RwSys.goOn] at h
    split at h
    · cases h
    · split at h <;> cases h
      exact (pc_goto_of_ne hut).trans hpc
    · next op _ =>
      cases op with
      | lock side timed => exact (loopTest_pc h hut).trans hpc
      | trylock side =>
        simp only [RwSys.body] at h
        split at h
        · next hmay =>
          have htest : s.loopTest t side false = some s' := (if_pos hmay).trans h
          exact (loopTest_pc htest hut).trans hpc
        · cases h
          exact (pc_goto_of_ne hut).trans hpc
      | unlock =>
        obtain ⟨s1, hw, rfl⟩ := Option.map_eq_some_iff.mp h
        rw [pc_goto_of_ne hut]
        exact wakeUp_pc hw (by rw [drop_pc]; exact hpc)
    · cases h
      exact (pc_goto_of_ne hut).trans hpc
    · cases h
      simp only [RwSys.take]
      split
      · exact (pc_goto_of_ne hut).trans hpc
      · split <;> exact (pc_goto_of_ne hut).trans hpc
    · cases h
    · split at h <;> cases h
      exact (pc_goto_of_ne hut).trans hpc
    · simp only [RwSys.again] at h
      split at h
      · exact (loopTest_pc h hut).trans hpc
      · cases h
        exact (pc_goto_of_ne hut).trans hpc
    · cases h
      exact (pc_goto_of_ne hut).trans hpc

theorem exec_pc {acts : List RwAct} (h : exec rwStep s acts = some s')
    (hu : ∀ act ∈ acts, u ≠ act.thread) (hpc : s.pc u = .user) : s'.pc u = .user := by
  induction acts generalizing s with
  | nil =>
    cases h
    exact hpc
  | cons act acts ih =>
    obtain ⟨s1, hs, hx⟩ := exec_cons_some h
    exact ih hx (fun a ha => hu a (List.mem_cons_of_mem _ ha))
      (rwStep_pc hs (hu act List.mem_cons_self) hpc)

/-- The time of the second writer is over before the thread 0 unlocks, and it gives up behind. -/
def givesUpLate : List RwAct :=
  writerHolds ++ [.call 2 (.lock .writer true), .goOn 2 false, .goOn 2 false, .goOn 2 false,
    .goOn 2 false, .timeout 2, .call 0 .unlock, .goOn 0 false, .goOn 0 false, .goOn 0 false,
    .goOn 2 false, .goOn 2 false, .goOn 2 false]

/-- Nobody holds the lock, and the reader is left suspended. -/
theorem givesUpLate_stranded : ∃ s, exec rwStep rwInit givesUpLate = some s ∧ ¬ Works s := by
  have hx : (exec rwStep rwInit givesUpLate).map
      (fun s => (s.refcount, s.pc 0, s.pc 1, s.pc 2)) =
        some (0, .user, .suspended .reader false, .user) := by decide +kernel
  obtain ⟨s, hs, he⟩ := Option.map_eq_some_iff.mp hx
  simp only [Prod.mk.injEq] at he
  obtain ⟨href, h0, h1, h2⟩ := he
  refine ⟨s, hs, fun hw => hw.woken ⟨href, ⟨1, .reader, by rw [h1]; rfl⟩, fun t => ?_⟩⟩
  by_cases ht : t < 3
  · interval_cases t
    · exact Or.inl h0
    · exact Or.inr ⟨.reader, by rw [h1]; rfl⟩
    · exact Or.inl h2
  · refine Or.inl (exec_pc hs (fun act hact => ?_) rfl)
    have hlt : ∀ a ∈ givesUpLate, a.thread < 3 := by decide
    have hthread := hlt act hact
    omega

end Tudu.Pthread
