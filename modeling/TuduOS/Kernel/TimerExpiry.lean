import TuduOS.Kernel.TimerOrder

/-!
# The expiry of the timers

`rt_timer_check` as one call, with timeout functions that leave the timers alone.

* `due`: the timers of the hard list whose timeout is at or before the current tick.
* `fireFirst`: one iteration of the loop. The first due timer is called; a periodic one is linked
  again behind all that are due.
* `rt_timer_check_spec`: the call ends, with every due timer called once in the order of the
  timeouts, if the periodic ones have an `init_tick` that is not 0 and within the range of the
  comparison.
* `check_never_ends`: a due periodic timer of no ticks.
-/

namespace Tudu.Timer

open Lts

variable {n : Nat} {level : Nat} {s s' : State n} {t u x : Fin n} {ds : List (Fin n)}

/-- The timer whose timeout function is called. -/
def Check.timers : Check n → List (Fin n)
  | .callback t => [t]
  | _ => []

/-- The loop of `rt_timer_check`, with the timers whose timeout function is called. -/
def checkLoop (level : Nat) : Nat → State n → Option (State n × List (Fin n))
  | 0, _ => none
  | fuel + 1, s =>
    match checkFire level s with
    | none => (checkLeave level s).map fun s' => (s', [])
    | some s1 =>
      match checkReturn level s1 with
      | none => none
      | some s2 => (checkLoop level fuel s2).map fun r => (r.1, s1.check.timers ++ r.2)

def rtTimerCheck (level fuel : Nat) (s : State n) : Option (State n × List (Fin n)) :=
  match step level s .checkEnter with
  | none => none
  | some s' => checkLoop level fuel s'

/-- The timers of the hard list whose timeout is at or before the current tick. -/
def due (level : Nat) (s : State n) : List (Fin n) :=
  (lastRow level s .hard).filter fun t => decide (Due s s.tick t)

theorem mem_due : t ∈ due level s ↔ t ∈ lastRow level s .hard ∧ Due s s.tick t := by
  rw [due, List.mem_filter, decide_eq_true_iff]

/-- The periodic timers that are due are within the range of the comparison. -/
def DueRoom (level : Nat) (s : State n) : Prop :=
  ∀ t, t ∈ due level s → (s.timer t).periodic = true →
    (s.timer t).initTick < rtTickMaxHalf ∧
      ∀ u, [t, u].Sublist (due level s) → ((s.timer t).initTick.toNat : Int) - ahead s u ≤ 0x80000001

instance (s : State n) : Decidable (DueRoom level s) :=
  inferInstanceAs (Decidable (∀ _, _))

/-- What holds at the beginning of each iteration. -/
structure Scanning (level : Nat) (s : State n) : Prop where
  order : OrderInv level s
  flag : ∀ t, t ∈ lastRow level s .hard → (s.timer t).activated = true
  room : DueRoom level s
  check : s.check = .scan s.tick

theorem ahead_of_due (h : t ∈ due level s) : ahead s t ≤ 0 :=
  ((due_iff s t).mp (mem_due.mp h).2).2

/-- The first timer of the list is due if any is. -/
theorem due_cons (h : OrderInv level s) (hd : due level s = x :: ds) :
    ∃ l, lastRow level s .hard = x :: l ∧ ds = l.filter fun t => decide (Due s s.tick t) := by
  have hs := h.sorted .hard
  have hx : x ∈ due level s := by
    rw [hd]
    exact List.mem_cons_self
  have hxa := ahead_of_due hx
  cases hr : lastRow level s .hard with
  | nil =>
    rw [due, hr] at hd
    cases hd
  | cons y l =>
    rw [hr] at hs
    have hyr := h.range .hard y (by rw [hr]; exact List.mem_cons_self)
    have hy : Due s s.tick y := by
      refine (due_iff s y).mpr ⟨hyr.1, ?_⟩
      have hxl := (mem_due.mp hx).1
      rw [hr] at hxl
      rcases List.mem_cons.mp hxl with rfl | hxl
      · exact hxa
      · have hb := (List.pairwise_cons.mp hs).1 x hxl
        unfold Before at hb
        omega
    rw [due, hr, List.filter_cons_of_pos (by simpa using hy)] at hd
    obtain ⟨rfl, hds⟩ := List.cons.inj hd
    exact ⟨l, rfl, hds.symm⟩

/-- What an iteration leaves of the timers. -/
structure Fired (level : Nat) (s : State n) (x : Fin n) (ds : List (Fin n)) (s' : State n) :
    Prop where
  scanning : Scanning level s'
  tick : s'.tick = s.tick
  timer : ∀ u, s'.timer u = if u = x then
    (if (s.timer x).periodic then { s.timer x with
      activated := true, timeoutTick := s.tick + (s.timer x).initTick }
    else { s.timer x with activated := false }) else s.timer u
  mem : ∀ u, u ∈ lastRow level s' .hard ↔
    u ∈ lastRow level s .hard ∧ (u = x → (s.timer x).periodic = true)
  soft : lastRow level s' .soft = lastRow level s .soft
  due : ¬ ((s.timer x).periodic = true ∧ (s.timer x).initTick = 0#32) → due level s' = ds
  keep : ∀ u, u ∈ ds → u ∈ Timer.due level s'
  again : (s.timer x).periodic = true → (s.timer x).initTick = 0#32 → x ∈ Timer.due level s'

/-- The first due timer, taken off the list. -/
theorem fireFirst (hl : 0 < level) (h : Scanning level s) (hd : due level s = x :: ds) :
    ∃ s1 l, checkFire level s = some s1 ∧ s1.check = .callback x ∧ OrderInv level s1 ∧
      lastRow level s .hard = x :: l ∧ x ∉ l ∧ ds = l.filter (fun t => decide (Due s s.tick t)) ∧
      lastRow level s1 .hard = l ∧ lastRow level s1 .soft = lastRow level s .soft ∧
      s1.timer = s.timer ∧ s1.tick = s.tick := by
  obtain ⟨l, hr, hds⟩ := due_cons h.order hd
  have hx : x ∈ due level s := by
    rw [hd]
    exact List.mem_cons_self
  have hn : s.links.next (.head (.hard, level - 1)) = .item (x, level - 1) :=
    h.order.shape.wellFormed.next_mem (l := []) hr
  have hf : checkFire level s =
      some { s with links := rtTimerRemove s.links x level, check := .callback x } := by
    simp only [checkFire, h.check, hn]
    rw [if_pos (mem_due.mp hx).2]
  have hnd := h.order.shape.wellFormed.nodup .hard
  rw [hr] at hnd
  have hxl := (List.nodup_cons.mp hnd).1
  have hrm : ∀ q, lastRow level
      { s with links := rtTimerRemove s.links x level, check := .callback x } q =
      (lastRow level s q).erase x := (h.order.shape.wellFormed.removed rfl).2
  refine ⟨_, l, hf, rfl, ?_, hr, hxl, hds, ?_, ?_, rfl, rfl⟩
  · refine h.order.step hl (a := .checkFire) ⟨?_, ?_, ?_, ?_⟩ hf
    all_goals
      intros
      contradiction
  · rw [hrm, hr, List.erase_cons_head]
  · rw [hrm]
    refine List.erase_of_not_mem fun hm => ?_
    have h1 := h.order.shape.list .soft x hm
    have h2 := h.order.shape.list .hard x (by rw [hr]; exact List.mem_cons_self)
    rw [h1] at h2
    cases h2

/-- A one-shot timer stays off the list. -/
theorem fired_oneShot {s1 : State n} (hl : 0 < level) (h : Scanning level s)
    (hd : due level s = x :: ds) (hf : checkFire level s = some s1)
    (hp : (s.timer x).periodic = false) :
    ∃ s2, checkReturn level s1 = some s2 ∧ Fired level s x ds s2 := by
  obtain ⟨s₁', l, hf', hc, h1, hr, hxl, hds, hr1, hsoft, ht, hk⟩ := fireFirst hl h hd
  rw [hf] at hf'
  obtain rfl := Option.some.inj hf'
  have hdone : timeoutDone level s1 x = some (setActivated s1 x false) := by
    rw [timeoutDone, ht, hp]
    rfl
  have hret : checkReturn level s1 =
      some { setActivated s1 x false with check := .scan s1.tick } := by
    simp only [checkReturn, hc, hdone, Option.map_some]
  have hti : ∀ u, ({ setActivated s1 x false with check := .scan s1.tick } : State n).timer u =
      if u = x then { s.timer x with activated := false } else s.timer u := by
    intro u
    rw [← ht]
    exact setActivated_timer
  generalize hs2 : ({ setActivated s1 x false with check := .scan s1.tick } : State n) = s2
    at hret hti
  have hrow : ∀ q, lastRow level s2 q = lastRow level s1 q := by
    rw [← hs2]
    exact fun _ => rfl
  have hk2 : s2.tick = s.tick := by
    rw [← hs2]
    exact hk
  have hx : ∀ u, u ∈ l → u ≠ x := fun u hu he => hxl (he ▸ hu)
  have hdue : due level s2 = ds := by
    rw [hds, due, hrow, hr1, hk2]
    refine List.filter_congr fun u hu => ?_
    refine decide_eq_decide.mpr ?_
    simp only [Due, hti, if_neg (hx u hu)]
  have hord : OrderInv level s2 := by
    refine h1.step hl (a := .checkReturn) ⟨?_, ?_, fun _ t hct hre => ?_, ?_⟩ hret
    · intros
      contradiction
    · intros
      contradiction
    · rw [hc] at hct
      obtain rfl := Check.callback.inj hct
      rw [Restarts, ht, hp] at hre
      cases hre.1
    · intros
      contradiction
  have hsub : ∀ u, u ∈ ds → u ∈ l := fun u hu => by
    rw [hds] at hu
    exact List.mem_of_mem_filter hu
  refine ⟨s2, hret, ⟨hord, fun u hu => ?_, fun t htd htp => ?_, ?_⟩, hk2, fun u => ?_, fun u => ?_,
    ?_, fun _ => hdue, fun u hu => by rw [hdue]; exact hu, fun hp' => by rw [hp] at hp'; cases hp'⟩
  · rw [hrow, hr1] at hu
    rw [hti, if_neg (hx u hu)]
    exact h.flag u (by rw [hr]; exact List.mem_cons_of_mem x hu)
  · rw [hdue] at htd ⊢
    rw [hti, if_neg (hx t (hsub t htd))] at htp ⊢
    obtain ⟨hi, hroom⟩ := h.room t (by rw [hd]; exact List.mem_cons_of_mem x htd) htp
    refine ⟨hi, fun u hu => ?_⟩
    have hu' := hroom u (by rw [hd]; exact hu.cons x)
    have hul : u ∈ ds := hu.subset (by simp)
    rw [ahead, hti, if_neg (hx u (hsub u hul)), hk2]
    exact hu'
  · rw [← hs2]
    rfl
  · rw [hti, hp]
    rfl
  · rw [hrow, hr1, hr, hp]
    constructor
    · intro hu
      exact ⟨List.mem_cons_of_mem x hu, fun he => absurd he (hx u hu)⟩
    · rintro ⟨hu, hne⟩
      rcases List.mem_cons.mp hu with rfl | hu
      · exact absurd (hne rfl) Bool.false_ne_true
      · exact hu
  · rw [hrow, hsoft]

/-- A periodic timer is linked again, behind the timers that are due. -/
theorem fired_periodic {s1 : State n} (hl : 0 < level) (h : Scanning level s)
    (hd : due level s = x :: ds) (hf : checkFire level s = some s1)
    (hp : (s.timer x).periodic = true) :
    ∃ s2, checkReturn level s1 = some s2 ∧ Fired level s x ds s2 := by
  obtain ⟨s₁', l, hf', hc, h1, hr, hxl, hds, hr1, hsoft, ht, hk⟩ := fireFirst hl h hd
  rw [hf] at hf'
  obtain rfl := Option.some.inj hf'
  have hx : x ∈ due level s := by
    rw [hd]
    exact List.mem_cons_self
  obtain ⟨hi, hroom⟩ := h.room x hx hp
  have hxr : x ∈ lastRow level s .hard := (mem_due.mp hx).1
  have hxh : timerList s1 x = .hard := by
    rw [timerList, ht]
    exact h.order.shape.list .hard x hxr
  have hne : ∀ u, u ∈ l → u ≠ x := fun u hu he => hxl (he ▸ hu)
  have hah : ∀ u, ahead s1 u = ahead s u := fun u => by rw [ahead, ahead, ht, hk]
  have hroom₁ : StartRoom level s1 x := by
    intro u hu hux
    rw [hxh, hr1] at hu
    rw [hah, ht]
    have hur := h.order.range .hard u (by rw [hr]; exact List.mem_cons_of_mem x hu)
    by_cases hud : Due s s.tick u
    · refine hroom u ?_
      rw [hd, hds]
      refine (List.singleton_sublist.mpr ?_).cons_cons x
      exact List.mem_filter.mpr ⟨hu, decide_eq_true hud⟩
    · rw [due_iff] at hud
      rw [rtTickMaxHalf, BitVec.lt_def] at hi
      have hi' : (s.timer x).initTick.toNat < 2147483647 := hi
      omega
  obtain ⟨s', hs'⟩ := h1.shape.wellFormed.exists_start (t := x) hl (by rw [ht]; exact hi)
  obtain ⟨a, b, hst⟩ := h1.shape.wellFormed.start hl hs'
  have hdone : timeoutDone level s1 x = some s' := by
    rw [timeoutDone, ht, hp, h.flag x hxr, rtTimerStart_setActivated]
    exact hs'
  have hret : checkReturn level s1 = some { s' with check := .scan s1.tick } := by
    simp only [checkReturn, hc, hdone, Option.map_some]
  have hord : OrderInv level { s' with check := .scan s1.tick } := by
    refine h1.step hl (a := .checkReturn) ⟨?_, ?_, fun _ t hct _ => ?_, ?_⟩ hret
    · intros
      contradiction
    · intros
      contradiction
    · rw [hc] at hct
      obtain rfl := Check.callback.inj hct
      exact hroom₁
    · intros
      contradiction
  generalize hs2 : ({ s' with check := .scan s1.tick } : State n) = s2 at hret hord
  have hrow : ∀ q, lastRow level s2 q = lastRow level s' q := by
    rw [← hs2]
    exact fun _ => rfl
  have hk2 : s2.tick = s.tick := by
    rw [← hs2, ← hk]
    exact hst.tick
  have hti : ∀ u, s2.timer u = if u = x then { s.timer x with
      activated := true, timeoutTick := s.tick + (s.timer x).initTick } else s.timer u := by
    intro u
    have h2 := hst.timer (u := u)
    rw [ht, hk] at h2
    rw [← hs2]
    exact h2
  have hxa : ahead s2 x = (s.timer x).initTick.toNat := by
    refine ahead_start hi ?_
    rw [hti, if_pos rfl, hk2]
  have hua : ∀ u, u ≠ x → ahead s2 u = ahead s u := fun u hu => by
    rw [ahead, hti, if_neg hu, hk2]
    rfl
  -- the row before and behind the timer
  have hab : l = a ++ b := by
    have hsp := hst.split
    rw [hxh, hr1, List.erase_of_not_mem hxl] at hsp
    exact hsp
  have hr2 : lastRow level s2 .hard = a ++ x :: b := by
    rw [hrow, ← hxh]
    exact hst.last
  have hfil : ∀ k : List (Fin n), (∀ u ∈ k, u ≠ x) →
      k.filter (fun t => decide (Due s2 s2.tick t)) =
        k.filter fun t => decide (Due s s.tick t) := fun k hkx => by
    refine List.filter_congr fun u hu => ?_
    refine decide_eq_decide.mpr ?_
    simp only [Due, hti, if_neg (hkx u hu), hk2]
  have hax : ∀ u ∈ a, u ≠ x := fun u hu => hne u (by rw [hab]; exact List.mem_append_left b hu)
  have hbx : ∀ u ∈ b, u ≠ x := fun u hu => hne u (by rw [hab]; exact List.mem_append_right a hu)
  have hdue₂ : due level s2 = a.filter (fun t => decide (Due s s.tick t)) ++
      ((if decide (Due s2 s2.tick x) then [x] else []) ++
        b.filter fun t => decide (Due s s.tick t)) := by
    rw [due, hr2, List.filter_append, hfil a hax, List.filter_cons, hfil b hbx]
    split <;> rfl
  have hds2 : ds = a.filter (fun t => decide (Due s s.tick t)) ++
      b.filter fun t => decide (Due s s.tick t) := by
    rw [hds, hab, List.filter_append]
  have hxd : Due s2 s2.tick x ↔ (s.timer x).initTick = 0#32 := by
    rw [due_iff, hxa]
    constructor
    · intro hle
      exact BitVec.eq_of_toNat_eq (show _ = 0 by omega)
    · intro h0
      rw [h0]
      decide
  have hsub : ∀ u, u ∈ ds → u ∈ due level s2 := fun u hu => by
    rw [hdue₂]
    rw [hds2] at hu
    rcases List.mem_append.mp hu with hu | hu
    · exact List.mem_append_left _ hu
    · exact List.mem_append_right _ (List.mem_append_right _ hu)
  have hmem : ∀ u, u ∈ due level s2 → u ≠ x → u ∈ ds := fun u hu hux => by
    rw [hdue₂] at hu
    rw [hds2]
    grind
  have hds_ne : ∀ u, u ∈ ds → u ≠ x := fun u hu => by
    rw [hds] at hu
    exact hne u (List.mem_of_mem_filter hu)
  refine ⟨s2, hret, ⟨hord, fun u hu => ?_, fun t htd htp => ?_, ?_⟩, hk2, fun u => ?_, fun u => ?_,
    ?_, fun hnot => ?_, hsub, fun _ h0 => ?_⟩
  · rw [hti]
    split
    · rfl
    · next hux =>
      refine h.flag u ?_
      rw [hr2] at hu
      rw [hr, hab]
      grind
  · by_cases htx : t = x
    · -- only a timer of no ticks is due again
      subst htx
      have h0 := hxd.mp (mem_due.mp htd).2
      rw [hti, if_pos rfl]
      refine ⟨hi, fun u hu => ?_⟩
      have hur := hord.range .hard u (mem_due.mp (hu.subset (by simp))).1
      rw [h0]
      have hz : ((0#32).toNat : Int) = 0 := rfl
      rw [hz]
      omega
    · rw [hti, if_neg htx] at htp ⊢
      have htds := hmem t htd htx
      obtain ⟨hit, hrt⟩ := h.room t (by rw [hd]; exact List.mem_cons_of_mem x htds) htp
      refine ⟨hit, fun u hu => ?_⟩
      by_cases hux : u = x
      · subst hux
        rw [hxa]
        rw [rtTickMaxHalf, BitVec.lt_def] at hit
        have hit' : (s.timer t).initTick.toNat < 2147483647 := hit
        omega
      · rw [hua u hux]
        refine hrt u ?_
        rw [hd]
        refine List.Sublist.cons x ?_
        -- `x` is not one of the two
        have he := hu.erase x
        rw [List.erase_of_not_mem (by simp [Ne.symm htx, Ne.symm hux])] at he
        have hda : (due level s2).erase x = ds := by
          have hxa' : x ∉ a.filter fun t => decide (Due s s.tick t) := fun hm =>
            hax x (List.mem_of_mem_filter hm) rfl
          have hxb' : x ∉ b.filter fun t => decide (Due s s.tick t) := fun hm =>
            hbx x (List.mem_of_mem_filter hm) rfl
          rw [hdue₂, hds2, List.erase_append_right _ hxa']
          split
          · rw [List.singleton_append, List.erase_cons_head]
          · rw [List.nil_append, List.erase_of_not_mem hxb']
        rw [hda] at he
        exact he
  · rw [← hs2]
    show Check.scan s1.tick = .scan s'.tick
    rw [hst.tick]
  · rw [hti, hp]
    rfl
  · rw [hr2, hr, hab]
    grind
  · rw [hrow, hst.other .soft (by rw [hxh]; decide), hsoft]
    refine List.erase_of_not_mem fun hm => ?_
    have hxs := h.order.shape.list .soft x hm
    rw [h.order.shape.list .hard x hxr] at hxs
    cases hxs
  · have hnd : ¬ Due s2 s2.tick x := fun hc => hnot ⟨hp, hxd.mp hc⟩
    rw [hdue₂, hds2]
    simp [hnd]
  · rw [mem_due, hr2]
    exact ⟨by simp, hxd.mpr h0⟩

/-- One iteration of the loop. -/
theorem fired (hl : 0 < level) (h : Scanning level s) (hd : due level s = x :: ds) :
    ∃ s1 s2, checkFire level s = some s1 ∧ s1.check = .callback x ∧
      checkReturn level s1 = some s2 ∧ Fired level s x ds s2 := by
  obtain ⟨s1, l, hf, hc, -⟩ := fireFirst hl h hd
  cases hp : (s.timer x).periodic with
  | false =>
    obtain ⟨s2, hret, hfd⟩ := fired_oneShot hl h hd hf hp
    exact ⟨s1, s2, hf, hc, hret, hfd⟩
  | true =>
    obtain ⟨s2, hret, hfd⟩ := fired_periodic hl h hd hf hp
    exact ⟨s1, s2, hf, hc, hret, hfd⟩

/-! ## The call -/

/-- No timer is due: the loop ends. -/
theorem checkLeave_of_due_nil (h : Scanning level s) (hd : due level s = []) :
    checkFire level s = none ∧ checkLeave level s = some { s with check := .idle } := by
  cases hr : lastRow level s .hard with
  | nil =>
    have hn : s.links.next (.head (.hard, level - 1)) = .head (.hard, level - 1) :=
      h.order.shape.wellFormed.next_mem (l := []) hr
    simp only [checkFire, checkLeave, h.check, hn, and_self]
  | cons y l =>
    have hn : s.links.next (.head (.hard, level - 1)) = .item (y, level - 1) :=
      h.order.shape.wellFormed.next_mem (l := []) hr
    have hy : ¬ Due s s.tick y := fun hy => by
      have hm : y ∈ due level s := mem_due.mpr ⟨by rw [hr]; exact List.mem_cons_self, hy⟩
      rw [hd] at hm
      cases hm
    simp only [checkFire, checkLeave, h.check, hn, if_neg hy, and_self]

theorem checkLoop_succ {s1 s2 : State n} {fuel : Nat} (hf : checkFire level s = some s1)
    (hc : s1.check = .callback x) (hr : checkReturn level s1 = some s2) :
    checkLoop level (fuel + 1) s = (checkLoop level fuel s2).map fun r => (r.1, x :: r.2) := by
  rw [checkLoop, hf]
  simp only [hr, hc, Check.timers, List.singleton_append]

/-- What a call leaves of the timers. -/
structure Checked (level : Nat) (s s' : State n) : Prop where
  tick : s'.tick = s.tick
  idle : s'.check = .idle
  timer : ∀ u, s'.timer u = if u ∈ due level s then
    (if (s.timer u).periodic then { s.timer u with
      activated := true, timeoutTick := s.tick + (s.timer u).initTick }
    else { s.timer u with activated := false }) else s.timer u
  mem : ∀ u, u ∈ lastRow level s' .hard ↔
    u ∈ lastRow level s .hard ∧ (u ∈ due level s → (s.timer u).periodic = true)
  soft : lastRow level s' .soft = lastRow level s .soft

theorem checkLoop_spec (hl : 0 < level) (hd : due level s = ds) (h : Scanning level s)
    (h0 : ∀ t, t ∈ due level s → (s.timer t).periodic = true → (s.timer t).initTick ≠ 0#32) :
    ∃ fuel s', checkLoop level fuel s = some (s', ds) ∧ OrderInv level s' ∧ Checked level s s' := by
  induction ds generalizing s with
  | nil =>
    obtain ⟨hf, hlv⟩ := checkLeave_of_due_nil h hd
    refine ⟨1, { s with check := .idle }, ?_, ?_, rfl, rfl, fun u => ?_, fun u => ?_, rfl⟩
    · simp only [checkLoop, hf, hlv, Option.map_some]
    · refine h.order.step hl (a := .checkLeave) ⟨?_, ?_, ?_, ?_⟩ hlv
      all_goals
        intros
        contradiction
    · rw [hd, if_neg List.not_mem_nil]
    · rw [hd]
      exact ⟨fun hu => ⟨hu, fun hm => absurd hm List.not_mem_nil⟩, fun hu => hu.1⟩
  | cons x ds ih =>
    obtain ⟨s1, s2, hf, hc, hr, hfd⟩ := fired hl h hd
    have hx : x ∈ due level s := by
      rw [hd]
      exact List.mem_cons_self
    have hd2 : due level s2 = ds := hfd.due fun hp => h0 x hx hp.1 hp.2
    have hnd : (due level s).Nodup := (h.order.shape.wellFormed.nodup .hard).filter _
    rw [hd] at hnd
    have hxds := (List.nodup_cons.mp hnd).1
    have hne : ∀ u, u ∈ ds → u ≠ x := fun u hu he => hxds (he ▸ hu)
    obtain ⟨fuel, s', hlp, ho, hck⟩ := ih hd2 hfd.scanning fun t ht => by
      rw [hd2] at ht
      rw [hfd.timer, if_neg (hne t ht)]
      exact h0 t (by rw [hd]; exact List.mem_cons_of_mem x ht)
    refine ⟨fuel + 1, s', ?_, ho, hck.tick.trans hfd.tick, hck.idle, fun u => ?_, fun u => ?_,
      hck.soft.trans hfd.soft⟩
    · rw [checkLoop_succ hf hc hr, hlp, Option.map_some]
    · rw [hck.timer, hfd.timer, hfd.tick, hd2, hd]
      by_cases hux : u = x
      · rw [hux, if_neg hxds, if_pos rfl, if_pos List.mem_cons_self]
      · simp only [hux, if_false, List.mem_cons, false_or]
    · rw [hck.mem, hfd.mem, hfd.timer, hd2, hd, List.mem_cons]
      by_cases hux : u = x
      · subst hux
        simp [hxds]
      · simp [hux]

/-- A periodic timer of no ticks is due after each of its calls: the loop does not end. -/
theorem checkLoop_none (hl : 0 < level) (h : Scanning level s) (ht : t ∈ due level s)
    (hp : (s.timer t).periodic = true) (h0 : (s.timer t).initTick = 0#32) (fuel : Nat) :
    checkLoop level fuel s = none := by
  induction fuel generalizing s with
  | zero => rfl
  | succ fuel ih =>
    cases hd : due level s with
    | nil =>
      rw [hd] at ht
      cases ht
    | cons x ds =>
      obtain ⟨s1, s2, hf, hc, hr, hfd⟩ := fired hl h hd
      rw [checkLoop_succ hf hc hr]
      have hti : (s2.timer t).periodic = true ∧ (s2.timer t).initTick = 0#32 := by
        rw [hfd.timer]
        split
        · next hx =>
          subst hx
          rw [hp]
          exact ⟨hp, h0⟩
        · exact ⟨hp, h0⟩
      rw [ih hfd.scanning ?_ hti.1 hti.2, Option.map_none]
      rw [hd] at ht
      rcases List.mem_cons.mp ht with rfl | ht
      · exact hfd.again hp h0
      · exact hfd.keep t ht

/-- The call of `rt_timer_check` begins. -/
theorem scanning_enter (hl : 0 < level) (h : OrderInv level s) (hi : s.check = .idle)
    (hf : ∀ t, t ∈ lastRow level s .hard → (s.timer t).activated = true) (hr : DueRoom level s) :
    step level s .checkEnter = some { s with check := .scan s.tick } ∧
      Scanning level { s with check := .scan s.tick } := by
  have he : step level s .checkEnter = some { s with check := .scan s.tick } := if_pos hi
  refine ⟨he, ?_, hf, hr, rfl⟩
  refine h.step hl (a := .checkEnter) ⟨?_, ?_, ?_, ?_⟩ he
  all_goals
    intros
    contradiction

/-- `rt_timer_check` ends. It calls the due timers, each once in the order of their timeouts, and
leaves the others and the periodic ones, which are linked for the current tick and their time. -/
theorem rt_timer_check_spec (hl : 0 < level) (h : OrderInv level s) (hi : s.check = .idle)
    (hf : ∀ t, t ∈ lastRow level s .hard → (s.timer t).activated = true) (hr : DueRoom level s)
    (h0 : ∀ t, t ∈ due level s → (s.timer t).periodic = true → (s.timer t).initTick ≠ 0#32) :
    ∃ fuel s', rtTimerCheck level fuel s = some (s', due level s) ∧
      ((due level s).Nodup ∧ (due level s).Pairwise fun a b => ahead s a ≤ ahead s b) ∧
      OrderInv level s' ∧ Checked level s s' := by
  obtain ⟨he, hsc⟩ := scanning_enter hl h hi hf hr
  obtain ⟨fuel, s', hlp, ho, hck⟩ := checkLoop_spec hl rfl hsc h0
  refine ⟨fuel, s', ?_, ⟨?_, ?_⟩, ho, hck.tick, hck.idle, hck.timer, hck.mem, hck.soft⟩
  · simp only [rtTimerCheck, he]
    exact hlp
  · exact (h.shape.wellFormed.nodup .hard).filter _
  · refine ((h.sorted .hard).sublist List.filter_sublist).imp fun {a b} hab => ?_
    unfold Before at hab
    omega

/-- Two hard timers of one tick, the first one periodic. -/
def twoHard : State 2 :=
  State.init (fun _ => 1#32) (fun t => t = 0) (fun _ => false) 0#32 0#32

/-- Both timers have expired; the periodic one stays on the list. -/
theorem rt_timer_check_sample : ∃ s, exec (step 1) twoHard [.start 0, .start 1, .tickIncrease] =
      some s ∧ ∃ fuel s', rtTimerCheck 1 fuel s = some (s', due 1 s) ∧
      ((due 1 s).Nodup ∧ (due 1 s).Pairwise fun a b => ahead s a ≤ ahead s b) ∧
      OrderInv 1 s' ∧ Checked 1 s s' := by
  have hx : (exec (step 1) twoHard [.start 0, .start 1, .tickIncrease]).map
      (fun s => decide (s.check = .idle ∧
        (∀ t, t ∈ lastRow 1 s .hard → (s.timer t).activated = true) ∧ DueRoom 1 s ∧
        ∀ t, t ∈ due 1 s → (s.timer t).periodic = true → (s.timer t).initTick ≠ 0#32)) =
      some true := by decide +kernel
  obtain ⟨s, hx, ho⟩ := Option.map_eq_some_iff.mp hx
  obtain ⟨hi, hf, hr, h0⟩ := of_decide_eq_true ho
  have hinv : OrderInv 1 s := orderInv_of_along (by decide) hx (by decide +kernel)
  exact ⟨s, hx, rt_timer_check_spec (by decide) hinv hi hf hr h0⟩

/-- One periodic hard timer of no ticks. -/
def zeroTimer : State 1 :=
  State.init (fun _ => 0#32) (fun _ => true) (fun _ => false) 0#32 0#32

/-- With a periodic timer of no ticks `rt_timer_check` never returns. A periodic timer whose time
was set to 2^31 - 2 is linked before one that is overdue by four ticks, which is not called. -/
theorem check_missed : (∃ s, exec (step 1) zeroTimer [.start 0] = some s ∧ s.check = .idle ∧
      ∀ fuel, rtTimerCheck 1 fuel s = none) ∧
    ∃ s, exec (step 1) twoHard ([.start 0, .start 1, .control 0 (.setTime 0x7ffffffe#32)] ++
        List.replicate 5 .tickIncrease) = some s ∧
      (∀ t, t ∈ lastRow 1 s .hard → (s.timer t).activated = true ∧
        (s.timer t).initTick < rtTickMaxHalf ∧ Due s s.tick t) ∧
      ∃ s', rtTimerCheck 1 3 s = some (s', [0]) ∧ lastRow 1 s' .hard = [0, 1] ∧
        Due s' s'.tick 1 := by
  constructor
  · have hx : (exec (step 1) zeroTimer [.start 0]).map
        (fun s => decide (s.check = .idle ∧
          (∀ t, t ∈ lastRow 1 s .hard → (s.timer t).activated = true) ∧ DueRoom 1 s ∧
          0 ∈ due 1 s ∧ (s.timer 0).periodic = true ∧ (s.timer 0).initTick = 0#32)) =
        some true := by decide +kernel
    obtain ⟨s, hx, ho⟩ := Option.map_eq_some_iff.mp hx
    obtain ⟨hi, hf, hr, hd, hp, h0⟩ := of_decide_eq_true ho
    have hinv : OrderInv 1 s := orderInv_of_along (by decide) hx (by decide +kernel)
    obtain ⟨he, hsc⟩ := scanning_enter (by decide) hinv hi hf hr
    refine ⟨s, hx, hi, fun fuel => ?_⟩
    simp only [rtTimerCheck, he]
    exact checkLoop_none (by decide) hsc hd hp h0 fuel
  · have hx : (exec (step 1) twoHard
        ([.start 0, .start 1, .control 0 (.setTime 0x7ffffffe#32)] ++
          List.replicate 5 .tickIncrease)).map
        (fun s => (decide (∀ t, t ∈ lastRow 1 s .hard → (s.timer t).activated = true ∧
            (s.timer t).initTick < rtTickMaxHalf ∧ Due s s.tick t),
          (rtTimerCheck 1 3 s).map fun r =>
            (r.2, lastRow 1 r.1 .hard, decide (Due r.1 r.1.tick 1)))) =
        some (true, some ([0], [0, 1], true)) := by decide +kernel
    obtain ⟨s, hx, ho⟩ := Option.map_eq_some_iff.mp hx
    obtain ⟨ho, hr⟩ := Prod.mk.inj ho
    obtain ⟨⟨s', l⟩, hr, hs'⟩ := Option.map_eq_some_iff.mp hr
    simp only [Prod.mk.injEq, decide_eq_true_eq] at hs'
    obtain ⟨rfl, hrow, hd⟩ := hs'
    exact ⟨s, hx, of_decide_eq_true ho, s', hr, hrow, hd⟩

end Tudu.Timer
