import Mathlib.Data.List.Pairwise
import TuduOS.Kernel.TimerStep

/-!
# The order of the timers

* `ahead s t`: by how many ticks the timeout of `t` is in the future; it is negative for a timer
  that is overdue. The lists are in the order of this number: `Before`.
* `skips_iff`: the comparison on wrapped differences is that of `ahead` as long as `init_tick` and
  the ticks by which a timer is overdue are at most 2^31 + 1 together.
* `timer_sorted`: the lists are sorted in every run whose starts meet this.
* `wrapped_start`: an `init_tick` of 2^31 - 2 while a timer is overdue by four ticks.
-/

namespace Tudu.Timer

open Lts

variable {n : Nat} {level : Nat} {s s' : State n} {t u : Fin n} {q : TimerList}

/-! ## Insertion into a sorted list -/

section Insert

variable {α : Type*} {R : α → α → Prop} {l m : List α} {x : α}

/-- It is enough to compare with the neighbours. -/
theorem pairwise_insert (htr : ∀ a b c, R a b → R b c → R a c) (h : (l ++ m).Pairwise R)
    (hl : ∀ a ∈ l.getLast?, R a x) (hm : ∀ b ∈ m.head?, R x b) : (l ++ x :: m).Pairwise R := by
  rw [List.pairwise_append] at h ⊢
  obtain ⟨hll, hmm, hlm⟩ := h
  have hl' : ∀ a ∈ l, R a x := by
    rcases List.eq_nil_or_concat' l with rfl | ⟨l, z, rfl⟩
    · intro a ha
      cases ha
    · have hz : R z x := hl z (by simp)
      intro a ha
      rcases List.mem_append.mp ha with ha | ha
      · exact htr a z x ((List.pairwise_append.mp hll).2.2 a ha z (by simp)) hz
      · rw [List.mem_singleton.mp ha]
        exact hz
  have hm' : ∀ b ∈ m, R x b := by
    cases m with
    | nil =>
      intro b hb
      cases hb
    | cons z m =>
      have hz : R x z := hm z (by simp)
      intro b hb
      rcases List.mem_cons.mp hb with rfl | hb
      · exact hz
      · exact htr x z b hz ((List.pairwise_cons.mp hmm).1 b hb)
  refine ⟨hll, List.pairwise_cons.mpr ⟨hm', hmm⟩, fun a ha b hb => ?_⟩
  rcases List.mem_cons.mp hb with rfl | hb
  · exact hl' a ha
  · exact htr a x b (hl' a ha) (hm' b hb)

end Insert

/-! ## Ticks -/

/-- By how many ticks the timeout is in the future. -/
def ahead (s : State n) (t : Fin n) : Int := ((s.timer t).timeoutTick - s.tick).toInt

/-- The timer `a` is to be called before `b`. -/
def Before (s : State n) (a b : Fin n) : Prop :=
  ahead s a < ahead s b ∨ ahead s a = ahead s b ∧ s.startNo a < s.startNo b

instance (s : State n) (a b : Fin n) : Decidable (Before s a b) :=
  inferInstanceAs (Decidable (_ ∨ _))

theorem Before.trans {a b c : Fin n} (h1 : Before s a b) (h2 : Before s b c) : Before s a c := by
  unfold Before at *
  omega

theorem before_of_timeout_eq {a b : Fin n} (h : Before s a b)
    (he : (s.timer a).timeoutTick = (s.timer b).timeoutTick) : s.startNo a < s.startNo b := by
  have ha : ahead s a = ahead s b := by rw [ahead, ahead, he]
  unfold Before at h
  omega

theorem toInt_cond (a : Tick) : a.toInt =
    if 2 * a.toNat < 4294967296 then (a.toNat : Int) else (a.toNat : Int) - 4294967296 := by
  rw [BitVec.toInt_eq_toNat_cond]
  rfl

/-- The test of the search, in terms of `ahead`. -/
theorem skips_iff {initTick : Tick} (hu : -0x7fffffff < ahead s u ∧ ahead s u < 0x7fffffff)
    (hi : initTick < rtTickMaxHalf) (hr : (initTick.toNat : Int) - ahead s u ≤ 0x80000001) :
    Skips s (s.tick + initTick) u ↔ ahead s u ≤ initTick.toNat := by
  have hd : (s.timer u).timeoutTick - (s.tick + initTick) =
      (s.timer u).timeoutTick - s.tick - initTick := by
    rw [BitVec.sub_sub]
  unfold Skips ahead at *
  rw [hd]
  generalize (s.timer u).timeoutTick - s.tick = a at *
  rw [toInt_cond] at hu hr ⊢
  rw [rtTickMaxHalf, BitVec.lt_def] at hi
  have hlt := a.isLt
  have hn : (a - initTick).toNat = (2 ^ 32 - initTick.toNat + a.toNat) % 2 ^ 32 :=
    BitVec.toNat_sub a initTick
  have hz : a - initTick = 0#32 ↔ (2 ^ 32 - initTick.toNat + a.toNat) % 2 ^ 32 = 0 := by
    rw [← hn]
    constructor
    · intro h
      rw [h]
      rfl
    · intro h
      exact BitVec.eq_of_toNat_eq h
  rw [hz, rtTickMaxHalf, BitVec.lt_def, hn]
  have hi' : initTick.toNat < 2147483647 := hi
  have hm : (0x7fffffff#32).toNat = 2147483647 := rfl
  rw [hm]
  split at hu <;> split at hr <;> omega

theorem ahead_start {initTick : Tick} (hi : initTick < rtTickMaxHalf)
    (ht : (s.timer t).timeoutTick = s.tick + initTick) : ahead s t = initTick.toNat := by
  have hd : s.tick + initTick - s.tick = initTick := by
    rw [BitVec.add_comm]
    exact BitVec.add_sub_cancel initTick s.tick
  rw [ahead, ht, hd, toInt_cond]
  rw [rtTickMaxHalf, BitVec.lt_def] at hi
  have hi' : initTick.toNat < 2147483647 := hi
  rw [if_pos (by omega)]

/-- One tick on. -/
theorem ahead_tick (h : -0x7fffffff < ahead s t) :
    ahead { s with tick := s.tick + 1#32 } t = ahead s t - 1 := by
  unfold ahead at *
  have hd : (s.timer t).timeoutTick - (s.tick + 1#32) =
      (s.timer t).timeoutTick - s.tick - 1#32 := by
    rw [BitVec.sub_sub]
  show ((s.timer t).timeoutTick - (s.tick + 1#32)).toInt = _
  rw [hd]
  generalize (s.timer t).timeoutTick - s.tick = a at *
  have hn : (a - 1#32).toNat = (2 ^ 32 - 1 + a.toNat) % 2 ^ 32 := BitVec.toNat_sub a 1#32
  have hlt := a.isLt
  rw [toInt_cond] at h
  rw [toInt_cond, toInt_cond, hn]
  split at h <;> split <;> omega

theorem due_iff (s : State n) (t : Fin n) :
    Due s s.tick t ↔ -0x7fffffff < ahead s t ∧ ahead s t ≤ 0 := by
  have hd : s.tick - (s.timer t).timeoutTick = -((s.timer t).timeoutTick - s.tick) := by
    rw [BitVec.neg_sub, BitVec.add_comm, BitVec.sub_eq_add_neg]
  unfold Due ahead
  rw [hd]
  generalize (s.timer t).timeoutTick - s.tick = a
  have hlt := a.isLt
  have hn : (-a).toNat = (2 ^ 32 - a.toNat) % 2 ^ 32 := BitVec.toNat_neg a
  rw [rtTickMaxHalf, BitVec.lt_def, hn, toInt_cond]
  have hm : (0x7fffffff#32).toNat = 2147483647 := rfl
  rw [hm]
  split <;> omega

/-! ## The invariant -/

/-- The timers that are overdue, with the time of `t`, are within the range of the comparison. -/
def StartRoom (level : Nat) (s : State n) (t : Fin n) : Prop :=
  ∀ u, u ∈ lastRow level s (timerList s t) → u ≠ t →
    ((s.timer t).initTick.toNat : Int) - ahead s u ≤ 0x80000001

instance (s : State n) (t : Fin n) : Decidable (StartRoom level s t) :=
  inferInstanceAs (Decidable (∀ _, _))

/-- The timer is started at the return of its timeout function. -/
def Restarts (s : State n) (t : Fin n) : Prop :=
  (s.timer t).periodic = true ∧ (s.timer t).activated = true

instance (s : State n) (t : Fin n) : Decidable (Restarts s t) :=
  inferInstanceAs (Decidable (_ ∧ _))

/-- No linked timer is overdue by `RT_TICK_MAX / 2` or more, and each start has room. -/
def RangeOk (level : Nat) (s : State n) (a : Act n) : Prop :=
  (a = .tickIncrease → ∀ t, Linked level s t →
    -0x7fffffff < ahead { s with tick := s.tick + 1#32 } t) ∧
  (∀ t, a = .start t → StartRoom level s t) ∧
  (a = .checkReturn → ∀ t, s.check = .callback t → Restarts s t → StartRoom level s t) ∧
  (a = .softReturn → ∀ t x, s.softCheck = .callback t x → Restarts s t → StartRoom level s t)

instance (s : State n) (a : Act n) : Decidable (RangeOk level s a) :=
  inferInstanceAs (Decidable (_ ∧ _))

structure OrderInv (level : Nat) (s : State n) : Prop where
  shape : Shape level s
  sorted : ∀ q, (lastRow level s q).Pairwise (Before s)
  range : ∀ q t, t ∈ lastRow level s q → -0x7fffffff < ahead s t ∧ ahead s t < 0x7fffffff
  starts : ∀ q t, t ∈ lastRow level s q → s.startNo t < s.starts

namespace OrderInv

theorem congr (h : OrderInv level s) (hs : Shape level s')
    (hsub : ∀ q, (lastRow level s' q).Sublist (lastRow level s q))
    (ha : ∀ u, ahead s' u = ahead s u) (hn : s'.startNo = s.startNo)
    (hst : s'.starts = s.starts) : OrderInv level s' := by
  refine ⟨hs, fun q => ?_, fun q t ht => ?_, fun q t ht => ?_⟩
  · refine ((h.sorted q).sublist (hsub q)).imp fun {a b} hab => ?_
    rw [Before, ha, ha, hn]
    exact hab
  · rw [ha]
    exact h.range q t ((hsub q).subset ht)
  · rw [hn, hst]
    exact h.starts q t ((hsub q).subset ht)

theorem removed (h : OrderInv level s) (hs : Shape level s')
    (hl : s'.links = rtTimerRemove s.links t level) (ha : ∀ u, ahead s' u = ahead s u)
    (hn : s'.startNo = s.startNo) (hst : s'.starts = s.starts) : OrderInv level s' := by
  refine h.congr hs (fun q => ?_) ha hn hst
  rw [(h.shape.wellFormed.removed hl).2]
  exact List.erase_sublist

theorem ahead_timer (ht : (s'.timer u).timeoutTick = (s.timer u).timeoutTick)
    (hk : s'.tick = s.tick) : ahead s' u = ahead s u := by
  rw [ahead, ahead, ht, hk]

theorem tick (h : OrderInv level s)
    (hc : ∀ t, Linked level s t → -0x7fffffff < ahead { s with tick := s.tick + 1#32 } t)
    (hs : Shape level { s with tick := s.tick + 1#32 }) :
    OrderInv level { s with tick := s.tick + 1#32 } := by
  have hk : ∀ q t, t ∈ lastRow level s q →
      ahead { s with tick := s.tick + 1#32 } t = ahead s t - 1 := fun q t ht =>
    ahead_tick (h.range q t ht).1
  refine ⟨hs, fun q => ?_, fun q t ht => ⟨?_, ?_⟩, h.starts⟩
  · refine (h.sorted q).imp_of_mem fun {a b} ha hb hab => ?_
    have ha' := hk q a ha
    have hb' := hk q b hb
    unfold Before at hab ⊢
    rw [ha', hb']
    show _ ∨ _ ∧ s.startNo a < s.startNo b
    omega
  · exact hc t (linked_iff.mpr ⟨q, ht⟩)
  · have hr := (h.range q t ht).2
    rw [hk q t ht]
    omega

theorem start (h : OrderInv level s) (hl : 0 < level) (hroom : StartRoom level s t)
    (hs : rtTimerStart level s t = some s') : OrderInv level s' := by
  have hi := rtTimerStart_some hs
  obtain ⟨l, m, hst⟩ := h.shape.wellFormed.start hl hs
  have hother : ∀ u, u ≠ t → ahead s' u = ahead s u := fun u hu =>
    ahead_timer (by rw [hst.timer, if_neg hu]) hst.tick
  have hself : ahead s' t = (s.timer t).initTick.toNat := by
    refine ahead_start hi ?_
    rw [hst.timer, if_pos rfl, hst.tick]
  have hno : ∀ u, s'.startNo u = if u = t then s.starts else s.startNo u := by
    obtain ⟨links, rfl⟩ := hst.state
    intro u
    exact started_startNo
  have hstarts : s'.starts = s.starts + 1 := by
    obtain ⟨links, rfl⟩ := hst.state
    rfl
  have hbefore : ∀ a b, a ≠ t → b ≠ t → Before s a b → Before s' a b := fun a b ha hb hab => by
    rw [Before, hother a ha, hother b hb, hno, hno, if_neg ha, if_neg hb]
    exact hab
  have hne : ∀ q u, u ∈ (lastRow level s q).erase t → u ≠ t ∧ u ∈ lastRow level s q := fun q u hu =>
    (h.shape.wellFormed.nodup q).mem_erase_iff.mp hu
  have herase : ∀ q, ((lastRow level s q).erase t).Pairwise (Before s') := fun q =>
    ((h.sorted q).sublist List.erase_sublist).imp_of_mem fun {a b} ha hb hab =>
      hbefore a b (hne q a ha).1 (hne q b hb).1 hab
  -- the timers of the list against the one that is started
  have hskip : ∀ u, u ∈ l ++ m → u ≠ t ∧ ahead s' u = ahead s u ∧ s.startNo u < s.starts ∧
      (Skips s (s.tick + (s.timer t).initTick) u ↔ ahead s u ≤ (s.timer t).initTick.toNat) := by
    intro u hu
    rw [← hst.split] at hu
    obtain ⟨hut, hu⟩ := hne _ u hu
    exact ⟨hut, hother u hut, h.starts _ u hu, skips_iff (h.range _ u hu) hi (hroom u hu hut)⟩
  refine ⟨h.shape.start hl hs, fun q => ?_, fun q u hu => ?_, fun q u hu => ?_⟩
  · by_cases hq : q = timerList s t
    · subst hq
      have hlm := herase (timerList s t)
      rw [hst.split] at hlm
      rw [hst.last]
      refine pairwise_insert (fun _ _ _ => Before.trans) hlm (fun a ha => ?_) fun b hb => ?_
      · obtain ⟨hat, hah, hlt, hsk⟩ := hskip a (List.mem_append_left m (List.mem_of_getLast? ha))
        have hle := hsk.mp (hst.gap.1 a ha)
        rw [Before, hah, hself, hno, hno, if_neg hat, if_pos rfl]
        omega
      · obtain ⟨hbt, hbh, -, hsk⟩ := hskip b (List.mem_append_right l (List.mem_of_head? hb))
        have hlt := mt hsk.mpr (hst.gap.2 b hb)
        rw [Before, hbh, hself]
        omega
    · rw [hst.other q hq]
      exact herase q
  · by_cases hut : u = t
    · rw [hut, hself]
      rw [rtTickMaxHalf, BitVec.lt_def] at hi
      have hi' : (s.timer t).initTick.toNat < 2147483647 := hi
      omega
    · rw [hother u hut]
      exact h.range q u ((hst.mem u q hut).mp hu)
  · rw [hno, hstarts]
    split
    · exact Nat.lt_succ_self _
    · next hut => exact Nat.lt_succ_of_lt (h.starts q u ((hst.mem u q hut).mp hu))

theorem timeoutDone (h : OrderInv level s) (hl : 0 < level)
    (hroom : Restarts s t → StartRoom level s t) (hd : timeoutDone level s t = some s') :
    OrderInv level s' := by
  rcases timeoutDone_cases hd with ⟨hp, ha, hst⟩ | ⟨-, rfl⟩
  · exact h.start hl (hroom ⟨hp, ha⟩) hst
  · refine h.congr (h.shape.timeoutDone hl hd) (fun _ => List.Sublist.refl _) (fun u => ?_) rfl rfl
    refine ahead_timer ?_ rfl
    rw [setActivated_timer]
    split
    · next hu => rw [hu]
    · rfl

theorem step (h : OrderInv level s) (hl : 0 < level) {a : Act n} (hc : RangeOk level s a)
    (hs : step level s a = some s') : OrderInv level s' := by
  have hsh := h.shape.step hl hs
  have hkeep : ∀ s1 : State n, Shape level s1 → s1.links = s.links → s1.timer = s.timer →
      s1.tick = s.tick → s1.startNo = s.startNo → s1.starts = s.starts → OrderInv level s1 :=
    fun s1 h1 hlk ht hk hn hst => h.congr h1 (fun q => by rw [lastRow_congr hlk])
      (fun u => ahead_timer (by rw [ht]) hk) hn hst
  cases a with
  | tickIncrease =>
    rw [← Option.some.inj hs] at hsh ⊢
    exact h.tick (hc.1 rfl) hsh
  | start t => exact h.start hl (hc.2.1 t rfl) hs
  | stop t =>
    rw [← Option.some.inj hs] at hsh ⊢
    rw [rtTimerStop] at hsh ⊢
    split at hsh
    · next ha =>
      rw [if_pos ha]
      refine h.removed (t := t) hsh rfl (fun u => ahead_timer ?_ rfl) rfl rfl
      rw [deactivate_timer]
      split
      · next hu => rw [hu]
      · rfl
    · next ha =>
      rw [if_neg ha]
      exact h
  | control t cmd =>
    rw [← Option.some.inj hs] at hsh ⊢
    have ht : ∀ u, ((rtTimerControl s t cmd).2.timer u).timeoutTick = (s.timer u).timeoutTick := by
      intro u
      cases cmd <;> simp only [rtTimerControl, State.setTimer, Function.update_apply]
      all_goals
        split
        · next hu => rw [hu]
        · rfl
    rw [Shape.control_eq] at hsh ht ⊢
    exact h.congr hsh (fun _ => List.Sublist.refl _) (fun u => ahead_timer (ht u) rfl) rfl rfl
  | checkEnter | softEnter =>
    simp only [Timer.step] at hs
    split at hs
    · rw [← Option.some.inj hs] at hsh ⊢
      exact hkeep _ hsh rfl rfl rfl rfl rfl
    · cases hs
  | checkFire =>
    obtain ⟨currentTick, t, r, -, -, -, rfl⟩ := checkFire_some hs
    exact h.removed (t := t) hsh rfl (fun _ => rfl) rfl rfl
  | checkReturn =>
    obtain ⟨t, s1, hi, hd, rfl⟩ := checkReturn_some hs
    have h1 := h.timeoutDone hl (hc.2.2.1 rfl t hi) hd
    exact h1.congr hsh (fun _ => List.Sublist.refl _) (fun _ => rfl) rfl rfl
  | checkLeave =>
    obtain ⟨-, rfl⟩ := checkLeave_some hs
    exact hkeep _ hsh rfl rfl rfl rfl rfl
  | softFire =>
    obtain ⟨currentTick, t, r, -, -, rfl⟩ := softFire_some hs
    exact h.removed (t := t) hsh rfl (fun _ => rfl) rfl rfl
  | softReturn =>
    obtain ⟨t, node, s1, hi, hd, rfl⟩ := softReturn_some hs
    have h1 := h.timeoutDone hl (hc.2.2.2 rfl t node hi) hd
    exact h1.congr hsh (fun _ => List.Sublist.refl _) (fun _ => rfl) rfl rfl
  | softLeave =>
    obtain ⟨-, rfl⟩ := softLeave_some hs
    exact hkeep _ hsh rfl rfl rfl rfl rfl

theorem init (time : Fin n → Tick) (periodic soft : Fin n → Bool) (tick : Tick)
    (randomNr : BitVec 32) : OrderInv level (State.init time periodic soft tick randomNr) := by
  have hr : Rows level (State.init time periodic soft tick randomNr).links fun _ _ => [] :=
    rows_init level
  have hq : ∀ q, lastRow level (State.init time periodic soft tick randomNr) q = [] := fun q =>
    hr.row_eq q _
  refine ⟨Shape.init time periodic soft tick randomNr, fun q => ?_, fun q t ht => ?_,
    fun q t ht => ?_⟩
  · rw [hq]
    exact .nil
  · rw [hq] at ht
    cases ht
  · rw [hq] at ht
    cases ht

end OrderInv

/-! ## Every run -/

section Run

variable {time : Fin n → Tick} {periodic soft : Fin n → Bool} {tick : Tick} {randomNr : BitVec 32}

theorem orderInv_of_along (hl : 0 < level) {as : List (Act n)}
    (hx : exec (step level) (State.init time periodic soft tick randomNr) as = some s)
    (hc : Along (step level) (RangeOk level) (State.init time periodic soft tick randomNr) as) :
    OrderInv level s :=
  hc.inv (fun _ _ _ hi ha hs => hi.step hl ha hs) hx (OrderInv.init ..)

/-- In a run within the range of the comparison each list is sorted by the timeouts, those that are
equal by their starts, and each row is a subsequence of the one below it. -/
theorem timer_sorted (hl : 1 ≤ level) {as : List (Act n)}
    (hx : exec (step level) (State.init time periodic soft tick randomNr) as = some s)
    (hc : Along (step level) (RangeOk level) (State.init time periodic soft tick randomNr) as) :
    (∀ q, (row s.links q (level - 1)).Pairwise fun a b => ahead s a ≤ ahead s b ∧
      ((s.timer a).timeoutTick = (s.timer b).timeoutTick → s.startNo a < s.startNo b)) ∧
    (∀ q r, r + 1 < level → (row s.links q r).Sublist (row s.links q (r + 1))) ∧
    WellFormed level s := by
  have hi := orderInv_of_along hl hx hc
  refine ⟨fun q => (hi.sorted q).imp fun {a b} hab => ⟨?_, before_of_timeout_eq hab⟩,
    hi.shape.wellFormed.sub, hi.shape.wellFormed⟩
  unfold Before at hab
  omega

end Run

/-- Three hard timers: one of no ticks, one of 2^30 and one of the longest time. -/
def threeTimers : State 3 :=
  State.init (fun t => if t = 0 then 0#32 else if t = 1 then 0x40000000#32 else 0x7ffffffe#32)
    (fun _ => false) (fun _ => false) 0#32 0#32

/-- The longest timer is started when the first one is overdue by three ticks. -/
theorem timer_sorted_sample : ∃ s, exec (step 2) threeTimers
      [.start 0, .start 1, .tickIncrease, .tickIncrease, .tickIncrease, .start 2] = some s ∧
    (row s.links .hard 1).Pairwise fun a b => ahead s a ≤ ahead s b ∧
      ((s.timer a).timeoutTick = (s.timer b).timeoutTick → s.startNo a < s.startNo b) := by
  have hx : (exec (step 2) threeTimers
      [.start 0, .start 1, .tickIncrease, .tickIncrease, .tickIncrease, .start 2]).map
      (fun _ => ()) = some () := by decide +kernel
  obtain ⟨s, hx, -⟩ := Option.map_eq_some_iff.mp hx
  exact ⟨s, hx, (timer_sorted (by decide) hx (by decide +kernel)).1 .hard⟩

/-- The longest timer is started when the first one is overdue by four ticks: it goes before the
first one, and before the second one, whose timeout is 2^30 - 2 ticks earlier. -/
theorem wrapped_start : ∃ s, exec (step 1) threeTimers
      [.start 0, .start 1, .tickIncrease, .tickIncrease, .tickIncrease, .tickIncrease, .start 2] =
      some s ∧ row s.links .hard 0 = [2, 0, 1] ∧
    (∀ t, Linked 1 s t → -0x7fffffff < ahead s t) ∧ ahead s 0 = -4 ∧
    ahead s 1 = 0x3ffffffc ∧ ahead s 2 = 0x7ffffffe ∧
    ¬ (s.timer 1).timeoutTick - (s.timer 2).timeoutTick < 0x80000000#32 := by
  have hx : (exec (step 1) threeTimers
      [.start 0, .start 1, .tickIncrease, .tickIncrease, .tickIncrease, .tickIncrease,
        .start 2]).map
      (fun s => (row s.links .hard 0, decide (∀ t, Linked 1 s t → -0x7fffffff < ahead s t),
        ahead s 0, ahead s 1, ahead s 2,
        decide ((s.timer 1).timeoutTick - (s.timer 2).timeoutTick < 0x80000000#32))) =
      some ([2, 0, 1], true, -4, 0x3ffffffc, 0x7ffffffe, false) := by decide +kernel
  obtain ⟨s, hx, ho⟩ := Option.map_eq_some_iff.mp hx
  simp only [Prod.mk.injEq, decide_eq_true_eq, decide_eq_false_iff_not] at ho
  exact ⟨s, hx, ho⟩

end Tudu.Timer
