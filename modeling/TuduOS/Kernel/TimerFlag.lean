import TuduOS.Kernel.TimerStep

/-!
# The flag of a timer

* `FlagOk`: a timer whose timeout function is not running has `RT_TIMER_FLAG_ACTIVATED` exactly if
  it is linked. While the function runs the timer is taken off and keeps the flag.
* `timer_flag_iff`: the states of a run have this exactly if no one-shot timer is linked when its
  timeout function returns.
* `restart_in_callback`: a one-shot timer that its timeout function starts again is linked without
  the flag, and `rt_timer_stop` leaves it on the list.
-/

namespace Tudu.Timer

open Lts

variable {n : Nat} {level : Nat} {s s' : State n} {t u : Fin n}

/-- The timeout function of the timer is running. -/
def Running (s : State n) (t : Fin n) : Prop :=
  s.check = .callback t ∨ ∃ node, s.softCheck = .callback t node

def FlagOk (level : Nat) (s : State n) : Prop :=
  ∀ t, ¬ Running s t → ((s.timer t).activated = true ↔ Linked level s t)

/-- A timer that is linked when its timeout function returns is periodic. -/
def ReturnOk (level : Nat) (s : State n) (a : Act n) : Prop :=
  (a = .checkReturn → ∀ t, s.check = .callback t → Linked level s t →
    (s.timer t).periodic = true) ∧
  (a = .softReturn → ∀ t node, s.softCheck = .callback t node → Linked level s t →
    (s.timer t).periodic = true)

instance (s : State n) (a : Act n) : Decidable (ReturnOk level s a) :=
  inferInstanceAs (Decidable (_ ∧ _))

/-- The flag against the list, for every timer. -/
structure FlagInv (level : Nat) (s : State n) : Prop where
  shape : Shape level s
  set : ∀ t, Linked level s t → (s.timer t).activated = true
  linked : ∀ t, (s.timer t).activated = true → Linked level s t ∨ Running s t

theorem FlagInv.flagOk (h : FlagInv level s) : FlagOk level s := fun t hr =>
  ⟨fun ha => (h.linked t ha).resolve_right hr, h.set t⟩

namespace FlagInv

theorem congr (h : FlagInv level s) (hs : Shape level s') (hl : s'.links = s.links)
    (ha : ∀ u, (s'.timer u).activated = (s.timer u).activated)
    (hr : ∀ u, Running s u → Running s' u) : FlagInv level s' := by
  refine ⟨hs, fun u hu => ?_, fun u hu => ?_⟩
  · rw [ha]
    exact h.set u ((linked_congr hl).mp hu)
  · rw [ha] at hu
    exact (h.linked u hu).imp (linked_congr hl).mpr (hr u)

theorem stop (h : FlagInv level s) (hs : Shape level (rtTimerStop level s t).2) :
    FlagInv level (rtTimerStop level s t).2 := by
  by_cases ha : (s.timer t).activated = true
  · rw [rtTimerStop, if_pos ha] at hs ⊢
    have hlk : ∀ u, Linked level (deactivate level s t) u ↔ u ≠ t ∧ Linked level s u := fun u =>
      h.shape.wellFormed.linked_removed rfl
    refine ⟨hs, fun u hu => ?_, fun u hu => ?_⟩
    · obtain ⟨hut, hu⟩ := (hlk u).mp hu
      rw [deactivate_timer, if_neg hut]
      exact h.set u hu
    · rw [deactivate_timer] at hu
      split at hu
      · cases hu
      · next hut => exact (h.linked u hu).imp (fun hu => (hlk u).mpr ⟨hut, hu⟩) id
  · rw [rtTimerStop, if_neg ha]
    exact h

theorem start (h : FlagInv level s) (hl : 0 < level) (hs : rtTimerStart level s t = some s') :
    FlagInv level s' := by
  obtain ⟨l, m, hst⟩ := h.shape.wellFormed.start hl hs
  refine ⟨h.shape.start hl hs, fun u hu => ?_, fun u hu => ?_⟩
  · rw [hst.timer]
    split
    · rfl
    · next hut => exact h.set u ((hst.linked_of_ne hut).mp hu)
  · by_cases hut : u = t
    · rw [hut]
      exact .inl hst.linked_self
    · rw [hst.timer, if_neg hut] at hu
      refine (h.linked u hu).imp (hst.linked_of_ne hut).mpr fun hr => ?_
      rw [Running, hst.check, hst.softCheck]
      exact hr

/-- The timeout function of a timer is called. -/
theorem fire (h : FlagInv level s) (hs : Shape level s')
    (hl : s'.links = rtTimerRemove s.links t level) (ht : s'.timer = s.timer)
    (hr : ∀ u, Running s u → Running s' u) (hrt : Running s' t) : FlagInv level s' := by
  have hlk : ∀ u, Linked level s' u ↔ u ≠ t ∧ Linked level s u := fun u =>
    h.shape.wellFormed.linked_removed hl
  refine ⟨hs, fun u hu => ?_, fun u hu => ?_⟩
  · rw [ht]
    exact h.set u ((hlk u).mp hu).2
  · by_cases hut : u = t
    · rw [hut]
      exact .inr hrt
    · rw [ht] at hu
      exact (h.linked u hu).imp (fun hu => (hlk u).mpr ⟨hut, hu⟩) (hr u)

/-- The timeout function of a timer returns: `s1` is the state before the scan goes on. -/
theorem done {s1 : State n} (h : FlagInv level s) (hl : 0 < level) (hs : Shape level s')
    (hd : timeoutDone level s t = some s1) (hp : Linked level s t → (s.timer t).periodic = true)
    (hlinks : s'.links = s1.links) (ht : s'.timer = s1.timer)
    (hr : ∀ u, u ≠ t → Running s u → Running s' u) : FlagInv level s' := by
  rcases timeoutDone_cases hd with ⟨-, -, hst⟩ | ⟨hnot, rfl⟩
  · have h1 := h.start hl hst
    obtain ⟨l, m, hst⟩ := h.shape.wellFormed.start hl hst
    refine ⟨hs, fun u hu => ?_, fun u hu => ?_⟩
    · rw [ht]
      exact h1.set u ((linked_congr hlinks).mp hu)
    · by_cases hut : u = t
      · rw [hut]
        exact .inl ((linked_congr hlinks).mpr hst.linked_self)
      · rw [ht] at hu
        refine (h1.linked u hu).imp (linked_congr hlinks).mpr fun hru => hr u hut ?_
        rw [Running, hst.check, hst.softCheck] at hru
        exact hru
  · -- a linked timer would have been started again
    have hnl : ¬ Linked level s t := fun hlt => hnot ⟨hp hlt, h.set t hlt⟩
    have hlk : ∀ u, Linked level s' u ↔ Linked level s u := fun u => linked_congr hlinks
    refine ⟨hs, fun u hu => ?_, fun u hu => ?_⟩
    · have hut : u ≠ t := by
        rintro rfl
        exact hnl ((hlk u).mp hu)
      rw [ht, setActivated_timer, if_neg hut]
      exact h.set u ((hlk u).mp hu)
    · rw [ht, setActivated_timer] at hu
      split at hu
      · cases hu
      · next hut => exact (h.linked u hu).imp (hlk u).mpr (hr u hut)

theorem step (h : FlagInv level s) (hl : 0 < level) {a : Act n} (hc : ReturnOk level s a)
    (hs : step level s a = some s') : FlagInv level s' := by
  have hsh := h.shape.step hl hs
  cases a with
  | tickIncrease =>
    rw [← Option.some.inj hs] at hsh ⊢
    exact h.congr hsh rfl (fun _ => rfl) fun _ => id
  | start t => exact h.start hl hs
  | stop t =>
    rw [← Option.some.inj hs] at hsh ⊢
    exact h.stop hsh
  | control t cmd =>
    rw [← Option.some.inj hs] at hsh ⊢
    have ha : ∀ u, ((rtTimerControl s t cmd).2.timer u).activated = (s.timer u).activated := by
      intro u
      cases cmd <;> simp only [rtTimerControl, State.setTimer, Function.update_apply]
      all_goals
        split
        · next hu => rw [hu]
        · rfl
    rw [Shape.control_eq] at hsh ha ⊢
    exact h.congr hsh rfl ha fun _ => id
  | checkEnter =>
    simp only [Timer.step] at hs
    split at hs
    · next hi =>
      rw [← Option.some.inj hs] at hsh ⊢
      refine h.congr hsh rfl (fun _ => rfl) fun u hu => hu.imp (fun hu => ?_) id
      rw [hi] at hu
      cases hu
    · cases hs
  | checkFire =>
    obtain ⟨currentTick, t, r, hi, -, -, rfl⟩ := checkFire_some hs
    refine h.fire hsh rfl rfl (fun u hu => hu.imp (fun hu => ?_) id) (.inl rfl)
    rw [hi] at hu
    cases hu
  | checkReturn =>
    obtain ⟨t, s1, hi, hd, rfl⟩ := checkReturn_some hs
    refine h.done hl hsh hd (hc.1 rfl t hi) rfl rfl fun u hut hu => ?_
    rcases hu with hu | ⟨node, hu⟩
    · rw [hi] at hu
      exact absurd (Check.callback.inj hu).symm hut
    · refine .inr ⟨node, ?_⟩
      rcases timeoutDone_cases hd with ⟨-, -, hst⟩ | ⟨-, rfl⟩
      · obtain ⟨l, m, hst⟩ := h.shape.wellFormed.start hl hst
        exact hst.softCheck.trans hu
      · exact hu
  | checkLeave =>
    obtain ⟨⟨currentTick, hi⟩, rfl⟩ := checkLeave_some hs
    refine h.congr hsh rfl (fun _ => rfl) fun u hu => hu.imp (fun hu => ?_) id
    rw [hi] at hu
    cases hu
  | softEnter =>
    simp only [Timer.step] at hs
    split at hs
    · next hi =>
      rw [← Option.some.inj hs] at hsh ⊢
      refine h.congr hsh rfl (fun _ => rfl) fun u hu => hu.imp id ?_
      rintro ⟨node, hu⟩
      rw [hi] at hu
      cases hu
    · cases hs
  | softFire =>
    obtain ⟨currentTick, t, r, hi, -, rfl⟩ := softFire_some hs
    refine h.fire hsh rfl rfl (fun u hu => hu.imp id ?_) (.inr ⟨_, rfl⟩)
    rintro ⟨node, hu⟩
    rw [hi] at hu
    cases hu
  | softReturn =>
    obtain ⟨t, node, s1, hi, hd, rfl⟩ := softReturn_some hs
    refine h.done hl hsh hd (hc.2 rfl t node hi) rfl rfl fun u hut hu => ?_
    rcases hu with hu | ⟨node', hu⟩
    · refine .inl ?_
      rcases timeoutDone_cases hd with ⟨-, -, hst⟩ | ⟨-, rfl⟩
      · obtain ⟨l, m, hst⟩ := h.shape.wellFormed.start hl hst
        exact hst.check.trans hu
      · exact hu
    · rw [hi] at hu
      exact absurd (SoftCheck.callback.inj hu).1.symm hut
  | softLeave =>
    obtain ⟨⟨currentTick, node, hi⟩, rfl⟩ := softLeave_some hs
    refine h.congr hsh rfl (fun _ => rfl) fun u hu => hu.imp id ?_
    rintro ⟨node', hu⟩
    rw [hi] at hu
    cases hu

/-- A one-shot timer that is linked at the return loses its flag. -/
theorem lose {s1 : State n} (hd : timeoutDone level s t = some s1)
    (hlt : Linked level s t) (hp : (s.timer t).periodic ≠ true) (hlinks : s'.links = s1.links)
    (ht : s'.timer = s1.timer) (hr : ¬ Running s' t) : ¬ FlagOk level s' := by
  intro hok
  rcases timeoutDone_cases hd with ⟨hp', -, -⟩ | ⟨-, rfl⟩
  · exact hp hp'
  · have ha := (hok t hr).mpr ((linked_congr (s := s) hlinks).mpr hlt)
    rw [ht, setActivated_timer, if_pos rfl] at ha
    cases ha

theorem lose_step (h : FlagInv level s) (hl : 0 < level) {a : Act n} (hc : ¬ ReturnOk level s a)
    (hs : Timer.step level s a = some s') : ¬ FlagOk level s' := by
  have hsh := h.shape.step hl hs
  rw [ReturnOk, not_and_or] at hc
  rcases hc with hc | hc
  · simp only [not_forall, exists_prop] at hc
    obtain ⟨rfl, t, hi, hlt, hp⟩ := hc
    obtain ⟨t', s1, hi', hd, rfl⟩ := checkReturn_some hs
    rw [hi] at hi'
    obtain rfl := Check.callback.inj hi'
    refine lose hd hlt hp rfl rfl ?_
    rintro (hr | ⟨node, hr⟩)
    · cases hr
    · -- the timer is a hard one
      have hsoft := hsh.soft t node hr
      have hhard := h.shape.hard t hi
      have hst : timerList s1 t = timerList s t := by
        rcases timeoutDone_cases hd with ⟨-, -, hst⟩ | ⟨-, rfl⟩
        · obtain ⟨l, m, hst⟩ := h.shape.wellFormed.start hl hst
          exact hst.softTimer t
        · exact Shape.timerList_setActivated false t
      have he : timerList s1 t = .soft := hsoft
      rw [hst, hhard] at he
      cases he
  · simp only [not_forall, exists_prop] at hc
    obtain ⟨rfl, t, node, hi, hlt, hp⟩ := hc
    obtain ⟨t', node', s1, hi', hd, rfl⟩ := softReturn_some hs
    rw [hi] at hi'
    obtain ⟨rfl, rfl⟩ := SoftCheck.callback.inj hi'
    refine lose hd hlt hp rfl rfl ?_
    rintro (hr | ⟨node', hr⟩)
    · have hhard := hsh.hard t hr
      have hsoft := h.shape.soft t node hi
      have hst : timerList s1 t = timerList s t := by
        rcases timeoutDone_cases hd with ⟨-, -, hst⟩ | ⟨-, rfl⟩
        · obtain ⟨l, m, hst⟩ := h.shape.wellFormed.start hl hst
          exact hst.softTimer t
        · exact Shape.timerList_setActivated false t
      have he : timerList s1 t = .hard := hhard
      rw [hst, hsoft] at he
      cases he
    · cases hr

theorem init (time : Fin n → Tick) (periodic soft : Fin n → Bool) (tick : Tick)
    (randomNr : BitVec 32) : FlagInv level (State.init time periodic soft tick randomNr) := by
  have hr : Rows level (State.init time periodic soft tick randomNr).links fun _ _ => [] :=
    rows_init level
  refine ⟨Shape.init time periodic soft tick randomNr, fun t ht => ?_, fun t ht => ?_⟩
  · obtain ⟨q, hq⟩ := hr.linked_iff.mp ht
    cases hq
  · cases ht

end FlagInv

section Run

variable {time : Fin n → Tick} {periodic soft : Fin n → Bool} {tick : Tick} {randomNr : BitVec 32}

theorem flagInv_of_along (hl : 0 < level) {as : List (Act n)}
    (hx : exec (step level) (State.init time periodic soft tick randomNr) as = some s)
    (hc : Along (step level) (ReturnOk level) (State.init time periodic soft tick randomNr) as) :
    FlagInv level s :=
  hc.inv (fun _ _ _ hi ha hs => hi.step hl ha hs) hx (FlagInv.init ..)

/-- The flag is set for exactly the linked timers throughout a run if and only if no one-shot timer
is linked at the return of its timeout function. -/
theorem timer_flag_iff (hl : 0 < level) {as : List (Act n)}
    (hx : exec (step level) (State.init time periodic soft tick randomNr) as = some s) :
    (Along (step level) (ReturnOk level) (State.init time periodic soft tick randomNr) as ↔
      Visits (step level) (FlagOk level) (State.init time periodic soft tick randomNr) as) ∧
    (Along (step level) (ReturnOk level) (State.init time periodic soft tick randomNr) as →
      ∀ t, Linked level s t → (rtTimerStop level s t).1 = rtEok ∧
        ¬ Linked level (rtTimerStop level s t).2 t) := by
  constructor
  · exact along_iff_visits (fun _ hi => hi.flagOk) (fun _ _ _ hi ha hs => hi.step hl ha hs)
      (fun _ _ _ hi ha hs => hi.lose_step hl ha hs) hx (FlagInv.init ..)
  · intro hc t ht
    have hi := flagInv_of_along hl hx hc
    rw [rtTimerStop, if_pos (hi.set t ht)]
    refine ⟨rfl, fun hlk => ?_⟩
    have hrm : (deactivate level s t).links = rtTimerRemove s.links t level := rfl
    exact ((hi.shape.wellFormed.linked_removed hrm).mp hlk).1 rfl

end Run

/-- One hard timer of one tick. -/
def oneTimer (periodic : Bool) : State 1 :=
  State.init (fun _ => 1#32) (fun _ => periodic) (fun _ => false) 0#32 0#32

/-- The timer is started, expires, and its timeout function starts it again. -/
def restartRun : List (Act 1) :=
  [.start 0, .tickIncrease, .checkEnter, .checkFire, .start 0, .checkReturn, .checkLeave]

/-- A periodic timer may start itself again. -/
theorem timer_flag_sample : ∃ s, exec (step 1) (oneTimer true) restartRun = some s ∧
    (rtTimerStop 1 s 0).1 = rtEok ∧ ¬ Linked 1 (rtTimerStop 1 s 0).2 0 := by
  have hx : (exec (step 1) (oneTimer true) restartRun).map
      (fun s => decide (Linked 1 s 0)) = some true := by decide +kernel
  obtain ⟨s, hx, hlk⟩ := Option.map_eq_some_iff.mp hx
  exact ⟨s, hx, (timer_flag_iff (by decide) hx).2 (by decide +kernel) 0 (of_decide_eq_true hlk)⟩

/-- A one-shot timer that its timeout function starts again: after `rt_timer_check` it is linked
without the flag, and `rt_timer_stop` fails and leaves it linked. -/
theorem restart_in_callback : ∃ s, exec (step 1) (oneTimer false) restartRun = some s ∧
    s.check = .idle ∧ Linked 1 s 0 ∧ (s.timer 0).activated = false ∧
    (rtTimerStop 1 s 0).1 = -rtError ∧ Linked 1 (rtTimerStop 1 s 0).2 0 := by
  have hx : (exec (step 1) (oneTimer false) restartRun).map
      (fun s => (s.check, decide (Linked 1 s 0), (s.timer 0).activated, (rtTimerStop 1 s 0).1,
        decide (Linked 1 (rtTimerStop 1 s 0).2 0))) =
      some (.idle, true, false, -rtError, true) := by decide +kernel
  obtain ⟨s, hx, ho⟩ := Option.map_eq_some_iff.mp hx
  simp only [Prod.mk.injEq, decide_eq_true_eq] at ho
  exact ⟨s, hx, ho⟩

end Tudu.Timer
