import Mathlib.Logic.Function.Iterate
import TuduOS.Kernel.TimerStep

/-!
# The scan of the soft timers

* `SoftOk`: where `rt_soft_timer_check` is, is the head or a timer of the soft list; from there the
  pointers lead to the head.
* `soft_scan_iff`: the states of a run have this exactly if the node that the scan has saved is the
  head or still on the list when a timeout function returns, and the scan's own timer is not
  stopped between two of its steps. Then each function that is called belongs to a timer of the
  list that is due, and one that was stopped is not called.
* `stopped_timer_runs`: a timeout function stops the next timer, which is called all the same.
-/

namespace Tudu.Timer

open Circular Lts

variable {n : Nat} {level : Nat} {s s' : State n} {t u : Fin n} {x : RowNode n}

/-- The head of the soft list, or the node of one of its timers. -/
def OnSoft (level : Nat) (s : State n) (x : RowNode n) : Prop :=
  x = .head (.soft, level - 1) ∨ ∃ u, u ∈ lastRow level s .soft ∧ x = .item (u, level - 1)

def SoftOk (level : Nat) (s : State n) : Prop :=
  ∀ currentTick x, s.softCheck = .scan currentTick x → OnSoft level s x

/-- At a return the saved node is the head or on the list. A stop does not hit the node that the
scan is at. -/
def SavedOk (level : Nat) (s : State n) (a : Act n) : Prop :=
  (a = .softReturn → ∀ t x, s.softCheck = .callback t x → OnSoft level s x) ∧
  ∀ u, a = .stop u → (s.timer u).activated = true →
    ∀ currentTick, s.softCheck ≠ .scan currentTick (.item (u, level - 1))

instance (s : State n) (x : RowNode n) : Decidable (OnSoft level s x) :=
  inferInstanceAs (Decidable (_ ∨ _))

instance (s : State n) (a : Act n) : Decidable (SavedOk level s a) :=
  inferInstanceAs (Decidable (_ ∧ _))

/-- The list behind a node of it. -/
theorem OnSoft.split (h : OnSoft level s x) :
    ∃ l m, lastRow level s .soft = l ++ m ∧ x = place .soft (level - 1) l := by
  rcases h with rfl | ⟨u, hu, rfl⟩
  · exact ⟨[], _, rfl, rfl⟩
  · obtain ⟨l, m, hlm⟩ := List.append_of_mem hu
    exact ⟨l ++ [u], m, by simpa using hlm, (place_concat l u).symm⟩

/-- The pointers lead from a node of the list to the head. -/
theorem OnSoft.leads (hw : WellFormed level s) (h : OnSoft level s x) :
    ∃ k, s.links.next^[k] x = .head (.soft, level - 1) := by
  obtain ⟨l, m, hlm, rfl⟩ := h.split
  clear h
  induction m generalizing l with
  | nil => exact ⟨1, hw.next_mem hlm⟩
  | cons v m ih =>
    obtain ⟨k, hk⟩ := ih (l ++ [v]) (by simpa using hlm)
    refine ⟨k + 1, ?_⟩
    rw [Function.iterate_succ_apply, hw.next_mem hlm]
    rw [place_concat] at hk
    exact hk

/-- The node behind a timer of the list is another one. -/
theorem next_soft (hs : Shape level s) (ht : t ∈ lastRow level s .soft) :
    OnSoft level s (s.links.next (.item (t, level - 1))) ∧
      s.links.next (.item (t, level - 1)) ≠ .item (t, level - 1) := by
  obtain ⟨l, m, hlm⟩ := List.append_of_mem ht
  have hn := hs.wellFormed.next_mem (l := l ++ [t]) (m := m) (by simpa using hlm)
  have hnd := hs.wellFormed.nodup .soft
  rw [place_concat] at hn
  rw [hn]
  cases m with
  | nil => exact ⟨.inl rfl, by simp⟩
  | cons v m =>
    refine ⟨.inr ⟨v, by rw [hlm]; simp, rfl⟩, fun he => ?_⟩
    obtain ⟨rfl, -⟩ := Prod.mk.inj (item_injective he)
    rw [hlm] at hnd
    grind

/-- The saved node is not that of the timer whose function runs. -/
structure SoftInv (level : Nat) (s : State n) : Prop where
  shape : Shape level s
  scan : SoftOk level s
  saved : ∀ t x, s.softCheck = .callback t x → x ≠ .item (t, level - 1)

theorem OnSoft.congr (h : OnSoft level s x) (hl : s'.links = s.links) : OnSoft level s' x := by
  rw [OnSoft, lastRow_congr hl]
  exact h

namespace SoftInv

theorem congr (h : SoftInv level s) (hs : Shape level s') (hl : s'.links = s.links)
    (hc : s'.softCheck = s.softCheck) : SoftInv level s' := by
  refine ⟨hs, fun c x hx => ?_, fun t x hx => ?_⟩
  · rw [hc] at hx
    exact (h.scan c x hx).congr hl
  · rw [hc] at hx
    exact h.saved t x hx

/-- A timer is taken off that the scan is not at. -/
theorem removed (h : SoftInv level s) (hs : Shape level s')
    (hl : s'.links = rtTimerRemove s.links t level) (hc : s'.softCheck = s.softCheck)
    (ht : ∀ c, s.softCheck = .scan c (.item (t, level - 1)) → t ∉ lastRow level s .soft) :
    SoftInv level s' := by
  refine ⟨hs, fun c x hx => ?_, fun u x hx => ?_⟩
  · rw [hc] at hx
    rcases h.scan c x hx with rfl | ⟨u, hu, rfl⟩
    · exact .inl rfl
    · have hut : u ≠ t := by
        rintro rfl
        exact ht c hx hu
      exact .inr ⟨u, (h.shape.wellFormed.mem_removed hl).mpr ⟨hut, hu⟩, rfl⟩
  · rw [hc] at hx
    exact h.saved u x hx

/-- A timer that is started may be the one that the scan is at. -/
theorem start (h : SoftInv level s) (hl : 0 < level) (hs : rtTimerStart level s t = some s') :
    SoftInv level s' := by
  obtain ⟨l, m, hst⟩ := h.shape.wellFormed.start hl hs
  refine ⟨h.shape.start hl hs, fun c x hx => ?_, fun u x hx => ?_⟩
  · rw [hst.softCheck] at hx
    rcases h.scan c x hx with rfl | ⟨u, hu, rfl⟩
    · exact .inl rfl
    · refine .inr ⟨u, ?_, rfl⟩
      by_cases hut : u = t
      · subst hut
        exact (hst.self .soft).mpr (h.shape.list .soft u hu).symm
      · exact (hst.mem u .soft hut).mpr hu
  · rw [hst.softCheck] at hx
    exact h.saved u x hx

theorem softReturn (h : SoftInv level s) (hl : 0 < level) (hs : Shape level s')
    (hc : ∀ t x, s.softCheck = .callback t x → OnSoft level s x)
    (hr : softReturn level s = some s') : SoftInv level s' := by
  obtain ⟨t, node, s1, hi, hd, rfl⟩ := softReturn_some hr
  refine ⟨hs, fun c x hx => ?_, fun u x hx => (by cases hx)⟩
  obtain ⟨-, rfl⟩ := SoftCheck.scan.inj hx
  have hon := hc t node hi
  rcases timeoutDone_cases hd with ⟨-, -, hst⟩ | ⟨-, rfl⟩
  · obtain ⟨l, m, hst⟩ := h.shape.wellFormed.start hl hst
    rcases hon with rfl | ⟨u, hu, rfl⟩
    · exact .inl rfl
    · have hut : u ≠ t := fun he => h.saved t _ hi (by rw [he])
      exact .inr ⟨u, (hst.mem u .soft hut).mpr hu, rfl⟩
  · exact hon.congr rfl

theorem step (h : SoftInv level s) (hl : 0 < level) {a : Act n} (hc : SavedOk level s a)
    (hs : step level s a = some s') : SoftInv level s' := by
  have hsh := h.shape.step hl hs
  cases a with
  | tickIncrease =>
    rw [← Option.some.inj hs] at hsh ⊢
    exact h.congr hsh rfl rfl
  | start t => exact h.start hl hs
  | stop t =>
    rw [← Option.some.inj hs] at hsh ⊢
    by_cases ha : (s.timer t).activated = true
    · rw [rtTimerStop, if_pos ha] at hsh ⊢
      exact h.removed hsh rfl rfl fun c hx => absurd hx (hc.2 t rfl ha c)
    · rw [rtTimerStop, if_neg ha]
      exact h
  | control t cmd =>
    rw [← Option.some.inj hs] at hsh ⊢
    rw [Shape.control_eq] at hsh ⊢
    exact h.congr hsh rfl rfl
  | checkEnter =>
    simp only [Timer.step] at hs
    split at hs
    · rw [← Option.some.inj hs] at hsh ⊢
      exact h.congr hsh rfl rfl
    · cases hs
  | checkFire =>
    obtain ⟨currentTick, t, r, -, hn, -, rfl⟩ := checkFire_some hs
    obtain ⟨-, l, hq⟩ := h.shape.wellFormed.next_head hn
    have ht := h.shape.list .hard t (by rw [hq]; exact List.mem_cons_self)
    refine h.removed hsh rfl rfl fun c _ hm => ?_
    have hts := h.shape.list .soft t hm
    rw [ht] at hts
    cases hts
  | checkReturn =>
    obtain ⟨t, s1, -, hd, rfl⟩ := checkReturn_some hs
    have h1 : SoftInv level s1 := by
      rcases timeoutDone_cases hd with ⟨-, -, hst⟩ | ⟨-, rfl⟩
      · exact h.start hl hst
      · exact h.congr (h.shape.timeoutDone hl hd) rfl rfl
    exact h1.congr hsh rfl rfl
  | checkLeave =>
    obtain ⟨-, rfl⟩ := checkLeave_some hs
    exact h.congr hsh rfl rfl
  | softEnter =>
    simp only [Timer.step] at hs
    split at hs
    · rw [← Option.some.inj hs] at hsh ⊢
      refine ⟨hsh, fun c x hx => ?_, fun u x hx => (by cases hx)⟩
      obtain ⟨-, rfl⟩ := SoftCheck.scan.inj hx
      cases hr : lastRow level s .soft with
      | nil => exact .inl (h.shape.wellFormed.next_mem (l := []) hr)
      | cons v m =>
        have hv : v ∈ lastRow level s .soft := by
          rw [hr]
          exact List.mem_cons_self
        exact .inr ⟨v, hv, h.shape.wellFormed.next_mem (l := []) hr⟩
    · cases hs
  | softFire =>
    obtain ⟨currentTick, t, r, hi, -, rfl⟩ := softFire_some hs
    refine ⟨hsh, fun c x hx => (by cases hx), fun u x hx => ?_⟩
    obtain ⟨rfl, rfl⟩ := SoftCheck.callback.inj hx
    rcases h.scan _ _ hi with he | ⟨v, hv, he⟩
    · cases he
    · obtain ⟨rfl, rfl⟩ := Prod.mk.inj (item_injective he)
      exact (next_soft h.shape hv).2
  | softReturn => exact h.softReturn hl hsh (hc.1 rfl) hs
  | softLeave =>
    obtain ⟨-, rfl⟩ := softLeave_some hs
    exact ⟨hsh, fun c x hx => (by cases hx), fun u x hx => (by cases hx)⟩

/-- A step that does not meet the condition leaves the scan at a node that is on no list. -/
theorem lose (h : SoftInv level s) (hl : 0 < level) {a : Act n} (hc : ¬ SavedOk level s a)
    (hs : Timer.step level s a = some s') : ¬ SoftOk level s' := by
  rw [SavedOk, not_and_or] at hc
  rcases hc with hc | hc
  · simp only [not_forall, exists_prop] at hc
    obtain ⟨rfl, t, x, hi, hx⟩ := hc
    obtain ⟨t', x', s1, hi', hd, rfl⟩ := softReturn_some hs
    rw [hi] at hi'
    obtain ⟨rfl, rfl⟩ := SoftCheck.callback.inj hi'
    intro hok
    refine hx ?_
    rcases hok _ _ rfl with rfl | ⟨u, hu, rfl⟩
    · exact .inl rfl
    · have hut : u ≠ t := fun he => h.saved t _ hi (by rw [he])
      refine .inr ⟨u, ?_, rfl⟩
      rcases timeoutDone_cases hd with ⟨-, -, hst⟩ | ⟨-, rfl⟩
      · obtain ⟨l, m, hst⟩ := h.shape.wellFormed.start hl hst
        exact (hst.mem u .soft hut).mp hu
      · exact hu
  · simp only [not_forall, exists_prop, not_not] at hc
    obtain ⟨u, rfl, ha, c, hi⟩ := hc
    rw [← Option.some.inj hs, rtTimerStop, if_pos ha]
    intro hok
    rcases hok c (.item (u, level - 1)) hi with he | ⟨v, hv, he⟩
    · cases he
    · obtain ⟨rfl, -⟩ := Prod.mk.inj (item_injective he)
      have hrm : (deactivate level s u).links = rtTimerRemove s.links u level := rfl
      exact ((h.shape.wellFormed.mem_removed hrm).mp hv).1 rfl

theorem init (time : Fin n → Tick) (periodic soft : Fin n → Bool) (tick : Tick)
    (randomNr : BitVec 32) : SoftInv level (State.init time periodic soft tick randomNr) :=
  ⟨Shape.init time periodic soft tick randomNr, fun _ _ hx => (by cases hx),
    fun _ _ hx => (by cases hx)⟩

/-- The timer whose function is called is on the list, and due. -/
theorem fired (h : SoftInv level s) (hs : softFire level s = some s') :
    ∃ currentTick t x, s.softCheck = .scan currentTick (.item (t, level - 1)) ∧
      t ∈ lastRow level s .soft ∧ Due s currentTick t ∧ s'.softCheck = .callback t x := by
  obtain ⟨currentTick, t, r, hi, hd, rfl⟩ := softFire_some hs
  rcases h.scan _ _ hi with he | ⟨v, hv, he⟩
  · cases he
  · obtain ⟨rfl, rfl⟩ := Prod.mk.inj (item_injective he)
    exact ⟨currentTick, t, _, hi, hv, hd, rfl⟩

end SoftInv

/-! ## A timer that was stopped -/

/-- On no list, and the flag is not set. -/
def Off (level : Nat) (s : State n) (u : Fin n) : Prop :=
  (s.timer u).activated = false ∧ ¬ Linked level s u

theorem Off.congr (h : Off level s u) (hl : s'.links = s.links)
    (ha : (s'.timer u).activated = (s.timer u).activated) : Off level s' u := by
  refine ⟨ha.trans h.1, fun hu => h.2 ((linked_congr hl).mp hu)⟩

theorem Off.removed (hw : WellFormed level s) (h : Off level s u)
    (hl : s'.links = rtTimerRemove s.links t level)
    (ha : (s'.timer u).activated = (s.timer u).activated) : Off level s' u := by
  refine ⟨ha.trans h.1, fun hu => h.2 ((hw.linked_removed hl).mp hu).2⟩

theorem Off.start (hw : WellFormed level s) (hl : 0 < level) (h : Off level s u) (hut : u ≠ t)
    (hs : rtTimerStart level s t = some s') : Off level s' u := by
  obtain ⟨l, m, hst⟩ := hw.start hl hs
  refine ⟨?_, fun hu => h.2 ((hst.linked_of_ne hut).mp hu)⟩
  rw [hst.timer, if_neg hut]
  exact h.1

/-- The end of a timeout function does not start a timer that is off. -/
theorem Off.timeoutDone (hw : WellFormed level s) (hl : 0 < level) (h : Off level s u)
    (hd : timeoutDone level s t = some s') : Off level s' u := by
  rcases timeoutDone_cases hd with ⟨-, ha, hst⟩ | ⟨-, rfl⟩
  · refine h.start hw hl ?_ hst
    rintro rfl
    rw [h.1] at ha
    cases ha
  · refine ⟨?_, h.2⟩
    rw [setActivated_timer]
    split
    · rfl
    · exact h.1

theorem Off.step (hw : WellFormed level s) (hl : 0 < level) (h : Off level s u) {a : Act n}
    (ha : a ≠ .start u) (hs : step level s a = some s') : Off level s' u := by
  cases a with
  | tickIncrease =>
    rw [← Option.some.inj hs]
    exact h.congr rfl rfl
  | start t => exact h.start hw hl (fun he => ha (by rw [he])) hs
  | stop t =>
    rw [← Option.some.inj hs, rtTimerStop]
    split
    · next hat =>
      refine h.removed (t := t) hw rfl ?_
      rw [deactivate_timer, if_neg]
      rintro rfl
      rw [h.1] at hat
      cases hat
    · exact h
  | control t cmd =>
    rw [← Option.some.inj hs]
    refine h.congr (by rw [Shape.control_eq]) ?_
    cases cmd <;> simp only [rtTimerControl, State.setTimer, Function.update_apply]
    all_goals
      split
      · next hu => rw [hu]
      · rfl
  | checkEnter | softEnter =>
    simp only [Timer.step] at hs
    split at hs
    · rw [← Option.some.inj hs]
      exact h.congr rfl rfl
    · cases hs
  | checkFire =>
    obtain ⟨currentTick, t, r, -, -, -, rfl⟩ := checkFire_some hs
    exact h.removed hw rfl rfl
  | checkReturn =>
    obtain ⟨t, s1, -, hd, rfl⟩ := checkReturn_some hs
    exact (h.timeoutDone hw hl hd).congr rfl rfl
  | checkLeave =>
    obtain ⟨-, rfl⟩ := checkLeave_some hs
    exact h.congr rfl rfl
  | softFire =>
    obtain ⟨currentTick, t, r, -, -, rfl⟩ := softFire_some hs
    exact h.removed hw rfl rfl
  | softReturn =>
    obtain ⟨t, node, s1, -, hd, rfl⟩ := softReturn_some hs
    exact (h.timeoutDone hw hl hd).congr rfl rfl
  | softLeave =>
    obtain ⟨-, rfl⟩ := softLeave_some hs
    exact h.congr rfl rfl

/-- A timer that `rt_timer_stop` has stopped is off. -/
theorem off_of_stop (hw : WellFormed level s) (ha : (s.timer u).activated = true) :
    Off level (rtTimerStop level s u).2 u := by
  rw [rtTimerStop, if_pos ha]
  constructor
  · rw [deactivate_timer, if_pos rfl]
  · intro hu
    have hrm : (deactivate level s u).links = rtTimerRemove s.links u level := rfl
    exact ((hw.linked_removed hrm).mp hu).1 rfl

/-- It stays so up to its next start. -/
theorem Off.exec (hl : 0 < level) {as : List (Act n)} (hs : Shape level s) (h : Off level s u)
    (ha : .start u ∉ as) (hx : exec (Timer.step level) s as = some s') : Off level s' u := by
  induction as generalizing s with
  | nil =>
    rw [exec_nil] at hx
    rw [← Option.some.inj hx]
    exact h
  | cons a as ih =>
    obtain ⟨s1, hs1, hx⟩ := exec_cons_some hx
    rw [List.mem_cons, not_or] at ha
    exact ih (hs.step hl hs1) (h.step hs.wellFormed hl (Ne.symm ha.1) hs1) ha.2 hx

/-! ## Every run -/

section Run

variable {time : Fin n → Tick} {periodic soft : Fin n → Bool} {tick : Tick} {randomNr : BitVec 32}

/-- The scan is on the soft list throughout a run if and only if each saved node is still there at
the return of the timeout function. Then what it calls is linked and due, its pointers lead to the
head, and a timer that was stopped keeps its flag cleared and is not called. -/
theorem soft_scan_iff (hl : 0 < level) {as : List (Act n)}
    (hx : exec (step level) (State.init time periodic soft tick randomNr) as = some s) :
    (Along (step level) (SavedOk level) (State.init time periodic soft tick randomNr) as ↔
      Visits (step level) (SoftOk level) (State.init time periodic soft tick randomNr) as) ∧
    (Along (step level) (SavedOk level) (State.init time periodic soft tick randomNr) as →
      (∀ s', softFire level s = some s' → ∃ currentTick t x,
        s.softCheck = .scan currentTick (.item (t, level - 1)) ∧ t ∈ lastRow level s .soft ∧
          Due s currentTick t ∧ s'.softCheck = .callback t x) ∧
      (∀ currentTick x, s.softCheck = .scan currentTick x →
        ∃ k, s.links.next^[k] x = .head (.soft, level - 1)) ∧
      ∀ u bs s', (rtTimerStop level s u).1 = rtEok → .start u ∉ bs →
        exec (step level) s (.stop u :: bs) = some s' →
        Along (step level) (SavedOk level) s (.stop u :: bs) →
        (s'.timer u).activated = false ∧ ¬ Linked level s' u ∧
          ∀ s'' x, softFire level s' = some s'' → s''.softCheck ≠ .callback u x) := by
  constructor
  · exact along_iff_visits (fun _ hi => hi.scan) (fun _ _ _ hi ha hs => hi.step hl ha hs)
      (fun _ _ _ hi ha hs => hi.lose hl ha hs) hx (SoftInv.init ..)
  · intro hc
    have hkeep : ∀ (s : State n) (a : Act n) (s' : State n), SoftInv level s → SavedOk level s a →
        step level s a = some s' → SoftInv level s' := fun _ _ _ hi ha hs => hi.step hl ha hs
    have hi : SoftInv level s := hc.inv hkeep hx (SoftInv.init ..)
    refine ⟨fun s' hs => hi.fired hs, fun c x hs => (hi.scan c x hs).leads hi.shape.wellFormed,
      fun u bs s' ha hu hx' hc' => ?_⟩
    have ha' : (s.timer u).activated = true := by
      by_contra hn
      rw [rtTimerStop, if_neg hn] at ha
      exact absurd (show -rtError = rtEok from ha) (by decide)
    obtain ⟨s1, hs1, hx1⟩ := exec_cons_some hx'
    have hoff : Off level s' u := by
      refine Off.exec hl (hi.shape.step hl hs1) ?_ hu hx1
      rw [← Option.some.inj hs1]
      exact off_of_stop hi.shape.wellFormed ha'
    have hi' : SoftInv level s' := hc'.inv hkeep hx' hi
    refine ⟨hoff.1, hoff.2, fun s'' x hf hcb => hoff.2 ?_⟩
    obtain ⟨c, t, x', -, ht, -, hcb'⟩ := hi'.fired hf
    rw [hcb'] at hcb
    rw [← (SoftCheck.callback.inj hcb).1]
    exact linked_iff.mpr ⟨.soft, ht⟩

end Run

/-- Two soft timers of one tick. -/
def twoSoft : State 2 :=
  State.init (fun _ => 1#32) (fun _ => false) (fun _ => true) 0#32 0#32

/-- The function of the first timer starts it again; the scan goes on to the second one. -/
theorem soft_scan_sample : ∃ s s', exec (step 1) twoSoft
      [.start 0, .start 1, .tickIncrease, .softEnter, .softFire, .start 0, .softReturn] = some s ∧ softFire 1 s = some s' ∧ ∃ currentTick t x,
        s.softCheck = .scan currentTick (.item (t, 0)) ∧ t ∈ lastRow 1 s .soft ∧
          Due s currentTick t ∧ s'.softCheck = .callback t x := by
  have hx : ((exec (step 1) twoSoft
      [.start 0, .start 1, .tickIncrease, .softEnter, .softFire, .start 0, .softReturn]).bind
      fun s => (softFire 1 s).map fun _ => ()) = some () := by decide +kernel
  obtain ⟨s, hx, hs⟩ := Option.bind_eq_some_iff.mp hx
  obtain ⟨s', hs, -⟩ := Option.map_eq_some_iff.mp hs
  exact ⟨s, s', hx, hs, ((soft_scan_iff (by decide) hx).2 (by decide +kernel)).1 s' hs⟩

/-- The function of the first timer stops the second one, which is called nevertheless. Behind its
node is the node itself: the scan calls it again. -/
theorem stopped_timer_runs : ∃ s s', exec (step 1) twoSoft
      [.start 0, .start 1, .tickIncrease, .softEnter, .softFire, .stop 1, .softReturn] = some s ∧ softFire 1 s = some s' ∧ (s.timer 1).activated = false ∧ ¬ Linked 1 s 1 ∧
    s'.softCheck = .callback 1 (.item (1, 0)) := by
  have hx : (exec (step 1) twoSoft
      [.start 0, .start 1, .tickIncrease, .softEnter, .softFire, .stop 1, .softReturn]).map
      (fun s => ((s.timer 1).activated, decide (Linked 1 s 1),
        (softFire 1 s).map fun s' => s'.softCheck)) =
      some (false, false, some (.callback 1 (.item (1, 0)))) := by decide +kernel
  obtain ⟨s, hx, ho⟩ := Option.map_eq_some_iff.mp hx
  simp only [Prod.mk.injEq, decide_eq_false_iff_not] at ho
  obtain ⟨s', hs, hcb⟩ := Option.map_eq_some_iff.mp ho.2.2
  exact ⟨s, s', hx, hs, ho.1, ho.2.1, hcb⟩

end Tudu.Timer
