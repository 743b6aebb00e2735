import TuduOS.Kernel.TimerRows

/-!
# The steps of the timers

* What each step is: `checkFire_some`, `checkReturn_some` and the others.
* `lastRow`: the timers of a list, and what each call leaves of it.
* `Shape`: the rows are well formed, a timer is on the list of its flag, and a scan is on its own
  list. Every step keeps it (`Shape.step`), whatever the timeout functions do.
-/

namespace Tudu.Timer

open Circular Lts

variable {n : Nat} {level : Nat} {s s' : State n} {t u : Fin n} {q : TimerList}

/-! ## The steps of the scans -/

theorem checkFire_some (h : checkFire level s = some s') : ∃ currentTick t r,
    s.check = .scan currentTick ∧ s.links.next (.head (.hard, level - 1)) = .item (t, r) ∧
      Due s currentTick t ∧
      s' = { s with links := rtTimerRemove s.links t level, check := .callback t } := by
  unfold checkFire at h
  split at h
  · next currentTick hc =>
    split at h
    · next t r hn =>
      split at h
      · next hd => exact ⟨currentTick, t, r, hc, hn, hd, (Option.some.inj h).symm⟩
      · cases h
    · cases h
  · cases h

theorem checkReturn_some (h : checkReturn level s = some s') : ∃ t s1,
    s.check = .callback t ∧ timeoutDone level s t = some s1 ∧
      s' = { s1 with check := .scan s.tick } := by
  unfold checkReturn at h
  split at h
  · next t hc =>
    obtain ⟨s1, h1, h2⟩ := Option.map_eq_some_iff.mp h
    exact ⟨t, s1, hc, h1, h2.symm⟩
  · cases h

theorem checkLeave_some (h : checkLeave level s = some s') :
    (∃ currentTick, s.check = .scan currentTick) ∧ s' = { s with check := .idle } := by
  unfold checkLeave at h
  split at h
  · next currentTick hc =>
    split at h
    · split at h
      · cases h
      · exact ⟨⟨currentTick, hc⟩, (Option.some.inj h).symm⟩
    · exact ⟨⟨currentTick, hc⟩, (Option.some.inj h).symm⟩
  · cases h

theorem softFire_some (h : softFire level s = some s') : ∃ currentTick t r,
    s.softCheck = .scan currentTick (.item (t, r)) ∧ Due s currentTick t ∧
      s' = { s with
        softCheck := .callback t (s.links.next (.item (t, r)))
        links := rtTimerRemove s.links t level } := by
  unfold softFire at h
  split at h
  · next currentTick t r hc =>
    split at h
    · next hd => exact ⟨currentTick, t, r, hc, hd, (Option.some.inj h).symm⟩
    · cases h
  · cases h

theorem softReturn_some (h : softReturn level s = some s') : ∃ t node s1,
    s.softCheck = .callback t node ∧ timeoutDone level s t = some s1 ∧
      s' = { s1 with softCheck := .scan s.tick node } := by
  unfold softReturn at h
  split at h
  · next t node hc =>
    obtain ⟨s1, h1, h2⟩ := Option.map_eq_some_iff.mp h
    exact ⟨t, node, s1, hc, h1, h2.symm⟩
  · cases h

theorem softLeave_some (h : softLeave s = some s') :
    (∃ currentTick node, s.softCheck = .scan currentTick node) ∧
      s' = { s with softCheck := .idle } := by
  unfold softLeave at h
  split at h
  · next currentTick t r hc =>
    split at h
    · cases h
    · exact ⟨⟨currentTick, _, hc⟩, (Option.some.inj h).symm⟩
  · next currentTick q hc => exact ⟨⟨currentTick, _, hc⟩, (Option.some.inj h).symm⟩
  · cases h

instance (c : SoftCheck n) (P : Fin n → RowNode n → Prop) [∀ t x, Decidable (P t x)] :
    Decidable (∀ t x, c = .callback t x → P t x) :=
  match c with
  | .callback t x => decidable_of_iff (P t x)
      ⟨fun h t' x' he => by obtain ⟨rfl, rfl⟩ := SoftCheck.callback.inj he; exact h,
        fun h => h t x rfl⟩
  | .idle => isTrue fun _ _ he => by cases he
  | .scan _ _ => isTrue fun _ _ he => by cases he

instance (c : SoftCheck n) (y : RowNode n) : Decidable (∀ currentTick, c ≠ .scan currentTick y) :=
  match c with
  | .scan tick x => decidable_of_iff (x ≠ y)
      ⟨fun h tick' he => h (SoftCheck.scan.inj he).2, fun h he => h tick (by rw [he])⟩
  | .idle => isTrue fun _ he => by cases he
  | .callback _ _ => isTrue fun _ he => by cases he

/-! ## The timers of a list -/

/-- The timers of a list. -/
def lastRow (level : Nat) (s : State n) (q : TimerList) : List (Fin n) := row s.links q (level - 1)

theorem linked_iff : Linked level s t ↔ ∃ q, t ∈ lastRow level s q := by
  constructor
  · rintro (ht | ht)
    · exact ⟨.hard, ht⟩
    · exact ⟨.soft, ht⟩
  · rintro ⟨q, ht⟩
    cases q with
    | hard => exact .inl ht
    | soft => exact .inr ht

theorem lastRow_congr (h : s'.links = s.links) (q : TimerList) :
    lastRow level s' q = lastRow level s q := by
  simp only [lastRow, h]

theorem linked_congr (h : s'.links = s.links) : Linked level s' t ↔ Linked level s t := by
  simp only [Linked, h]

/-- The pointers are rows. -/
def WellFormed (level : Nat) (s : State n) : Prop := Rows level s.links (row s.links)

theorem Rows.wellFormed {ρ : TimerList → Nat → List (Fin n)} (h : Rows level s.links ρ) :
    WellFormed level s := by
  have he : row s.links = ρ := by
    funext q r
    exact h.row_eq q r
  rw [WellFormed, he]
  exact h

namespace WellFormed

theorem removed (h : WellFormed level s) (hl : s'.links = rtTimerRemove s.links t level) :
    WellFormed level s' ∧ ∀ q, lastRow level s' q = (lastRow level s q).erase t := by
  have hr := h.remove t
  rw [← hl] at hr
  exact ⟨hr.wellFormed, fun q => hr.row_eq q _⟩

theorem nodup (h : WellFormed level s) (q : TimerList) : (lastRow level s q).Nodup :=
  nodup_of_rings h.rings q _

theorem mem_removed (h : WellFormed level s) (hl : s'.links = rtTimerRemove s.links t level) :
    u ∈ lastRow level s' q ↔ u ≠ t ∧ u ∈ lastRow level s q := by
  rw [(h.removed hl).2, (h.nodup q).mem_erase_iff]

theorem linked_removed (h : WellFormed level s) (hl : s'.links = rtTimerRemove s.links t level) :
    Linked level s' u ↔ u ≠ t ∧ Linked level s u := by
  rw [linked_iff, linked_iff]
  simp only [h.mem_removed hl, exists_and_left]

/-- What `rt_timer_start` leaves. -/
structure Start (level : Nat) (s : State n) (t : Fin n) (s' : State n) (l m : List (Fin n)) :
    Prop where
  state : ∃ links, s' = started level s t links
  wellFormed : WellFormed level s'
  split : (lastRow level s (timerList s t)).erase t = l ++ m
  gap : Gap (fun u => Skips s (s.tick + (s.timer t).initTick) u) l m
  last : lastRow level s' (timerList s t) = l ++ t :: m
  other : ∀ q, q ≠ timerList s t → lastRow level s' q = (lastRow level s q).erase t
  mem : ∀ u q, u ≠ t → (u ∈ lastRow level s' q ↔ u ∈ lastRow level s q)
  self : ∀ q, t ∈ lastRow level s' q ↔ q = timerList s t

theorem start (h : WellFormed level s) (hl : 0 < level) (hs : rtTimerStart level s t = some s') :
    ∃ l m, Start level s t s' l m := by
  obtain ⟨links, ρ', l, m, hst, hin⟩ := rtTimerStart_spec h hl (rtTimerStart_some hs)
  rw [hst] at hs
  have hs' : s' = started level s t links := (Option.some.inj hs).symm
  have hr : Rows level s'.links ρ' := by
    rw [hs']
    exact hin.rows
  have he : ∀ q, lastRow level s' q = ρ' q (level - 1) := fun q => hr.row_eq q _
  refine ⟨l, m, ⟨links, hs'⟩, hr.wellFormed, hin.split, hin.gap, ?_, fun q hq => ?_,
    fun u q hu => ?_, fun q => ?_⟩
  · rw [he, hin.last]
  · rw [he, hin.other q hq]
    rfl
  · rw [he, hin.mem_iff hu]
    exact Iff.rfl
  · rw [he, hin.mem_self_iff]

/-- A start has a next state if the time of the timer is below the limit. -/
theorem exists_start (h : WellFormed level s) (hl : 0 < level)
    (hi : (s.timer t).initTick < rtTickMaxHalf) : ∃ s', rtTimerStart level s t = some s' := by
  obtain ⟨links, -, -, -, hst, -⟩ := rtTimerStart_spec h hl hi
  exact ⟨_, hst⟩

namespace Start

variable {l m : List (Fin n)}

theorem timer (h : Start level s t s' l m) : s'.timer u =
    if u = t then { s.timer t with
      activated := true, timeoutTick := s.tick + (s.timer t).initTick } else s.timer u := by
  obtain ⟨links, rfl⟩ := h.state
  exact started_timer

theorem tick (h : Start level s t s' l m) : s'.tick = s.tick := by
  obtain ⟨links, rfl⟩ := h.state
  rfl

theorem check (h : Start level s t s' l m) : s'.check = s.check := by
  obtain ⟨links, rfl⟩ := h.state
  rfl

theorem softCheck (h : Start level s t s' l m) : s'.softCheck = s.softCheck := by
  obtain ⟨links, rfl⟩ := h.state
  rfl

theorem softTimer (h : Start level s t s' l m) (u : Fin n) : timerList s' u = timerList s u := by
  refine timerList_congr ?_
  rw [h.timer]
  split
  · next hu => rw [hu]
  · rfl

theorem linked_self (h : Start level s t s' l m) : Linked level s' t :=
  linked_iff.mpr ⟨_, (h.self _).mpr rfl⟩

theorem linked_of_ne (h : Start level s t s' l m) (hu : u ≠ t) :
    Linked level s' u ↔ Linked level s u := by
  rw [linked_iff, linked_iff]
  exact exists_congr fun q => h.mem u q hu

end Start

end WellFormed

/-! ## The shape of the lists -/

/-- `rt_soft_timer_check` is at the node `x`, or goes on there after the timeout function. -/
def SoftAt (s : State n) (x : RowNode n) : Prop :=
  (∃ currentTick, s.softCheck = .scan currentTick x) ∨ ∃ t, s.softCheck = .callback t x

/-- A node of the soft list, or that of a soft timer that is on no list. -/
def SoftNode (level : Nat) (s : State n) (x : RowNode n) : Prop :=
  x = .head (.soft, level - 1) ∨ ∃ t, x = .item (t, level - 1) ∧ timerList s t = .soft

structure Shape (level : Nat) (s : State n) : Prop where
  wellFormed : WellFormed level s
  list : ∀ q t, t ∈ lastRow level s q → timerList s t = q
  hard : ∀ t, s.check = .callback t → timerList s t = .hard
  soft : ∀ t node, s.softCheck = .callback t node → timerList s t = .soft
  node : ∀ x, SoftAt s x → SoftNode level s x

theorem SoftNode.congr {x : RowNode n} (h : SoftNode level s x)
    (hu : ∀ u, timerList s' u = timerList s u) : SoftNode level s' x := by
  rcases h with rfl | ⟨t, rfl, ht⟩
  · exact .inl rfl
  · exact .inr ⟨t, rfl, (hu t).trans ht⟩

theorem WellFormed.next_head (h : WellFormed level s) {x : Fin n × Nat}
    (hn : s.links.next (.head (q, level - 1)) = .item x) :
    x.2 = level - 1 ∧ ∃ l, lastRow level s q = x.1 :: l := by
  have hq := h.row_eq q (level - 1)
  cases hr : row s.links q (level - 1) with
  | nil =>
    have he := next_place_nil h.rings (l := []) hr
    rw [place_nil, hn] at he
    cases he
  | cons t l =>
    have he := next_place_cons (l := []) h.rings hr
    rw [place_nil, hn] at he
    obtain ⟨rfl⟩ := item_injective he
    exact ⟨rfl, l, hr⟩

/-- The node behind the head, or behind a timer. -/
theorem WellFormed.next_mem (h : WellFormed level s) {l m : List (Fin n)}
    (hq : lastRow level s q = l ++ m) :
    s.links.next (place q (level - 1) l) = (m.head?).elim (.head (q, level - 1))
      fun t => .item (t, level - 1) := by
  cases m with
  | nil =>
    rw [List.append_nil] at hq
    exact next_place_nil h.rings hq
  | cons t m => exact next_place_cons h.rings hq

theorem WellFormed.next_alone (h : WellFormed level s) (ht : ¬ Linked level s t) (r : Nat) :
    s.links.next (.item (t, r)) = .item (t, r) := by
  refine (isRing_nil.mp (h.rings.alone (t, r) fun p hp => ht ?_)).1
  obtain ⟨-, hm⟩ := mem_ringOf.mp hp
  exact h.linked_iff.mpr ⟨p.1, h.mem_last hm⟩

namespace Shape

/-- The steps that leave the pointers and the kind of the timers as they are. -/
theorem congr (h : Shape level s) (hl : s'.links = s.links)
    (hu : ∀ u, timerList s' u = timerList s u)
    (hc : ∀ t, s'.check = .callback t → s.check = .callback t)
    (hs : ∀ t x, s'.softCheck = .callback t x → s.softCheck = .callback t x)
    (hx : ∀ x, SoftAt s' x → SoftNode level s x) : Shape level s' := by
  refine ⟨?_, fun q t ht => ?_, fun t ht => ?_, fun t x ht => ?_, fun x hsx => ?_⟩
  · rw [WellFormed, hl]
    exact h.wellFormed
  · rw [lastRow_congr hl] at ht
    exact (hu t).trans (h.list q t ht)
  · exact (hu t).trans (h.hard t (hc t ht))
  · exact (hu t).trans (h.soft t x (hs t x ht))
  · exact (hx x hsx).congr hu

/-- A timer is taken off the lists. -/
theorem removed (h : Shape level s) (hl : s'.links = rtTimerRemove s.links t level)
    (hu : ∀ u, timerList s' u = timerList s u)
    (hc : ∀ t, s'.check = .callback t → timerList s t = .hard)
    (hs : ∀ t x, s'.softCheck = .callback t x → timerList s t = .soft)
    (hx : ∀ x, SoftAt s' x → SoftNode level s x) : Shape level s' := by
  refine ⟨(h.wellFormed.removed hl).1, fun q u hm => ?_, fun u hcu => ?_, fun u x hsu => ?_,
    fun x hsx => ?_⟩
  · exact (hu u).trans (h.list q u ((h.wellFormed.mem_removed hl).mp hm).2)
  · exact (hu u).trans (hc u hcu)
  · exact (hu u).trans (hs u x hsu)
  · exact (hx x hsx).congr hu

theorem start (h : Shape level s) (hl : 0 < level) (hs : rtTimerStart level s t = some s') :
    Shape level s' := by
  obtain ⟨l, m, hst⟩ := h.wellFormed.start hl hs
  refine ⟨hst.wellFormed, fun q u hm => ?_, fun u hcu => ?_, fun u x hsu => ?_, fun x hsx => ?_⟩
  · rw [hst.softTimer]
    by_cases hut : u = t
    · rw [hut] at hm ⊢
      exact ((hst.self q).mp hm).symm
    · exact h.list q u ((hst.mem u q hut).mp hm)
  · rw [hst.check] at hcu
    exact (hst.softTimer u).trans (h.hard u hcu)
  · rw [hst.softCheck] at hsu
    exact (hst.softTimer u).trans (h.soft u x hsu)
  · rw [SoftAt, hst.softCheck] at hsx
    exact (h.node x hsx).congr hst.softTimer

theorem timerList_setActivated (b : Bool) (u : Fin n) :
    timerList (setActivated s t b) u = timerList s u := by
  refine timerList_congr ?_
  rw [setActivated_timer]
  split
  · next hu => rw [hu]
  · rfl

theorem timeoutDone (h : Shape level s) (hl : 0 < level)
    (hd : timeoutDone level s t = some s') : Shape level s' := by
  rcases timeoutDone_cases hd with ⟨-, -, hst⟩ | ⟨-, rfl⟩
  · exact h.start hl hst
  · exact h.congr rfl (timerList_setActivated false) (fun _ => id) (fun _ _ => id) h.node

theorem stop (h : Shape level s) (t : Fin n) : Shape level (rtTimerStop level s t).2 := by
  rw [rtTimerStop]
  split
  · exact h.removed rfl (fun u => timerList_setActivated (s := { s with links := _ }) false u)
      h.hard h.soft h.node
  · exact h

theorem timerList_control (cmd : TimerCtrl) (u : Fin n) :
    timerList (rtTimerControl s t cmd).2 u = timerList s u := by
  refine timerList_congr ?_
  cases cmd with
  | getTime => rfl
  | getState => rfl
  | setTime _ | setOneshot | setPeriodic =>
    simp only [rtTimerControl, State.setTimer, Function.update_apply]
    split
    · next hu => rw [hu]
    · rfl

/-- `rt_timer_control` sets the time and the kind of a timer, no more. -/
theorem control_eq (s : State n) (t : Fin n) (cmd : TimerCtrl) :
    (rtTimerControl s t cmd).2 = { s with timer := (rtTimerControl s t cmd).2.timer } := by
  cases cmd <;> rfl

theorem softFire (h : Shape level s) (hs : softFire level s = some s') : Shape level s' := by
  obtain ⟨currentTick, t, r, hc, -, rfl⟩ := softFire_some hs
  -- the node that the scan is at
  obtain ⟨hr, ht⟩ : r = level - 1 ∧ timerList s t = .soft := by
    rcases h.node _ (.inl ⟨currentTick, hc⟩) with he | ⟨v, he, hv⟩
    · cases he
    · obtain ⟨rfl, rfl⟩ := Prod.mk.inj (item_injective he)
      exact ⟨rfl, hv⟩
  subst hr
  refine h.removed (t := t) rfl (fun _ => rfl) h.hard (fun v x hv => ?_) fun x hx => ?_
  · obtain ⟨rfl, -⟩ := SoftCheck.callback.inj hv
    exact ht
  · obtain rfl : s.links.next (.item (t, level - 1)) = x := by
      rcases hx with ⟨c, hx⟩ | ⟨v, hx⟩
      · cases hx
      · exact (SoftCheck.callback.inj hx).2
    by_cases hlk : Linked level s t
    · obtain ⟨q, hq⟩ := linked_iff.mp hlk
      have hqs := h.list q t hq
      rw [ht] at hqs
      subst hqs
      obtain ⟨l, m, hlm⟩ := List.append_of_mem hq
      have hn := h.wellFormed.next_mem (l := l ++ [t]) (m := m) (by simpa using hlm)
      rw [place_concat] at hn
      rw [hn]
      cases m with
      | nil => exact .inl rfl
      | cons v m => exact .inr ⟨v, rfl, h.list _ v (by rw [hlm]; simp)⟩
    · rw [h.wellFormed.next_alone hlk]
      exact .inr ⟨t, rfl, ht⟩

theorem step (h : Shape level s) (hl : 0 < level) {a : Act n} (hs : step level s a = some s') :
    Shape level s' := by
  cases a with
  | tickIncrease =>
    rw [← Option.some.inj hs]
    exact h.congr rfl (fun _ => rfl) (fun _ => id) (fun _ _ => id) h.node
  | start t => exact h.start hl hs
  | stop t =>
    rw [← Option.some.inj hs]
    exact h.stop t
  | control t cmd =>
    rw [← Option.some.inj hs]
    have hu := timerList_control (s := s) (t := t) cmd
    rw [control_eq] at hu ⊢
    exact h.congr rfl hu (fun _ => id) (fun _ _ => id) h.node
  | checkEnter =>
    simp only [Timer.step] at hs
    split at hs
    · rw [← Option.some.inj hs]
      exact h.congr rfl (fun _ => rfl) (fun _ hc => by cases hc) (fun _ _ => id) h.node
    · cases hs
  | checkFire =>
    obtain ⟨currentTick, t, r, -, hn, -, rfl⟩ := checkFire_some hs
    obtain ⟨-, l, hq⟩ := h.wellFormed.next_head hn
    refine h.removed (t := t) rfl (fun _ => rfl) (fun v hv => ?_) h.soft h.node
    obtain rfl := Check.callback.inj hv
    exact h.list .hard t (by rw [hq]; exact List.mem_cons_self)
  | checkReturn =>
    obtain ⟨t, s1, -, hd, rfl⟩ := checkReturn_some hs
    have h1 := h.timeoutDone hl hd
    exact h1.congr rfl (fun _ => rfl) (fun _ hc => by cases hc) (fun _ _ => id) h1.node
  | checkLeave =>
    obtain ⟨-, rfl⟩ := checkLeave_some hs
    exact h.congr rfl (fun _ => rfl) (fun _ hc => by cases hc) (fun _ _ => id) h.node
  | softEnter =>
    simp only [Timer.step] at hs
    split at hs
    · rw [← Option.some.inj hs]
      refine h.congr rfl (fun _ => rfl) (fun _ => id) (fun _ _ hc => by cases hc) fun x hx => ?_
      obtain rfl : s.links.next (.head (.soft, level - 1)) = x := by
        rcases hx with ⟨c, hx⟩ | ⟨v, hx⟩
        · exact (SoftCheck.scan.inj hx).2
        · cases hx
      cases hr : lastRow level s .soft with
      | nil =>
        have hn := h.wellFormed.next_mem (l := []) hr
        exact .inl hn
      | cons v m =>
        have hn := h.wellFormed.next_mem (l := []) hr
        exact .inr ⟨v, hn, h.list _ v (by rw [hr]; exact List.mem_cons_self)⟩
    · cases hs
  | softFire => exact h.softFire hs
  | softReturn =>
    obtain ⟨t, node, s1, hc, hd, rfl⟩ := softReturn_some hs
    have h1 := h.timeoutDone hl hd
    have hnode : SoftNode level s1 node := by
      refine h1.node _ (.inr ⟨t, ?_⟩)
      rcases timeoutDone_cases hd with ⟨-, -, hst⟩ | ⟨-, rfl⟩
      · obtain ⟨l, m, hst⟩ := h.wellFormed.start hl hst
        rw [hst.softCheck, hc]
      · exact hc
    refine h1.congr rfl (fun _ => rfl) (fun _ => id) (fun _ _ hx => by cases hx) fun x hx => ?_
    obtain rfl : node = x := by
      rcases hx with ⟨c, hx⟩ | ⟨v, hx⟩
      · exact (SoftCheck.scan.inj hx).2
      · cases hx
    exact hnode
  | softLeave =>
    obtain ⟨-, rfl⟩ := softLeave_some hs
    refine h.congr rfl (fun _ => rfl) (fun _ => id) (fun _ _ hx => by cases hx) fun x hx => ?_
    rcases hx with ⟨c, hx⟩ | ⟨v, hx⟩ <;> cases hx

theorem init (time : Fin n → Tick) (periodic soft : Fin n → Bool) (tick : Tick)
    (randomNr : BitVec 32) : Shape level (State.init time periodic soft tick randomNr) := by
  have hr : Rows level (State.init time periodic soft tick randomNr).links fun _ _ => [] :=
    rows_init level
  refine ⟨hr.wellFormed, fun q t ht => ?_, fun t ht => ?_, fun t x ht => ?_, fun x hx => ?_⟩
  · rw [lastRow, hr.row_eq] at ht
    cases ht
  · cases ht
  · cases ht
  · rcases hx with ⟨c, hx⟩ | ⟨v, hx⟩ <;> cases hx

end Shape

end Tudu.Timer
