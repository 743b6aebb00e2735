import Mathlib.Data.Fintype.EquivFin
import TuduOS.Kernel.Timer

/-!
# The rows of the timer lists

* `Rows level links ρ`: the pointers are the rows `ρ`, and each row is a subsequence of the one
  below it. `Rows.row_eq`: what the pointers lead through is `ρ`.
* `Rows.remove`: `_rt_timer_remove` takes a timer off every row.
* `rowHeads_spec`: the search always ends. In each row it is between a part whose last timer is
  skipped and a part whose first one is not, and these parts grow from row to row.
* `insertTimer_spec`, `rtTimerStart_spec`: the last row after `rt_timer_start`.

Nothing here asks for sorted rows.
-/

namespace Tudu.Timer

open Circular

variable {n : Nat} {level : Nat} {links : Links (RowNode n)} {s : State n} {t u : Fin n}
  {q : TimerList} {r : Nat} {ρ : TimerList → Nat → List (Fin n)} {timeout : Tick}

/-- The nodes of a row. -/
def ringOf (ρ : TimerList → Nat → List (Fin n)) (p : TimerList × Nat) : List (Fin n × Nat) :=
  (ρ p.1 p.2).map fun t => (t, p.2)

theorem mem_ringOf {p : TimerList × Nat} {x : Fin n × Nat} :
    x ∈ ringOf ρ p ↔ x.2 = p.2 ∧ x.1 ∈ ρ p.1 p.2 := by
  obtain ⟨t, i⟩ := x
  simp only [ringOf, List.mem_map, Prod.mk.injEq]
  constructor
  · rintro ⟨v, hv, rfl, rfl⟩
    exact ⟨rfl, hv⟩
  · rintro ⟨rfl, hv⟩
    exact ⟨t, hv, rfl, rfl⟩

/-- The pointers are the rows `ρ`, and each row is a subsequence of the one below it. -/
structure Rows (level : Nat) (links : Links (RowNode n)) (ρ : TimerList → Nat → List (Fin n)) :
    Prop where
  rings : Rings links (ringOf ρ)
  sub : ∀ q r, r + 1 < level → (ρ q r).Sublist (ρ q (r + 1))
  high : ∀ q r, level ≤ r → ρ q r = []

/-- The end of the part `l` of a row. -/
def place (q : TimerList) (r : Nat) (l : List (Fin n)) : RowNode n :=
  l.getLast?.elim (.head (q, r)) fun t => .item (t, r)

theorem place_eq_last (q : TimerList) (r : Nat) (l : List (Fin n)) :
    place q r l = Node.last (q, r) (l.map fun t => (t, r)) := by
  unfold place Node.last
  rw [List.getLast?_map]
  cases l.getLast? <;> rfl

theorem place_nil (q : TimerList) (r : Nat) : (place q r [] : RowNode n) = .head (q, r) := rfl

theorem place_concat (l : List (Fin n)) (t : Fin n) : place q r (l ++ [t]) = .item (t, r) := by
  simp [place]

theorem place_congr {l l' : List (Fin n)} (h : l.getLast? = l'.getLast?) :
    place q r l = place q r l' := by
  unfold place
  rw [h]

theorem rowDown_place (q : TimerList) (r : Nat) (l : List (Fin n)) :
    rowDown (place q r l) = place q (r + 1) l := by
  unfold place
  cases l.getLast? <;> rfl

section Ring

variable {l m : List (Fin n)}

theorem ringOf_split (h : ρ q r = l ++ m) :
    ringOf ρ (q, r) = (l.map fun t => (t, r)) ++ m.map fun t => (t, r) := by
  simp only [ringOf, h, List.map_append]

theorem next_place_nil (hR : Rings links (ringOf ρ)) (h : ρ q r = l) :
    links.next (place q r l) = .head (q, r) := by
  rw [place_eq_last]
  refine hR.next_last_nil ?_
  simp only [ringOf, h]

theorem next_place_cons (hR : Rings links (ringOf ρ)) (h : ρ q r = l ++ t :: m) :
    links.next (place q r l) = .item (t, r) := by
  rw [place_eq_last]
  exact hR.next_last_cons (ringOf_split h)

theorem place_eq_prev_iff (hR : Rings links (ringOf ρ)) (h : ρ q r = l ++ m) :
    place q r l = links.prev (.head (q, r)) ↔ m = [] := by
  rw [place_eq_last, hR.last_eq_prev_iff (ringOf_split h), List.map_eq_nil_iff]

theorem nodup_of_rings (hR : Rings links (ringOf ρ)) (q : TimerList) (r : Nat) : (ρ q r).Nodup :=
  (hR.nodup (q, r)).of_map

theorem length_le (hR : Rings links (ringOf ρ)) (q : TimerList) (r : Nat) : (ρ q r).length ≤ n := by
  have h := (nodup_of_rings hR q r).length_le_card
  rwa [Fintype.card_fin] at h

/-- A timer is on one list. -/
theorem one_list (hR : Rings links (ringOf ρ)) {q' : TimerList} (h : t ∈ ρ q r)
    (h' : t ∈ ρ q' r) : q = q' := by
  have he := hR.one (q, r) (q', r) (t, r) (mem_ringOf.mpr ⟨rfl, h⟩) (mem_ringOf.mpr ⟨rfl, h'⟩)
  exact (Prod.mk.inj he).1

theorem rowFrom_place (hR : Rings links (ringOf ρ)) {k : Nat} (h : ρ q r = l ++ m)
    (hk : m.length ≤ k) : rowFrom links k (place q r l) = m := by
  induction m generalizing l k with
  | nil =>
    rw [List.append_nil] at h
    cases k with
    | zero => rfl
    | succ k => simp only [rowFrom, next_place_nil hR h]
  | cons t m ih =>
    cases k with
    | zero => exact absurd hk (Nat.not_succ_le_zero _)
    | succ k =>
      simp only [rowFrom, next_place_cons hR h]
      have hi := ih (l := l ++ [t]) (by simpa using h) (Nat.le_of_succ_le_succ hk)
      rw [place_concat] at hi
      rw [hi]

end Ring

theorem Rows.row_eq (h : Rows level links ρ) (q : TimerList) (r : Nat) : row links q r = ρ q r :=
  rowFrom_place (l := []) h.rings rfl (length_le h.rings q r)

/-- A timer of a row is in the last row. -/
theorem Rows.mem_last (h : Rows level links ρ) (ht : t ∈ ρ q r) : t ∈ ρ q (level - 1) := by
  rcases Nat.lt_or_ge r level with hr | hr
  · obtain ⟨k, hk⟩ := Nat.exists_eq_add_of_lt hr
    have hm : ∀ i, r + i < level → t ∈ ρ q (r + i) := by
      intro i
      induction i with
      | zero => exact fun _ => ht
      | succ i ih =>
        intro hi
        exact (h.sub q (r + i) hi).subset (ih (Nat.lt_of_succ_lt hi))
    have he : level - 1 = r + k := by omega
    rw [he]
    exact hm k (by omega)
  · rw [h.high q r hr] at ht
    cases ht

/-! ## Removal -/

theorem rings_remove (hR : Rings links (ringOf ρ)) (t : Fin n) (i : Nat) :
    Rings (rtTimerRemove links t i)
      (ringOf fun q r => if r < i then (ρ q r).erase t else ρ q r) := by
  induction i with
  | zero => exact hR
  | succ i ih =>
    have hr := ih.remove (t, i)
    have hb : (instBEqOfDecidableEq : BEq (Fin n × Nat)) = instBEqProd :=
      lawful_beq_subsingleton _ _
    rw [hb] at hr
    refine Eq.subst (motive := Rings _) ?_ hr
    funext p
    obtain ⟨q, r⟩ := p
    simp only [ringOf]
    rcases Nat.lt_trichotomy r i with hri | rfl | hri
    · rw [if_pos hri, if_pos (by omega), List.erase_of_not_mem]
      intro hm
      obtain ⟨v, -, hv⟩ := List.mem_map.mp hm
      exact Nat.ne_of_lt hri (Prod.mk.inj hv).2
    · rw [if_neg (Nat.lt_irrefl r), if_pos (Nat.lt_succ_self r)]
      have hinj : Function.Injective fun v : Fin n => (v, r) := fun a b hab =>
        (Prod.mk.inj hab).1
      rw [List.map_erase hinj]
    · rw [if_neg (by omega), if_neg (by omega), List.erase_of_not_mem]
      intro hm
      obtain ⟨v, -, hv⟩ := List.mem_map.mp hm
      exact Nat.ne_of_gt hri (Prod.mk.inj hv).2

theorem Rows.remove (h : Rows level links ρ) (t : Fin n) :
    Rows level (rtTimerRemove links t level) fun q r => (ρ q r).erase t := by
  have hr := rings_remove h.rings t level
  have he : (fun q r => if r < level then (ρ q r).erase t else ρ q r) =
      fun q r => (ρ q r).erase t := by
    funext q r
    split
    · rfl
    · next hlt => rw [h.high q r (Nat.le_of_not_lt hlt), List.erase_nil]
  rw [he] at hr
  refine ⟨hr, fun q r hlt => (h.sub q r hlt).erase t, fun q r hle => ?_⟩
  rw [h.high q r hle, List.erase_nil]

theorem Rows.not_mem_erase (h : Rows level links ρ) (t : Fin n) (q : TimerList) (r : Nat) :
    t ∉ (ρ q r).erase t :=
  (nodup_of_rings h.rings q r).not_mem_erase

/-! ## The search -/

section Search

variable {α : Type*} {l m k : List α}

/-- A part that is a subsequence of a list, and what is behind it. -/
theorem exists_split (h : (l ++ m).Sublist k) : ∃ a b, k = a ++ b ∧ l.Sublist a ∧ m.Sublist b ∧
    a.getLast? = l.getLast? := by
  rcases List.eq_nil_or_concat' l with rfl | ⟨l, x, rfl⟩
  · exact ⟨[], k, rfl, .slnil, h, rfl⟩
  · obtain ⟨k1, k2, rfl, h1, h2⟩ := List.append_sublist_iff.mp h
    obtain ⟨c, d, rfl, hc, hd⟩ := List.append_sublist_iff.mp h1
    obtain ⟨d1, d2, rfl⟩ := List.append_of_mem (List.singleton_sublist.mp hd)
    refine ⟨c ++ d1 ++ [x], d2 ++ k2, by simp, ?_, ?_, by simp⟩
    · exact (hc.trans (List.sublist_append_left c d1)).append (List.Sublist.refl [x])
    · exact h2.trans (List.sublist_append_right d2 k2)

/-- The place between two parts of a row. -/
def Gap (P : α → Prop) (l m : List α) : Prop :=
  (∀ x ∈ l.getLast?, P x) ∧ ∀ x ∈ m.head?, ¬ P x

/-- A list that begins behind the skipped part. -/
theorem sublist_of_skipped {P : α → Prop} {b : List α} (h : k.Sublist (b ++ m))
    (hb : ∀ x ∈ b, P x) (hk : ∀ x ∈ k.head?, ¬ P x) : k.Sublist m := by
  induction b with
  | nil => exact h
  | cons x b ih =>
    refine ih ?_ fun y hy => hb y (List.mem_cons_of_mem x hy)
    cases h with
    | cons _ h => exact h
    | cons_cons _ h => exact absurd (hb x List.mem_cons_self) (hk x rfl)

end Search

theorem searchRow_spec (hR : Rings s.links (ringOf ρ)) {a m : List (Fin n)} {fuel : Nat}
    (h : ρ q r = a ++ m) (hf : m.length < fuel) (ha : ∀ x ∈ a.getLast?, Skips s timeout x) :
    ∃ b m', m = b ++ m' ∧ (∀ x ∈ b, Skips s timeout x) ∧ Gap (Skips s timeout) (a ++ b) m' ∧
      searchRow s q timeout r fuel (place q r a) = some (place q r (a ++ b)) := by
  induction m generalizing a fuel with
  | nil =>
    refine ⟨[], [], rfl, by simp, ⟨by simpa using ha, by simp⟩, ?_⟩
    cases fuel with
    | zero => exact absurd hf (Nat.not_lt_zero _)
    | succ fuel =>
      rw [searchRow, if_pos ((place_eq_prev_iff hR h).mpr rfl), List.append_nil]
  | cons v m ih =>
    cases fuel with
    | zero => exact absurd hf (Nat.not_lt_zero _)
    | succ fuel =>
      have hne : place q r a ≠ s.links.prev (.head (q, r)) := fun he =>
        List.cons_ne_nil v m ((place_eq_prev_iff hR h).mp he)
      rw [searchRow, if_neg hne, next_place_cons hR h]
      by_cases hv : Skips s timeout v
      · obtain ⟨b, m', hm, hb, hg, hs⟩ := ih (a := a ++ [v]) (by simpa using h)
          (Nat.lt_of_succ_lt_succ hf) (by simpa using hv)
        rw [place_concat, List.append_assoc, List.singleton_append] at hs
        rw [List.append_assoc, List.singleton_append] at hg
        refine ⟨v :: b, m', by rw [hm, List.cons_append], ?_, hg, ?_⟩
        · intro x hx
          rcases List.mem_cons.mp hx with rfl | hx
          · exact hv
          · exact hb x hx
        · simp only [if_pos hv]
          exact hs
      · refine ⟨[], v :: m, rfl, by simp, ⟨by simpa using ha, by simpa using hv⟩, ?_⟩
        simp only [if_neg hv, List.append_nil]

/-- The rows from `row` on after the search, in the parts `l` and `m`. -/
structure Found (level : Nat) (P : Fin n → Prop) (ρ : Nat → List (Fin n)) (q : TimerList)
    (rowHead : Nat → RowNode n) (l m : Nat → List (Fin n)) (i : Nat) : Prop where
  split : ρ i = l i ++ m i
  place : rowHead i = place q i (l i)
  gap : Gap P (l i) (m i)
  mono : i + 1 < level → (l i).Sublist (l (i + 1)) ∧ (m i).Sublist (m (i + 1))

/-- The search of the rows from `row` on, from the end of the part `a` of that row. -/
theorem rowHeads_spec (h : Rows level s.links ρ) (timeout : Tick) {k row : Nat}
    {a b : List (Fin n)} (rowHead : Nat → RowNode n) (hk : row + k = level) (hs : row < level → ρ q row = a ++ b ∧
      rowHead row = place q row a ∧ ∀ x ∈ a.getLast?, Skips s timeout x) :
    ∃ rowHead' l m, rowHeads s q timeout k row rowHead = some rowHead' ∧
      (∀ i, i < row → rowHead' i = rowHead i) ∧
      (∀ i, row ≤ i → i < level → Found level (Skips s timeout) (ρ q) q rowHead' l m i) ∧
      (row < level → a.Sublist (l row) ∧
        ∀ c : List (Fin n), c.Sublist b → (∀ x ∈ c.head?, ¬ Skips s timeout x) →
          c.Sublist (m row)) := by
  induction k generalizing row rowHead a b with
  | zero =>
    refine ⟨rowHead, fun _ => [], fun _ => [], rfl, fun _ _ => rfl, ?_, ?_⟩
    · intro i hi hi'
      omega
    · intro hlt
      omega
  | succ k ih =>
    obtain ⟨hab, hp, ha⟩ := hs (by omega)
    have hlen : b.length < 1 + n := by
      have hle := length_le h.rings q row
      rw [hab, List.length_append] at hle
      omega
    obtain ⟨c, d, rfl, hc, hg, hx⟩ := searchRow_spec h.rings hab hlen ha
    rw [← List.append_assoc] at hab
    -- the same place one row down
    have hdown : row + 1 < level → ∃ a' b', ρ q (row + 1) = a' ++ b' ∧ (a ++ c).Sublist a' ∧
        d.Sublist b' ∧ a'.getLast? = (a ++ c).getLast? := fun hlt => by
      have hsub := h.sub q row hlt
      rw [hab] at hsub
      exact exists_split hsub
    obtain ⟨a', b', hs'⟩ : ∃ a' b', row + 1 < level → ρ q (row + 1) = a' ++ b' ∧
        (a ++ c).Sublist a' ∧ d.Sublist b' ∧ a'.getLast? = (a ++ c).getLast? := by
      by_cases hlt : row + 1 < level
      · obtain ⟨a', b', hd⟩ := hdown hlt
        exact ⟨a', b', fun _ => hd⟩
      · exact ⟨[], [], fun hlt' => absurd hlt' hlt⟩
    generalize hrh : Function.update (Function.update rowHead row (place q row (a ++ c))) (row + 1)
      (rowDown (place q row (a ++ c))) = rowHead₁
    have hrow : rowHead₁ row = place q row (a ++ c) := by
      rw [← hrh, Function.update_of_ne (Nat.ne_of_lt (Nat.lt_succ_self row)),
        Function.update_self]
    obtain ⟨rowHead', l, m, hr, hold, hnew, hfirst⟩ := ih (a := a') (b := b')
      rowHead₁ (show row + 1 + k = level by omega) fun hlt => by
        obtain ⟨he, -, -, hlast⟩ := hs' hlt
        refine ⟨he, ?_, ?_⟩
        · rw [← hrh, Function.update_self, rowDown_place]
          exact place_congr hlast.symm
        · rw [hlast]
          exact hg.1
    refine ⟨rowHead', Function.update l row (a ++ c), Function.update m row d, ?_, ?_, ?_, ?_⟩
    · simp only [rowHeads, hp, hx, hrh]
      exact hr
    · intro i hi
      rw [hold i (by omega), ← hrh, Function.update_of_ne (by omega),
        Function.update_of_ne (by omega)]
    · intro i hi hi'
      rcases Nat.eq_or_lt_of_le hi with rfl | hlt
      · refine ⟨?_, ?_, ?_, fun hlt => ?_⟩
        · rw [Function.update_self, Function.update_self]
          exact hab
        · rw [Function.update_self, hold row (Nat.lt_succ_self row), hrow]
        · rw [Function.update_self, Function.update_self]
          exact hg
        · obtain ⟨-, ha', hd, -⟩ := hs' hlt
          obtain ⟨hl, hm⟩ := hfirst hlt
          rw [Function.update_self, Function.update_self, Function.update_of_ne (by omega),
            Function.update_of_ne (by omega)]
          exact ⟨ha'.trans hl, hm d hd hg.2⟩
      · obtain ⟨h1, h2, h3, h4⟩ := hnew i hlt hi'
        have hne : i ≠ row := Nat.ne_of_gt hlt
        have hne' : i + 1 ≠ row := by omega
        refine ⟨?_, ?_, ?_, ?_⟩
        · rw [Function.update_of_ne hne, Function.update_of_ne hne]
          exact h1
        · rw [Function.update_of_ne hne]
          exact h2
        · rw [Function.update_of_ne hne, Function.update_of_ne hne]
          exact h3
        · rw [Function.update_of_ne hne, Function.update_of_ne hne, Function.update_of_ne hne',
            Function.update_of_ne hne']
          exact h4
    · intro _
      rw [Function.update_self, Function.update_self]
      exact ⟨List.sublist_append_left a c, fun e he hn => sublist_of_skipped he hc hn⟩

/-! ## Insertion -/

theorem rings_insertRow {l m : List (Fin n)} (hR : Rings links (ringOf ρ))
    (ht : ∀ q', t ∉ ρ q' r) (h : ρ q r = l ++ m) :
    Rings (links.insertAfter (place q r l) (.item (t, r)))
      (ringOf fun q' i => if q' = q ∧ i = r then l ++ t :: m else ρ q' i) := by
  have hi := hR.insertAfter_last (q := (q, r)) (t := (t, r))
    (fun p hp => by
      obtain ⟨he, hm⟩ := mem_ringOf.mp hp
      rw [← he] at hm
      exact ht _ hm)
    (ringOf_split h)
  have he : Function.update (ringOf ρ) (q, r)
      ((l.map fun t => (t, r)) ++ (t, r) :: m.map fun t => (t, r)) =
      ringOf fun q' i => if q' = q ∧ i = r then l ++ t :: m else ρ q' i := by
    funext p
    obtain ⟨q', i⟩ := p
    by_cases hp : q' = q ∧ i = r
    · obtain ⟨rfl, rfl⟩ := hp
      simp [ringOf]
    · have hne : (q', i) ≠ (q, r) := fun he => hp (Prod.mk.inj he)
      rw [Function.update_of_ne hne]
      simp only [ringOf, if_neg hp]
  rw [he] at hi
  rw [place_eq_last]
  exact hi

theorem rows_succ {j k : Nat} (hj : j ≤ k) (row : Nat → List (Fin n)) :
    (fun q' i => if q' = q ∧ j ≤ i ∧ i < k then row i else
      if q' = q ∧ i = k then row k else ρ q' i) =
      fun q' i => if q' = q ∧ j ≤ i ∧ i < k + 1 then row i else ρ q' i := by
  funext q' i
  rcases Nat.lt_trichotomy i k with hik | rfl | hik
  · simp [hik, Nat.lt_succ_of_lt hik, Nat.ne_of_lt hik]
  · simp [hj]
  · have hik' : ¬ i < k + 1 := by omega
    simp [hik', Nat.not_lt_of_gt hik, Nat.ne_of_gt hik]

theorem rings_insertRows {l m : Nat → List (Fin n)} {k : Nat}
    (hR : Rings links (ringOf ρ)) (rowHead : Nat → RowNode n) (tstNr : BitVec 32) (ht : ∀ q' i, i < k → t ∉ ρ q' i)
    (h : ∀ i, i < k → ρ q i = l i ++ m i ∧ rowHead i = place q i (l i)) :
    ∃ j, j ≤ k ∧ Rings (insertRows rowHead t k tstNr links)
      (ringOf fun q' i => if q' = q ∧ j ≤ i ∧ i < k then l i ++ t :: m i else ρ q' i) := by
  induction k generalizing links ρ tstNr with
  | zero =>
    refine ⟨0, Nat.le_refl 0, ?_⟩
    simp only [Nat.not_lt_zero, and_false, if_false]
    exact hR
  | succ k ih =>
    by_cases hb : tstNr &&& rtTimerSkipListMask = 0#32
    · obtain ⟨hk, hp⟩ := h k (Nat.lt_succ_self k)
      have hR' := rings_insertRow hR (fun q' => ht q' k (Nat.lt_succ_self k)) hk
      rw [← hp] at hR'
      obtain ⟨j, hj, hi⟩ := ih hR' (tstNr >>> ((rtTimerSkipListMask + 1#32) >>> 1))
        (fun q' i hik => by
          rw [if_neg fun hc => Nat.ne_of_lt hik hc.2]
          exact ht q' i (Nat.lt_succ_of_lt hik))
        (fun i hik => by
          rw [if_neg fun hc => Nat.ne_of_lt hik hc.2]
          exact h i (Nat.lt_succ_of_lt hik))
      refine ⟨j, Nat.le_succ_of_le hj, ?_⟩
      rw [insertRows, if_pos hb]
      rw [rows_succ hj fun i => l i ++ t :: m i] at hi
      exact hi
    · refine ⟨k + 1, Nat.le_refl _, ?_⟩
      rw [insertRows, if_neg hb]
      have he : (fun q' i => if q' = q ∧ k + 1 ≤ i ∧ i < k + 1 then l i ++ t :: m i else ρ q' i) =
          ρ := by
        funext q' i
        rw [if_neg fun hc => by omega]
      rw [he]
      exact hR

/-- The timer is in the last row at a place of the search, and perhaps in rows above it. -/
theorem insertTimer_spec (h : Rows level s.links ρ) (hl : 0 < level) (ht : ∀ q r, t ∉ ρ q r) :
    ∃ links ρ' l m, insertTimer level s t = some links ∧ Rows level links ρ' ∧
      ρ (timerList s t) (level - 1) = l ++ m ∧
      Gap (Skips s (s.timer t).timeoutTick) l m ∧
      ρ' (timerList s t) (level - 1) = l ++ t :: m ∧
      ∀ q, q ≠ timerList s t → ρ' q (level - 1) = ρ q (level - 1) := by
  obtain ⟨rowHead, l, m, hr, -, hf, -⟩ := rowHeads_spec (q := timerList s t) (a := [])
    (b := ρ (timerList s t) 0) h (s.timer t).timeoutTick (fun _ => .head (timerList s t, 0))
    (Nat.zero_add level) fun _ => ⟨rfl, rfl, fun x hx => by cases hx⟩
  generalize hq : timerList s t = q at hr hf ⊢
  have hf' : ∀ i, i < level → Found level (Skips s (s.timer t).timeoutTick) (ρ q) q rowHead l m i :=
    fun i hi => hf i (Nat.zero_le i) hi
  obtain ⟨k, rfl⟩ : ∃ k, level = k + 1 := ⟨level - 1, by omega⟩
  have hk := hf' k (Nat.lt_succ_self k)
  have hR := rings_insertRow h.rings (fun q' => ht q' k) hk.split
  rw [← hk.place] at hR
  obtain ⟨j, hj, hi⟩ := rings_insertRows (q := q) (k := k) (l := l) (m := m) hR rowHead
    (s.randomNr + 1#32)
    (fun q' i hik => by
      rw [if_neg fun hc => Nat.ne_of_lt hik hc.2]
      exact ht q' i)
    (fun i hik => by
      rw [if_neg fun hc => Nat.ne_of_lt hik hc.2]
      exact ⟨(hf' i (by omega)).split, (hf' i (by omega)).place⟩)
  rw [rows_succ hj fun i => l i ++ t :: m i] at hi
  refine ⟨_, _, l k, m k, ?_, ⟨hi, fun q' i hlt => ?_, fun q' i hle => ?_⟩, hk.split, hk.gap, ?_,
    fun q' hq' => ?_⟩
  · simp only [insertTimer, hq, hr, Option.map_some, Nat.add_sub_cancel]
  · by_cases hq : q' = q
    · subst hq
      have h1 := hf' i (by omega)
      have h2 := hf' (i + 1) hlt
      obtain ⟨hl', hm'⟩ := h1.mono hlt
      by_cases hji : j ≤ i
      · rw [if_pos ⟨rfl, hji, by omega⟩, if_pos ⟨rfl, by omega, hlt⟩]
        exact hl'.append (hm'.cons_cons t)
      · rw [if_neg fun hc => hji hc.2.1]
        split
        · rw [h1.split]
          exact hl'.append (hm'.cons t)
        · exact h.sub q' i hlt
    · rw [if_neg fun hc => hq hc.1, if_neg fun hc => hq hc.1]
      exact h.sub q' i hlt
  · rw [if_neg fun hc => by omega]
    exact h.high q' i hle
  · rw [Nat.add_sub_cancel, if_pos ⟨rfl, hj, Nat.lt_succ_self k⟩]
  · rw [if_neg fun hc => hq' hc.1]

/-! ## The calls -/

theorem deactivate_timer : (deactivate level s t).timer u =
    if u = t then { s.timer t with activated := false } else s.timer u := by
  simp only [deactivate, setActivated, State.setTimer, Function.update_apply]

theorem timerList_congr {s' : State n} (h : (s'.timer t).softTimer = (s.timer t).softTimer) :
    timerList s' t = timerList s t := by
  simp only [timerList, h]

/-- What `rt_timer_start` leaves, with the pointers `links`. -/
def started (level : Nat) (s : State n) (t : Fin n) (links : Links (RowNode n)) : State n :=
  activate (setTimeout (deactivate level s t) t) t links

theorem started_timer : (started level s t links).timer u =
    if u = t then { s.timer t with
      activated := true, timeoutTick := s.tick + (s.timer t).initTick } else s.timer u := by
  simp only [started, activate, setTimeout, setActivated, deactivate, State.setTimer,
    Function.update_apply]
  split <;> rfl

theorem started_startNo : (started level s t links).startNo u =
    if u = t then s.starts else s.startNo u := by
  simp only [started, activate, setTimeout, setActivated, deactivate, State.setTimer,
    Function.update_apply]

/-- The pointers `links` after a start: the timer is in the last row between `l` and `m`. -/
structure Inserted (level : Nat) (s : State n) (t : Fin n) (ρ ρ' : TimerList → Nat → List (Fin n))
    (links : Links (RowNode n)) (l m : List (Fin n)) : Prop where
  rows : Rows level links ρ'
  split : (ρ (timerList s t) (level - 1)).erase t = l ++ m
  gap : Gap (fun u => Skips s (s.tick + (s.timer t).initTick) u) l m
  last : ρ' (timerList s t) (level - 1) = l ++ t :: m
  other : ∀ q, q ≠ timerList s t → ρ' q (level - 1) = (ρ q (level - 1)).erase t

theorem rtTimerStart_spec (h : Rows level s.links ρ) (hl : 0 < level)
    (hi : (s.timer t).initTick < rtTickMaxHalf) :
    ∃ links ρ' l m, rtTimerStart level s t = some (started level s t links) ∧
      Inserted level s t ρ ρ' links l m := by
  have hr := h.remove t
  generalize hs0 : setTimeout (deactivate level s t) t = s0
  have hlinks : s0.links = rtTimerRemove s.links t level := by rw [← hs0]; rfl
  have htimer : ∀ u, s0.timer u = if u = t then { s.timer t with
      activated := false, timeoutTick := s.tick + (s.timer t).initTick } else s.timer u := by
    intro u
    rw [← hs0]
    simp only [setTimeout, deactivate, setActivated, State.setTimer, Function.update_apply]
    split <;> rfl
  have hq : timerList s0 t = timerList s t := timerList_congr (by rw [htimer, if_pos rfl])
  rw [← hlinks] at hr
  obtain ⟨links, ρ', l, m, hin, hρ', hlm, hg, hlast, hother⟩ :=
    insertTimer_spec (s := s0) (t := t) hr hl (h.not_mem_erase t)
  rw [hq] at hlm hlast hother
  rw [htimer t, if_pos rfl] at hg
  refine ⟨links, ρ', l, m, ?_, hρ', hlm, ?_, hlast, hother⟩
  · have hi' : ((deactivate level s t).timer t).initTick < rtTickMaxHalf := by
      rw [deactivate_timer, if_pos rfl]
      exact hi
    simp only [rtTimerStart, if_pos hi', hs0, hin, Option.map_some, started]
  · -- the timer itself is on neither part
    have ht : ∀ u, u ∈ l ++ m → s0.timer u = s.timer u := fun u hu => by
      rw [htimer, if_neg]
      rintro rfl
      rw [← hlm] at hu
      exact h.not_mem_erase u _ _ hu
    constructor
    · intro u hu
      have hs := hg.1 u hu
      rw [Skips, ht u (List.mem_append_left m (List.mem_of_getLast? hu))] at hs
      exact hs
    · intro u hu hs
      refine hg.2 u hu ?_
      rw [Skips, ht u (List.mem_append_right l (List.mem_of_head? hu))]
      exact hs

theorem rtTimerStart_some {s' : State n} (h : rtTimerStart level s t = some s') :
    (s.timer t).initTick < rtTickMaxHalf := by
  by_contra hn
  have hn' : ¬ ((deactivate level s t).timer t).initTick < rtTickMaxHalf := by
    rw [deactivate_timer, if_pos rfl]
    exact hn
  simp only [rtTimerStart, if_neg hn'] at h
  cases h

namespace Inserted

variable {ρ' : TimerList → Nat → List (Fin n)} {l m : List (Fin n)}

theorem mem_self (h : Inserted level s t ρ ρ' links l m) : t ∈ ρ' (timerList s t) (level - 1) := by
  rw [h.last]
  simp

/-- The other timers are where they were. -/
theorem mem_iff (h : Inserted level s t ρ ρ' links l m) (hu : u ≠ t) :
    u ∈ ρ' q (level - 1) ↔ u ∈ ρ q (level - 1) := by
  by_cases hq : q = timerList s t
  · subst hq
    rw [← List.mem_erase_of_ne (l := ρ (timerList s t) (level - 1)) hu, h.split, h.last]
    simp [hu]
  · rw [h.other q hq, List.mem_erase_of_ne hu]

/-- The timer is on the list of its flag only. -/
theorem mem_self_iff (h : Inserted level s t ρ ρ' links l m) :
    t ∈ ρ' q (level - 1) ↔ q = timerList s t := by
  constructor
  · intro hm
    exact one_list h.rows.rings hm h.mem_self
  · rintro rfl
    exact h.mem_self

end Inserted

/-- The flag is cleared at a start. -/
theorem rtTimerStart_setActivated {b : Bool} :
    rtTimerStart level (setActivated s t b) t = rtTimerStart level s t := by
  have he : deactivate level (setActivated s t b) t = deactivate level s t := by
    simp only [deactivate, setActivated, State.setTimer, Function.update_self,
      Function.update_idem]
  simp only [rtTimerStart, he]

/-- The end of a timeout function: the timer is started, or its flag is cleared. -/
theorem timeoutDone_cases {s' : State n} (hd : timeoutDone level s t = some s') :
    ((s.timer t).periodic = true ∧ (s.timer t).activated = true ∧
      rtTimerStart level s t = some s') ∨
    (¬ ((s.timer t).periodic = true ∧ (s.timer t).activated = true) ∧
      s' = setActivated s t false) := by
  rw [timeoutDone] at hd
  split at hd
  · next hb =>
    rw [Bool.and_eq_true] at hb
    rw [rtTimerStart_setActivated] at hd
    exact .inl ⟨hb.1, hb.2, hd⟩
  · next hb =>
    rw [Bool.and_eq_true] at hb
    exact .inr ⟨hb, (Option.some.inj hd).symm⟩

theorem setActivated_timer {b : Bool} : (setActivated s t b).timer u =
    if u = t then { s.timer t with activated := b } else s.timer u := by
  simp only [setActivated, State.setTimer, Function.update_apply]

theorem rows_init (level : Nat) :
    Rows level ({ next := id, prev := id } : Links (RowNode n)) fun _ _ => [] :=
  ⟨⟨fun _ => isRing_nil.mpr ⟨rfl, rfl⟩, fun _ _ => isRing_nil.mpr ⟨rfl, rfl⟩,
    fun _ _ _ h => absurd h List.not_mem_nil⟩, fun _ _ _ => .slnil, fun _ _ _ => rfl⟩

theorem Rows.linked_iff (h : Rows level s.links ρ) :
    Linked level s t ↔ ∃ q, t ∈ ρ q (level - 1) := by
  simp only [Linked, h.row_eq]
  constructor
  · rintro (ht | ht)
    · exact ⟨.hard, ht⟩
    · exact ⟨.soft, ht⟩
  · rintro ⟨q, ht⟩
    cases q with
    | hard => exact .inl ht
    | soft => exact .inr ht

end Tudu.Timer
