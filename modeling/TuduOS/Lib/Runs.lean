import Mathlib.Data.List.Basic
import Mathlib.Data.List.Pairwise

/-!
# Free lists of runs

A run is a start and a length. A free list keeps its runs in the order of their starts, with a gap
between any two.

* `take n l`: the first run of at least `n` is cut from its start.
* `release a n l`: the run goes back to its place and becomes one with its neighbours.
* `take_some`, `free_release`: both keep the free list and its order.
* `release_forall`: what holds of all parts holds of the runs that they make.

A list of runs goes around a ring if it is in order but for one turn back to the start.

* `Around.cases`: the first and the last run tell whether the list has turned.
* `around_behind`, `around_turn`, `around_gap`: where one more run may go.

Runs are end to end (`Joined`) if and only if their places, one after the other, are those of one
run (`flatMap_places`).
-/

namespace Runs

/-- Start and length. -/
abbrev Run := Nat × Nat

def Apart (r s : Run) : Prop := r.1 + r.2 ≤ s.1 ∨ s.1 + s.2 ≤ r.1

def Within (lo hi : Nat) (r : Run) : Prop := lo ≤ r.1 ∧ r.1 + r.2 ≤ hi

/-- Runs in order, with gaps. -/
structure Free (l : List Run) : Prop where
  pos : ∀ r ∈ l, 0 < r.2
  gaps : l.Pairwise fun r s => r.1 + r.2 < s.1

def total : List Run → Nat
  | [] => 0
  | r :: l => r.2 + total l

def take (n : Nat) : List Run → Option (Nat × List Run)
  | [] => none
  | (b, k) :: l =>
    if k > n then some (b, (b + n, k - n) :: l)
    else if k = n then some (b, l)
    else (take n l).map fun r => (r.1, (b, k) :: r.2)

/-- What follows the run at `b`, now `k` long, becomes one with it if there is no gap. -/
def join (b k : Nat) : List Run → List Run
  | [] => [(b, k)]
  | (c, m) :: l => if b + k = c then (b, k + m) :: l else (b, k) :: (c, m) :: l

def release (a n : Nat) : List Run → List Run
  | [] => [(a, n)]
  | (b, k) :: l =>
    if b + k = a then join b (k + n) l
    else if b = a + n then (a, k + n) :: l
    else if b > a + n then (a, n) :: (b, k) :: l
    else (b, k) :: release a n l

variable {l l' : List Run} {a b k n lo hi : Nat} {r s : Run}

instance : Std.Symm Apart := ⟨fun _ _ h => Or.symm h⟩

theorem within_self (r : Run) : Within r.1 (r.1 + r.2) r := ⟨Nat.le_refl _, Nat.le_refl _⟩

/-- What lies in one of two runs is apart from what lies in the other one. -/
theorem Apart.of_within {t u : Run} (h : Apart r s) (ht : Within r.1 (r.1 + r.2) t)
    (hu : Within s.1 (s.1 + s.2) u) : Apart t u := by
  simp only [Apart, Within] at h ht hu ⊢
  omega

/-! ## Free lists -/

theorem free_nil : Free [] := ⟨fun _ hr => absurd hr List.not_mem_nil, List.Pairwise.nil⟩

theorem free_cons : Free (r :: l) ↔ 0 < r.2 ∧ (∀ s ∈ l, r.1 + r.2 < s.1) ∧ Free l := by
  constructor
  · intro h
    obtain ⟨hg, ht⟩ := List.pairwise_cons.mp h.gaps
    exact ⟨h.pos r List.mem_cons_self, hg,
      fun s hs => h.pos s (List.mem_cons_of_mem _ hs), ht⟩
  · rintro ⟨hr, hg, ht⟩
    refine ⟨fun s hs => ?_, List.pairwise_cons.mpr ⟨hg, ht.gaps⟩⟩
    rcases List.mem_cons.mp hs with rfl | hs
    · exact hr
    · exact ht.pos s hs

theorem length_le_total (h : ∀ r ∈ l, 0 < r.2) : l.length ≤ total l := by
  induction l with
  | nil => exact Nat.le_refl 0
  | cons r l ih =>
    have hr := h r List.mem_cons_self
    have hl := ih fun s hs => h s (List.mem_cons_of_mem _ hs)
    show l.length + 1 ≤ r.2 + total l
    omega

theorem total_erase [DecidableEq Run] (h : r ∈ l) : total l = r.2 + total (l.erase r) := by
  induction l with
  | nil => exact absurd h List.not_mem_nil
  | cons s l ih =>
    by_cases hs : s = r
    · subst hs
      rw [List.erase_cons_head]
      rfl
    · have hm : r ∈ l := (List.mem_cons.mp h).resolve_left fun he => hs he.symm
      have hb : ¬ (s == r) = true := fun hb => hs (eq_of_beq hb)
      rw [List.erase_cons_tail hb]
      show s.2 + total l = r.2 + (s.2 + total (l.erase r))
      rw [ih hm]
      omega

/-! ## First fit -/

theorem take_none : take n l = none ↔ ∀ r ∈ l, r.2 < n := by
  induction l with
  | nil => exact ⟨fun _ _ hr => absurd hr List.not_mem_nil, fun _ => rfl⟩
  | cons r l ih =>
    obtain ⟨b, k⟩ := r
    rw [take]
    split
    · next hk =>
      refine ⟨fun h => (by cases h), fun h => ?_⟩
      have := h (b, k) List.mem_cons_self
      simp only at this
      omega
    · split
      · next hk =>
        refine ⟨fun h => (by cases h), fun h => ?_⟩
        have := h (b, k) List.mem_cons_self
        simp only at this
        omega
      · rw [Option.map_eq_none_iff, ih, List.forall_mem_cons]
        refine ⟨fun h => ⟨?_, h⟩, fun h => h.2⟩
        simp only
        omega

/-- The run that `take` cuts is a part of one run of the list, and all else is as before. -/
theorem take_some (hf : Free l) (hn : 0 < n) (h : take n l = some (a, l')) :
    Free l' ∧ total l = n + total l' ∧ (∃ r ∈ l, r.1 = a ∧ n ≤ r.2) ∧
      (∀ r ∈ l', Apart r (a, n) ∧ ∃ s ∈ l, s.1 ≤ r.1 ∧ r.1 + r.2 ≤ s.1 + s.2) ∧
      ∀ r ∈ l', ∀ k, (∀ s ∈ l, k < s.1) → k < r.1 := by
  induction l generalizing l' with
  | nil => cases h
  | cons r l ih =>
    obtain ⟨b, k⟩ := r
    obtain ⟨hk, hg, ht⟩ := free_cons.mp hf
    simp only at hk hg
    rw [take] at h
    split at h
    · next hkn =>
      obtain ⟨rfl, rfl⟩ := Prod.mk.inj (Option.some.inj h)
      refine ⟨free_cons.mpr ⟨?_, fun s hs => ?_, ht⟩, ?_,
        ⟨(b, k), List.mem_cons_self, rfl, ?_⟩, fun r hr => ?_, fun r hr j hj => ?_⟩
      · show 0 < k - n
        omega
      · have := hg s hs
        show b + n + (k - n) < s.1
        omega
      · show k + total l = n + (k - n + total l)
        omega
      · show n ≤ k
        omega
      · rcases List.mem_cons.mp hr with rfl | hr
        · refine ⟨.inr (Nat.le_refl _), (b, k), List.mem_cons_self, Nat.le_add_right _ _, ?_⟩
          show b + n + (k - n) ≤ b + k
          omega
        · have := hg r hr
          refine ⟨.inr ?_, r, List.mem_cons_of_mem _ hr, Nat.le_refl _, Nat.le_refl _⟩
          show b + n ≤ r.1
          omega
      · rcases List.mem_cons.mp hr with rfl | hr
        · have := hj (b, k) List.mem_cons_self
          show j < b + n
          simp only at this
          omega
        · exact hj r (List.mem_cons_of_mem _ hr)
    · split at h
      · next hkn =>
        obtain ⟨rfl, rfl⟩ := Prod.mk.inj (Option.some.inj h)
        refine ⟨ht, ?_, ⟨(b, k), List.mem_cons_self, rfl, Nat.le_of_eq hkn.symm⟩,
          fun r hr => ?_, fun r hr j hj => hj r (List.mem_cons_of_mem _ hr)⟩
        · show k + total l = n + total l
          omega
        · have := hg r hr
          refine ⟨.inr ?_, r, List.mem_cons_of_mem _ hr, Nat.le_refl _, Nat.le_refl _⟩
          show b + n ≤ r.1
          omega
      · obtain ⟨⟨a', m⟩, hm, he⟩ := Option.map_eq_some_iff.mp h
        obtain ⟨rfl, rfl⟩ := Prod.mk.inj he
        obtain ⟨hfm, htot, ⟨s, hs, hsa, hns⟩, hpart, hlow⟩ := ih ht hm
        have hab := hg s hs
        refine ⟨free_cons.mpr ⟨hk, fun r hr => ?_, hfm⟩, ?_,
          ⟨s, List.mem_cons_of_mem _ hs, hsa, hns⟩, fun r hr => ?_, fun r hr j hj => ?_⟩
        · exact hlow r hr (b + k) hg
        · show k + total l = n + (k + total m)
          omega
        · rcases List.mem_cons.mp hr with rfl | hr
          · refine ⟨.inl ?_, (b, k), List.mem_cons_self, Nat.le_refl _, Nat.le_refl _⟩
            show b + k ≤ a'
            simp only at hsa
            omega
          · obtain ⟨hap, t, ht, hle⟩ := hpart r hr
            exact ⟨hap, t, List.mem_cons_of_mem _ ht, hle⟩
        · rcases List.mem_cons.mp hr with rfl | hr
          · exact hj _ List.mem_cons_self
          · exact hlow r hr j fun s hs => hj s (List.mem_cons_of_mem _ hs)

/-! ## Coalescing -/

theorem total_join : total (join b k l) = k + total l := by
  cases l with
  | nil => rfl
  | cons r l =>
    obtain ⟨c, m⟩ := r
    rw [join]
    split
    · show k + m + total l = k + (m + total l)
      omega
    · rfl

theorem total_release : total (release a n l) = n + total l := by
  induction l with
  | nil => rfl
  | cons r l ih =>
    obtain ⟨b, k⟩ := r
    rw [release]
    split
    · rw [total_join]
      show k + n + total l = n + (k + total l)
      omega
    · split
      · show k + n + total l = n + (k + total l)
        omega
      · split
        · rfl
        · show k + total (release a n l) = n + (k + total l)
          rw [ih]
          omega

/-- What holds of two adjacent runs together if it holds of both, holds of all runs. -/
theorem release_forall {P : Run → Prop} (hP : ∀ b k m, P (b, k) → P (b + k, m) → P (b, k + m))
    (ha : P (a, n)) (h : ∀ r ∈ l, P r) : ∀ r ∈ release a n l, P r := by
  have hjoin : ∀ b k l, P (b, k) → (∀ r ∈ l, P r) → ∀ r ∈ join b k l, P r := by
    intro b k l hb hl r hr
    cases l with
    | nil =>
      rw [List.mem_singleton.mp hr]
      exact hb
    | cons s l =>
      obtain ⟨c, m⟩ := s
      rw [join] at hr
      split at hr
      · next hbk =>
        rcases List.mem_cons.mp hr with rfl | hr
        · apply hP b k m hb
          rw [hbk]
          exact hl (c, m) List.mem_cons_self
        · exact hl r (List.mem_cons_of_mem _ hr)
      · rcases List.mem_cons.mp hr with rfl | hr
        · exact hb
        · exact hl r hr
  induction l with
  | nil =>
    intro r hr
    rw [List.mem_singleton.mp hr]
    exact ha
  | cons s l ih =>
    obtain ⟨b, k⟩ := s
    have hb := h (b, k) List.mem_cons_self
    have hl : ∀ r ∈ l, P r := fun r hr => h r (List.mem_cons_of_mem _ hr)
    rw [release]
    split
    · next hba =>
      apply hjoin b (k + n) l _ hl
      apply hP b k n hb
      rw [hba]
      exact ha
    · split
      · next hba =>
        intro r hr
        rcases List.mem_cons.mp hr with rfl | hr
        · rw [Nat.add_comm k n]
          apply hP a n k ha
          rw [← hba]
          exact hb
        · exact hl r hr
      · split
        · intro r hr
          rcases List.mem_cons.mp hr with rfl | hr
          · exact ha
          · exact h r hr
        · intro r hr
          rcases List.mem_cons.mp hr with rfl | hr
          · exact hb
          · exact ih hl r hr

theorem release_within (ha : Within lo hi (a, n)) (h : ∀ r ∈ l, Within lo hi r) :
    ∀ r ∈ release a n l, Within lo hi r := by
  apply release_forall _ ha h
  rintro b k m ⟨h1, -⟩ ⟨-, h2⟩
  refine ⟨h1, ?_⟩
  simp only at h2 ⊢
  omega

/-- What is apart from the parts is apart from the whole. -/
theorem release_apart (hs : 0 < s.2) (ha : Apart (a, n) s) (h : ∀ r ∈ l, Apart r s) :
    ∀ r ∈ release a n l, Apart r s := by
  apply release_forall (P := fun r => Apart r s) _ ha h
  intro b k m h1 h2
  simp only [Apart] at h1 h2 ⊢
  omega

theorem release_lt (ha : k < a) (h : ∀ r ∈ l, k < r.1) : ∀ r ∈ release a n l, k < r.1 :=
  release_forall (fun _ _ _ h1 _ => h1) ha h

theorem free_join (hk : 0 < k) (hf : Free l) (hg : ∀ s ∈ l, b + k ≤ s.1) : Free (join b k l) := by
  cases l with
  | nil => exact free_cons.mpr ⟨hk, fun s hs => absurd hs List.not_mem_nil, free_nil⟩
  | cons r l =>
    obtain ⟨c, m⟩ := r
    obtain ⟨hm, hgm, ht⟩ := free_cons.mp hf
    have hc := hg (c, m) List.mem_cons_self
    simp only at hm hgm hc
    rw [join]
    split
    · next hbk =>
      refine free_cons.mpr ⟨Nat.add_pos_left hk m, fun s hs => ?_, ht⟩
      have := hgm s hs
      show b + (k + m) < s.1
      omega
    · refine free_cons.mpr ⟨hk, fun s hs => ?_, hf⟩
      show b + k < s.1
      rcases List.mem_cons.mp hs with rfl | hs
      · show b + k < c
        omega
      · have := hgm s hs
        omega

/-- A run that is apart from all runs of the list goes back. -/
theorem free_release (hn : 0 < n) (hf : Free l) (ha : ∀ r ∈ l, Apart r (a, n)) :
    Free (release a n l) := by
  induction l with
  | nil => exact free_cons.mpr ⟨hn, fun s hs => absurd hs List.not_mem_nil, free_nil⟩
  | cons r l ih =>
    obtain ⟨b, k⟩ := r
    obtain ⟨hk, hg, ht⟩ := free_cons.mp hf
    have hb := ha (b, k) List.mem_cons_self
    have hal : ∀ r ∈ l, Apart r (a, n) := fun r hr => ha r (List.mem_cons_of_mem _ hr)
    simp only [Apart] at hk hg hb
    rw [release]
    split
    · next hba =>
      refine free_join (Nat.add_pos_left hk n) ht fun s hs => ?_
      have h1 := hg s hs
      have h2 := hal s hs
      have h3 := ht.pos s hs
      simp only [Apart] at h2
      omega
    · split
      · next hba =>
        refine free_cons.mpr ⟨Nat.add_pos_left hk n, fun s hs => ?_, ht⟩
        have := hg s hs
        show a + (k + n) < s.1
        omega
      · split
        · next hba =>
          refine free_cons.mpr ⟨hn, fun s hs => ?_, hf⟩
          show a + n < s.1
          rcases List.mem_cons.mp hs with rfl | hs
          · exact hba
          · have := hg s hs
            omega
        · refine free_cons.mpr ⟨hk, ?_, ih ht hal⟩
          apply release_lt _ hg
          show b + k < a
          omega

/-! ## Around a ring -/

/-- `r` ends before `s` begins. -/
def Below (r s : Run) : Prop := r.1 + r.2 ≤ s.1

/-- In order, but that the runs from one place on are below all before them. -/
def Around (l : List Run) : Prop := ∃ a b, l = a ++ b ∧ (b ++ a).Pairwise Below

theorem around_of_pairwise (h : l.Pairwise Below) : Around l := by
  refine ⟨l, [], (List.append_nil l).symm, ?_⟩
  rw [List.nil_append]
  exact h

theorem Around.sublist (h : Around l) (hs : l'.Sublist l) : Around l' := by
  obtain ⟨a, b, rfl, hp⟩ := h
  obtain ⟨a', b', rfl, ha, hb⟩ := List.sublist_append_iff.mp hs
  exact ⟨a', b', rfl, hp.sublist (hb.append ha)⟩

theorem Around.apart (h : Around l) : l.Pairwise Apart := by
  obtain ⟨a, b, rfl, hp⟩ := h
  have hap : (b ++ a).Pairwise Apart := hp.imp fun h => .inl h
  exact (List.pairwise_append_comm fun h => Or.symm h).mp hap

/-- The last run of a list in order ends behind the others. -/
theorem below_last (hl : l.Pairwise Below) (ht : l.getLast? = some s) (hr : r ∈ l) :
    r = s ∨ Below r s := by
  obtain ⟨m, rfl⟩ := List.getLast?_eq_some_iff.mp ht
  rcases List.mem_append.mp hr with hr | hr
  · exact .inr ((List.pairwise_append.mp hl).2.2 r hr s (List.mem_singleton_self s))
  · exact .inl (List.mem_singleton.mp hr)

theorem below_head (hl : l.Pairwise Below) (hh : l.head? = some r) (hs : s ∈ l) :
    s = r ∨ Below r s := by
  cases l with
  | nil => cases hh
  | cons x l =>
    obtain rfl : x = r := Option.some.inj hh
    rcases List.mem_cons.mp hs with rfl | hs
    · exact .inl rfl
    · exact .inr ((List.pairwise_cons.mp hl).1 s hs)

/-- The list is in order, or its first run is above its last one. -/
theorem Around.cases (h : Around l) (hpos : ∀ r ∈ l, 0 < r.2) (hh : l.head? = some r)
    (ht : l.getLast? = some s) :
    r.1 ≤ s.1 ∧ l.Pairwise Below ∨
      s.1 < r.1 ∧ ∃ a b, l = a ++ b ∧ (b ++ a).Pairwise Below ∧ a.head? = some r ∧
        b.getLast? = some s := by
  obtain ⟨a, b, rfl, hp⟩ := h
  have hordered : ∀ m : List Run, m.Pairwise Below → m.head? = some r → m.getLast? = some s →
      r.1 ≤ s.1 := fun m hm hr hs => by
    rcases below_head hm hr (List.mem_of_getLast? hs) with rfl | hb
    · exact Nat.le_refl _
    · exact Nat.le_of_add_right_le hb
  cases a with
  | nil =>
    rw [List.append_nil] at hp
    exact .inl ⟨hordered b hp hh ht, hp⟩
  | cons x a =>
    obtain rfl : x = r := Option.some.inj hh
    rcases List.eq_nil_or_concat b with rfl | ⟨b, y, rfl⟩
    · rw [List.append_nil] at ht ⊢
      exact .inl ⟨hordered _ hp rfl ht, hp⟩
    · rw [List.concat_eq_append] at *
      have hy : y = s := by
        rw [← List.append_assoc, List.getLast?_append, List.getLast?_singleton] at ht
        exact Option.some.inj ht
      subst hy
      refine .inr ⟨?_, _, _, rfl, hp, rfl, by
        rw [List.getLast?_append, List.getLast?_singleton]
        rfl⟩
      have hb : Below y x := (List.pairwise_append.mp hp).2.2 y
        (List.mem_append_right _ (List.mem_singleton_self y)) x List.mem_cons_self
      have hy := hpos y (List.mem_append_right _ (List.mem_append_right _
        (List.mem_singleton_self y)))
      unfold Below at hb
      omega

/-- One more run behind the last one of a list in order. -/
theorem around_behind (hl : l.Pairwise Below) (ht : l.getLast? = some s) (hs : Below s r) :
    (l ++ [r]).Pairwise Below := by
  refine List.pairwise_append.mpr ⟨hl, List.pairwise_singleton _ r, fun x hx y hy => ?_⟩
  obtain rfl := List.mem_singleton.mp hy
  rcases below_last hl ht hx with rfl | hb
  · exact hs
  · unfold Below at *
    omega

/-- One more run below the first one of a list in order. -/
theorem around_turn (hl : l.Pairwise Below) (hh : l.head? = some s) (hs : Below r s) :
    Around (l ++ [r]) := by
  refine ⟨l, [r], rfl, List.pairwise_append.mpr ⟨List.pairwise_singleton _ r, hl,
    fun x hx y hy => ?_⟩⟩
  obtain rfl := List.mem_singleton.mp hx
  rcases below_head hl hh hy with rfl | hb
  · exact hs
  · unfold Below at *
    omega

/-- One more run between the last one and the first one of a list that has turned. -/
theorem around_gap {a b : List Run} {x : Run} (hp : (b ++ a).Pairwise Below) (ha : a.head? = some x)
    (hb : b.getLast? = some s) (hs : Below s r) (hx : Below r x) : Around (a ++ b ++ [r]) := by
  obtain ⟨hpb, hpa, hba⟩ := List.pairwise_append.mp hp
  refine ⟨a, b ++ [r], List.append_assoc .., List.pairwise_append.mpr
    ⟨around_behind hpb hb hs, hpa, fun y hy z hz => ?_⟩⟩
  rcases List.mem_append.mp hy with hy | hy
  · exact hba y hy z hz
  · obtain rfl := List.mem_singleton.mp hy
    rcases below_head hpa ha hz with rfl | hb
    · exact hx
    · unfold Below at *
      omega

/-! ## End to end -/

/-- The first run begins at `a`, and each one where the one before it ends. -/
def Joined : Nat → List Run → Prop
  | _, [] => True
  | a, r :: l => r.1 = a ∧ Joined (a + r.2) l

def places (r : Run) : List Nat := List.range' r.1 r.2

theorem length_places : (places r).length = r.2 := List.length_range'

theorem total_perm (h : l.Perm l') : total l = total l' := by
  induction h with
  | nil => rfl
  | cons r _ ih => exact congrArg (r.2 + ·) ih
  | swap r s l => exact Nat.add_left_comm ..
  | trans _ _ ih ih' => exact ih.trans ih'

/-- The runs are end to end if and only if they make one run. -/
theorem flatMap_places (hpos : ∀ r ∈ l, 0 < r.2) :
    l.flatMap places = List.range' a (total l) ↔ Joined a l := by
  induction l generalizing a with
  | nil => exact iff_of_true rfl trivial
  | cons r l ih =>
    obtain ⟨b, k⟩ := r
    have hk : 0 < k := hpos (b, k) List.mem_cons_self
    have hsplit : List.range' a (total ((b, k) :: l)) =
        List.range' a k ++ List.range' (a + k) (total l) := List.range'_append_1.symm
    rw [List.flatMap_cons, hsplit]
    show _ ↔ b = a ∧ Joined (a + k) l
    rw [← ih fun r hr => hpos r (List.mem_cons_of_mem _ hr)]
    constructor
    · intro h
      obtain ⟨hhead, htail⟩ := List.append_inj h (length_places.trans List.length_range'.symm)
      refine ⟨?_, htail⟩
      have hfirst := congrArg List.head? hhead
      rw [places, List.head?_range', List.head?_range', if_neg (Nat.ne_of_gt hk),
        if_neg (Nat.ne_of_gt hk)] at hfirst
      exact Option.some.inj hfirst
    · rintro ⟨rfl, h⟩
      rw [h]
      rfl

end Runs
