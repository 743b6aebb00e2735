import Mathlib.Data.List.Sort
import Mathlib.Order.Basic

/-!
# Priority queues that keep the order of arrival

A queue is a list. `key` is the priority of an element (a smaller key goes first), and `stamp` the
time of its arrival.

* `Before key stamp a b`: `a` has the smaller key, or the same key and it came earlier.
* `Queued key stamp l`: the list is in this order.
* `Queued.insert`: a newcomer goes before the first element with a larger key.
* `Queued.rekey_iff`: a change of one key keeps the order if and only if it does not move the
  element past another one.
-/

namespace PrioQueue

variable {β κ : Type*} [LinearOrder κ] {key key' : β → κ} {stamp : β → Nat} {a b c : β} {l m : List β}

/-- `a` is to be served before `b`. -/
def Before (key : β → κ) (stamp : β → Nat) (a b : β) : Prop :=
  key a < key b ∨ key a = key b ∧ stamp a < stamp b

instance : Decidable (Before key stamp a b) :=
  inferInstanceAs (Decidable (key a < key b ∨ key a = key b ∧ stamp a < stamp b))

/-- The list is in the order of service. -/
def Queued (key : β → κ) (stamp : β → Nat) (l : List β) : Prop := l.Pairwise (Before key stamp)

theorem Before.le (h : Before key stamp a b) : key a ≤ key b := by
  rcases h with h | h
  · exact h.le
  · exact h.1.le

theorem Before.irrefl (a : β) : ¬ Before key stamp a a := by
  rintro (h | h)
  · exact lt_irrefl _ h
  · exact Nat.lt_irrefl _ h.2

theorem Before.trans (h : Before key stamp a b) (h' : Before key stamp b c) :
    Before key stamp a c := by
  rcases h with h | ⟨h, hs⟩
  · exact .inl (h.trans_le h'.le)
  · rcases h' with h' | ⟨h', hs'⟩
    · exact .inl (h.trans_lt h')
    · exact .inr ⟨h.trans h', hs.trans hs'⟩

theorem Before.asymm (h : Before key stamp a b) : ¬ Before key stamp b a := fun h' =>
  Before.irrefl a (h.trans h')

theorem Before.total (hs : stamp a ≠ stamp b) : Before key stamp a b ∨ Before key stamp b a := by
  rcases lt_trichotomy (key a) (key b) with h | h | h
  · exact .inl (.inl h)
  · rcases Nat.lt_or_gt_of_ne hs with hs | hs
    · exact .inl (.inr ⟨h, hs⟩)
    · exact .inr (.inr ⟨h.symm, hs⟩)
  · exact .inr (.inl h)

theorem Queued.sublist (h : Queued key stamp l) (hm : m.Sublist l) : Queued key stamp m :=
  List.Pairwise.sublist hm h

theorem Queued.congr {stamp' : β → Nat} (h : Queued key stamp l) (hk : ∀ a ∈ l, key' a = key a)
    (hs : ∀ a ∈ l, stamp' a = stamp a) : Queued key' stamp' l := by
  refine List.Pairwise.imp_of_mem (fun {a b} ha hb hab => ?_) h
  unfold Before
  rw [hk a ha, hk b hb, hs a ha, hs b hb]
  exact hab

/-- The first element has the smallest key. -/
theorem Queued.head_le (h : Queued key stamp l) (ha : l.head? = some a) (hb : b ∈ l) :
    key a ≤ key b := by
  cases l with
  | nil => cases hb
  | cons x l =>
    cases ha
    rcases List.mem_cons.mp hb with rfl | hb
    · exact le_rfl
    · exact ((List.pairwise_cons.mp h).1 b hb).le

/-- A newcomer goes before the first element with a larger key. -/
theorem Queued.insert (h : Queued key stamp l) (ha : ∀ b ∈ l, stamp b < stamp a) :
    Queued key stamp (l.orderedInsert (fun a b => key a < key b) a) := by
  induction l with
  | nil => exact List.pairwise_singleton _ a
  | cons b l ih =>
    obtain ⟨hb, hl⟩ := List.pairwise_cons.mp h
    rw [List.orderedInsert_cons]
    split
    · next hab =>
      refine List.pairwise_cons.mpr ⟨fun c hc => ?_, h⟩
      rcases List.mem_cons.mp hc with rfl | hc
      · exact .inl hab
      · exact Before.trans (.inl hab) (hb c hc)
    · next hab =>
      have hba : Before key stamp b a := by
        rcases (not_lt.mp hab).lt_or_eq with hlt | heq
        · exact .inl hlt
        · exact .inr ⟨heq, ha b List.mem_cons_self⟩
      refine List.pairwise_cons.mpr ⟨fun c hc => ?_, ih hl fun c hc => ha c (List.mem_cons_of_mem _ hc)⟩
      rcases (List.mem_orderedInsert _).mp hc with rfl | hc
      · exact hba
      · exact hb c hc

/-! ## A change of one key -/

/-- Two elements of a list stand in one of two ways, in both orders that the list is in. -/
theorem Queued.pair {stamp' : β → Nat} (h : Queued key stamp l) (h' : Queued key' stamp' l)
    (ha : a ∈ l) (hb : b ∈ l) (hab : a ≠ b) :
    Before key stamp a b ∧ Before key' stamp' a b ∨
      Before key stamp b a ∧ Before key' stamp' b a := by
  induction l with
  | nil => cases ha
  | cons c l ih =>
    obtain ⟨hc, hl⟩ := List.pairwise_cons.mp h
    obtain ⟨hc', hl'⟩ := List.pairwise_cons.mp h'
    rcases List.mem_cons.mp ha with rfl | hal
    · have hbl := (List.mem_cons.mp hb).resolve_left (Ne.symm hab)
      exact .inl ⟨hc b hbl, hc' b hbl⟩
    · rcases List.mem_cons.mp hb with rfl | hbl
      · exact .inr ⟨hc a hal, hc' a hal⟩
      · exact ih hl hl' hal hbl

/-- The change of one key keeps the order if and only if it does not move the element past another
one. -/
theorem Queued.rekey_iff (h : Queued key stamp l) (hs : ∀ b ∈ l, b ≠ a → stamp a ≠ stamp b)
    (hk : ∀ b, b ≠ a → key' b = key b) (ha : a ∈ l) :
    Queued key' stamp l ↔ ∀ b ∈ l, b ≠ a → (Before key stamp a b ↔ Before key' stamp a b) := by
  constructor
  · intro h' b hb hba
    rcases h.pair h' ha hb (Ne.symm hba) with ⟨h1, h2⟩ | ⟨h1, h2⟩
    · exact iff_of_true h1 h2
    · exact iff_of_false h1.asymm h2.asymm
  · intro hkeep
    refine List.Pairwise.imp_of_mem (fun {b c} hb hc hbc => ?_) h
    by_cases hba : b = a
    · subst hba
      by_cases hcb : c = b
      · subst hcb
        exact absurd hbc (Before.irrefl c)
      · exact (hkeep c hc hcb).mp hbc
    by_cases hca : c = a
    · subst hca
      have hno : ¬ Before key' stamp c b := fun hcb => hbc.asymm ((hkeep b hb hba).mpr hcb)
      exact (Before.total (hs b hb hba)).resolve_left hno
    · unfold Before
      rw [hk b hba, hk c hca]
      exact hbc

end PrioQueue
