import Mathlib.Data.List.Basic
import Mathlib.Logic.Function.Basic

/-!
# Singly linked lists

`next` gives the node behind each node, `none` for the `NULL` pointer. `IsChain next p l`: from the
pointer `p` on, `next` leads through the nodes `l` to the end.

* `IsChain.unique`: a pointer leads through one list only.
* `IsChain.congr`: nodes off the list may be changed.
* `IsChain.cons`, `IsChain.tail`, `IsChain.concat`: a node is put before the first one, the first
  one is taken off, a node is put behind the last one.
* `IsChain.unlink`, `IsChain.insert`: a node behind another one is taken off, or put there.
* `IsChain.relink`: a node is linked to another list.
-/

namespace Chain

variable {β : Type*} {next next' : β → Option β} {p : Option β} {b t : β} {l l' : List β}

/-- From `p` on, `next` leads through the nodes `l` to the end. -/
def IsChain (next : β → Option β) : Option β → List β → Prop
  | p, [] => p = none
  | p, b :: l => p = some b ∧ IsChain next (next b) l

theorem isChain_nil : IsChain next p [] ↔ p = none := Iff.rfl

theorem IsChain.eq_nil (h : IsChain next none l) : l = [] := by
  cases l with
  | nil => rfl
  | cons b l => exact absurd h.1 (by simp)

/-- A list that begins at a node. -/
theorem IsChain.eq_cons (h : IsChain next (some b) l) :
    ∃ m, l = b :: m ∧ IsChain next (next b) m := by
  cases l with
  | nil => exact absurd h (by simp [IsChain])
  | cons c m =>
    obtain ⟨hc, hm⟩ := h
    cases hc
    exact ⟨m, rfl, hm⟩

theorem IsChain.unique (h : IsChain next p l) (h' : IsChain next p l') : l = l' := by
  induction l generalizing p l' with
  | nil =>
    rw [isChain_nil.mp h] at h'
    exact h'.eq_nil.symm
  | cons b l ih =>
    rw [h.1] at h'
    obtain ⟨m, rfl, hm⟩ := h'.eq_cons
    rw [ih h.2 hm]

/-- Nodes off the list may be changed. -/
theorem IsChain.congr (h : IsChain next p l) (hn : ∀ b ∈ l, next' b = next b) :
    IsChain next' p l := by
  induction l generalizing p with
  | nil => exact h
  | cons b l ih =>
    refine ⟨h.1, ?_⟩
    rw [hn b List.mem_cons_self]
    exact ih h.2 fun c hc => hn c (List.mem_cons_of_mem _ hc)

theorem IsChain.head (h : IsChain next p l) : p = l.head? := by
  cases l with
  | nil => exact h
  | cons b l => exact h.1

/-- The node behind the first one. -/
theorem IsChain.tail (h : IsChain next p (b :: l)) : IsChain next (next b) l := h.2

/-- The first node of two pieces, where the second one has one. -/
theorem IsChain.exists_head (h : IsChain next p (l ++ t :: l')) : ∃ d ∈ l ++ [t], p = some d := by
  cases l with
  | nil => exact ⟨t, List.mem_cons_self, h.1⟩
  | cons c l => exact ⟨c, List.mem_cons_self, h.1⟩

/-- What `t` is linked to. -/
theorem IsChain.behind (h : IsChain next p (l ++ t :: l')) : IsChain next (next t) l' := by
  induction l generalizing p with
  | nil => exact h.2
  | cons c l ih => exact ih h.2

section Update

variable [DecidableEq β]

theorem IsChain.update (h : IsChain next p l) (hb : b ∉ l) (q : Option β) :
    IsChain (Function.update next b q) p l := by
  refine h.congr fun c hc => Function.update_of_ne ?_ ..
  rintro rfl
  exact hb hc

/-- A node is put before the first one. -/
theorem IsChain.cons (h : IsChain next p l) (hb : b ∉ l) :
    IsChain (Function.update next b p) (some b) (b :: l) := by
  refine ⟨rfl, ?_⟩
  rw [Function.update_self]
  exact h.update hb p

/-- A node, which ends its list, is put behind the last one. -/
theorem IsChain.concat (h : IsChain next p (l ++ [t])) (ht : t ∉ l) (hbl : b ∉ l) (hbt : b ≠ t)
    (hb : next b = none) : IsChain (Function.update next t (some b)) p (l ++ [t] ++ [b]) := by
  induction l generalizing p with
  | nil =>
    refine ⟨h.1, ?_⟩
    rw [Function.update_self]
    refine ⟨rfl, ?_⟩
    rw [Function.update_of_ne hbt]
    exact hb
  | cons c l ih =>
    rw [List.mem_cons, not_or] at ht hbl
    refine ⟨h.1, ?_⟩
    rw [Function.update_of_ne (Ne.symm ht.1)]
    exact ih h.2 ht.2 hbl.2

/-- A node is linked to another list. -/
theorem IsChain.relink {q : Option β} {m : List β} (h : IsChain next p (l ++ t :: m))
    (hq : IsChain next q l') (ht : t ∉ l) (ht' : t ∉ l') :
    IsChain (Function.update next t q) p (l ++ t :: l') := by
  induction l generalizing p with
  | nil =>
    refine ⟨h.1, ?_⟩
    rw [Function.update_self]
    exact hq.update ht' _
  | cons c l ih =>
    rw [List.mem_cons, not_or] at ht
    refine ⟨h.1, ?_⟩
    rw [Function.update_of_ne (Ne.symm ht.1)]
    exact ih h.2 ht.2

/-- The node behind `t` is taken off. -/
theorem IsChain.unlink (h : IsChain next p (l ++ t :: b :: l')) (ht : t ∉ l) (ht' : t ∉ l') :
    IsChain (Function.update next t (next b)) p (l ++ t :: l') :=
  h.relink h.behind.tail ht ht'

/-- A node is put behind `t`. -/
theorem IsChain.insert (h : IsChain next p (l ++ t :: l')) (ht : t ∉ l) (ht' : t ∉ l')
    (hb : b ∉ l ++ t :: l') :
    IsChain (Function.update (Function.update next b (next t)) t (some b)) p (l ++ t :: b :: l') := by
  induction l generalizing p with
  | nil =>
    rw [List.nil_append, List.mem_cons, not_or] at hb
    refine ⟨h.1, ?_⟩
    rw [Function.update_self]
    refine ⟨rfl, ?_⟩
    rw [Function.update_of_ne hb.1, Function.update_self]
    exact (h.tail.update hb.2 _).update ht' _
  | cons c l ih =>
    rw [List.mem_cons, not_or] at ht
    rw [List.cons_append, List.mem_cons, not_or] at hb
    refine ⟨h.1, ?_⟩
    rw [Function.update_of_ne (Ne.symm ht.1), Function.update_of_ne (Ne.symm hb.1)]
    exact ih h.2 ht.2 hb.2

end Update

end Chain
