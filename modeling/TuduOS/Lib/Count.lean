import Mathlib.Data.Set.Card
import Mathlib.Logic.Function.Basic

/-!
# How many of them

`Count P f n`: exactly `n` of the things `x` have `P (f x)`. A protocol keeps a counter of the
threads at some place; `f` says where each thread is, and the lemmas how the count changes when one
thread moves.

* `Count.congr`: nobody enters or leaves.
* `Count.enter`, `Count.leave`, `Count.stay`: one moves.
* `Count.pos_iff`: there is one.
-/

variable {α β : Type*} {P : β → Prop} {f g : α → β} {n : Nat} {x : α} {b : β}

def Count (P : β → Prop) (f : α → β) (n : Nat) : Prop := {x | P (f x)}.encard = n

namespace Count

theorem zero (h : ∀ x, ¬ P (f x)) : Count P f 0 :=
  Set.encard_eq_zero.mpr (Set.eq_empty_of_forall_notMem h)

theorem congr (h : Count P f n) (hP : ∀ x, P (g x) ↔ P (f x)) : Count P g n := by
  have hset : {x | P (g x)} = {x | P (f x)} := Set.ext hP
  rw [Count, hset]
  exact h

theorem pos_iff (h : Count P f n) : 0 < n ↔ ∃ x, P (f x) := by
  have hne : n ≠ 0 ↔ {x | P (f x)}.Nonempty := by
    rw [← Set.encard_ne_zero, show {x | P (f x)}.encard = n from h]
    exact Nat.cast_ne_zero.symm
  rw [Nat.pos_iff_ne_zero, hne]
  exact Set.nonempty_def

section Update

variable [DecidableEq α]

theorem stay (h : Count P f n) (hx : P b ↔ P (f x)) : Count P (Function.update f x b) n := by
  refine h.congr fun y => ?_
  rcases eq_or_ne y x with rfl | hy
  · rw [Function.update_self, hx]
  · rw [Function.update_of_ne hy]

theorem enter (h : Count P f n) (hx : ¬ P (f x)) (hb : P b) :
    Count P (Function.update f x b) (n + 1) := by
  have hset : {y | P (Function.update f x b y)} = insert x {y | P (f y)} := by
    ext y
    rw [Set.mem_insert_iff, Set.mem_ofPred_eq, Set.mem_ofPred_eq]
    rcases eq_or_ne y x with rfl | hy
    · rw [Function.update_self]
      exact iff_of_true hb (Or.inl rfl)
    · rw [Function.update_of_ne hy]
      exact (or_iff_right hy).symm
  have hnot : x ∉ {y | P (f y)} := hx
  rw [Count, hset, Set.encard_insert_of_notMem hnot, show {y | P (f y)}.encard = n from h]
  rfl

theorem leave (h : Count P f (n + 1)) (hx : P (f x)) (hb : ¬ P b) :
    Count P (Function.update f x b) n := by
  have hset : {y | P (Function.update f x b y)} = {y | P (f y)} \ {x} := by
    ext y
    rw [Set.mem_sdiff, Set.mem_ofPred_eq, Set.mem_ofPred_eq, Set.mem_singleton_iff]
    rcases eq_or_ne y x with rfl | hy
    · rw [Function.update_self]
      exact iff_of_false hb fun hn => hn.2 rfl
    · rw [Function.update_of_ne hy]
      exact (and_iff_left hy).symm
  have hmem : x ∈ {y | P (f y)} := hx
  have hcard := Set.encard_sdiff_singleton_add_one hmem
  rw [show {y | P (f y)}.encard = ((n + 1 : Nat) : ℕ∞) from h, Nat.cast_add, Nat.cast_one] at hcard
  rw [Count, hset]
  exact ENat.add_left_injective_of_ne_top ENat.one_ne_top hcard

end Update

end Count
