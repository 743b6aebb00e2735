import Mathlib.Data.BitVec
import Mathlib.Data.Set.Basic

/-!
# Bit vectors as sets

`bits x` is the set of the bits that are 1. The operations on bit vectors are those on sets.
-/

namespace BitSet

open BitVec

variable {w : Nat} {x y : BitVec w}

/-- The bits that are 1. -/
def bits (x : BitVec w) : Set Nat := {i | x.getLsbD i = true}

theorem mem_bits {i : Nat} : i ∈ bits x ↔ x.getLsbD i = true := Iff.rfl

theorem bits_and : bits (x &&& y) = bits x ∩ bits y := by
  ext i
  simp [mem_bits]

theorem bits_or : bits (x ||| y) = bits x ∪ bits y := by
  ext i
  simp [mem_bits]

theorem bits_zero : bits (0 : BitVec w) = ∅ := by
  ext i
  simp [mem_bits]

/-- `x &= ~y` -/
theorem bits_and_not : bits (x &&& ~~~y) = bits x \ bits y := by
  ext i
  rw [Set.mem_sdiff, mem_bits, mem_bits, mem_bits, getLsbD_and, getLsbD_not]
  constructor
  · intro h
    simp only [Bool.and_eq_true, decide_eq_true_eq, Bool.not_eq_true'] at h
    exact ⟨h.1, by simp [h.2.2]⟩
  · rintro ⟨hx, hy⟩
    have hi : i < w := lt_of_getLsbD hx
    rw [hx, decide_eq_true hi, Bool.eq_false_iff.mpr hy]
    rfl

theorem bits_injective : Function.Injective (bits : BitVec w → Set Nat) := by
  intro x y h
  refine eq_of_getLsbD_eq fun i _ => ?_
  have hi : i ∈ bits x ↔ i ∈ bits y := by rw [h]
  exact Bool.eq_iff_iff.mpr hi

/-- `(x & y) == x` -/
theorem and_eq_left_iff : x &&& y = x ↔ bits x ⊆ bits y := by
  rw [← bits_injective.eq_iff, bits_and, Set.inter_eq_left]

/-- `x & y` is not 0. -/
theorem and_ne_zero_iff : x &&& y ≠ 0 ↔ (bits x ∩ bits y).Nonempty := by
  rw [← bits_and, Set.nonempty_iff_ne_empty, ← bits_zero (w := w), Ne, Ne, bits_injective.eq_iff]

/-- `1 << p` -/
theorem mem_bits_one_shiftLeft {i p : Nat} (hp : p < w) : i ∈ bits (1#w <<< p) ↔ i = p := by
  rw [mem_bits, getLsbD_shiftLeft, getLsbD_one]
  by_cases hi : i = p
  · subst hi
    simp [hp, Nat.zero_lt_of_lt hp]
  · by_cases hlt : i < p
    · simp [hi, hlt]
    · have hne : i - p ≠ 0 := by omega
      simp [hi, hne]

end BitSet
