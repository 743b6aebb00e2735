import Mathlib.Data.Nat.Init

/-!
# Cyclic redundancy checks, the highest bit first

The remainder is a bit vector; a shift takes its highest bit out and adds the polynomial for it.

* `shift_xor`, `shifts_xor`: shifts are linear in exclusive or.
* `shifts_eq`: `k` shifts of a remainder are those of its `k` highest bits, and the others moved up.
  A table of the shifts of the highest bits gives all of them.
-/

namespace Crc

variable {w : Nat} {p : BitVec w}

def shift (p c : BitVec w) : BitVec w := if c.msb then c <<< 1 ^^^ p else c <<< 1

def shifts (p : BitVec w) : Nat → BitVec w → BitVec w
  | 0, c => c
  | k + 1, c => shift p (shifts p k c)

theorem xor_added_twice (a b p : BitVec w) : a ^^^ p ^^^ (b ^^^ p) = a ^^^ b := by
  rw [BitVec.xor_comm b p, BitVec.xor_assoc, ← BitVec.xor_assoc p p b, BitVec.xor_self,
    BitVec.zero_xor]

theorem shift_xor (a b : BitVec w) : shift p (a ^^^ b) = shift p a ^^^ shift p b := by
  unfold shift
  rw [BitVec.msb_xor, BitVec.shiftLeft_xor_distrib]
  cases a.msb <;> cases b.msb
  · rfl
  · exact BitVec.xor_assoc ..
  · show a <<< 1 ^^^ b <<< 1 ^^^ p = a <<< 1 ^^^ p ^^^ b <<< 1
    rw [BitVec.xor_assoc, BitVec.xor_comm _ p, ← BitVec.xor_assoc]
  · exact (xor_added_twice _ _ p).symm

theorem shifts_xor (k : Nat) (a b : BitVec w) :
    shifts p k (a ^^^ b) = shifts p k a ^^^ shifts p k b := by
  induction k with
  | zero => rfl
  | succ k ih => rw [shifts, ih, shift_xor]; rfl

/-- The polynomial is not added while the highest bits are clear. -/
theorem shifts_of_clear {k : Nat} {c : BitVec w} (hc : ∀ i, w - k ≤ i → c.getLsbD i = false) :
    shifts p k c = c <<< k := by
  induction k with
  | zero => exact (BitVec.shiftLeft_zero c).symm
  | succ k ih =>
    have hmsb : (c <<< k).msb = false := by
      rw [BitVec.msb_eq_getLsbD_last, BitVec.getLsbD_shiftLeft]
      by_cases hk : k ≤ w - 1
      · rw [hc (w - 1 - k) (by omega), Bool.and_false]
      · simp [show w - 1 < k by omega]
    rw [shifts, ih fun i hi => hc i (by omega), shift, hmsb, BitVec.shiftLeft_add]
    rfl

theorem shifts_eq {k : Nat} (hk : k ≤ w) (c : BitVec w) :
    shifts p k c = shifts p k (c >>> (w - k) <<< (w - k)) ^^^ c <<< k := by
  -- the lower bits, and the `k` highest ones
  have hsplit : c = c >>> (w - k) <<< (w - k) ^^^ (c ^^^ c >>> (w - k) <<< (w - k)) := by
    rw [BitVec.xor_comm c, ← BitVec.xor_assoc, BitVec.xor_self, BitVec.zero_xor]
  have hclear : ∀ i, w - k ≤ i → (c ^^^ c >>> (w - k) <<< (w - k)).getLsbD i = false := by
    intro i hi
    rw [BitVec.getLsbD_xor, BitVec.getLsbD_shiftLeft, BitVec.getLsbD_ushiftRight]
    by_cases hiw : i < w
    · simp [hiw, show ¬i < w - k by omega, show w - k + (i - (w - k)) = i by omega]
    · simp [hiw, BitVec.getLsbD_of_ge c i (by omega)]
  have hhigh : c >>> (w - k) <<< (w - k) <<< k = 0#w := by
    rw [← BitVec.shiftLeft_add, Nat.sub_add_cancel hk]
    exact BitVec.shiftLeft_eq_zero (Nat.le_refl w)
  conv => lhs; rw [hsplit]
  rw [shifts_xor, shifts_of_clear hclear, BitVec.shiftLeft_xor_distrib, hhigh, BitVec.xor_zero]

end Crc
