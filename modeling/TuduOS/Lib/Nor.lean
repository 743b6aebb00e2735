import TuduOS.Lib.Bytes

/-!
# NOR flash

A memory of which an erase sets every bit of its range, and a write only clears bits.

* `erase`, `program`: the two operations. Outside of their range nothing changes.
* `Erased m a k`: the `k` bytes at `a` are erased.
* `get_program`: what is written on erased bytes is read back.
-/

namespace Nor

open Bytes (Memory fill)

/-- The bits of the `k` bytes at `a` are set. -/
def erase (m : Memory) (a k : Nat) : Memory := fill m a k 0xFF

/-- The first `k` bytes of `d` are written at `a`. -/
def program (m : Memory) (a k : Nat) (d : Nat → UInt8) : Memory := fun x =>
  if a ≤ x ∧ x < a + k then m x &&& d (x - a) else m x

/-- The bytes of a number, the lowest first. -/
def word (v : Nat) : Nat → UInt8 := fun i => UInt8.ofNat (v / 256 ^ i)

def Erased (m : Memory) (a k : Nat) : Prop := ∀ x, a ≤ x → x < a + k → m x = 0xFF

variable {m m' : Memory} {a b k j v x : Nat} {d : Nat → UInt8}

theorem erase_apart (h : x < a ∨ a + k ≤ x) : erase m a k x = m x := if_neg (by omega)

theorem program_apart (h : x < a ∨ a + k ≤ x) : program m a k d x = m x := if_neg (by omega)

theorem erased_erase : Erased (erase m a k) a k := fun _ h1 h2 => if_pos ⟨h1, h2⟩

theorem Erased.mono (h : Erased m a k) (h1 : a ≤ b) (h2 : b + j ≤ a + k) : Erased m b j :=
  fun x hx hy => h x (by omega) (by omega)

theorem Erased.congr (h : Erased m a k) (he : ∀ x, a ≤ x → x < a + k → m' x = m x) :
    Erased m' a k := fun x hx hy => by rw [he x hx hy, h x hx hy]

/-- On erased bytes, a write is a store. -/
theorem program_erased (h : Erased m a k) : program m a k (word v) = Bytes.set m a k v := by
  funext x
  have hones : (0xFF : UInt8) = -1 := by decide
  unfold program Bytes.set
  by_cases hx : a ≤ x ∧ x < a + k
  · rw [if_pos hx, if_pos hx, h x hx.1 hx.2, hones, UInt8.neg_one_and]
    rfl
  · rw [if_neg hx, if_neg hx]

theorem get_program (h : Erased m a k) : Bytes.get (program m a k (word v)) a k = v % 256 ^ k := by
  rw [program_erased h]
  exact Bytes.get_set_self

theorem get_erased (h : Erased m a k) : Bytes.get m a k = 256 ^ k - 1 := by
  induction k generalizing a with
  | zero => rfl
  | succ k ih =>
    have hpos : 0 < 256 ^ k := Nat.pow_pos (by decide)
    have hfirst : m a = 255 := h a (Nat.le_refl _) (by omega)
    unfold Bytes.get
    rw [ih (h.mono (by omega) (by omega)), hfirst, Nat.pow_succ']
    change 255 + 256 * (256 ^ k - 1) = _
    omega

/-- Only erased bytes are read as all ones. -/
theorem erased_of_get (h : Bytes.get m a k = 256 ^ k - 1) : Erased m a k := by
  induction k generalizing a with
  | zero => exact fun x h1 h2 => absurd h2 (by omega)
  | succ k ih =>
    have hpos : 0 < 256 ^ k := Nat.pow_pos (by decide)
    have hfirst := (m a).toNat_lt
    have hrest : Bytes.get m (a + 1) k < 256 ^ k := Bytes.get_lt
    have hsum : (m a).toNat + 256 * Bytes.get m (a + 1) k = 256 * 256 ^ k - 1 :=
      h.trans (congrArg (· - 1) Nat.pow_succ')
    have hall : (m a).toNat = 255 ∧ Bytes.get m (a + 1) k = 256 ^ k - 1 := by omega
    intro x h1 h2
    rcases Nat.lt_or_eq_of_le h1 with hlt | rfl
    · exact ih hall.2 x hlt (by omega)
    · exact UInt8.toNat_inj.mp hall.1

end Nor
