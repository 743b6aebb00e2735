import Mathlib.Algebra.Group.Nat.Defs
import Mathlib.Logic.Function.Basic

/-!
# Bytes, and structures laid out in them

A memory is the byte at every address. A C structure at an address is a number of fields, each some
bytes at its own offset, the lowest byte first.

* `get m a k`, `set m a k v`: the number in the `k` bytes at `a`, read and written.
* `copy`, `fill`: `memcpy` and `memset`.
* `Layout F`: the fields `F` of a structure, inside its length and apart from each other.
* `Layout.load_store`: where structures of one layout lie apart, a write changes one field of one of
  them. This is all that an intrusive list needs to know of its memory.
-/

namespace Bytes

abbrev Memory := Nat → UInt8

/-- The number in the `k` bytes at `a`. -/
def get (m : Memory) (a : Nat) : Nat → Nat
  | 0 => 0
  | k + 1 => (m a).toNat + 256 * get m (a + 1) k

/-- The number `v` goes into the `k` bytes at `a`. -/
def set (m : Memory) (a k v : Nat) : Memory := fun x =>
  if a ≤ x ∧ x < a + k then UInt8.ofNat (v / 256 ^ (x - a)) else m x

/-- `k` bytes at `a` become `v`. -/
def fill (m : Memory) (a k : Nat) (v : UInt8) : Memory := fun x =>
  if a ≤ x ∧ x < a + k then v else m x

/-- `k` bytes go from `a` to `d`. -/
def copy (m : Memory) (d a k : Nat) : Memory := fun x =>
  if d ≤ x ∧ x < d + k then m (a + (x - d)) else m x

variable {m m' : Memory} {a b k j v : Nat}

theorem get_congr (h : ∀ x, a ≤ x → x < a + k → m' x = m x) : get m' a k = get m a k := by
  induction k generalizing a with
  | zero => rfl
  | succ k ih =>
    unfold get
    rw [h a (Nat.le_refl _) (by omega), ih fun x h1 h2 => h x (by omega) (by omega)]

theorem get_lt : get m a k < 256 ^ k := by
  induction k generalizing a with
  | zero => exact Nat.one_pos
  | succ k ih =>
    have h1 := @ih (a + 1)
    have h2 := (m a).toNat_lt
    unfold get
    rw [Nat.pow_succ']
    omega

theorem get_set_self : get (set m a k v) a k = v % 256 ^ k := by
  induction k generalizing a v with
  | zero => exact (Nat.mod_one v).symm
  | succ k ih =>
    have hrest : get (set m a (k + 1) v) (a + 1) k = get (set m (a + 1) k (v / 256)) (a + 1) k := by
      apply get_congr
      intro x h1 h2
      obtain ⟨i, rfl⟩ := Nat.exists_eq_add_of_le h1
      have hi : a + 1 + i - a = i + 1 := by omega
      simp only [set]
      rw [if_pos (by omega), if_pos (by omega), hi, Nat.add_sub_cancel_left, Nat.pow_succ',
        Nat.div_div_eq_div_mul]
    have hfirst : (set m a (k + 1) v a).toNat = v % 256 := by
      simp [set]
    unfold get
    rw [hfirst, hrest, ih, Nat.pow_succ', Nat.mod_mul]

/-- The bytes of a number that is read are those in the memory. -/
theorem byte_get {i : Nat} (h : i < k) : UInt8.ofNat (get m a k / 256 ^ i) = m (a + i) := by
  induction k generalizing a i with
  | zero => omega
  | succ k ih =>
    have hlt := (m a).toNat_lt
    unfold get
    cases i with
    | zero =>
      rw [Nat.pow_zero, Nat.div_one]
      change _ = m a
      apply UInt8.toNat_inj.mp
      rw [UInt8.toNat_ofNat']
      omega
    | succ i =>
      have hdiv : ((m a).toNat + 256 * get m (a + 1) k) / 256 = get m (a + 1) k := by omega
      rw [Nat.pow_succ', ← Nat.div_div_eq_div_mul, hdiv, ih (by omega)]
      congr 1
      omega

/-- A number that is read and written is copied. -/
theorem set_get (m' : Memory) : set m b k (get m' a k) = fun x =>
    if b ≤ x ∧ x < b + k then m' (a + (x - b)) else m x := by
  funext x
  unfold set
  by_cases hx : b ≤ x ∧ x < b + k
  · rw [if_pos hx, if_pos hx, byte_get (by omega)]
  · rw [if_neg hx, if_neg hx]

theorem get_set_apart (h : a + k ≤ b ∨ b + j ≤ a) : get (set m a k v) b j = get m b j := by
  apply get_congr
  intro x h1 h2
  exact if_neg (by omega)

/-! ## Structures -/

/-- The fields of a structure. -/
structure Layout (F : Type) where
  off : F → Nat
  size : F → Nat
  len : Nat
  inside : ∀ f, off f + size f ≤ len
  apart : ∀ f g, f = g ∨ off f + size f ≤ off g ∨ off g + size g ≤ off f

namespace Layout

variable {F : Type} (S : Layout F)

/-- The field `f` of the structure at `b`. -/
def load (m : Memory) (f : F) (b : Nat) : Nat := get m (b + S.off f) (S.size f)

def store (m : Memory) (f : F) (b v : Nat) : Memory := set m (b + S.off f) (S.size f) v

variable {S} {f g : F} {c : Nat}

/-- Two structures are one or apart. -/
theorem load_store [DecidableEq F] (h : b = c ∨ b + S.len ≤ c ∨ c + S.len ≤ b) :
    S.load (S.store m f b v) g c = if b = c ∧ f = g then v % 256 ^ S.size f else S.load m g c := by
  have hf := S.inside f
  have hg := S.inside g
  split
  · rename_i he
    obtain ⟨rfl, rfl⟩ := he
    exact get_set_self
  · rename_i he
    rw [not_and_or] at he
    apply get_set_apart
    rcases S.apart f g with rfl | hfg | hfg
    · have hbc : b ≠ c := he.resolve_right fun hn => hn rfl
      omega
    · omega
    · omega

/-- A field is read from the bytes of its structure. -/
theorem load_congr (h : ∀ x, c ≤ x → x < c + S.len → m' x = m x) :
    S.load m' g c = S.load m g c := by
  have hg := S.inside g
  apply get_congr
  intro x h1 h2
  exact h x (by omega) (by omega)

end Layout

end Bytes
