import Mathlib.Algebra.Group.Nat.Defs
import Mathlib.Data.List.Range
import Mathlib.Logic.Function.Basic

/-!
# Ring buffers

`entry` elements of a buffer of `size` cells, from the cell `out` on and around its end.

* `contents`: the elements in order.
* `contents_push`: a new element goes into the cell behind the last one.
* `contents_pop`: the first element is in the cell `out`.
* `wrap_succ`: the next cell, as `++ i; if (i >= size) i = 0;` finds it.
* `contents_add`: the first elements, and the others.
* `contents_pushAll`: new elements go into the cells behind the last one, in order.
-/

namespace Ring

variable {β : Type*} {buf : Nat → β} {size out entry i : Nat}

/-- The elements in order. -/
def contents (buf : Nat → β) (size out entry : Nat) : List β :=
  (List.range entry).map fun i => buf ((out + i) % size)

@[simp] theorem contents_zero : contents buf size out 0 = [] := rfl

@[simp] theorem length_contents : (contents buf size out entry).length = entry := by
  simp [contents]

/-- The next cell. -/
theorem wrap_succ (hi : i < size) : (if i + 1 ≥ size then 0 else i + 1) = (i + 1) % size := by
  split
  · have hs : i + 1 = size := by omega
    rw [hs, Nat.mod_self]
  · rw [Nat.mod_eq_of_lt (by omega)]

/-- A cell less than twice around. -/
theorem mod_wrap {x : Nat} (hx : x < size + size) :
    x % size = if x < size then x else x - size := by
  split
  · next h => exact Nat.mod_eq_of_lt h
  · rw [Nat.mod_eq_sub_mod (by omega), Nat.mod_eq_of_lt (by omega)]

/-- Two of `size` cells in a row are different. -/
theorem cell_ne (h : entry < size) (hi : i < entry) : (out + i) % size ≠ (out + entry) % size := by
  intro he
  have hd : (out + entry - (out + i)) % size = 0 := (Nat.sub_mod_eq_zero_of_mod_eq he.symm)
  have hlt : out + entry - (out + i) < size := by omega
  rw [Nat.mod_eq_of_lt hlt] at hd
  omega

/-- A new element goes behind the last one. -/
theorem contents_push (h : entry < size) (v : β) :
    contents (Function.update buf ((out + entry) % size) v) size out (entry + 1) =
      contents buf size out entry ++ [v] := by
  unfold contents
  rw [List.range_succ, List.map_append, List.map_singleton, Function.update_self]
  congr 1
  apply List.map_congr_left
  intro i hi
  exact Function.update_of_ne (cell_ne h (List.mem_range.mp hi)) ..

/-- The first element is in the cell `out`. -/
theorem contents_pop : contents buf size out (entry + 1) =
    buf (out % size) :: contents buf size ((out + 1) % size) entry := by
  unfold contents
  rw [List.range_succ_eq_map, List.map_cons, List.map_map, Nat.add_zero]
  congr 1
  apply List.map_congr_left
  intro i _
  show buf ((out + (i + 1)) % size) = _
  rw [Nat.mod_add_mod, Nat.add_assoc, Nat.add_comm 1 i]

/-- The first `m` elements, and those behind them. -/
theorem contents_add (m n : Nat) : contents buf size out (m + n) =
    contents buf size out m ++ contents buf size ((out + m) % size) n := by
  unfold contents
  rw [List.range_add, List.map_append, List.map_map]
  congr 1
  apply List.map_congr_left
  intro i _
  show buf ((out + (m + i)) % size) = _
  rw [Nat.mod_add_mod, Nat.add_assoc]

theorem getD_contents (d : β) (hi : i < entry) :
    (contents buf size out entry).getD i d = buf ((out + i) % size) := by
  rw [List.getD_eq_getElem?_getD, contents, List.getElem?_map, List.getElem?_range hi]
  rfl

theorem drop_contents {n : Nat} (h : n ≤ entry) : (contents buf size out entry).drop n =
    contents buf size ((out + n) % size) (entry - n) := by
  have he : entry = n + (entry - n) := by omega
  rw [he, contents_add, List.drop_left' length_contents, Nat.add_sub_cancel_left]

/-- New elements go behind the last one; all other cells are as before. -/
theorem contents_pushAll {buf' : Nat → β} {f : Nat → β} {n : Nat} (h : entry + n ≤ size)
    (hnew : ∀ j, j < n → buf' ((out + entry + j) % size) = f j)
    (hold : ∀ x, (∀ j, j < n → x ≠ (out + entry + j) % size) → buf' x = buf x) :
    contents buf' size out (entry + n) = contents buf size out entry ++ (List.range n).map f := by
  rw [contents_add]
  congr 1
  · apply List.map_congr_left
    intro i hi
    apply hold
    intro j hj
    have := List.mem_range.mp hi
    rw [Nat.add_assoc]
    exact cell_ne (by omega) (by omega)
  · apply List.map_congr_left
    intro j hj
    show buf' (((out + entry) % size + j) % size) = f j
    rw [Nat.mod_add_mod]
    exact hnew j (List.mem_range.mp hj)

end Ring
