import Mathlib.Data.List.Basic

/-!
# Texts in padded buffers

A buffer of fixed length holds a text and, behind it, copies of one element `z` that texts do not
have.

* `pad z n xs`: the buffer of length `n` with the text `xs`.
* `move`: `memmove` inside a buffer.
* `text`: what stands in front of the first `z`.
* `insert_pad`, `erase_pad`: an element goes in or out at a position, and the text behind it moves.
-/

namespace Padded

variable {α : Type*} {z c : α} {n : Nat} {xs ys as bs : List α}

def pad (z : α) (n : Nat) (xs : List α) : List α := xs ++ List.replicate (n - xs.length) z

/-- `k` elements go from the index `s` to the index `d`. -/
def move (buf : List α) (d s k : Nat) : List α :=
  buf.take d ++ ((buf.drop s).take k ++ buf.drop (d + k))

/-- What stands in front of the first `z`. -/
def text [DecidableEq α] (z : α) (buf : List α) : List α := buf.takeWhile (· ≠ z)

theorem length_pad (h : xs.length ≤ n) : (pad z n xs).length = n := by
  rw [pad, List.length_append, List.length_replicate]
  omega

theorem take_pad : (pad z n xs).take xs.length = xs := List.take_left

/-- Behind the text there is only `z`. -/
theorem getElem?_pad {i : Nat} (h : xs.length ≤ i) (hi : i < n) : (pad z n xs)[i]? = some z := by
  rw [pad, List.getElem?_append_right h, List.getElem?_replicate, if_pos (by omega)]

theorem text_pad [DecidableEq α] (h : z ∉ xs) : text z (pad z n xs) = xs := by
  have hall : ∀ x ∈ xs, decide (x ≠ z) = true := fun x hx =>
    decide_eq_true fun he => h (he ▸ hx)
  rw [text, pad, List.takeWhile_append_of_pos hall]
  cases n - xs.length with
  | zero => exact List.append_nil xs
  | succ k =>
    rw [List.replicate_succ, List.takeWhile_cons_of_neg (by simp), List.append_nil]

theorem pad_inj [DecidableEq α] (hx : z ∉ xs) (hy : z ∉ ys) (h : pad z n xs = pad z n ys) :
    xs = ys := by
  rw [← text_pad (n := n) hx, h, text_pad hy]

/-- The first cell behind the text. -/
theorem set_pad (h : as.length < n) : (pad z n as).set as.length c = pad z n (as ++ [c]) := by
  obtain ⟨m, rfl⟩ : ∃ m, n = as.length + (m + 1) := ⟨n - as.length - 1, by omega⟩
  have h1 : as.length + (m + 1) - as.length = m + 1 := by omega
  have h2 : as.length + (m + 1) - (as ++ [c]).length = m := by
    rw [List.length_append, List.length_singleton]
    omega
  rw [pad, pad, h1, h2, List.set_append_right _ _ (Nat.le_refl _), Nat.sub_self,
    List.replicate_succ, List.set_cons_zero, List.append_assoc, List.singleton_append]

/-- The last element of the text goes out. -/
theorem unset_pad (h : as.length < n) : (pad z n (as ++ [c])).set as.length z = pad z n as := by
  have hz : (pad z n as)[as.length]? = some z := getElem?_pad (Nat.le_refl _) h
  obtain ⟨hlt, hz⟩ := List.getElem?_eq_some_iff.mp hz
  have hself := List.set_getElem_self hlt
  rw [hz] at hself
  rw [← set_pad h, List.set_set, hself]

/-- The cells from `as.length` on go one further. -/
theorem move_up (x : α) (r : List α) (k : Nat) :
    move (as ++ x :: r) (as.length + 1) as.length k = as ++ x :: ((x :: r).take k ++ r.drop k) := by
  have h1 : (as ++ x :: r).take (as.length + 1) = as ++ [x] := by
    rw [List.take_length_add_append, List.take_succ_cons, List.take_zero]
  have h2 : (as ++ x :: r).drop (as.length + 1 + k) = r.drop k := by
    rw [Nat.add_assoc, List.drop_length_add_append, Nat.add_comm 1 k, List.drop_succ_cons]
  rw [move, h1, h2, List.drop_left, List.append_assoc, List.singleton_append]

theorem insert_pad (h : (as ++ bs).length < n) :
    (move (pad z n (as ++ bs)) (as.length + 1) as.length bs.length).set as.length c =
      pad z n (as ++ c :: bs) := by
  obtain ⟨m, rfl⟩ : ∃ m, n = (as ++ bs).length + (m + 1) := ⟨n - (as ++ bs).length - 1, by omega⟩
  -- the cells behind `as`: there is at least one
  obtain ⟨x, r, hr⟩ : ∃ x r, bs ++ List.replicate (m + 1) z = x :: r :=
    List.exists_cons_of_ne_nil (by simp)
  have hbs : (x :: r).take bs.length = bs := by rw [← hr, List.take_left]
  have hz : r.drop bs.length = List.replicate m z := by
    rw [← List.drop_succ_cons (a := x), ← hr, List.drop_length_add_append]
    rfl
  have hm : (as ++ bs).length + (m + 1) - (as ++ c :: bs).length = m := by
    rw [List.length_append, List.length_append, List.length_cons]
    omega
  rw [pad, Nat.add_sub_cancel_left, List.append_assoc, hr, move_up, hbs, hz,
    List.set_append_right _ _ (Nat.le_refl _), Nat.sub_self, List.set_cons_zero, pad, hm,
    List.append_assoc, List.cons_append]

theorem erase_pad (h : (as ++ c :: bs).length ≤ n) :
    (move (pad z n (as ++ c :: bs)) as.length (as.length + 1) bs.length).set (as ++ bs).length z =
      pad z n (as ++ bs) := by
  obtain ⟨m, rfl⟩ : ∃ m, n = (as ++ c :: bs).length + m := ⟨n - (as ++ c :: bs).length, by omega⟩
  have hlen : (as ++ c :: bs).length = as.length + (1 + bs.length) := by
    rw [List.length_append, List.length_cons]
    omega
  -- the last cell of the text stays as it was
  obtain ⟨y, hy⟩ : ∃ y, (c :: bs ++ List.replicate m z).drop bs.length = y :: List.replicate m z := by
    have hlt : bs.length < (c :: bs ++ List.replicate m z).length := by
      rw [List.length_append, List.length_cons]
      omega
    refine ⟨_, (List.drop_eq_getElem_cons hlt).trans (congrArg _ ?_)⟩
    rw [List.cons_append, List.drop_succ_cons, List.drop_left]
  have h1 : (as ++ (c :: bs ++ List.replicate m z)).drop (as.length + 1) =
      bs ++ List.replicate m z := List.drop_length_add_append ..
  have h2 : (as ++ (c :: bs ++ List.replicate m z)).drop (as.length + bs.length) =
      y :: List.replicate m z := by rw [List.drop_length_add_append, hy]
  have hm : (as ++ c :: bs).length + m - (as ++ bs).length = m + 1 := by
    rw [hlen, List.length_append]
    omega
  rw [pad, Nat.add_sub_cancel_left, List.append_assoc, move, List.take_left, h1, h2, List.take_left,
    ← List.append_assoc, List.set_append_right _ _ (Nat.le_refl _), Nat.sub_self,
    List.set_cons_zero, pad, hm, List.replicate_succ]

end Padded
