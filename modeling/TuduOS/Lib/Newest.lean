import TuduOS.Lib.Ring

/-!
# A ring that keeps the newest elements

* `newest cap l`: the last `cap` elements of `l`. The oldest ones are dropped, and only if there are
  more than `cap`.
* `pushOne`, `pushAll`: elements go into a ring of `size` cells behind the last one, over the oldest
  ones once it is full.
* `pushBelow`: one element into a ring that keeps a cell free.
-/

namespace Newest

variable {β : Type*}

def newest (cap : Nat) (l : List β) : List β := l.drop (l.length - cap)

variable {cap size out n : Nat} {l m : List β} {buf : Nat → β} {b : β}

theorem newest_of_le (h : l.length ≤ cap) : newest cap l = l := by
  unfold newest
  rw [Nat.sub_eq_zero_of_le h, List.drop_zero]

@[simp] theorem length_newest : (newest cap l).length = min l.length cap := by
  unfold newest
  rw [List.length_drop]
  omega

/-- Nothing is lost by dropping in steps. -/
theorem newest_append : newest cap (newest cap l ++ m) = newest cap (l ++ m) := by
  unfold newest
  rw [List.length_append, List.length_append, List.length_drop]
  rcases Nat.le_total l.length cap with h | h
  · have h0 : l.length - cap = 0 := by omega
    rw [h0, List.drop_zero, Nat.sub_zero]
  · rw [← List.drop_append_of_le_length (by omega), List.drop_drop]
    congr 1
    omega

/-- One element, over the oldest one if the ring is full. -/
theorem pushOne (hs : 0 < size) (hl : l.length ≤ size)
    (hc : Ring.contents buf size out l.length = l) :
    Ring.contents (Function.update buf ((out + l.length) % size) b) size
      ((out + (l.length + 1 - size)) % size) (newest size (l ++ [b])).length =
      newest size (l ++ [b]) := by
  have hlen : (l ++ [b]).length = l.length + 1 := by simp
  rcases Nat.lt_or_ge l.length size with hlt | hge
  · have h0 : l.length + 1 - size = 0 := by omega
    rw [newest_of_le (by rw [hlen]; omega), hlen, h0, Nat.add_zero]
    have hmod : Ring.contents (Function.update buf ((out + l.length) % size) b) size (out % size)
        (l.length + 1) =
        Ring.contents (Function.update buf ((out + l.length) % size) b) size out (l.length + 1) := by
      unfold Ring.contents
      apply List.map_congr_left
      intro i _
      rw [Nat.mod_add_mod]
    rw [hmod, Ring.contents_push hlt, hc]
  · -- the cell of the oldest element is the one behind the newest
    obtain ⟨a, l, rfl⟩ : ∃ a t, l = a :: t := List.exists_cons_of_length_pos (by omega)
    rw [List.length_cons] at hl hge hc ⊢
    have h1 : l.length + 1 + 1 - size = 1 := by omega
    have hsize : size = l.length + 1 := by omega
    have hnew : newest size (a :: l ++ [b]) = l ++ [b] := by
      unfold newest
      rw [List.length_append, List.length_cons, List.length_singleton, h1]
      rfl
    rw [Ring.contents_pop] at hc
    have htail := (List.cons.inj hc).2
    have hcell : (out + (l.length + 1)) % size = ((out + 1) % size + l.length) % size := by
      rw [Nat.mod_add_mod]
      congr 1
      omega
    rw [hnew, h1, hcell, List.length_append, List.length_singleton,
      Ring.contents_push (by omega), htail]

/-- `bs` into the cells from `i` on, around the end. -/
def writeAll (size : Nat) : (Nat → β) → Nat → List β → Nat → β
  | buf, _, [] => buf
  | buf, i, b :: bs => writeAll size (Function.update buf i b) ((i + 1) % size) bs

/-- Many elements, over the oldest ones. -/
theorem pushAll {bs : List β} (hs : 0 < size) (hl : l.length ≤ size)
    (hc : Ring.contents buf size out l.length = l) :
    Ring.contents (writeAll size buf ((out + l.length) % size) bs) size
      ((out + (l.length + bs.length - size)) % size) (newest size (l ++ bs)).length =
      newest size (l ++ bs) := by
  induction bs generalizing buf out l with
  | nil =>
    have h0 : l.length + ([] : List β).length - size = 0 := by
      rw [List.length_nil]
      omega
    rw [List.append_nil, newest_of_le hl, h0, Nat.add_zero]
    refine Eq.trans ?_ hc
    apply List.map_congr_left
    intro i _
    rw [Nat.mod_add_mod]
    rfl
  | cons b bs ih =>
    have hnew : (newest size (l ++ [b])).length = min (l.length + 1) size := by simp
    have hrun := ih (by rw [hnew]; exact Nat.min_le_right _ _) (pushOne (b := b) hs hl hc)
    have happ : l ++ [b] ++ bs = l ++ b :: bs := by simp
    rw [newest_append, happ, hnew] at hrun
    have hout : ((out + (l.length + 1 - size)) % size + (min (l.length + 1) size + bs.length - size)) %
        size = (out + (l.length + (b :: bs).length - size)) % size := by
      rw [Nat.mod_add_mod, List.length_cons]
      congr 1
      omega
    have hcell : ((out + (l.length + 1 - size)) % size + min (l.length + 1) size) % size =
        ((out + l.length) % size + 1) % size := by
      rw [Nat.mod_add_mod, Nat.mod_add_mod]
      rcases Nat.lt_or_ge l.length size with hlt | hge
      · congr 1
        omega
      · have hd : out + (l.length + 1 - size) + min (l.length + 1) size = out + l.length + 1 := by
          omega
        rw [hd]
    rw [hout, hcell] at hrun
    exact hrun

/-- One element into a ring with a free cell, that is never the last one. -/
theorem pushBelow (hs : 1 < size) (hl : l.length < size)
    (hc : Ring.contents buf size out l.length = l) :
    Ring.contents (Function.update buf ((out + l.length) % size) b) size
      ((out + (l.length + 2 - size)) % size) (newest (size - 1) (l ++ [b])).length =
      newest (size - 1) (l ++ [b]) := by
  have hlen : (l ++ [b]).length = l.length + 1 := by simp
  have hpush : Ring.contents (Function.update buf ((out + l.length) % size) b) size out
      (l.length + 1) = Ring.contents buf size out l.length ++ [b] := Ring.contents_push hl b
  rw [hc] at hpush
  rcases Nat.lt_or_ge (l.length + 1) size with hlt | hge
  · have h0 : l.length + 2 - size = 0 := by omega
    rw [newest_of_le (by rw [hlen]; omega), h0, hlen, Nat.add_zero]
    refine Eq.trans ?_ hpush
    apply List.map_congr_left
    intro i _
    rw [Nat.mod_add_mod]
  · have h1 : l.length + 2 - size = 1 := by omega
    have hn : newest (size - 1) (l ++ [b]) = (l ++ [b]).drop 1 := by
      unfold newest
      rw [hlen]
      congr 1
      omega
    rw [hn, h1, ← hpush, Ring.drop_contents (by omega), Ring.length_contents]

end Newest
