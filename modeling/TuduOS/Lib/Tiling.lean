import Mathlib

/-!
# Blocks laid end to end

A list of blocks, each with a length, placed one after the other from an address: what an
allocator's block list says of the memory behind it when it stores lengths and no addresses.

* `total len l`: the length of the whole list.
* `place len o l`: the blocks of `l` with their addresses, the first at `o`.
* `firstAt len a o l`: the first block of `l` at the address `a`.
* `dropAt len a o l`: `l` without that block.
* `span o n`: the addresses `o, ..., o + n - 1`.

A placed block lies inside the whole (`place_bound`), and two placed blocks never overlap
(`place_apart`). Blocks behind a dropped one move down by its length.
-/

namespace Tiling

variable {β : Type*}

/-- The addresses `o, ..., o + n - 1`. -/
abbrev span (o n : Nat) : Set Nat := Set.Ico o (o + n)

/-- The length of the whole list. -/
def total (len : β → Nat) (l : List β) : Nat := (l.map len).sum

/-- The blocks of `l` with their addresses, the first at `o`. -/
def place (len : β → Nat) : Nat → List β → List (Nat × β)
  | _, [] => []
  | o, b :: l => (o, b) :: place len (o + len b) l

/-- The first block of `l` at the address `a`. -/
def firstAt (len : β → Nat) (a : Nat) : Nat → List β → Option β
  | _, [] => none
  | o, b :: l => if a = o then some b else firstAt len a (o + len b) l

/-- `l` without the first block at the address `a`. -/
def dropAt (len : β → Nat) (a : Nat) : Nat → List β → List β
  | _, [] => []
  | o, b :: l => if a = o then l else b :: dropAt len a (o + len b) l

variable {len : β → Nat}

/-! ## Spans -/

theorem span_disjoint {a m b n : Nat} :
    Disjoint (span a m) (span b n) ↔ m = 0 ∨ n = 0 ∨ a + m ≤ b ∨ b + n ≤ a := by
  rw [Set.Ico_disjoint_Ico]
  omega

instance (a m b n : Nat) : Decidable (Disjoint (span a m) (span b n)) :=
  decidable_of_iff _ span_disjoint.symm

/-- Parts of two disjoint spans are disjoint. -/
theorem span_disjoint_mono {a m b n a' m' : Nat} (h : Disjoint (span a m) (span b n))
    (h1 : a ≤ a') (h2 : a' + m' ≤ a + m) : Disjoint (span a' m') (span b n) :=
  h.mono_left (Set.Ico_subset_Ico h1 h2)

/-! ## The length of the list -/

@[simp] theorem total_nil : total len ([] : List β) = 0 := rfl

@[simp] theorem total_cons (b : β) (l : List β) : total len (b :: l) = len b + total len l := by
  simp [total]

@[simp] theorem total_append (l m : List β) :
    total len (l ++ m) = total len l + total len m := by
  simp [total]

/-- Without one block, the list is as much shorter as that block is long. -/
theorem total_erase [DecidableEq β] {b : β} {l : List β} (h : b ∈ l) :
    total len (l.erase b) + len b = total len l := by
  have e := List.Perm.sum_eq ((List.perm_cons_erase h).map len)
  rw [List.map_cons, List.sum_cons] at e
  simp only [total]
  omega

/-! ## Placed blocks -/

@[simp] theorem place_nil (o : Nat) : place len o ([] : List β) = [] := rfl

@[simp] theorem place_cons (o : Nat) (b : β) (l : List β) :
    place len o (b :: l) = (o, b) :: place len (o + len b) l := rfl

theorem place_append (o : Nat) (l m : List β) :
    place len o (l ++ m) = place len o l ++ place len (o + total len l) m := by
  induction l generalizing o with
  | nil => simp
  | cons b l ih => simp [ih, Nat.add_assoc]

/-- Without its addresses, the placed list is the list. -/
theorem place_map_snd (o : Nat) (l : List β) : (place len o l).map Prod.snd = l := by
  induction l generalizing o with
  | nil => rfl
  | cons b l ih => rw [place_cons, List.map_cons, ih]

theorem mem_of_mem_place {o : Nat} {l : List β} {x : Nat × β} (h : x ∈ place len o l) :
    x.2 ∈ l := by
  induction l generalizing o with
  | nil => cases h
  | cons b l ih =>
    rcases List.mem_cons.mp h with rfl | h
    · exact List.mem_cons_self
    · exact List.mem_cons_of_mem _ (ih h)

/-- A placed block lies inside the whole. -/
theorem place_bound {o : Nat} {l : List β} {x : Nat × β} (h : x ∈ place len o l) :
    o ≤ x.1 ∧ x.1 + len x.2 ≤ o + total len l := by
  induction l generalizing o with
  | nil => cases h
  | cons b l ih =>
    rw [total_cons]
    rcases List.mem_cons.mp h with rfl | h
    · exact ⟨Nat.le_refl _, by simp only; omega⟩
    · have := ih h
      omega

/-- Two placed blocks do not overlap: one ends before the other starts. -/
theorem place_apart (o : Nat) (l : List β) :
    (place len o l).Pairwise fun x y => x.1 + len x.2 ≤ y.1 := by
  induction l generalizing o with
  | nil => exact List.Pairwise.nil
  | cons b l ih => exact List.Pairwise.cons (fun y hy => (place_bound hy).1) (ih _)

/-- Of two placed blocks, they are one or one ends before the other starts. -/
theorem place_cases {o : Nat} {l : List β} {x y : Nat × β} (hx : x ∈ place len o l)
    (hy : y ∈ place len o l) : x = y ∨ x.1 + len x.2 ≤ y.1 ∨ y.1 + len y.2 ≤ x.1 := by
  induction l generalizing o with
  | nil => cases hx
  | cons b l ih =>
    rcases List.mem_cons.mp hx with rfl | hx
    · rcases List.mem_cons.mp hy with rfl | hy
      · exact .inl rfl
      · exact .inr (.inl (place_bound hy).1)
    · rcases List.mem_cons.mp hy with rfl | hy
      · exact .inr (.inr (place_bound hx).1)
      · exact ih hx hy

/-! ## The first block at an address -/

/-- Where the first block at `a` stands, and what is left without it. -/
theorem firstAt_some {a o : Nat} {l : List β} {b : β} (h : firstAt len a o l = some b) :
    ∃ l1 l2, l = l1 ++ b :: l2 ∧ a = o + total len l1 ∧ dropAt len a o l = l1 ++ l2 := by
  induction l generalizing o with
  | nil => cases h
  | cons c l ih =>
    unfold firstAt at h
    split at h
    · next ha =>
      cases h
      exact ⟨[], l, rfl, by simpa using ha, by simp [dropAt, ha]⟩
    · next ha =>
      obtain ⟨l1, l2, rfl, h1, h2⟩ := ih h
      refine ⟨c :: l1, l2, rfl, by rw [total_cons]; omega, ?_⟩
      simp only [dropAt, if_neg ha, h2, List.cons_append]

theorem firstAt_none {a o : Nat} {l : List β} (h : firstAt len a o l = none) :
    dropAt len a o l = l := by
  induction l generalizing o with
  | nil => rfl
  | cons c l ih =>
    unfold firstAt at h
    split at h
    · cases h
    · next ha => simp only [dropAt, if_neg ha, ih h]

theorem mem_of_firstAt {a o : Nat} {l : List β} {b : β} (h : firstAt len a o l = some b) :
    b ∈ l := by
  obtain ⟨l1, l2, rfl, -⟩ := firstAt_some h
  simp

theorem dropAt_subset (a o : Nat) (l : List β) : dropAt len a o l ⊆ l := by
  intro b hb
  cases h : firstAt len a o l with
  | none => exact firstAt_none h ▸ hb
  | some c =>
    obtain ⟨l1, l2, rfl, -, h2⟩ := firstAt_some h
    rw [h2] at hb
    exact ((List.sublist_cons_self c l2).append_left l1).subset hb

theorem total_dropAt {a o : Nat} {l : List β} {b : β} (h : firstAt len a o l = some b) :
    total len (dropAt len a o l) + len b = total len l := by
  obtain ⟨l1, l2, rfl, -, h2⟩ := firstAt_some h
  rw [h2, total_append, total_append, total_cons]
  omega

theorem firstAt_append (a o : Nat) (l m : List β) :
    firstAt len a o (l ++ m) = (firstAt len a o l).or (firstAt len a (o + total len l) m) := by
  induction l generalizing o with
  | nil => simp [firstAt]
  | cons b l ih =>
    simp only [List.cons_append, firstAt, total_cons, ← Nat.add_assoc]
    split
    · rfl
    · exact ih _

theorem dropAt_append (a o : Nat) (l m : List β) :
    dropAt len a o (l ++ m) =
      if (firstAt len a o l).isSome then dropAt len a o l ++ m
      else l ++ dropAt len a (o + total len l) m := by
  induction l generalizing o with
  | nil => simp [firstAt]
  | cons b l ih =>
    simp only [List.cons_append, firstAt, dropAt, total_cons, ← Nat.add_assoc]
    by_cases ha : a = o
    · simp [ha]
    · simp only [if_neg ha, ih]
      split <;> rfl

/-- Only the lengths decide. -/
theorem firstAt_map (a o : Nat) (l : List β) :
    firstAt id a o (l.map len) = (firstAt len a o l).map len := by
  induction l generalizing o with
  | nil => rfl
  | cons b l ih =>
    simp only [List.map_cons, firstAt, id]
    split
    · rfl
    · exact ih _

theorem dropAt_map (a o : Nat) (l : List β) :
    dropAt id a o (l.map len) = (dropAt len a o l).map len := by
  induction l generalizing o with
  | nil => rfl
  | cons b l ih =>
    simp only [List.map_cons, dropAt, id]
    split
    · rfl
    · rw [ih, List.map_cons]

/-- In a list that names each block once, the first block at `a` is dropped by its name. -/
theorem erase_firstAt [DecidableEq β] {a o : Nat} {l : List β} {b : β} (hn : l.Nodup)
    (h : firstAt len a o l = some b) : l.erase b = dropAt len a o l := by
  obtain ⟨l1, l2, rfl, -, h2⟩ := firstAt_some h
  have hb : b ∉ l1 := by
    intro hb
    exact (List.nodup_append.mp hn).2.2 b hb b List.mem_cons_self rfl
  rw [h2, List.erase_append_right _ hb, List.erase_cons_head]

/-- The first block at an address where a block of length `0` stands has length `0`: each block
but the last at an address is empty. -/
theorem firstAt_of_empty {o a : Nat} {l : List β} {b : β} (hx : (a, b) ∈ place len o l)
    (h0 : len b = 0) : ∃ c, firstAt len a o l = some c ∧ len c = 0 := by
  induction l generalizing o with
  | nil => cases hx
  | cons c l ih =>
    rw [place_cons] at hx
    unfold firstAt
    by_cases ha : a = o
    · refine ⟨c, if_pos ha, ?_⟩
      rcases List.mem_cons.mp hx with e | hx
      · cases e
        exact h0
      · have := (place_bound hx).1
        simp only at this
        omega
    · rcases List.mem_cons.mp hx with e | hx
      · cases e
        exact absurd rfl ha
      · rw [if_neg ha]
        exact ih hx

/-- Dropping an empty block moves no other. -/
theorem place_dropAt_empty {a o : Nat} {l : List β} {b : β} (h : firstAt len a o l = some b)
    (h0 : len b = 0) : (place len o l).Perm ((a, b) :: place len o (dropAt len a o l)) := by
  obtain ⟨l1, l2, rfl, ha, h2⟩ := firstAt_some h
  rw [h2, place_append, place_append, place_cons, h0, Nat.add_zero, ← ha]
  exact List.perm_middle

end Tiling
