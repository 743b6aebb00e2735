import Mathlib.Data.List.Basic
import Mathlib.Data.List.Pairwise
import Mathlib.Data.Nat.Notation

/-!
# Blocks named by their addresses

Blocks that lie end to end, each given by its address: `size b` is the number of bytes of the block
at `b`. `Tiles size a l e`: the blocks `l` begin at `a`, each one where the one in front of it
ends, and the last one ends at `e`.

* `tiles_append`: two pieces, and the address where they meet.
* `Tiles.lt_of_mem`, `Tiles.sorted`, `Tiles.disjoint`: the blocks are in the order of their
  addresses, and do not overlap.
* `Tiles.exists_mem`: every address is in a block.
* `Tiles.split`, `Tiles.join`: a block becomes two, some become one.
* `Tiles.prev_eq`: the block that ends where another one begins is the one in front of it.
-/

namespace Blocks

variable {size size' : Nat → Nat} {a b c e n : Nat} {l l' m : List Nat}

/-- The blocks `l` lie end to end from `a` to `e`. -/
def Tiles (size : Nat → Nat) : Nat → List Nat → Nat → Prop
  | a, [], e => a = e
  | a, b :: l, e => b = a ∧ Tiles size (a + size b) l e

@[simp] theorem tiles_nil : Tiles size a [] e ↔ a = e := Iff.rfl

@[simp] theorem tiles_cons : Tiles size a (b :: l) e ↔ b = a ∧ Tiles size (a + size b) l e := Iff.rfl

theorem tiles_append : Tiles size a (l ++ m) e ↔ ∃ c, Tiles size a l c ∧ Tiles size c m e := by
  induction l generalizing a with
  | nil => simp
  | cons b l ih =>
    simp only [List.cons_append, tiles_cons, ih]
    constructor
    · rintro ⟨hb, c, hl, hm⟩
      exact ⟨c, ⟨hb, hl⟩, hm⟩
    · rintro ⟨c, ⟨hb, hl⟩, hm⟩
      exact ⟨hb, c, hl, hm⟩

/-- The pieces in front of a block and behind it. -/
theorem tiles_mid : Tiles size a (l ++ b :: m) e ↔ Tiles size a l b ∧ Tiles size (b + size b) m e := by
  rw [tiles_append]
  constructor
  · rintro ⟨c, hl, rfl, hm⟩
    exact ⟨hl, hm⟩
  · rintro ⟨hl, hm⟩
    exact ⟨b, hl, rfl, hm⟩

theorem Tiles.congr (h : Tiles size a l e) (hs : ∀ b ∈ l, size' b = size b) :
    Tiles size' a l e := by
  induction l generalizing a with
  | nil => exact h
  | cons b l ih =>
    refine ⟨h.1, ?_⟩
    rw [hs b List.mem_cons_self]
    exact ih h.2 fun c hc => hs c (List.mem_cons_of_mem _ hc)

theorem Tiles.le (h : Tiles size a l e) : a ≤ e := by
  induction l generalizing a with
  | nil => exact Nat.le_of_eq h
  | cons b l ih => exact Nat.le_trans (Nat.le_add_right a _) (ih h.2)

theorem Tiles.unique (h : Tiles size a l e) (h' : Tiles size a l c) : e = c := by
  induction l generalizing a with
  | nil => exact h.symm.trans h'
  | cons b l ih => exact ih h.2 h'.2

theorem Tiles.mem_bounds (h : Tiles size a l e) (hb : b ∈ l) : a ≤ b ∧ b + size b ≤ e := by
  induction l generalizing a with
  | nil => cases hb
  | cons c l ih =>
    obtain ⟨rfl, hl⟩ := h
    rcases List.mem_cons.mp hb with rfl | hb
    · exact ⟨Nat.le_refl _, hl.le⟩
    · have hi := ih hl hb
      exact ⟨Nat.le_trans (Nat.le_add_right _ _) hi.1, hi.2⟩

theorem Tiles.length_le {k : Nat} (hk : ∀ b, k ≤ size b) (h : Tiles size a l e) :
    a + k * l.length ≤ e := by
  induction l generalizing a with
  | nil => exact Nat.le_of_eq h
  | cons b l ih =>
    have hi := ih h.2
    have hb := hk b
    rw [List.length_cons, Nat.mul_add, Nat.mul_one]
    omega

/-- The last block. -/
theorem Tiles.exists_last (h : Tiles size a l e) (hl : l ≠ []) : ∃ b ∈ l, b + size b = e := by
  rcases List.eq_nil_or_concat' l with rfl | ⟨m, b, rfl⟩
  · exact absurd rfl hl
  · refine ⟨b, List.mem_append_right m List.mem_cons_self, ?_⟩
    exact (tiles_mid.mp h).2

/-- The block behind one that does not end the list. -/
theorem Tiles.mem_next (h : Tiles size a l e) (hb : b ∈ l) (he : b + size b ≠ e) :
    b + size b ∈ l := by
  obtain ⟨l1, l2, rfl⟩ := List.append_of_mem hb
  have hl2 := (tiles_mid.mp h).2
  cases l2 with
  | nil => exact absurd hl2 he
  | cons c l2 =>
    rw [← hl2.1]
    exact List.mem_append_right _ (List.mem_cons_of_mem _ List.mem_cons_self)

/-- The block that an address is in. -/
theorem Tiles.exists_mem (h : Tiles size a l e) (hc : a ≤ c) (hce : c < e) :
    ∃ b ∈ l, b ≤ c ∧ c < b + size b := by
  induction l generalizing a with
  | nil =>
    have hae : a = e := h
    omega
  | cons b l ih =>
    obtain ⟨rfl, hl⟩ := h
    by_cases hcb : c < b + size b
    · exact ⟨b, List.mem_cons_self, hc, hcb⟩
    · obtain ⟨d, hd, hdc⟩ := ih hl (Nat.le_of_not_lt hcb)
      exact ⟨d, List.mem_cons_of_mem _ hd, hdc⟩

section Positive

/-- No block in front of another one is at or behind it. -/
theorem Tiles.lt_of_mem (hpos : ∀ b, 0 < size b) (h : Tiles size a (l ++ b :: m) e) (hc : c ∈ l) :
    c + size c ≤ b ∧ c < b := by
  have hb := ((tiles_mid.mp h).1.mem_bounds hc).2
  have hp := hpos c
  exact ⟨hb, by omega⟩

theorem Tiles.gt_of_mem (hpos : ∀ b, 0 < size b) (h : Tiles size a (l ++ b :: m) e) (hc : c ∈ m) :
    b + size b ≤ c ∧ b < c := by
  have hb := ((tiles_mid.mp h).2.mem_bounds hc).1
  have hp := hpos b
  exact ⟨hb, by omega⟩

/-- Two blocks do not overlap. -/
theorem Tiles.disjoint (hpos : ∀ b, 0 < size b) (h : Tiles size a l e) (hb : b ∈ l) (hc : c ∈ l)
    (hbc : b ≠ c) : b + size b ≤ c ∨ c + size c ≤ b := by
  obtain ⟨l1, l2, rfl⟩ := List.append_of_mem hb
  rcases List.mem_append.mp hc with hc | hc
  · exact Or.inr (h.lt_of_mem hpos hc).1
  · exact Or.inl (h.gt_of_mem hpos ((List.mem_cons.mp hc).resolve_left hbc.symm)).1

theorem Tiles.sorted (hpos : ∀ b, 0 < size b) (h : Tiles size a l e) : l.Pairwise (· < ·) := by
  induction l generalizing a with
  | nil => exact List.Pairwise.nil
  | cons b l ih =>
    refine List.pairwise_cons.mpr ⟨fun c hc => ?_, ih h.2⟩
    have h' : Tiles size a ([] ++ b :: l) e := h
    exact (h'.gt_of_mem hpos hc).2

theorem Tiles.nodup (hpos : ∀ b, 0 < size b) (h : Tiles size a l e) : l.Nodup :=
  (h.sorted hpos).imp fun hlt => Nat.ne_of_lt hlt

/-- The block that ends where `b` begins is the one in front of it. -/
theorem Tiles.prev_eq (hpos : ∀ b, 0 < size b) (h : Tiles size a (l ++ b :: m) e) (hc : c ∈ l)
    (hcb : c + size c = b) : ∃ l', l = l' ++ [c] := by
  obtain ⟨l1, l2, rfl⟩ := List.append_of_mem hc
  cases l2 with
  | nil => exact ⟨l1, rfl⟩
  | cons d l2 =>
    -- a block between the two begins where `c` ends, as `b` does
    have hd : d = b := by
      rw [List.append_assoc, List.cons_append, List.cons_append, tiles_mid, tiles_cons] at h
      rw [← hcb]
      exact h.2.1
    rw [List.append_assoc, List.cons_append] at h
    have hnd : (d :: (l2 ++ b :: m)).Nodup := ((tiles_mid.mp h).2.nodup hpos)
    exact absurd (List.mem_append_right l2 (hd ▸ List.mem_cons_self)) (List.nodup_cons.mp hnd).1

end Positive

/-- The block that begins where `b` ends is the one behind it. -/
theorem Tiles.next_eq (h : Tiles size a (l ++ b :: m) e) (hc : c ∈ m)
    (hcb : b + size b = c) : ∃ m', m = c :: m' := by
  cases m with
  | nil => cases hc
  | cons d m =>
    have hd : d = b + size b := (tiles_mid.mp h).2.1
    exact ⟨m, by rw [hd, hcb]⟩

/-- A block becomes two. -/
theorem Tiles.split (h : Tiles size a (l ++ b :: m) e) (hb : size' b + size' n = size b)
    (hn : n = b + size' b) (hs : ∀ c ∈ l ++ m, size' c = size c) :
    Tiles size' a (l ++ b :: n :: m) e := by
  obtain ⟨hl, hm⟩ := tiles_mid.mp h
  refine tiles_mid.mpr ⟨hl.congr fun c hc => hs c (List.mem_append_left _ hc), hn, ?_⟩
  have hend : b + size' b + size' n = b + size b := by omega
  rw [hend]
  exact hm.congr fun c hc => hs c (List.mem_append_right _ hc)

/-- Some blocks behind `b` become a part of it. -/
theorem Tiles.join (h : Tiles size a (l ++ b :: (l' ++ m)) e)
    (hb : Tiles size (b + size b) l' (b + size' b)) (hs : ∀ c ∈ l ++ m, size' c = size c) :
    Tiles size' a (l ++ b :: m) e := by
  obtain ⟨hl, hm⟩ := tiles_mid.mp h
  obtain ⟨c, hl', hm⟩ := tiles_append.mp hm
  refine tiles_mid.mpr ⟨hl.congr fun c hc => hs c (List.mem_append_left _ hc), ?_⟩
  rw [← hl'.unique hb]
  exact hm.congr fun c hc => hs c (List.mem_append_right _ hc)

end Blocks
