import Mathlib.Algebra.Group.Nat.Defs
import Mathlib.Data.List.Induction
import Mathlib.Data.Nat.Basic
import Mathlib.Logic.Function.Basic

/-!
# A cursor that writes below a limit

An address is a word of `w` bits. A cursor goes over the memory, one value after the other: a value
is stored while the cursor is below the limit, and the cursor goes on in any case. Its position
wraps at the end of the address space.

* `puts_spec`: as long as the cursor does not wrap, the values below the limit are stored, in their
  order, and nothing else.
* `zero_mem_puts`: a cursor that wraps writes at the address 0.
-/

namespace Cursor

/-- `writes` are the addresses that were written. -/
structure State (w : Nat) (α : Type*) where
  pos : BitVec w
  mem : BitVec w → α
  writes : List (BitVec w)

variable {w : Nat} {α : Type*}

def store (o : State w α) (a : BitVec w) (v : α) : State w α :=
  { o with mem := Function.update o.mem a v, writes := a :: o.writes }

/-- `if (str < end) *str = v; ++str;` -/
def put (limit : BitVec w) (o : State w α) (v : α) : State w α :=
  let o' := if o.pos < limit then store o o.pos v else o
  { o' with pos := o'.pos + 1#w }

variable {limit : BitVec w} {o : State w α} {v : α} {l : List α}

theorem put_pos : (put limit o v).pos = o.pos + 1#w := by
  unfold put
  split <;> rfl

theorem put_writes : (put limit o v).writes = if o.pos < limit then o.pos :: o.writes else o.writes := by
  unfold put
  split <;> rfl

theorem put_mem : (put limit o v).mem =
    if o.pos < limit then Function.update o.mem o.pos v else o.mem := by
  unfold put
  split <;> rfl

theorem puts_pos : (l.foldl (put limit) o).pos = o.pos + BitVec.ofNat w l.length := by
  induction l generalizing o with
  | nil => exact (BitVec.add_zero _).symm
  | cons v l ih =>
    rw [List.foldl_cons, ih, put_pos, List.length_cons, BitVec.ofNat_add, BitVec.add_assoc,
      BitVec.add_comm (1#w)]

/-- All writes are below the limit. -/
theorem lt_of_mem_puts {a : BitVec w} (h : a ∈ (l.foldl (put limit) o).writes) :
    a ∈ o.writes ∨ a < limit := by
  induction l generalizing o with
  | nil => exact .inl h
  | cons v l ih =>
    rcases ih h with hm | hlt
    · rw [put_writes] at hm
      split at hm
      · rcases List.mem_cons.mp hm with rfl | hm
        · exact .inr ‹_›
        · exact .inl hm
      · exact .inl hm
    · exact .inr hlt

/-- Where the cursor wrote: at its positions below the limit. -/
theorem mem_puts_iff {a : BitVec w} : a ∈ (l.foldl (put limit) o).writes ↔
    a ∈ o.writes ∨ ∃ i < l.length, a = o.pos + BitVec.ofNat w i ∧ a < limit := by
  induction l generalizing o with
  | nil => simp
  | cons v l ih =>
    have hnext : ∀ i, o.pos + 1#w + BitVec.ofNat w i = o.pos + BitVec.ofNat w (i + 1) := fun i => by
      rw [BitVec.ofNat_add, BitVec.add_assoc, BitVec.add_comm (1#w)]
    have hzero : o.pos + BitVec.ofNat w 0 = o.pos := BitVec.add_zero _
    rw [List.foldl_cons, ih, put_writes, put_pos, List.length_cons]
    constructor
    · rintro (hm | ⟨i, hi, rfl, hlt⟩)
      · split at hm
        · rcases List.mem_cons.mp hm with rfl | hm
          · exact .inr ⟨0, Nat.succ_pos _, hzero.symm, ‹_›⟩
          · exact .inl hm
        · exact .inl hm
      · exact .inr ⟨i + 1, Nat.succ_lt_succ hi, hnext i, hlt⟩
    · rintro (hm | ⟨i, hi, rfl, hlt⟩)
      · refine .inl ?_
        split
        · exact List.mem_cons_of_mem _ hm
        · exact hm
      · cases i with
        | zero =>
          rw [hzero] at hlt ⊢
          rw [if_pos hlt]
          exact .inl List.mem_cons_self
        | succ i => exact .inr ⟨i, Nat.lt_of_succ_lt_succ hi, (hnext i).symm, hlt⟩

/-- The memory changes only where it is written. -/
theorem puts_mem_of_notMem {a : BitVec w} (h : a ∉ (l.foldl (put limit) o).writes) :
    (l.foldl (put limit) o).mem a = o.mem a := by
  induction l generalizing o with
  | nil => rfl
  | cons v l ih =>
    rw [List.foldl_cons, ih h, put_mem]
    split
    · refine Function.update_of_ne ?_ ..
      rintro rfl
      have hmem : o.pos ∈ (put limit o v).writes := by
        rw [put_writes, if_pos ‹_›]
        exact List.mem_cons_self
      exact h ((mem_puts_iff (l := l)).mpr (.inl hmem))
    · rfl

theorem mem_puts_of_mem {a : BitVec w} (h : a ∈ o.writes) : a ∈ (l.foldl (put limit) o).writes := by
  induction l generalizing o with
  | nil => exact h
  | cons v l ih =>
    refine ih ?_
    rw [put_writes]
    split
    · exact List.mem_cons_of_mem _ h
    · exact h

/-- What is not below the limit stays as it is. -/
theorem puts_mem_of_ge {a : BitVec w} (h : ¬a < limit) : (l.foldl (put limit) o).mem a = o.mem a := by
  induction l generalizing o with
  | nil => rfl
  | cons v l ih =>
    rw [List.foldl_cons, ih, put_mem]
    split
    · have hne : a ≠ o.pos := by
        rintro rfl
        exact h ‹_›
      exact Function.update_of_ne hne ..
    · rfl

theorem toNat_add_ofNat {p : BitVec w} {i : Nat} (h : p.toNat + i < 2 ^ w) :
    (p + BitVec.ofNat w i).toNat = p.toNat + i := by
  rw [BitVec.toNat_add, BitVec.toNat_ofNat, Nat.add_mod_mod, Nat.mod_eq_of_lt h]

/-- A cursor that does not wrap: where it wrote, what is stored there, and the rest. -/
theorem puts_spec (h : o.pos.toNat + l.length ≤ 2 ^ w) :
    (∀ a ∈ (l.foldl (put limit) o).writes, a ∈ o.writes ∨ o.pos ≤ a ∧ a < limit) ∧
    ∀ i (hi : i < l.length), o.pos.toNat + i < limit.toNat →
      (l.foldl (put limit) o).mem (o.pos + BitVec.ofNat w i) = l.get ⟨i, hi⟩ := by
  induction l using List.reverseRecOn with
  | nil => exact ⟨fun a ha => .inl ha, fun i hi => absurd hi (Nat.not_lt_zero i)⟩
  | append_singleton l v ih =>
    rw [List.length_append, List.length_singleton] at h
    obtain ⟨hw, hm⟩ := ih (by omega)
    -- the address of the last value
    have hpos : (l.foldl (put limit) o).pos.toNat = o.pos.toNat + l.length := by
      rw [puts_pos, toNat_add_ofNat (by omega)]
    rw [List.foldl_append, List.foldl_cons, List.foldl_nil]
    refine ⟨fun a ha => ?_, fun i hi hlt => ?_⟩
    · rw [put_writes] at ha
      split at ha
      · rcases List.mem_cons.mp ha with rfl | ha
        · refine .inr ⟨?_, ‹_›⟩
          rw [BitVec.le_def, hpos]
          exact Nat.le_add_right ..
        · exact hw a ha
      · exact hw a ha
    · rw [List.length_append, List.length_singleton] at hi
      rw [put_mem, List.get_eq_getElem]
      by_cases hl : i < l.length
      · have hval := hm i hl hlt
        rw [List.getElem_append_left hl]
        split
        · rw [Function.update_of_ne, hval, List.get_eq_getElem]
          intro he
          have := congrArg BitVec.toNat he
          rw [toNat_add_ofNat (by omega), hpos] at this
          omega
        · exact hval
      · have hil : i = l.length := by omega
        subst hil
        rw [← puts_pos, if_pos (by rw [BitVec.lt_def, hpos]; exact hlt), Function.update_self,
          List.getElem_concat_length rfl]

/-- A cursor that wraps. -/
theorem zero_mem_puts (h0 : 0 < limit.toNat) (h : 2 ^ w < o.pos.toNat + l.length) :
    0#w ∈ (l.foldl (put limit) o).writes := by
  have hlt := o.pos.isLt
  -- the value that the cursor has in front of it at the address 0
  obtain ⟨l1, v, l2, rfl, hl⟩ : ∃ l1 v l2, l = l1 ++ v :: l2 ∧ l1.length = 2 ^ w - o.pos.toNat := by
    have hk : 2 ^ w - o.pos.toNat < l.length := by omega
    refine ⟨l.take (2 ^ w - o.pos.toNat), l[2 ^ w - o.pos.toNat], l.drop (2 ^ w - o.pos.toNat + 1),
      ?_, List.length_take_of_le (Nat.le_of_lt hk)⟩
    rw [← List.drop_eq_getElem_cons hk, List.take_append_drop]
  have hpos : (l1.foldl (put limit) o).pos = 0#w := by
    rw [puts_pos, hl]
    apply BitVec.eq_of_toNat_eq
    rw [BitVec.toNat_add, BitVec.toNat_ofNat, Nat.add_mod_mod, Nat.add_sub_cancel' (Nat.le_of_lt hlt),
      Nat.mod_self, BitVec.toNat_ofNat, Nat.zero_mod]
  rw [List.foldl_append, List.foldl_cons]
  refine mem_puts_of_mem ?_
  rw [put_writes, hpos, if_pos (by rw [BitVec.lt_def, BitVec.toNat_ofNat, Nat.zero_mod]; exact h0)]
  exact List.mem_cons_self

end Cursor
