import Mathlib.Data.List.Basic

/-!
# At least `n` of a kind

`AtLeast P n`: there are `n` different things with `P`. A protocol that owes a step for each of `n`
units says so of those who will make the steps.

* `AtLeast.mono`: fewer, of more.
* `AtLeast.spend`: one of them less.
* `AtLeast.add`: one more.
-/

variable {β : Type*} {P Q : β → Prop} {m n : Nat} {x : β}

def AtLeast (P : β → Prop) (n : Nat) : Prop :=
  ∃ l : List β, l.Nodup ∧ (∀ x ∈ l, P x) ∧ n ≤ l.length

namespace AtLeast

theorem zero : AtLeast P 0 :=
  ⟨[], List.nodup_nil, fun _ h => absurd h List.not_mem_nil, Nat.zero_le _⟩

theorem mono (h : AtLeast P n) (hn : m ≤ n) (hP : ∀ x, P x → Q x) : AtLeast Q m := by
  obtain ⟨l, hnd, hl, hlen⟩ := h
  exact ⟨l, hnd, fun x hx => hP x (hl x hx), Nat.le_trans hn hlen⟩

/-- All but `x` stay. -/
theorem spend [DecidableEq β] (h : AtLeast P n) (hn : m + 1 ≤ n) (hP : ∀ y, y ≠ x → P y → Q y) :
    AtLeast Q m := by
  obtain ⟨l, hnd, hl, hlen⟩ := h
  refine ⟨l.erase x, hnd.erase x, fun y hy => ?_, ?_⟩
  · obtain ⟨hne, hm⟩ := hnd.mem_erase_iff.mp hy
    exact hP y hne (hl y hm)
  · rw [List.length_erase]
    split <;> omega

/-- One more, which was none of them. -/
theorem add (h : AtLeast P n) (hx : ¬ P x) (hx' : Q x) (hP : ∀ y, P y → Q y) :
    AtLeast Q (n + 1) := by
  obtain ⟨l, hnd, hl, hlen⟩ := h
  refine ⟨x :: l, List.nodup_cons.mpr ⟨fun hm => hx (hl x hm), hnd⟩, fun y hy => ?_,
    Nat.succ_le_succ hlen⟩
  rcases List.mem_cons.mp hy with rfl | hy
  · exact hx'
  · exact hP y (hl y hy)

/-- There is one. -/
theorem exists_of_pos (h : AtLeast P n) (hn : 0 < n) : ∃ x, P x := by
  obtain ⟨l, -, hl, hlen⟩ := h
  cases l with
  | nil => exact absurd hlen (Nat.not_le_of_lt hn)
  | cons x l => exact ⟨x, hl x List.mem_cons_self⟩

end AtLeast
