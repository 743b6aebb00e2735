import Mathlib.Data.List.Nodup
import TuduOS.Finsh.Heap
import TuduOS.Lib.Chain

/-!
# The two lists of the shell's heap

What the loops over a list find, and what `finsh_block_remove` and `finsh_block_insert` do with a
list. `finsh_block_insert` at the end of a list leaves the pointer of the new block in place, so
there it has to be null already.

* `finshBlockRemove_spec`, `finshBlockInsert_spec`: one list.
* `move_spec`: a block goes from one list to the other one, where both are in the order of the
  addresses.
-/

namespace Tudu.Finsh

open Chain

variable {next : Nat → Option Nat} {list p : Option Nat} {header node t fuel : Nat}
  {l l' : List Nat}

/-! ## The loops over a list -/

theorem insertPoint_eq (h : IsChain next (some node) (l ++ t :: l'))
    (hlt : ∀ b ∈ l ++ [t], b < header) (hgt : ∀ b ∈ l', header < b) (hf : l.length < fuel) :
    insertPoint next header fuel node = some t := by
  induction l generalizing node fuel with
  | nil =>
    obtain ⟨n, rfl⟩ := Nat.exists_eq_add_of_lt hf
    obtain ⟨hn, ht⟩ := h
    cases hn
    cases l' with
    | nil => simp only [insertPoint, isChain_nil.mp ht]
    | cons d l' => simp only [insertPoint, ht.1, if_pos (hgt d List.mem_cons_self)]
  | cons c l ih =>
    obtain ⟨n, rfl⟩ := Nat.exists_eq_succ_of_ne_zero (Nat.ne_of_gt (Nat.zero_lt_of_lt hf))
    obtain ⟨hn, hc⟩ := h
    cases hn
    obtain ⟨d, hd, hnext⟩ := hc.exists_head
    have hdh := hlt d (List.mem_cons_of_mem _ hd)
    rw [hnext] at hc
    simp only [insertPoint, hnext, if_neg (Nat.not_lt.mpr (Nat.le_of_lt hdh))]
    exact ih hc (fun b hb => hlt b (List.mem_cons_of_mem _ hb)) (Nat.lt_of_succ_lt_succ hf)

theorem findPrev_eq (h : IsChain next p (l ++ t :: header :: l')) (hl : header ∉ l ++ [t])
    (hf : l.length < fuel) : findPrev next header fuel p = some (some t) := by
  induction l generalizing p fuel with
  | nil =>
    obtain ⟨n, rfl⟩ := Nat.exists_eq_add_of_lt hf
    rw [h.1]
    simp only [findPrev]
    rw [if_pos h.2.1]
  | cons c l ih =>
    obtain ⟨n, rfl⟩ := Nat.exists_eq_succ_of_ne_zero (Nat.ne_of_gt (Nat.zero_lt_of_lt hf))
    rw [List.cons_append, List.mem_cons, not_or] at hl
    obtain ⟨hc, hl'⟩ := h
    obtain ⟨d, hd, hnext⟩ := hl'.exists_head
    rw [hc]
    simp only [findPrev]
    rw [if_neg]
    · exact ih hl' hl.2 (Nat.lt_of_succ_lt_succ hf)
    · rw [hnext]
      rintro ⟨⟩
      exact hl.2 hd

theorem findFit_eq {h : FinshHeap} {fits : Nat → Bool} (hp : IsChain h.next p l)
    (hf : l.length < fuel) : findFit h fits fuel p = some (l.find? fun b => fits (h.length b)) := by
  induction l generalizing p fuel with
  | nil =>
    obtain ⟨n, rfl⟩ := Nat.exists_eq_add_of_lt hf
    rw [isChain_nil.mp hp]
    rfl
  | cons c l ih =>
    obtain ⟨n, rfl⟩ := Nat.exists_eq_succ_of_ne_zero (Nat.ne_of_gt (Nat.zero_lt_of_lt hf))
    rw [hp.1]
    simp only [findFit]
    cases hc : fits (h.length c) with
    | true => simp [List.find?, hc]
    | false =>
      rw [List.find?_cons_of_neg (by simp [hc])]
      exact ih hp.2 (Nat.lt_of_succ_lt_succ hf)

/-- A block leaves its list. -/
theorem finshBlockRemove_spec (h : IsChain next list (l ++ header :: l'))
    (hnd : (l ++ header :: l').Nodup) (hf : l.length < finshHeapMax) :
    ∃ next' list', finshBlockRemove next list header = some (next', list') ∧
      IsChain next' list' (l ++ l') ∧ ∀ b, b ∉ l → b ≠ header → next' b = next b := by
  have hh := List.nodup_middle.mp hnd
  obtain ⟨hhl, hnd'⟩ := List.nodup_cons.mp hh
  rw [List.mem_append, not_or] at hhl
  unfold finshBlockRemove
  rcases List.eq_nil_or_concat' l with rfl | ⟨m, t, rfl⟩
  · refine ⟨_, _, if_pos h.1, h.tail.update hhl.2 _, fun b _ hb => Function.update_of_ne hb ..⟩
  · rw [List.append_assoc, List.singleton_append] at h hnd'
    obtain ⟨d, hd, hlist⟩ := h.exists_head
    have hne : list ≠ some header := by
      rw [hlist]
      rintro ⟨⟩
      exact hhl.1 hd
    have hm := List.nodup_middle.mp hnd'
    obtain ⟨htm, -⟩ := List.nodup_cons.mp hm
    rw [List.mem_append, not_or] at htm
    have hfm : m.length < finshHeapMax := by
      rw [List.length_append, List.length_singleton] at hf
      omega
    have hprev := findPrev_eq h hhl.1 hfm
    rw [if_neg hne, hprev]
    refine ⟨_, _, rfl, ?_, fun b hb _ => Function.update_of_ne ?_ ..⟩
    · rw [List.append_assoc, List.singleton_append]
      exact h.unlink htm.1 htm.2
    · rintro rfl
      exact hb (List.mem_append_right _ List.mem_cons_self)

/-- A block goes to its place in a list. At the end of it, its own pointer has to be null. -/
theorem finshBlockInsert_spec (h : IsChain next list (l ++ l')) (hnd : (l ++ l').Nodup)
    (hlt : ∀ b ∈ l, b < header) (hgt : ∀ b ∈ l', header < b) (hf : l.length < finshHeapMax)
    (hend : l' = [] → next header = none) :
    ∃ next' list', finshBlockInsert next list header = some (next', list') ∧
      IsChain next' list' (l ++ header :: l') ∧
      ∀ b, b ∉ l → b ≠ header → next' b = next b := by
  have hnot : header ∉ l ++ l' := by
    intro hm
    rcases List.mem_append.mp hm with hm | hm
    · exact Nat.lt_irrefl _ (hlt _ hm)
    · exact Nat.lt_irrefl _ (hgt _ hm)
  unfold finshBlockInsert
  rcases List.eq_nil_or_concat' l with rfl | ⟨m, t, rfl⟩
  · cases l' with
    | nil =>
      rw [isChain_nil.mp h]
      exact ⟨_, _, rfl, ⟨rfl, hend rfl⟩, fun _ _ _ => rfl⟩
    | cons d l' =>
      have hd := h.1
      rw [hd]
      refine ⟨_, _, if_pos (hgt d List.mem_cons_self), ?_, fun b _ hb => Function.update_of_ne hb ..⟩
      rw [← hd]
      exact h.cons hnot
  · rw [List.append_assoc, List.singleton_append] at h hnd hnot
    obtain ⟨d, hd, hlist⟩ := h.exists_head
    rw [hlist] at h ⊢
    have hm := List.nodup_middle.mp hnd
    obtain ⟨htm, -⟩ := List.nodup_cons.mp hm
    rw [List.mem_append, not_or] at htm
    have hfm : m.length < finshHeapMax := by
      rw [List.length_append, List.length_singleton] at hf
      omega
    have hpoint := insertPoint_eq h hlt hgt hfm
    have hnd : ¬ d > header := Nat.not_lt.mpr (Nat.le_of_lt (hlt d hd))
    -- at the end of the list the pointer of `header` is null already
    have hnext : (if next t = none then next else Function.update next header (next t)) =
        Function.update next header (next t) := by
      split
      · have hl' : l' = [] := by
          cases l' with
          | nil => rfl
          | cons e l' => exact absurd (h.behind.1.symm.trans ‹_›) (by simp)
        rw [‹next t = none›, ← hend hl', Function.update_eq_self]
      · rfl
    simp only [if_neg hnd, hpoint, Option.bind_eq_bind, Option.bind_some, hnext]
    refine ⟨_, _, rfl, ?_, fun b hb hbh => ?_⟩
    · rw [List.append_assoc, List.singleton_append]
      exact h.insert htm.1 htm.2 hnot
    · rw [Function.update_of_ne, Function.update_of_ne hbh]
      rintro rfl
      exact hb (List.mem_append_right _ List.mem_cons_self)

/-! ## From the one list to the other -/

section Move

variable {f : Nat → Bool} {b c : Nat} {x y : Option Nat} {l1 l2 : List Nat}

theorem filter_mid (l1 l2 : List Nat) (hb : f b = true) :
    (l1 ++ b :: l2).filter f = l1.filter f ++ b :: l2.filter f := by
  rw [List.filter_append, List.filter_cons_of_pos hb]

theorem filter_mid_neg (l1 l2 : List Nat) (hb : f b = false) :
    (l1 ++ b :: l2).filter f = l1.filter f ++ l2.filter f := by
  rw [List.filter_append, List.filter_cons_of_neg (by rw [hb]; exact Bool.false_ne_true)]

/-- The test of one block that is not in the list is changed. -/
theorem filter_update (v : Bool) {l : List Nat} (hb : b ∉ l) :
    l.filter (Function.update f b v) = l.filter f := by
  refine List.filter_congr fun c hc => Function.update_of_ne ?_ ..
  rintro rfl
  exact hb hc

/-- The block `b` goes from the list of the blocks with `f` to that of the others. Between the two
steps its own pointer may be changed. -/
theorem move_spec (hs : (l1 ++ b :: l2).Pairwise (· < ·)) (hlen : (l1 ++ b :: l2).length < finshHeapMax)
    (hb : f b = true) (hx : IsChain next x ((l1 ++ b :: l2).filter f))
    (hy : IsChain next y ((l1 ++ b :: l2).filter fun c => !f c)) :
    ∃ next₁ x', finshBlockRemove next x b = some (next₁, x') ∧
      ∀ next₂, (∀ c, c ≠ b → next₂ c = next₁ c) →
        (l2.filter (fun c => !f c) = [] → next₂ b = none) →
        ∃ next₃ y', finshBlockInsert next₂ y b = some (next₃, y') ∧
          IsChain next₃ x' ((l1 ++ b :: l2).filter (Function.update f b false)) ∧
          IsChain next₃ y' ((l1 ++ b :: l2).filter fun c => !Function.update f b false c) := by
  obtain ⟨-, hs2, hs1⟩ := List.pairwise_append.mp hs
  have hlt : ∀ c ∈ l1, c < b := fun c hc => hs1 c hc b List.mem_cons_self
  have hgt : ∀ c ∈ l2, b < c := (List.pairwise_cons.mp hs2).1
  have hb1 : b ∉ l1 := fun hm => Nat.lt_irrefl _ (hlt b hm)
  have hb2 : b ∉ l2 := fun hm => Nat.lt_irrefl _ (hgt b hm)
  have hne : ∀ c ∈ l1 ++ l2, c ≠ b := by
    rintro c hm rfl
    exact (List.mem_append.mp hm).elim hb1 hb2
  have hnd : (l1 ++ b :: l2).Nodup := hs.imp fun hlt => Nat.ne_of_lt hlt
  have hlen' : ∀ g : Nat → Bool, (l1.filter g).length < finshHeapMax := by
    intro g
    have hg := List.length_filter_le g l1
    rw [List.length_append] at hlen
    omega
  have hnd' : (l1.filter f ++ b :: l2.filter f).Nodup := by
    rw [← filter_mid l1 l2 hb]
    exact hnd.filter f
  rw [filter_mid l1 l2 hb] at hx
  rw [filter_mid_neg l1 l2 (by rw [hb]; rfl)] at hy
  obtain ⟨next₁, x', hrem, hx', hkeep⟩ := finshBlockRemove_spec hx hnd' (hlen' f)
  refine ⟨next₁, x', hrem, fun next₂ hnext₂ hend => ?_⟩
  have hy2 : IsChain next₂ y
      (l1.filter (fun c => !f c) ++ l2.filter fun c => !f c) := by
    refine hy.congr fun c hc => ?_
    rw [← List.filter_append] at hc
    obtain ⟨hm, hcf⟩ := List.mem_filter.mp hc
    have hcb := hne c hm
    rw [hnext₂ c hcb, hkeep c _ hcb]
    intro hcf'
    rw [(List.mem_filter.mp hcf').2] at hcf
    cases hcf
  have hndy : (l1.filter (fun c => !f c) ++ l2.filter fun c => !f c).Nodup := by
    rw [← filter_mid_neg l1 l2 (by rw [hb]; rfl)]
    exact hnd.filter _
  obtain ⟨next₃, y', hins, hy3, hkeep₃⟩ := finshBlockInsert_spec hy2 hndy
    (fun c hc => hlt c (List.mem_filter.mp hc).1) (fun c hc => hgt c (List.mem_filter.mp hc).1)
    (hlen' _) hend
  refine ⟨next₃, y', hins, ?_, ?_⟩
  · rw [filter_mid_neg l1 l2 (Function.update_self ..), filter_update false hb1,
      filter_update false hb2]
    refine hx'.congr fun c hc => ?_
    rw [← List.filter_append] at hc
    obtain ⟨hm, hcf⟩ := List.mem_filter.mp hc
    have hcb := hne c hm
    rw [hkeep₃ c _ hcb, hnext₂ c hcb]
    intro hcf'
    have hcf'' := (List.mem_filter.mp hcf').2
    rw [hcf] at hcf''
    cases hcf''
  · have hg : (fun c => !Function.update f b false c) =
        Function.update (fun c => !f c) b true := by
      funext c
      by_cases hcb : c = b
      · rw [hcb, Function.update_self, Function.update_self]
        rfl
      · rw [Function.update_of_ne hcb, Function.update_of_ne hcb]
    rw [hg, filter_mid l1 l2 (Function.update_self ..), filter_update true hb1,
      filter_update true hb2]
    exact hy3

end Move

end Tudu.Finsh
