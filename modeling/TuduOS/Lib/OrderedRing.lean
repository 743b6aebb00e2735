import TuduOS.Lib.Circular
import TuduOS.Lib.Ordered

/-!
# Rings in the order of their addresses

A circular doubly linked list whose nodes lie in the order of their addresses, given by the set of
its nodes: `next` leads from each node to the least one above it, and from the greatest to the least.

* `Around L k a e`: the pointers lead around the nodes `k`, from the least `a` to the greatest `e`
  and back, and `prev` is the inverse of `next`.
* `Around.insertAfter`, `Around.unlink`: a node goes between two nodes, or is taken off.
-/

namespace Ordered

open Circular Circular.Links

variable {α : Type*} [LinearOrder α]

structure Around (L : Links α) (k : Finset α) (a e : α) : Prop where
  leads : Leads L.next k e
  first : a ∈ k
  le : ∀ b ∈ k, a ≤ b
  back : L.next e = a
  prev : ∀ b ∈ k, L.prev (L.next b) = b

namespace Around

variable {L L' : Links α} {k : Finset α} {a b c e n : α}

theorem next_mem (h : Around L k a e) (hb : b ∈ k) : L.next b ∈ k := by
  by_cases hbe : b = e
  · rw [hbe, h.back]
    exact h.first
  · exact h.leads.mem b hb hbe

/-- Every node is behind one. -/
theorem exists_prev (h : Around L k a e) (hb : b ∈ k) : ∃ p ∈ k, L.next p = b := by
  rcases (h.le b hb).eq_or_lt with rfl | hab
  · exact ⟨e, h.leads.last, h.back⟩
  · obtain ⟨p, hp, -, hpb⟩ := h.leads.exists_prev hb h.first hab
    exact ⟨p, hp, hpb⟩

theorem next_prev (h : Around L k a e) (hb : b ∈ k) : L.prev b ∈ k ∧ L.next (L.prev b) = b := by
  obtain ⟨p, hp, rfl⟩ := h.exists_prev hb
  rw [h.prev p hp]
  exact ⟨hp, rfl⟩

theorem inj (h : Around L k a e) (hb : b ∈ k) (hc : c ∈ k) (hbc : L.next b = L.next c) : b = c := by
  rw [← h.prev b hb, hbc, h.prev c hc]

/-- The node before one other than the first is below it. -/
theorem prev_lt (h : Around L k a e) (hb : b ∈ k) (hba : b ≠ a) : L.prev b < b ∧ L.prev b ≠ e := by
  obtain ⟨hp, hn⟩ := h.next_prev hb
  have hpe : L.prev b ≠ e := by
    intro hpe
    rw [hpe, h.back] at hn
    exact hba hn.symm
  have hlt := h.leads.lt _ hp hpe
  rw [hn] at hlt
  exact ⟨hlt, hpe⟩

theorem congr (h : Around L k a e) (hL : ∀ b ∈ k, L'.next b = L.next b ∧ L'.prev b = L.prev b) :
    Around L' k a e where
  leads := h.leads.congr fun b hb _ => (hL b hb).1
  first := h.first
  le := h.le
  back := (hL e h.leads.last).1.trans h.back
  prev b hb := by
    rw [(hL b hb).1, (hL _ (h.next_mem hb)).2]
    exact h.prev b hb

/-- A node goes between `b` and the one behind it. -/
theorem insertAfter (h : Around L k a e) (hb : b ∈ k) (hbe : b ≠ e) (hbn : b < n)
    (hn : n < L.next b) : Around (L.insertAfter b n) (insert n k) a e := by
  -- `n` is new
  have hnk : ∀ c ∈ k, c ≠ n := by
    rintro c hc rfl
    exact absurd (h.leads.least b hb c hc hbn) (not_le.mpr hn)
  refine ⟨h.leads.insert hb hbe hbn hn ?_ ?_ fun c hc hcb _ => ?_, Finset.mem_insert_of_mem h.first,
    fun c hc => ?_, ?_, fun c hc => ?_⟩
  · rw [insertAfter_next, if_pos rfl]
  · rw [insertAfter_next, if_neg hbn.ne', if_pos rfl]
  · rw [insertAfter_next, if_neg hcb, if_neg (hnk c hc)]
  · rcases Finset.mem_insert.mp hc with rfl | hc
    · exact (h.le b hb).trans hbn.le
    · exact h.le c hc
  · rw [insertAfter_next, if_neg hbe.symm, if_neg (hnk e h.leads.last)]
    exact h.back
  · rcases Finset.mem_insert.mp hc with rfl | hc
    · rw [insertAfter_next, if_neg hbn.ne', if_pos rfl, insertAfter_prev, if_neg hn.ne', if_pos rfl]
    · by_cases hcb : c = b
      · rw [hcb, insertAfter_next, if_pos rfl, insertAfter_prev, if_pos rfl]
      · rw [insertAfter_next, if_neg hcb, if_neg (hnk c hc), insertAfter_prev,
          if_neg (hnk _ (h.next_mem hc)), if_neg fun hcn => hcb (h.inj hc hb hcn), h.prev c hc]

/-- A node other than the first and the last is taken off. -/
theorem unlink (h : Around L k a e) (hc : c ∈ k) (hca : c ≠ a) (hce : c ≠ e) :
    Around (L.unlink c) (k.erase c) a e := by
  obtain ⟨hp, hpc⟩ := h.next_prev hc
  obtain ⟨hlt, hpe⟩ := h.prev_lt hc hca
  have hnc := h.next_mem hc
  have hother : ∀ d ∈ k, d ≠ L.prev c → (L.unlink c).next d = L.next d := fun d _ hd => by
    rw [unlink_next, if_neg hd]
  refine ⟨h.leads.erase hp hpe hpc hce ?_ fun d hd hdp _ _ => hother d hd hdp,
    Finset.mem_erase.mpr ⟨hca.symm, h.first⟩, fun d hd => h.le d (Finset.mem_of_mem_erase hd), ?_,
    fun d hd => ?_⟩
  · rw [unlink_next, if_pos rfl]
  · rw [hother e h.leads.last hpe.symm]
    exact h.back
  · obtain ⟨hdc, hd⟩ := Finset.mem_erase.mp hd
    by_cases hdp : d = L.prev c
    · rw [hdp, unlink_next, if_pos rfl, unlink_prev, if_pos rfl]
    · rw [hother d hd hdp, unlink_prev, if_neg fun hdn => hdc (h.inj hd hc hdn), h.prev d hd]

end Around

end Ordered
