import Mathlib.Algebra.BigOperators.Group.Finset.Basic
import Mathlib.Algebra.GroupWithZero.Nat
import Mathlib.Data.Finset.Max
import Mathlib.Data.Finset.Sort

/-!
# Lists in the order of their addresses

A block list whose blocks lie in the order of their addresses is given by the set of the blocks:
the block behind `b` is the least one above `b`.

* `Leads next k e`: the pointers `next` lead through the blocks `k` in their order, up to the
  greatest block `e`.
* `Leads.insert`, `Leads.erase`: a block is split in two, two blocks become one.
* `Leads.chain`: the list that the pointers lead through.
* `Leads.sum_le`: parts of the blocks are together no longer than the whole.
-/

namespace Ordered

section Leads

variable {α : Type*} [LinearOrder α]

/-- `next` leads through `k` in its order, up to its greatest element `e`. -/
structure Leads (next : α → α) (k : Finset α) (e : α) : Prop where
  last : e ∈ k
  le : ∀ b ∈ k, b ≤ e
  mem : ∀ b ∈ k, b ≠ e → next b ∈ k
  lt : ∀ b ∈ k, b ≠ e → b < next b
  least : ∀ b ∈ k, ∀ c ∈ k, b < c → next b ≤ c

namespace Leads

variable {next next' : α → α} {k : Finset α} {b c e n : α}

theorem congr (h : Leads next k e) (hn : ∀ b ∈ k, b ≠ e → next' b = next b) : Leads next' k e where
  last := h.last
  le := h.le
  mem b hb hbe := (hn b hb hbe).symm ▸ h.mem b hb hbe
  lt b hb hbe := (hn b hb hbe).symm ▸ h.lt b hb hbe
  least b hb c hc hbc := (hn b hb (hbc.trans_le (h.le c hc)).ne).symm ▸ h.least b hb c hc hbc

theorem inj (h : Leads next k e) (hb : b ∈ k) (hbe : b ≠ e) (hc : c ∈ k) (hce : c ≠ e)
    (hbc : next b = next c) : b = c := by
  rcases lt_trichotomy b c with hlt | heq | hlt
  · exact absurd (h.lt c hc hce) (not_lt.mpr (hbc ▸ h.least b hb c hc hlt))
  · exact heq
  · exact absurd (h.lt b hb hbe) (not_lt.mpr (hbc ▸ h.least c hc b hb hlt))

/-- Every block but the first is behind one. -/
theorem exists_prev (h : Leads next k e) (hb : b ∈ k) (hc : c ∈ k) (hcb : c < b) :
    ∃ p ∈ k, p ≠ e ∧ next p = b := by
  -- the greatest block below `b`
  have hne : (k.filter (· < b)).Nonempty := ⟨c, Finset.mem_filter.mpr ⟨hc, hcb⟩⟩
  obtain ⟨hp, hpb⟩ := Finset.mem_filter.mp ((k.filter (· < b)).max'_mem hne)
  have hpe := (hpb.trans_le (h.le b hb)).ne
  refine ⟨_, hp, hpe, (h.least _ hp b hb hpb).antisymm (not_lt.mp fun hlt => ?_)⟩
  have hmax := (k.filter (· < b)).le_max' _ (Finset.mem_filter.mpr ⟨h.mem _ hp hpe, hlt⟩)
  exact absurd (h.lt _ hp hpe) (not_lt.mpr hmax)

/-- A block is split at `n`. -/
theorem insert (h : Leads next k e) (hb : b ∈ k) (hbe : b ≠ e) (hbn : b < n) (hn : n < next b)
    (hb' : next' b = n) (hn' : next' n = next b) (ho : ∀ c ∈ k, c ≠ b → c ≠ e → next' c = next c) :
    Leads next' (insert n k) e := by
  have hnb := h.mem b hb hbe
  refine ⟨Finset.mem_insert_of_mem h.last, fun c hc => ?_, fun c hc hce => ?_, fun c hc hce => ?_,
    fun c hc d hd hcd => ?_⟩
  · rcases Finset.mem_insert.mp hc with rfl | hc
    · exact hn.le.trans (h.le _ hnb)
    · exact h.le c hc
  · rcases Finset.mem_insert.mp hc with rfl | hc
    · exact hn'.symm ▸ Finset.mem_insert_of_mem hnb
    · by_cases hcb : c = b
      · rw [hcb, hb']
        exact Finset.mem_insert_self n k
      · rw [ho c hc hcb hce]
        exact Finset.mem_insert_of_mem (h.mem c hc hce)
  · rcases Finset.mem_insert.mp hc with rfl | hc
    · exact hn'.symm ▸ hn
    · by_cases hcb : c = b
      · rw [hcb, hb']
        exact hbn
      · rw [ho c hc hcb hce]
        exact h.lt c hc hce
  · rcases Finset.mem_insert.mp hc with rfl | hck
    · rcases Finset.mem_insert.mp hd with rfl | hd
      · exact absurd hcd (lt_irrefl _)
      · exact hn'.symm ▸ h.least b hb d hd (hbn.trans hcd)
    · by_cases hcb : c = b
      · rw [hcb, hb']
        rcases Finset.mem_insert.mp hd with rfl | hd
        · exact le_rfl
        · exact hn.le.trans (h.least b hb d hd (hcb ▸ hcd))
      · rcases Finset.mem_insert.mp hd with rfl | hd
        · -- a block below the new one is below the block that is split
          have hcb' : c < b := by
            refine lt_of_le_of_ne (not_lt.mp fun hbc => ?_) hcb
            exact absurd (hn.trans_le (h.least b hb c hck hbc)) (not_lt.mpr hcd.le)
          rw [ho c hck hcb (hcb'.trans_le (h.le b hb)).ne]
          exact (h.least c hck b hb hcb').trans hbn.le
        · rw [ho c hck hcb (hcd.trans_le (h.le d hd)).ne]
          exact h.least c hck d hd hcd

/-- The block behind `b` becomes a part of it. -/
theorem erase (h : Leads next k e) (hb : b ∈ k) (hbe : b ≠ e) (hc : next b = c) (hce : c ≠ e)
    (hb' : next' b = next c) (ho : ∀ d ∈ k, d ≠ b → d ≠ c → d ≠ e → next' d = next d) :
    Leads next' (k.erase c) e := by
  have hck : c ∈ k := hc ▸ h.mem b hb hbe
  have hbc : b < c := hc ▸ h.lt b hb hbe
  refine ⟨Finset.mem_erase.mpr ⟨hce.symm, h.last⟩, fun d hd => h.le d (Finset.mem_of_mem_erase hd),
    fun d hd hde => ?_, fun d hd hde => ?_, fun d hd a ha hda => ?_⟩
  · obtain ⟨hdc, hd⟩ := Finset.mem_erase.mp hd
    by_cases hdb : d = b
    · rw [hdb, hb']
      exact Finset.mem_erase.mpr ⟨(h.lt c hck hce).ne', h.mem c hck hce⟩
    · rw [ho d hd hdb hdc hde]
      refine Finset.mem_erase.mpr ⟨fun hnc => hdb ?_, h.mem d hd hde⟩
      exact h.inj hd hde hb hbe (hnc.trans hc.symm)
  · obtain ⟨hdc, hd⟩ := Finset.mem_erase.mp hd
    by_cases hdb : d = b
    · rw [hdb, hb']
      exact hbc.trans (h.lt c hck hce)
    · rw [ho d hd hdb hdc hde]
      exact h.lt d hd hde
  · obtain ⟨hdc, hd⟩ := Finset.mem_erase.mp hd
    obtain ⟨hac, ha⟩ := Finset.mem_erase.mp ha
    by_cases hdb : d = b
    · subst hdb
      rw [hb']
      exact h.least c hck a ha (lt_of_le_of_ne (hc ▸ h.least d hd a ha hda) hac.symm)
    · rw [ho d hd hdb hdc (hda.trans_le (h.le a ha)).ne]
      exact h.least d hd a ha hda

/-! ## The list -/

theorem isChain_of_sorted (h : Leads next k e) {l : List α} (hl : l.Pairwise (· < ·))
    (hk : ∀ b ∈ l, b ∈ k) (htail : ∀ b ∈ k, ∀ a ∈ l.head?, a ≤ b → b ∈ l) :
    List.IsChain (fun b c => next b = c ∧ b < c) l := by
  induction l with
  | nil => exact .nil
  | cons b l ih =>
    obtain ⟨hbl, hl⟩ := List.pairwise_cons.mp hl
    cases l with
    | nil => exact .singleton b
    | cons c l =>
      have hbc := hbl c List.mem_cons_self
      have hb := hk b List.mem_cons_self
      have hbe := (hbc.trans_le (h.le c (hk c (by simp)))).ne
      have htail' : ∀ d ∈ k, b ≤ d → d ∈ b :: c :: l := fun d hd => htail d hd b rfl
      refine List.isChain_cons_cons.mpr ⟨?_, ih hl (fun d hd => hk d (by simp [hd])) ?_⟩
      · refine ⟨(h.least b hb c (hk c (by simp)) hbc).antisymm ?_, hbc⟩
        have hlt := h.lt b hb hbe
        rcases List.mem_cons.mp (htail' _ (h.mem b hb hbe) hlt.le) with heq | hmem
        · exact absurd heq hlt.ne'
        · rcases List.mem_cons.mp hmem with heq | hmem
          · exact heq.ge
          · exact ((List.pairwise_cons.mp hl).1 _ hmem).le
      · intro d hd a ha had
        cases ha
        rcases List.mem_cons.mp (htail' d hd (hbc.le.trans had)) with heq | hmem
        · exact absurd heq (hbc.trans_le had).ne'
        · exact hmem

/-- The pointers lead through a list of all blocks, to the last. -/
theorem chain (h : Leads next k e) : ∃ l, List.IsChain (fun b c => next b = c ∧ b < c) (l ++ [e]) ∧
    (l ++ [e]).Pairwise (· < ·) ∧ ∀ b, b ∈ l ++ [e] ↔ b ∈ k := by
  obtain ⟨s, hs, hm⟩ : ∃ s : List α, s.Pairwise (· < ·) ∧ ∀ b, b ∈ s ↔ b ∈ k :=
    ⟨k.sort, k.sortedLT_sort.pairwise, fun b => k.mem_sort _⟩
  have hc := h.isChain_of_sorted hs (fun b hb => (hm b).mp hb) fun b hb a _ _ => (hm b).mpr hb
  rcases List.eq_nil_or_concat s with rfl | ⟨l, z, hlz⟩
  · cases (hm e).mpr h.last
  · rw [List.concat_eq_append] at hlz
    subst hlz
    -- the last of the list is the greatest block
    have hz : z = e := by
      have hze : z ≤ e := h.le z ((hm z).mp (by simp))
      refine hze.antisymm ?_
      rcases List.mem_append.mp ((hm e).mpr h.last) with he | he
      · exact ((List.pairwise_append.mp hs).2.2 e he z (by simp)).le
      · exact (List.mem_singleton.mp he).le
    subst hz
    exact ⟨l, hc, hs, hm⟩

end Leads

end Leads

/-! ## Lengths -/

theorem sum_list_le {w : Nat → Nat} {a e : Nat} {l : List Nat}
    (h : List.IsChain (fun b c => b + w b ≤ c) (a :: (l ++ [e]))) :
    a + ((a :: l).map w).sum ≤ e := by
  induction l generalizing a with
  | nil => simpa using h
  | cons b l ih =>
    obtain ⟨hab, h⟩ := List.isChain_cons_cons.mp h
    have hb := ih h
    simp only [List.map_cons, List.sum_cons] at hb ⊢
    omega

/-- Parts of the blocks from `a` on are together no longer than the way from `a` to the last. -/
theorem Leads.sum_le {next w : Nat → Nat} {k : Finset Nat} {a e : Nat} (h : Leads next k e)
    (ha : ∀ b ∈ k, a ≤ b) (hw : ∀ b ∈ k, b ≠ e → b + w b ≤ next b) (he : w e = 0) :
    a + ∑ b ∈ k, w b ≤ e := by
  obtain ⟨l, hc, hs, hm⟩ := h.chain
  have hk : k = (l ++ [e]).toFinset := by
    ext b
    rw [List.mem_toFinset, hm]
  have hsum : ∑ b ∈ k, w b = (l.map w).sum := by
    rw [hk, List.sum_toFinset w (hs.imp fun h => h.ne)]
    simp [he]
  rw [hsum]
  have hc' : List.IsChain (fun b c => b + w b ≤ c) (l ++ [e]) := by
    refine hc.imp_of_mem_imp fun b c hb hc' hbc => ?_
    have hne : b ≠ e := (hbc.2.trans_le (h.le c ((hm c).mp hc'))).ne
    exact hbc.1 ▸ hw b ((hm b).mp hb) hne
  cases l with
  | nil => simpa using ha e h.last
  | cons b l =>
    have hb := ha b ((hm b).mp (by simp))
    have hsum := sum_list_le hc'
    omega

end Ordered
