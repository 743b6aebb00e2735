import Mathlib.Data.List.Basic

/-!
# The first run of a list

Where a list has, for the first time, `k` elements in a row with a property.

* `RunAt p k l i`: a run of `k` elements starts at the index `i`. `First p k l i`: it is the first.
* `Scan p k pre run`: what a loop knows that has read `pre ++ run` and has found no run yet. The
  elements of `run` are the start of one; behind `pre` the count starts anew.
-/

namespace FirstRun

variable {α : Type*} {p : α → Prop} {k : Nat} {l pre run : List α} {x : α} {i j : Nat}

def RunAt (p : α → Prop) (k : Nat) (l : List α) (i : Nat) : Prop :=
  ∀ j, i ≤ j → j < i + k → ∃ x, l[j]? = some x ∧ p x

structure First (p : α → Prop) (k : Nat) (l : List α) (i : Nat) : Prop where
  run : RunAt p k l i
  first : ∀ j, j < i → ¬ RunAt p k l j

structure Scan (p : α → Prop) (k : Nat) (pre run : List α) : Prop where
  short : run.length < k
  all : ∀ x ∈ run, p x
  /-- No run starts before the count does, whatever follows. -/
  fresh : ∀ l i, i < pre.length → ¬ RunAt p k (pre ++ l) i
  ends : ∀ l y, pre = l ++ [y] → ¬ p y

theorem First.unique (h : First p k l i) (h' : First p k l j) : i = j := by
  rcases Nat.lt_trichotomy i j with hij | rfl | hij
  · exact absurd h.run (h'.first i hij)
  · rfl
  · exact absurd h'.run (h.first j hij)

theorem Scan.nil (hk : 0 < k) : Scan p k [] [] where
  short := hk
  all _ hx := absurd hx List.not_mem_nil
  fresh _ _ hi := absurd hi (Nat.not_lt_zero _)
  ends l y h := absurd h.symm (List.append_ne_nil_of_right_ne_nil l (List.cons_ne_nil y []))

theorem Scan.push (h : Scan p k pre run) (hx : p x) (hk : run.length + 1 < k) :
    Scan p k pre (run ++ [x]) where
  short := by simpa using hk
  all y hy := by
    rcases List.mem_append.mp hy with hy | hy
    · exact h.all y hy
    · rwa [List.mem_singleton.mp hy]
  fresh := h.fresh
  ends := h.ends

/-- An element without the property ends every run that has started. -/
theorem Scan.reset (h : Scan p k pre run) (hx : ¬ p x) : Scan p k (pre ++ run ++ [x]) [] where
  short := Nat.lt_of_le_of_lt (Nat.zero_le _) h.short
  all _ hy := absurd hy List.not_mem_nil
  fresh l i hi hr := by
    have hs := h.short
    by_cases hp : i < pre.length
    · rw [List.append_assoc, List.append_assoc] at hr
      exact h.fresh _ i hp hr
    · simp only [List.length_append, List.length_singleton] at hi
      obtain ⟨y, hy, hpy⟩ := hr (pre.length + run.length) (by omega) (by omega)
      have hl : pre.length + run.length = (pre ++ run).length := List.length_append.symm
      rw [List.append_assoc (pre ++ run), hl, List.getElem?_append_right (Nat.le_refl _),
        Nat.sub_self] at hy
      cases hy
      exact hx hpy
  ends l y h := by
    have hy : [x] = [y] := (List.append_inj' h rfl).2
    cases hy
    exact hx

theorem Scan.runAt (h : Scan p k pre run) (hx : p x) (hk : run.length + 1 = k) (l : List α) :
    RunAt p k (pre ++ run ++ x :: l) pre.length := by
  intro j h1 h2
  rw [List.append_assoc, List.getElem?_append_right h1]
  by_cases hj : j - pre.length < run.length
  · rw [List.getElem?_append_left hj]
    exact ⟨_, List.getElem?_eq_getElem hj, h.all _ (List.getElem_mem hj)⟩
  · have hz : j - pre.length - run.length = 0 := by omega
    rw [List.getElem?_append_right (by omega), hz]
    exact ⟨x, rfl, hx⟩

/-- The count is full: this run is the first. -/
theorem Scan.found (h : Scan p k pre run) (hx : p x) (hk : run.length + 1 = k) (l : List α) :
    First p k (pre ++ run ++ x :: l) pre.length where
  run := h.runAt hx hk l
  first j hj := by
    rw [List.append_assoc]
    exact h.fresh _ j hj

end FirstRun
