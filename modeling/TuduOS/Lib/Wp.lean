import Mathlib.Control.Basic
import Mathlib.Tactic.TypeStar

/-!
# Correctness of stateful functions that can fail

* `wp f Q s`: where `f` has a result from `s`, the result and the state behind it have `Q`.
* `twp f Q s`: `f` has a result from `s`, and the result and the state behind it have `Q`.

The rules follow the syntax: one for each of `pure`, `failure`, `>>=`, `get`, `modify` and `if`, and
`wp_mono` and `twp_mono` for what follows from a result.
-/

namespace Wp

variable {σ α β : Type} {f : StateT σ Option α} {g : α → StateT σ Option β}
  {Q R : α → σ → Prop} {s : σ}

def wp (f : StateT σ Option α) (Q : α → σ → Prop) (s : σ) : Prop :=
  ∀ a s', f.run s = some (a, s') → Q a s'

theorem wp_mono (h : wp f Q s) (hQR : ∀ a s', Q a s' → R a s') : wp f R s :=
  fun a s' hr => hQR a s' (h a s' hr)

@[simp] theorem wp_pure {a : α} : wp (pure a) Q s ↔ Q a s := by
  constructor
  · intro h
    exact h a s rfl
  · rintro h b t hr
    cases hr
    exact h

@[simp] theorem wp_failure : wp (failure : StateT σ Option α) Q s := by
  intro a s' hr
  cases hr

@[simp] theorem wp_bind {Q : β → σ → Prop} :
    wp (f >>= g) Q s ↔ wp f (fun a s' => wp (g a) Q s') s := by
  constructor
  · intro h a s' hf b t hg
    refine h b t ?_
    rw [StateT.run_bind, hf]
    exact hg
  · intro h b t hr
    rw [StateT.run_bind] at hr
    obtain ⟨⟨a, s'⟩, hf, hg⟩ := Option.bind_eq_some_iff.mp hr
    exact h a s' hf b t hg

@[simp] theorem wp_get {Q : σ → σ → Prop} : wp (get : StateT σ Option σ) Q s ↔ Q s s := by
  constructor
  · intro h
    exact h s s rfl
  · rintro h b t hr
    cases hr
    exact h

@[simp] theorem wp_modify {u : σ → σ} {Q : PUnit → σ → Prop} :
    wp (modify u : StateT σ Option PUnit) Q s ↔ Q ⟨⟩ (u s) := by
  constructor
  · intro h
    exact h ⟨⟩ (u s) rfl
  · rintro h b t hr
    cases hr
    exact h

theorem wp_ite {c : Prop} [Decidable c] {k : StateT σ Option α} (hc : c → wp f Q s)
    (hn : ¬ c → wp k Q s) : wp (if c then f else k) Q s := by
  by_cases h : c
  · rw [if_pos h]
    exact hc h
  · rw [if_neg h]
    exact hn h

/-! ## Total correctness -/

def twp (f : StateT σ Option α) (Q : α → σ → Prop) (s : σ) : Prop :=
  ∃ a s', f.run s = some (a, s') ∧ Q a s'

theorem twp_mono (h : twp f Q s) (hQR : ∀ a s', Q a s' → R a s') : twp f R s := by
  obtain ⟨a, s', hr, hQ⟩ := h
  exact ⟨a, s', hr, hQR a s' hQ⟩

/-- What every result has, and what some result has. -/
theorem twp_wp (h : twp f Q s) (hwp : wp f R s) : twp f (fun a s' => Q a s' ∧ R a s') s := by
  obtain ⟨a, s', hr, hQ⟩ := h
  exact ⟨a, s', hr, hQ, hwp a s' hr⟩

/-- The result is the only one. -/
theorem wp_of_twp (h : twp f Q s) : wp f Q s := by
  obtain ⟨a, s', hr, hQ⟩ := h
  intro b t hr'
  rw [hr] at hr'
  cases hr'
  exact hQ

theorem twp_pure {a : α} (h : Q a s) : twp (pure a) Q s := ⟨a, s, rfl, h⟩

theorem twp_bind {Q : β → σ → Prop} (h : twp f (fun a s' => twp (g a) Q s') s) :
    twp (f >>= g) Q s := by
  obtain ⟨a, s', hf, b, t, hg, hQ⟩ := h
  refine ⟨b, t, ?_, hQ⟩
  rw [StateT.run_bind, hf]
  exact hg

theorem twp_get {Q : σ → σ → Prop} (h : Q s s) : twp (get : StateT σ Option σ) Q s :=
  ⟨s, s, rfl, h⟩

theorem twp_modify {u : σ → σ} {Q : PUnit → σ → Prop} (h : Q ⟨⟩ (u s)) :
    twp (modify u : StateT σ Option PUnit) Q s := ⟨⟨⟩, u s, rfl, h⟩

theorem twp_ite {c : Prop} [Decidable c] {k : StateT σ Option α} (hc : c → twp f Q s)
    (hn : ¬ c → twp k Q s) : twp (if c then f else k) Q s := by
  by_cases h : c
  · rw [if_pos h]
    exact hc h
  · rw [if_neg h]
    exact hn h

end Wp
