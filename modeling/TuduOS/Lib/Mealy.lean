import Mathlib.Tactic.TypeStar

/-!
# Machines with an output

A machine is a step function `step : σ → α → σ × β`: the next state and the output.

* `run step s as`: the state after the inputs `as`, and all outputs.
* `run_refines`: if related states have related successors and equal outputs, two machines answer
  every sequence of inputs alike.
-/

namespace Mealy

variable {σ τ α β : Type*}

def run (step : σ → α → σ × β) : σ → List α → σ × List β
  | s, [] => (s, [])
  | s, a :: as =>
    let r := step s a
    let r' := run step r.1 as
    (r'.1, r.2 :: r'.2)

theorem run_refines {f : σ → α → σ × β} {g : τ → α → τ × β} {R : σ → τ → Prop}
    (hstep : ∀ s t a, R s t → R (f s a).1 (g t a).1 ∧ (f s a).2 = (g t a).2)
    {s : σ} {t : τ} (h : R s t) (as : List α) :
    R (run f s as).1 (run g t as).1 ∧ (run f s as).2 = (run g t as).2 := by
  induction as generalizing s t with
  | nil => exact ⟨h, rfl⟩
  | cons a as ih =>
    obtain ⟨hr, ho⟩ := hstep s t a h
    obtain ⟨hr', ho'⟩ := ih hr
    refine ⟨hr', ?_⟩
    show (f s a).2 :: _ = (g t a).2 :: _
    rw [ho, ho']

end Mealy
