import TuduOS.Lib.Lts

/-!
# Two systems in step

* `exec_rel`: two systems that take every step that meets `C` alike, in related states, take every
  run along `C` alike.
* `exec_map`: a state and what is seen of it.
-/

namespace Lts

variable {σ τ α : Type*} {f : σ → α → Option σ} {g : τ → α → Option τ} {R : σ → τ → Prop}
  {C : σ → α → Prop} {s : σ} {t : τ} {as : List α}

theorem exec_rel (hstep : ∀ s t a, R s t → C s a → Option.Rel R (f s a) (g t a))
    (hc : Along f C s as) (h : R s t) : Option.Rel R (exec f s as) (exec g t as) := by
  induction as generalizing s t with
  | nil => exact .some h
  | cons a as ih =>
    rw [exec_cons_bind, exec_cons_bind]
    have hr := hstep s t a h hc.1
    have hrest := hc.2
    revert hr hrest
    cases f s a with
    | none =>
      intro hr _
      cases hg : g t a with
      | none => exact .none
      | some t' =>
        rw [hg] at hr
        cases hr
    | some s' =>
      intro hr hrest
      cases hg : g t a with
      | none =>
        rw [hg] at hr
        cases hr
      | some t' =>
        rw [hg] at hr
        cases hr with
        | some h' => exact ih hrest h'

/-- What is seen of the one is the other. -/
theorem exec_map {view : σ → τ} (hview : ∀ s t, R s t → view s = t)
    (h : Option.Rel R (exec f s as) (exec g t as)) : (exec f s as).map view = exec g t as := by
  revert h
  cases exec f s as with
  | none =>
    intro h
    cases hg : exec g t as with
    | none => rfl
    | some t' =>
      rw [hg] at h
      cases h
  | some s' =>
    intro h
    cases hg : exec g t as with
    | none =>
      rw [hg] at h
      cases h
    | some t' =>
      rw [hg] at h
      cases h with
      | some h' => exact congrArg some (hview s' t' h')

theorem rel_some {x : Option σ} {y : Option τ} (h : Option.Rel R x y) {s' : σ} (hx : x = some s') :
    ∃ t', y = some t' ∧ R s' t' := by
  subst hx
  cases h with
  | some h' => exact ⟨_, rfl, h'⟩

end Lts
