import Mathlib.Logic.Function.Basic
import Mathlib.Tactic.TypeStar

/-!
# Runs of a partial step function

A system is a step function `step : σ → α → Option σ`: what state follows `s` under the action
`a`, or `none` when `a` cannot happen in `s`. A run is a list of actions.

* `exec step s as`: the state after the actions `as`.
* `Along step C s as`: every step of the run meets `C`, a condition on the state before the step
  and its action.
* `Visits step P s as`: every state of the run, the first and the last included, has `P`.
* `Along.inv`: the induction over a run, once: what each step that meets `C` keeps, every run
  whose steps meet `C` keeps.
* `along_iff_visits`, `along_iff_last`: a condition that is exact step by step is exact for whole
  runs.
-/

namespace Lts

variable {σ α : Type*} {step : σ → α → Option σ}

/-- The state after the actions `as`. -/
def exec (step : σ → α → Option σ) : σ → List α → Option σ
  | s, [] => some s
  | s, a :: as =>
    match step s a with
    | none => none
    | some s' => exec step s' as

/-- Every step of the run meets `C`. A run ends at an action that cannot happen. -/
def Along (step : σ → α → Option σ) (C : σ → α → Prop) : σ → List α → Prop
  | _, [] => True
  | s, a :: as => C s a ∧
    match step s a with
    | none => True
    | some s' => Along step C s' as

/-- Every state of the run has `P`. -/
def Visits (step : σ → α → Option σ) (P : σ → Prop) : σ → List α → Prop
  | s, [] => P s
  | s, a :: as => P s ∧
    match step s a with
    | none => True
    | some s' => Visits step P s' as

instance {C : σ → α → Prop} [∀ s a, Decidable (C s a)] :
    ∀ (s : σ) (as : List α), Decidable (Along step C s as)
  | _, [] => inferInstanceAs (Decidable True)
  | s, a :: as =>
    have : ∀ o : Option σ, Decidable (match o with
        | none => True
        | some s' => Along step C s' as) := fun o =>
      match o with
      | none => inferInstanceAs (Decidable True)
      | some s' => instDecidableAlong s' as
    inferInstanceAs (Decidable (C s a ∧ _))

/-! ## One more step -/

@[simp] theorem exec_nil (s : σ) : exec step s [] = some s := rfl

@[simp] theorem along_nil {C : σ → α → Prop} (s : σ) : Along step C s [] := trivial

theorem exec_cons {s s' : σ} {a : α} {as : List α} (h : step s a = some s') :
    exec step s (a :: as) = exec step s' as := by
  simp only [exec, h]

theorem exec_cons_some {s t : σ} {a : α} {as : List α} (h : exec step s (a :: as) = some t) :
    ∃ s', step s a = some s' ∧ exec step s' as = some t := by
  simp only [exec] at h
  split at h
  · cases h
  · exact ⟨_, ‹_›, h⟩

theorem along_cons {C : σ → α → Prop} {s s' : σ} {a : α} {as : List α} (h : step s a = some s') :
    Along step C s (a :: as) ↔ C s a ∧ Along step C s' as := by
  simp only [Along, h]

theorem visits_cons {P : σ → Prop} {s s' : σ} {a : α} {as : List α} (h : step s a = some s') :
    Visits step P s (a :: as) ↔ P s ∧ Visits step P s' as := by
  simp only [Visits, h]

theorem Visits.head {P : σ → Prop} {s : σ} {as : List α} (h : Visits step P s as) : P s := by
  cases as with
  | nil => exact h
  | cons a as => exact h.1

theorem Visits.last {P : σ → Prop} {s t : σ} {as : List α} (h : Visits step P s as)
    (hx : exec step s as = some t) : P t := by
  induction as generalizing s with
  | nil =>
    cases hx
    exact h
  | cons a as ih =>
    obtain ⟨s', hs, hx'⟩ := exec_cons_some hx
    exact ih ((visits_cons hs).mp h).2 hx'

theorem exec_cons_bind (s : σ) (a : α) (as : List α) :
    exec step s (a :: as) = (step s a).bind fun s' => exec step s' as := by
  simp only [exec]
  cases step s a <;> rfl

theorem exec_append_bind (s : σ) (as bs : List α) :
    exec step s (as ++ bs) = (exec step s as).bind fun t => exec step t bs := by
  induction as generalizing s with
  | nil => rfl
  | cons a as ih =>
    rw [List.cons_append, exec_cons_bind, exec_cons_bind, Option.bind_assoc]
    exact congrArg _ (funext ih)

theorem exec_append {s t : σ} {as bs : List α} (h : exec step s as = some t) :
    exec step s (as ++ bs) = exec step t bs := by
  rw [exec_append_bind, h, Option.bind_some]

/-! ## Induction over a run -/

/-- The invariant rule: what every step that meets `C` keeps, a run along `C` keeps. -/
theorem Along.inv {C : σ → α → Prop} {I : σ → Prop}
    (hstep : ∀ s a s', I s → C s a → step s a = some s' → I s') {as : List α} {s t : σ}
    (hc : Along step C s as) (hx : exec step s as = some t) (hs : I s) : I t := by
  induction as generalizing s with
  | nil => cases hx; exact hs
  | cons a as ih =>
    obtain ⟨s', hs', hx'⟩ := exec_cons_some hx
    obtain ⟨ha, hc'⟩ := (along_cons hs').mp hc
    exact ih hc' hx' (hstep s a s' hs ha hs')

/-- A condition on the actions alone. -/
theorem along_of_forall {C : σ → α → Prop} {as : List α} {s : σ}
    (h : ∀ s, ∀ a ∈ as, C s a) : Along step C s as := by
  induction as generalizing s with
  | nil => trivial
  | cons a as ih =>
    refine ⟨h s a List.mem_cons_self, ?_⟩
    split
    · trivial
    · exact ih fun s b hb => h s b (List.mem_cons_of_mem _ hb)

/-- The step after a part of the run. -/
theorem along_at {C : σ → α → Prop} {s t : σ} {a : α} (as : List α) {bs : List α}
    (h : Along step C s (as ++ a :: bs)) (hx : exec step s as = some t) : C t a := by
  induction as generalizing s with
  | nil =>
    cases hx
    exact h.1
  | cons b as ih =>
    obtain ⟨s', hs, hx'⟩ := exec_cons_some hx
    exact ih ((along_cons hs).mp h).2 hx'

theorem Along.mono {C D : σ → α → Prop} {s : σ} {as : List α} (hCD : ∀ s a, C s a → D s a)
    (h : Along step C s as) : Along step D s as := by
  induction as generalizing s with
  | nil => trivial
  | cons a as ih =>
    refine ⟨hCD s a h.1, ?_⟩
    cases hs : step s a with
    | none => trivial
    | some s' => exact ih ((along_cons hs).mp h).2

theorem Along.and {C D : σ → α → Prop} {s : σ} {as : List α} (h : Along step C s as)
    (h' : Along step D s as) : Along step (fun s a => C s a ∧ D s a) s as := by
  induction as generalizing s with
  | nil => trivial
  | cons a as ih =>
    refine ⟨⟨h.1, h'.1⟩, ?_⟩
    cases hs : step s a with
    | none => trivial
    | some s' =>
      exact ih ((along_cons hs).mp h).2 ((along_cons hs).mp h').2

/-- The invariant rule for every run. -/
theorem exec_inv {I : σ → Prop} (hstep : ∀ s a s', I s → step s a = some s' → I s')
    {as : List α} {s t : σ} (hx : exec step s as = some t) (hs : I s) : I t := by
  induction as generalizing s with
  | nil => cases hx; exact hs
  | cons a as ih =>
    obtain ⟨s', hs', hx'⟩ := exec_cons_some hx
    exact ih hx' (hstep s a s' hs hs')

/-- What every step keeps holds in every state of a run. -/
theorem visits_inv {I P : σ → Prop} (hP : ∀ s, I s → P s)
    (hstep : ∀ s a s', I s → step s a = some s' → I s') {as : List α} {s : σ} (hs : I s) :
    Visits step P s as := by
  induction as generalizing s with
  | nil => exact hP s hs
  | cons a as ih =>
    refine ⟨hP s hs, ?_⟩
    cases h : step s a with
    | none => trivial
    | some s' => exact ih (hstep s a s' hs h)

/-- Two conditions that agree wherever the invariant `I` holds. -/
theorem along_iff_along {C D : σ → α → Prop} {I : σ → Prop} (hCD : ∀ s a, I s → (C s a ↔ D s a))
    (hkeep : ∀ s a s', I s → step s a = some s' → I s') {s : σ} (hs : I s) (as : List α) :
    Along step C s as ↔ Along step D s as := by
  induction as generalizing s with
  | nil => exact Iff.rfl
  | cons a as ih =>
    simp only [Along, hCD s a hs]
    refine and_congr_right fun _ => ?_
    cases h : step s a with
    | none => exact Iff.rfl
    | some s' => exact ih (hkeep s a s' hs h)

/-- Two conditions that agree on every step before which the first has held. -/
theorem along_congr {C D : σ → α → Prop} {I : σ → Prop}
    (hCD : ∀ s a s', I s → step s a = some s' → (C s a ↔ D s a))
    (hkeep : ∀ s a s', I s → C s a → step s a = some s' → I s') {as : List α} {s t : σ}
    (hx : exec step s as = some t) (hs : I s) : Along step C s as ↔ Along step D s as := by
  induction as generalizing s with
  | nil => exact Iff.rfl
  | cons a as ih =>
    obtain ⟨s', hs', hx'⟩ := exec_cons_some hx
    rw [along_cons hs', along_cons hs', ← hCD s a s' hs hs']
    exact and_congr_right fun ha => ih hx' (hkeep s a s' hs ha hs')

/-- A step condition that is exact at each step is exact for whole runs: if a step that meets `C`
keeps the invariant `I` and one that does not loses `P`, the runs along `C` are the runs through
`P`. Here of the runs along `D`. -/
theorem along_iff_visits_along {C D : σ → α → Prop} {I P : σ → Prop} (hP : ∀ s, I s → P s)
    (hkeep : ∀ s a s', I s → D s a → C s a → step s a = some s' → I s')
    (hlose : ∀ s a s', I s → D s a → ¬ C s a → step s a = some s' → ¬ P s')
    {as : List α} {s t : σ} (hd : Along step D s as) (hx : exec step s as = some t) (hs : I s) :
    Along step C s as ↔ Visits step P s as := by
  induction as generalizing s with
  | nil => exact ⟨fun _ => hP s hs, fun _ => trivial⟩
  | cons a as ih =>
    obtain ⟨s', hs', hx'⟩ := exec_cons_some hx
    obtain ⟨hda, hd'⟩ := (along_cons hs').mp hd
    rw [along_cons hs', visits_cons hs']
    constructor
    · rintro ⟨ha, hr⟩
      exact ⟨hP s hs, (ih hd' hx' (hkeep s a s' hs hda ha hs')).mp hr⟩
    · rintro ⟨-, hr⟩
      have ha : C s a := Classical.byContradiction fun hn =>
        hlose s a s' hs hda hn hs' hr.head
      exact ⟨ha, (ih hd' hx' (hkeep s a s' hs hda ha hs')).mpr hr⟩

/-- The same of all runs. -/
theorem along_iff_visits {C : σ → α → Prop} {I P : σ → Prop} (hP : ∀ s, I s → P s)
    (hkeep : ∀ s a s', I s → C s a → step s a = some s' → I s')
    (hlose : ∀ s a s', I s → ¬ C s a → step s a = some s' → ¬ P s') {as : List α} {s t : σ}
    (hx : exec step s as = some t) (hs : I s) : Along step C s as ↔ Visits step P s as :=
  along_iff_visits_along (D := fun _ _ => True) hP (fun s a s' hi _ => hkeep s a s' hi)
    (fun s a s' hi _ => hlose s a s' hi) (along_of_forall fun _ _ _ => trivial) hx hs

/-- If a step keeps `P` just when it meets `C`, and nothing brings `P` back, the last state of a run
tells whether all its steps met `C`. -/
theorem along_iff_last {C : σ → α → Prop} {I P : σ → Prop}
    (hstep : ∀ s a s', I s → step s a = some s' → I s' ∧ (P s' ↔ P s ∧ C s a)) {as : List α}
    {s t : σ} (hx : exec step s as = some t) (hs : I s) : P s ∧ Along step C s as ↔ P t := by
  induction as generalizing s with
  | nil =>
    cases hx
    exact and_iff_left trivial
  | cons a as ih =>
    obtain ⟨s', hs', hx'⟩ := exec_cons_some hx
    obtain ⟨hi, hP⟩ := hstep s a s' hs hs'
    rw [along_cons hs', ← ih hx' hi, hP, and_assoc]

end Lts
