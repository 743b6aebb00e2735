import Mathlib.Data.List.Basic
import Mathlib.Order.Basic

/-!
# Serving a queue in order

Waiting clients of a resource with the state `st`. `sat w st`: the client `w` is satisfied in `st`;
`take w st`: what it leaves when it is served. The clients are looked at once each, in order, and
each one that is satisfied in what the ones before it have left is served.

* `Served sat take ws st l st'`: from `st`, the clients `l` of the queue `ws` are served, and `st'`
  is left.
* `Served.unsat`: where less satisfies fewer clients, nobody who was passed over is satisfied at the
  end.
-/

namespace Serve

variable {ω σ : Type*} {sat sat' : ω → σ → Prop} {take take' : ω → σ → σ} {ws l l' : List ω}
  {st st' st'' : σ} {w : ω}

/-- The clients `l` of the queue are served, in order, and `st'` is left. -/
inductive Served (sat : ω → σ → Prop) (take : ω → σ → σ) : List ω → σ → List ω → σ → Prop
  | nil (st : σ) : Served sat take [] st [] st
  | serve {w : ω} {ws l : List ω} {st st' : σ} (h : sat w st)
      (hr : Served sat take ws (take w st) l st') : Served sat take (w :: ws) st (w :: l) st'
  | pass {w : ω} {ws l : List ω} {st st' : σ} (h : ¬ sat w st)
      (hr : Served sat take ws st l st') : Served sat take (w :: ws) st l st'

theorem Served.sublist (h : Served sat take ws st l st') : l.Sublist ws := by
  induction h with
  | nil => exact .slnil
  | serve _ _ ih => exact ih.cons_cons _
  | pass _ _ ih => exact ih.cons _

/-- What the clients of the queue want may be read off before. -/
theorem Served.congr (h : Served sat take ws st l st') (hsat : ∀ w ∈ ws, ∀ st, sat' w st ↔ sat w st)
    (htake : ∀ w ∈ ws, ∀ st, take' w st = take w st) : Served sat' take' ws st l st' := by
  induction h with
  | nil => exact .nil _
  | @serve w ws _ st _ hs _ ih =>
    refine .serve ((hsat w List.mem_cons_self st).mpr hs) ?_
    rw [htake w List.mem_cons_self st]
    exact ih (fun v hv => hsat v (List.mem_cons_of_mem _ hv))
      fun v hv => htake v (List.mem_cons_of_mem _ hv)
  | @pass w ws _ st _ hn _ ih =>
    refine .pass (fun hs => hn ((hsat w List.mem_cons_self st).mp hs)) ?_
    exact ih (fun v hv => hsat v (List.mem_cons_of_mem _ hv))
      fun v hv => htake v (List.mem_cons_of_mem _ hv)

section Order

variable [Preorder σ]

/-- A service leaves no more than was there. -/
theorem Served.le (hdec : ∀ w st, take w st ≤ st) (h : Served sat take ws st l st') : st' ≤ st := by
  induction h with
  | nil => exact le_rfl
  | serve _ _ ih => exact ih.trans (hdec _ _)
  | pass _ _ ih => exact ih

/-- Where less satisfies fewer clients, nobody who was passed over is satisfied at the end. -/
theorem Served.unsat (hmono : ∀ w a b, a ≤ b → sat w a → sat w b) (hdec : ∀ w st, take w st ≤ st)
    (h : Served sat take ws st l st') (hw : w ∈ ws) (hl : w ∉ l) : ¬ sat w st' := by
  induction h with
  | nil => cases hw
  | serve _ _ ih =>
    rw [List.mem_cons, not_or] at hl
    exact ih ((List.mem_cons.mp hw).resolve_left hl.1) hl.2
  | pass hn hr ih =>
    rcases List.mem_cons.mp hw with rfl | hw
    · exact fun hs => hn (hmono _ _ _ (hr.le hdec) hs)
    · exact ih hw hl

end Order

end Serve
