import TuduOS.Lib.Circular
import TuduOS.Lib.Lts

/-!
# The tree of the processes (`lwt.c`)

A process is named by its address. `kin` has the processes that live, `links` the `sibling` nodes of
their records, and what is in the memory of those that were freed. The siblings are linked in a ring
without a head, `first_child` points to the oldest of them.

* `Tree s`: the ring of `first_child` of each live process has its live children, each once, and no
  link of a live process leads to a freed one.
* `Unrelated s act`: a process that ends has neither a parent nor a child.
* `tree_iff`: the runs along `Unrelated` are the runs through `Tree` states. A process that ends
  stays in all links.
-/

namespace Tudu.Lwt

open Circular Lts

abbrev Node := Nat

/-- `parent` and `first_child` of a `struct rt_lwt` -/
structure Kin where
  parent : Option Node
  firstChild : Option Node
  deriving DecidableEq

structure Family where
  kin : Node → Option Kin
  links : Links Node

def Family.empty : Family := ⟨fun _ => none, ⟨id, id⟩⟩

inductive FamilyAct where
  /-- `lwt_execve` by a thread of `current`; `lwt`: the address of the new record -/
  | execve (current : Option Node) (lwt : Node)
  /-- The last reference of a process goes. -/
  | exit (lwt : Node)

/-- `lwt_execve`: the record and its links. Freed memory that is written to has no next state. -/
def Family.execve (s : Family) (current : Option Node) (lwt : Node) : Option Family :=
  if (s.kin lwt).isSome then none
  else
    -- `rt_list_init(&lwt->sibling)`
    let links := (s.links.setNext lwt lwt).setPrev lwt lwt
    match current with
    | none => some ⟨Function.update s.kin lwt (some ⟨none, none⟩), links⟩
    | some cur =>
      (s.kin cur).bind fun k =>
        match k.firstChild with
        | none =>
          some ⟨Function.update (Function.update s.kin cur (some { k with firstChild := some lwt })) lwt
            (some ⟨some cur, none⟩), links⟩
        | some first =>
          if s.kin first = none ∨ s.kin (s.links.prev first) = none then none
          else some ⟨Function.update s.kin lwt (some ⟨some cur, none⟩), links.insertBefore first lwt⟩

def familyStep (s : Family) : FamilyAct → Option Family
  | .execve current lwt => s.execve current lwt
  -- `lwt_ref_dec` and `rt_lwt_free` leave the links of the others as they are
  | .exit lwt => (s.kin lwt).map fun _ => { s with kin := Function.update s.kin lwt none }

/-! ## The tree -/

def ChildOf (s : Family) (p c : Node) : Prop := ∃ k, s.kin c = some k ∧ k.parent = some p

/-- The list from `first_child` on -/
def Siblings (s : Family) (first : Option Node) (cs : List Node) : Prop :=
  match first with
  | none => cs = []
  | some f => ∃ l, cs = f :: l ∧ IsRing s.links f l

structure Tree (s : Family) : Prop where
  children : ∀ p k, s.kin p = some k → ∃ cs, Siblings s k.firstChild cs ∧ ∀ c, c ∈ cs ↔ ChildOf s p c
  firstChild : ∀ p k f, s.kin p = some k → k.firstChild = some f → s.kin f ≠ none
  parent : ∀ p k q, s.kin p = some k → k.parent = some q → s.kin q ≠ none
  sibling : ∀ p k, s.kin p = some k → s.kin (s.links.next p) ≠ none ∧ s.kin (s.links.prev p) ≠ none

/-- A tree, in which a process without a parent is alone, and none is its own parent. -/
structure FamilyInv (s : Family) : Prop extends Tree s where
  alone : ∀ p k, s.kin p = some k → k.parent = none → IsRing s.links p []
  irrefl : ∀ p k, s.kin p = some k → k.parent ≠ some p

/-- A process that ends has neither a parent nor a child. -/
def Unrelated (s : Family) : FamilyAct → Prop
  | .execve _ _ => True
  | .exit lwt => ∀ k, s.kin lwt = some k → k.parent = none ∧ k.firstChild = none

section

variable {s s' : Family} {p c a : Node} {k : Kin} {cs : List Node} {o : Option Node}
  {act : FamilyAct}

/-- A ring is where its nodes are. -/
theorem Siblings.congr {L : Links Node} {f : Node → Option Kin} (h : Siblings s o cs)
    (hL : ∀ x ∈ cs, L.next x = s.links.next x ∧ L.prev x = s.links.prev x) :
    Siblings ⟨f, L⟩ o cs := by
  cases o with
  | none => exact h
  | some f =>
    obtain ⟨l, rfl, hr⟩ := h
    exact ⟨l, rfl, hr.congr hL⟩

theorem Siblings.mem {x : Node} (h : Siblings s o cs) (hx : x ∈ cs) :
    s.links.next x ∈ cs ∧ s.links.prev x ∈ cs := by
  cases o with
  | none =>
    rw [h] at hx
    cases hx
  | some f =>
    obtain ⟨l, rfl, hr⟩ := h
    obtain ⟨⟨h1, -⟩, h2, -⟩ := hr.mem hx
    exact ⟨h1, h2⟩

theorem ChildOf.live (h : ChildOf s p c) : s.kin c ≠ none := by
  obtain ⟨k, hk, -⟩ := h
  rw [hk]
  exact fun hc => by cases hc

/-- A new process joins the ring of its parent's children, as the last one. -/
theorem FamilyInv.add {f : Node → Option Kin} {L : Links Node} (h : FamilyInv s)
    (ha : s.kin a = none) (hnew : f a = some ⟨o, none⟩)
    (hold : ∀ x, x ≠ a → o ≠ some x → f x = s.kin x)
    (hpar : ∀ q, o = some q → ∃ k cs b, s.kin q = some k ∧ Siblings s k.firstChild cs ∧ (∀ x, x ∈ cs ↔ ChildOf s q x) ∧ f q = some ⟨k.parent, b⟩ ∧ Siblings ⟨f, L⟩ b (cs ++ [a]) ∧ ∃ e, b = some e)
    (hL : ∀ x, x ≠ a → (∀ q, o = some q → ¬ ChildOf s q x) → L.next x = s.links.next x ∧ L.prev x = s.links.prev x)
    (halone : o = none → IsRing L a []) : FamilyInv ⟨f, L⟩ := by
  -- the parents are as before
  have hkin : ∀ x, x ≠ a → ∀ k, s.kin x = some k → ∃ b, f x = some ⟨k.parent, b⟩ := by
    intro x hx k hk
    by_cases hq : o = some x
    · obtain ⟨k', -, b, hk', -, -, hf, -⟩ := hpar x hq
      rw [hk] at hk'
      cases hk'
      exact ⟨b, hf⟩
    · exact ⟨k.firstChild, by rw [hold x hx hq, hk]⟩
  have hback : ∀ x, x ≠ a → ∀ k', f x = some k' → ∃ k, s.kin x = some k ∧ k.parent = k'.parent := by
    intro x hx k' hk'
    by_cases hq : o = some x
    · obtain ⟨k, -, b, hk, -, -, hf, -⟩ := hpar x hq
      rw [hf] at hk'
      cases hk'
      exact ⟨k, hk, rfl⟩
    · rw [hold x hx hq] at hk'
      exact ⟨k', hk', rfl⟩
  have hlive : ∀ x, s.kin x ≠ none → f x ≠ none := by
    intro x hx
    obtain ⟨k, hk⟩ := Option.ne_none_iff_exists'.mp hx
    by_cases hxa : x = a
    · rw [hxa, hnew]
      exact fun hc => by cases hc
    · obtain ⟨b, hb⟩ := hkin x hxa k hk
      rw [hb]
      exact fun hc => by cases hc
  have hne : ∀ x k, s.kin x = some k → x ≠ a := by
    rintro x k hk rfl
    rw [ha] at hk
    cases hk
  have hchild : ∀ q x, ChildOf ⟨f, L⟩ q x ↔ ChildOf s q x ∨ (x = a ∧ o = some q) := by
    intro q x
    constructor
    · rintro ⟨k', hk', hp⟩
      by_cases hxa : x = a
      · have hk'' : f x = some k' := hk'
        rw [hxa, hnew] at hk''
        cases hk''
        exact .inr ⟨hxa, hp⟩
      · obtain ⟨k, hk, hpk⟩ := hback x hxa k' hk'
        exact .inl ⟨k, hk, hpk.trans hp⟩
    · rintro (⟨k, hk, hp⟩ | ⟨rfl, hp⟩)
      · obtain ⟨b, hb⟩ := hkin x (hne x k hk) k hk
        exact ⟨_, hb, hp⟩
      · exact ⟨_, hnew, hp⟩
  have hoa : o ≠ some a := by
    intro hc
    obtain ⟨k, -, -, hk, -⟩ := hpar a hc
    rw [ha] at hk
    cases hk
  refine ⟨⟨?_, ?_, ?_, ?_⟩, ?_, ?_⟩
  · intro q k' hk'
    by_cases hqa : q = a
    · have hk'' : f q = some k' := hk'
      rw [hqa, hnew] at hk''
      cases hk''
      refine ⟨[], rfl, fun x => ⟨fun hx => (by cases hx), fun hx => ?_⟩⟩
      rcases (hchild q x).mp hx with ⟨k, hk, hp⟩ | ⟨-, ho⟩
      · exact absurd (hqa ▸ ha) (h.parent x k q hk hp)
      · exact absurd (hqa ▸ ho) hoa
    · by_cases hq : o = some q
      · obtain ⟨k, cs, b, hk, hs, hm, hf, hs', -⟩ := hpar q hq
        have hk'' : f q = some k' := hk'
        rw [hf] at hk''
        cases hk''
        refine ⟨cs ++ [a], hs', fun x => ?_⟩
        rw [List.mem_append, List.mem_singleton, hm, hchild]
        exact or_congr_right ⟨fun hx => ⟨hx, hq⟩, fun hx => hx.1⟩
      · have hk'' : f q = some k' := hk'
        rw [hold q hqa hq] at hk''
        obtain ⟨cs, hs, hm⟩ := h.children q k' hk''
        refine ⟨cs, hs.congr fun x hx => ?_, fun x => ?_⟩
        · obtain ⟨kx, hkx, hpx⟩ := (hm x).mp hx
          refine hL x (hne x kx hkx) fun q' hq' hc => ?_
          obtain ⟨kx', hkx', hpx'⟩ := hc
          rw [hkx] at hkx'
          cases hkx'
          rw [hpx] at hpx'
          exact hq (hq'.trans hpx'.symm)
        · rw [hm, hchild]
          exact ⟨.inl, fun hx => hx.resolve_right fun hc => hq hc.2⟩
  · intro q k' e hk' he
    by_cases hqa : q = a
    · have hk'' : f q = some k' := hk'
      rw [hqa, hnew] at hk''
      cases hk''
      cases he
    · by_cases hq : o = some q
      · obtain ⟨k, cs, b, hk, hs, hm, hf, hs', -⟩ := hpar q hq
        have hk'' : f q = some k' := hk'
        rw [hf] at hk''
        cases hk''
        have he' : b = some e := he
        rw [he'] at hs'
        obtain ⟨l, hl, -⟩ := hs'
        have hmem : e ∈ cs ++ [a] := hl ▸ List.mem_cons_self
        rcases List.mem_append.mp hmem with hmem | hmem
        · exact hlive e ((hm e).mp hmem).live
        · rw [List.mem_singleton.mp hmem]
          show f a ≠ none
          rw [hnew]
          exact fun hc => by cases hc
      · have hk'' : f q = some k' := hk'
        rw [hold q hqa hq] at hk''
        exact hlive e (h.firstChild q k' e hk'' he)
  · intro x k' q hk' hp
    rcases (hchild q x).mp ⟨k', hk', hp⟩ with ⟨k, hk, hpk⟩ | ⟨-, ho⟩
    · exact hlive q (h.parent x k q hk hpk)
    · obtain ⟨k, -, -, hk, -⟩ := hpar q ho
      exact hlive q (by rw [hk]; exact fun hc => by cases hc)
  · intro x k' hk'
    by_cases hring : x = a ∨ ∃ q, o = some q ∧ ChildOf s q x
    · -- the ring of the new process
      cases ho : o with
      | none =>
        have hxa : x = a := hring.resolve_right fun ⟨q, hq, _⟩ => (by rw [ho] at hq; cases hq)
        obtain ⟨h1, h2⟩ := isRing_nil.mp (halone ho)
        show f (L.next x) ≠ none ∧ f (L.prev x) ≠ none
        rw [hxa, h1, h2, hnew]
        exact ⟨fun hc => (by cases hc), fun hc => (by cases hc)⟩
      | some q =>
        obtain ⟨k, cs, b, hk, hs, hm, hf, hs', -⟩ := hpar q ho
        have hx : x ∈ cs ++ [a] := by
          rcases hring with rfl | ⟨q', hq', hc⟩
          · exact List.mem_append_right _ (List.mem_singleton.mpr rfl)
          · rw [ho] at hq'
            cases hq'
            exact List.mem_append_left _ ((hm x).mpr hc)
        have hall : ∀ y ∈ cs ++ [a], f y ≠ none := by
          intro y hy
          rcases List.mem_append.mp hy with hy | hy
          · exact hlive y ((hm y).mp hy).live
          · rw [List.mem_singleton.mp hy, hnew]
            exact fun hc => by cases hc
        obtain ⟨h1, h2⟩ := hs'.mem hx
        exact ⟨hall _ h1, hall _ h2⟩
    · obtain ⟨hxa, hno⟩ := not_or.mp hring
      obtain ⟨h1, h2⟩ := hL x hxa fun q hq hc => hno ⟨q, hq, hc⟩
      obtain ⟨k, hk, -⟩ := hback x hxa k' hk'
      obtain ⟨h3, h4⟩ := h.sibling x k hk
      show f (L.next x) ≠ none ∧ f (L.prev x) ≠ none
      rw [h1, h2]
      exact ⟨hlive _ h3, hlive _ h4⟩
  · intro x k' hk' hp
    by_cases hxa : x = a
    · have hk'' : f x = some k' := hk'
      rw [hxa, hnew] at hk''
      cases hk''
      rw [hxa]
      exact halone hp
    · obtain ⟨k, hk, hpk⟩ := hback x hxa k' hk'
      refine (h.alone x k hk (hpk.trans hp)).congr fun y hy => ?_
      rw [List.mem_singleton.mp hy]
      refine hL x hxa fun q hq hc => ?_
      obtain ⟨kx, hkx, hpx⟩ := hc
      rw [hk] at hkx
      cases hkx
      rw [hpk.trans hp] at hpx
      cases hpx
  · intro x k' hk' hp
    rcases (hchild x x).mp ⟨k', hk', hp⟩ with ⟨k, hk, hpk⟩ | ⟨rfl, ho⟩
    · exact h.irrefl x k hk hpk
    · exact hoa ho

theorem FamilyInv.execve (h : FamilyInv s) (hs : s.execve o a = some s') : FamilyInv s' := by
  unfold Family.execve at hs
  split at hs
  · cases hs
  have ha : s.kin a = none := by
    rename_i hlive
    exact Option.not_isSome_iff_eq_none.mp hlive
  -- the node of the new record is linked to itself, the others are as they were
  have hself : IsRing ((s.links.setNext a a).setPrev a a) a [] :=
    isRing_nil.mpr ⟨Function.update_self _ _ _, Function.update_self _ _ _⟩
  have hrest : ∀ x, x ≠ a → ((s.links.setNext a a).setPrev a a).next x = s.links.next x ∧
      ((s.links.setNext a a).setPrev a a).prev x = s.links.prev x := fun x hx =>
    ⟨Function.update_of_ne hx _ _, Function.update_of_ne hx _ _⟩
  cases o with
  | none =>
    cases hs
    exact h.add ha (Function.update_self _ _ _) (fun x hx _ => Function.update_of_ne hx _ _)
      (fun q hq => by cases hq) (fun x hx _ => hrest x hx) fun _ => hself
  | some cur =>
    obtain ⟨k, hk, hs⟩ := Option.bind_eq_some_iff.mp hs
    have hca : cur ≠ a := by
      rintro rfl
      rw [ha] at hk
      cases hk
    obtain ⟨cs, hcs, hm⟩ := h.children cur k hk
    cases hf : k.firstChild with
    | none =>
      rw [hf] at hs hcs
      cases hs
      refine h.add ha (Function.update_self _ _ _) (fun x hx hxc => ?_) (fun q hq => ?_)
        (fun x hx _ => hrest x hx) fun hc => by cases hc
      · rw [Function.update_of_ne hx, Function.update_of_ne]
        rintro rfl
        exact hxc rfl
      · cases hq
        refine ⟨k, cs, some a, hk, hf ▸ hcs, hm, ?_, ?_, a, rfl⟩
        · rw [Function.update_of_ne hca, Function.update_self]
        · rw [show cs = [] from hcs]
          exact ⟨[], rfl, hself⟩
    | some first =>
      rw [hf] at hs hcs
      dsimp only at hs
      split at hs
      · cases hs
      cases hs
      obtain ⟨l, rfl, hr⟩ := hcs
      have hac : a ∉ first :: l := fun hc => ((hm a).mp hc).live ha
      have hr' : IsRing ((s.links.setNext a a).setPrev a a) first l :=
        hr.congr fun x hx => hrest x fun hc => hac (hc ▸ hx)
      obtain ⟨-, hlast, -⟩ := hr.mem List.mem_cons_self
      have hfa : first ≠ a := fun hc => hac (hc ▸ List.mem_cons_self)
      refine h.add ha (Function.update_self _ _ _) (fun x hx _ => Function.update_of_ne hx _ _)
        (fun q hq => ?_) (fun x hx hno => ?_) fun hc => by cases hc
      · cases hq
        refine ⟨k, first :: l, some first, hk, hf ▸ ⟨l, rfl, hr⟩, hm, ?_, ?_, first, rfl⟩
        · rw [Function.update_of_ne hca, hk, ← hf]
        · exact ⟨l ++ [a], rfl, hr'.insertBefore hac⟩
      · -- only the first and the last child of `cur` get another neighbour
        have hxf : x ≠ first := by
          rintro rfl
          exact hno cur rfl ((hm _).mp List.mem_cons_self)
        have hxl : x ≠ s.links.prev first := by
          rintro rfl
          exact hno cur rfl ((hm _).mp hlast)
        rw [Links.insertBefore_next, Links.insertBefore_prev, if_neg hx, if_neg hxf, if_neg hx,
          if_neg ((hrest first hfa).2 ▸ hxl)]
        exact hrest x hx

/-- The neighbours of a child are children of the same process, one without a parent has none. -/
theorem FamilyInv.neighbour (h : FamilyInv s) (hk : s.kin p = some k) :
    (k.parent = none → s.links.next p = p ∧ s.links.prev p = p) ∧
      ∀ q, k.parent = some q → ChildOf s q (s.links.next p) ∧ ChildOf s q (s.links.prev p) := by
  refine ⟨fun hp => isRing_nil.mp (h.alone p k hk hp), fun q hq => ?_⟩
  obtain ⟨kq, hkq⟩ := Option.ne_none_iff_exists'.mp (h.parent p k q hk hq)
  obtain ⟨cs, hcs, hm⟩ := h.children q kq hkq
  obtain ⟨h1, h2⟩ := hcs.mem ((hm p).mpr ⟨k, hk, hq⟩)
  exact ⟨(hm _).mp h1, (hm _).mp h2⟩

theorem FamilyInv.first_child (h : FamilyInv s) (hk : s.kin p = some k)
    (hc : k.firstChild = some c) : ChildOf s p c := by
  obtain ⟨cs, hcs, hm⟩ := h.children p k hk
  rw [hc] at hcs
  obtain ⟨l, rfl, -⟩ := hcs
  exact (hm c).mp List.mem_cons_self

theorem FamilyInv.exit (h : FamilyInv s) (hu : Unrelated s (.exit a)) (hk : s.kin a = some k) :
    FamilyInv { s with kin := Function.update s.kin a none } := by
  obtain ⟨hp, hf⟩ := hu k hk
  have hold : ∀ {x k'}, Function.update s.kin a none x = some k' → x ≠ a ∧ s.kin x = some k' := by
    intro x k' hx
    have hxa : x ≠ a := by
      rintro rfl
      rw [Function.update_self] at hx
      cases hx
    rw [Function.update_of_ne hxa] at hx
    exact ⟨hxa, hx⟩
  -- the process that ends is no child, and has none
  have hnot : ∀ q, ¬ ChildOf s q a := by
    rintro q ⟨k', hk', hq⟩
    rw [hk] at hk'
    cases hk'
    rw [hp] at hq
    cases hq
  have hnone : ∀ x, ¬ ChildOf s a x := by
    obtain ⟨cs, hcs, hm⟩ := h.children a k hk
    rw [hf] at hcs
    intro x hx
    have hmem := (hm x).mpr hx
    rw [show cs = [] from hcs] at hmem
    cases hmem
  have hlive : ∀ {q x}, ChildOf s q x → Function.update s.kin a none x ≠ none := by
    intro q x hx
    have hxa : x ≠ a := by
      rintro rfl
      exact hnot q hx
    rw [Function.update_of_ne hxa]
    exact hx.live
  have hchild : ∀ q x, ChildOf { s with kin := Function.update s.kin a none } q x ↔
      ChildOf s q x := by
    intro q x
    constructor
    · rintro ⟨k', hk', hq⟩
      exact ⟨k', (hold hk').2, hq⟩
    · rintro ⟨k', hk', hq⟩
      refine ⟨k', ?_, hq⟩
      show Function.update s.kin a none x = some k'
      rw [Function.update_of_ne, hk']
      rintro rfl
      exact hnot q ⟨k', hk', hq⟩
  refine ⟨⟨?_, ?_, ?_, ?_⟩, ?_, ?_⟩
  · intro q k' hk'
    obtain ⟨cs, hcs, hm⟩ := h.children q k' (hold hk').2
    exact ⟨cs, hcs.congr fun x _ => ⟨rfl, rfl⟩, fun x => (hm x).trans (hchild q x).symm⟩
  · intro q k' e hk' he
    exact hlive (h.first_child (hold hk').2 he)
  · intro x k' q hk' hq
    have hqa : q ≠ a := by
      rintro rfl
      exact hnone x ⟨k', (hold hk').2, hq⟩
    show Function.update s.kin a none q ≠ none
    rw [Function.update_of_ne hqa]
    exact h.parent x k' q (hold hk').2 hq
  · intro x k' hk'
    obtain ⟨halone, hsib⟩ := h.neighbour (hold hk').2
    cases hq : k'.parent with
    | none =>
      obtain ⟨h1, h2⟩ := halone hq
      show Function.update s.kin a none (s.links.next x) ≠ none ∧
        Function.update s.kin a none (s.links.prev x) ≠ none
      have hx : Function.update s.kin a none x ≠ none := by
        rw [Function.update_of_ne (hold hk').1, (hold hk').2]
        exact fun hc => by cases hc
      rw [h1, h2]
      exact ⟨hx, hx⟩
    | some q =>
      obtain ⟨h1, h2⟩ := hsib q hq
      exact ⟨hlive h1, hlive h2⟩
  · intro x k' hk' hq
    exact h.alone x k' (hold hk').2 hq
  · intro x k' hk' hq
    exact h.irrefl x k' (hold hk').2 hq

/-- A process that is a child is in the ring of its siblings, or its parent points to it; its
children point to it. -/
theorem FamilyInv.not_tree (h : FamilyInv s) (hu : ¬ Unrelated s (.exit a)) :
    ¬ Tree { s with kin := Function.update s.kin a none } := by
  intro ht
  simp only [Unrelated, Classical.not_forall, not_and_or] at hu
  obtain ⟨k, hk, hu⟩ := hu
  have hnew : ∀ {x k'}, x ≠ a → s.kin x = some k' → Function.update s.kin a none x = some k' :=
    fun hx hk' => by rw [Function.update_of_ne hx, hk']
  have hgone : Function.update s.kin a none a = none := Function.update_self _ _ _
  rcases hu with hp | hf
  · obtain ⟨q, hq⟩ := Option.ne_none_iff_exists'.mp hp
    have hqa : q ≠ a := by
      rintro rfl
      exact h.irrefl q k hk hq
    obtain ⟨kq, hkq⟩ := Option.ne_none_iff_exists'.mp (h.parent a k q hk hq)
    obtain ⟨cs, hcs, hm⟩ := h.children q kq hkq
    have hac := (hm a).mpr ⟨k, hk, hq⟩
    cases hfirst : kq.firstChild with
    | none =>
      rw [hfirst] at hcs
      rw [show cs = [] from hcs] at hac
      cases hac
    | some f =>
      rw [hfirst] at hcs
      obtain ⟨l, rfl, hr⟩ := hcs
      rcases List.mem_cons.mp hac with rfl | hal
      · exact ht.firstChild q kq a (hnew hqa hkq) hfirst hgone
      · -- the sibling before it points to it
        obtain ⟨-, hmem, hnext⟩ := hr.mem hac
        have hne : s.links.prev a ≠ a := by
          intro hc
          rw [hc] at hnext
          obtain ⟨l1, l2, rfl⟩ := List.append_of_mem hal
          exact absurd (hr.rotate.next_eq_iff.mp hnext) (by simp)
        obtain ⟨kb, hkb, -⟩ := (hm _).mp hmem
        have hlost := (ht.sibling (s.links.prev a) kb (hnew hne hkb)).1
        have hlost' : Function.update s.kin a none (s.links.next (s.links.prev a)) ≠ none := hlost
        rw [hnext] at hlost'
        exact hlost' hgone
  · obtain ⟨c, hc⟩ := Option.ne_none_iff_exists'.mp hf
    obtain ⟨kc, hkc, hpc⟩ := h.first_child hk hc
    have hca : c ≠ a := by
      rintro rfl
      exact h.irrefl c kc hkc hpc
    exact ht.parent c kc a (hnew hca hkc) hpc hgone

theorem FamilyInv.empty : FamilyInv .empty :=
  { children := fun p k hk => by cases hk
    firstChild := fun p k f hk => by cases hk
    parent := fun p k q hk => by cases hk
    sibling := fun p k hk => by cases hk
    alone := fun p k hk => by cases hk
    irrefl := fun p k hk => by cases hk }

theorem exit_some (hs : familyStep s (.exit a) = some s') :
    ∃ k, s.kin a = some k ∧ s' = { s with kin := Function.update s.kin a none } := by
  obtain ⟨k, hk, rfl⟩ := Option.map_eq_some_iff.mp hs
  exact ⟨k, hk, rfl⟩

/-- The links of the processes are the tree of the processes just in the runs in which every process
that ends has neither a parent nor a child. -/
theorem tree_iff {as : List FamilyAct} {t : Family} (hx : exec familyStep .empty as = some t) :
    Along familyStep Unrelated .empty as ↔ Visits familyStep Tree .empty as := by
  refine along_iff_visits (fun s h => h.toTree) (fun s act s' h hu hs => ?_)
    (fun s act s' h hu hs => ?_) hx FamilyInv.empty
  · cases act with
    | execve o a => exact h.execve hs
    | exit a =>
      obtain ⟨k, hk, rfl⟩ := exit_some hs
      exact h.exit hu hk
  · cases act with
    | execve o a => exact absurd trivial hu
    | exit a =>
      obtain ⟨k, hk, rfl⟩ := exit_some hs
      exact h.not_tree hu

/-- Two children of process 1, and a process of the kernel that ends. -/
theorem tree_two_children : Visits familyStep Tree .empty
    [.execve none 1, .execve (some 1) 2, .execve (some 1) 3, .execve none 4, .exit 4] := by
  obtain ⟨t, hx⟩ := Option.isSome_iff_exists.mp
    (show (exec familyStep .empty [.execve none 1, .execve (some 1) 2, .execve (some 1) 3,
      .execve none 4, .exit 4]).isSome from by decide)
  refine (tree_iff hx).mp ?_
  refine ⟨trivial, trivial, trivial, trivial, fun k hk => ?_, trivial⟩
  have hk' : some k = some ⟨none, none⟩ := hk.symm.trans (by decide)
  cases hk'
  exact ⟨rfl, rfl⟩

/-- The only child of a process ends: its parent still points to it. -/
theorem not_tree_child : ∃ s, exec familyStep .empty
    [.execve none 1, .execve (some 1) 2, .exit 2] = some s ∧ ¬ Tree s := by
  obtain ⟨s, hx⟩ := Option.isSome_iff_exists.mp
    (show (exec familyStep .empty [.execve none 1, .execve (some 1) 2, .exit 2]).isSome
      from by decide)
  refine ⟨s, hx, fun ht => ?_⟩
  have h1 : (exec familyStep .empty [.execve none 1, .execve (some 1) 2, .exit 2]).map
      (fun s => (s.kin 1, s.kin 2)) = some (some ⟨none, some 2⟩, none) := by decide
  rw [hx, Option.map_some, Option.some.injEq, Prod.mk.injEq] at h1
  exact ht.firstChild 1 _ 2 h1.1 rfl h1.2

end

end Tudu.Lwt
