import Mathlib.Data.List.Infix
import Mathlib.Tactic.TypeStar

/-!
# Paths as texts

A path is a list of names, its text has a separator before each of them.

* `body`, `render`: the text; that of the root is the separator.
* `split`: the names of a text, empty ones too.
* `walk`: the names of a text from a directory (the last name first), where one name stands for the
  directory itself and one for the directory above it.
* `resolve`, `climbs`: the walk where the directory above the root is the root, and how often that is
  gone to.
* `body_prefix_iff`: a path is below another just when its text is longer by names.
-/

namespace Path

variable {α : Type*}

def body (sep : α) (cs : List (List α)) : List α := cs.flatMap (sep :: ·)

def render [DecidableEq α] (sep : α) (cs : List (List α)) : List α :=
  if cs = [] then [sep] else body sep cs

/-- Names are not empty and have no separator. -/
def Names (sep : α) (cs : List (List α)) : Prop := ∀ c ∈ cs, c ≠ [] ∧ sep ∉ c

def split [DecidableEq α] (sep : α) : List α → List (List α)
  | [] => [[]]
  | a :: as =>
    if a = sep then [] :: split sep as
    else
      match split sep as with
      | [] => [[a]]
      | c :: cs => (a :: c) :: cs

/-- From `dir`, by names; there is no directory above the root. -/
def walk [DecidableEq α] (here up : List α) : List (List α) → List (List α) → Option (List (List α))
  | dir, [] => some dir
  | dir, c :: cs =>
    if c = [] ∨ c = here then walk here up dir cs
    else if c = up then
      match dir with
      | [] => none
      | _ :: dir => walk here up dir cs
    else walk here up (c :: dir) cs

/-- From `dir`, by names; above the root is the root. -/
def resolve [DecidableEq α] (here up : List α) : List (List α) → List (List α) → List (List α)
  | dir, [] => dir
  | dir, c :: cs =>
    if c = [] ∨ c = here then resolve here up dir cs
    else if c = up then resolve here up dir.tail cs
    else resolve here up (c :: dir) cs

/-- How often the walk goes up from the root. -/
def climbs [DecidableEq α] (here up : List α) : List (List α) → List (List α) → Nat
  | _, [] => 0
  | dir, c :: cs =>
    if c = [] ∨ c = here then climbs here up dir cs
    else if c = up then
      match dir with
      | [] => climbs here up [] cs + 1
      | _ :: dir => climbs here up dir cs
    else climbs here up (c :: dir) cs

section

variable {sep : α} {c d x y : List α} {l p cs : List (List α)}

@[simp] theorem body_nil : body sep [] = [] := rfl

@[simp] theorem body_cons : body sep (c :: cs) = sep :: (c ++ body sep cs) := rfl

theorem body_append : body sep (l ++ p) = body sep l ++ body sep p := List.flatMap_append

theorem Names.tail (h : Names sep (c :: cs)) : Names sep cs := fun d hd => h d (List.mem_cons_of_mem _ hd)

/-- A text that begins behind a name -/
def Behind (sep : α) (x : List α) : Prop := x = [] ∨ ∃ y, x = sep :: y

theorem behind_body : Behind sep (body sep cs) := by
  cases cs with
  | nil => exact .inl rfl
  | cons c cs => exact .inr ⟨_, rfl⟩

/-- A name ends where the separator is. -/
theorem name_eq (hc : sep ∉ c) (hd : sep ∉ d) (hx : Behind sep x) (hy : Behind sep y)
    (h : c ++ x = d ++ y) : c = d ∧ x = y := by
  have hshort : ∀ {c d x y : List α}, sep ∉ d → Behind sep x → (∃ a, d = c ++ a ∧ x = a ++ y) →
      c = d ∧ x = y := by
    rintro c d x y hd hx ⟨a, hda, hxa⟩
    cases a with
    | nil => exact ⟨by rw [hda, List.append_nil], hxa⟩
    | cons b a =>
      -- the name goes on with the separator
      rcases hx with h0 | ⟨z, hz⟩
      · rw [h0] at hxa
        cases hxa
      · rw [hz] at hxa
        obtain ⟨hb, -⟩ := List.cons.inj hxa
        refine absurd ?_ hd
        rw [hda, ← hb]
        exact List.mem_append_right _ List.mem_cons_self
  rcases List.append_eq_append_iff.mp h with ⟨a, hda, hxa⟩ | ⟨a, hca, hya⟩
  · exact hshort hd hx ⟨a, hda, hxa⟩
  · obtain ⟨h1, h2⟩ := hshort hc hy ⟨a, hca, hya⟩
    exact ⟨h1.symm, h2.symm⟩

theorem body_prefix_iff (hl : Names sep l) (hp : Names sep p) :
    (∃ t, body sep p = body sep l ++ t ∧ Behind sep t) ↔ l <+: p := by
  constructor
  · induction l generalizing p with
    | nil => exact fun _ => List.nil_prefix
    | cons c l ih =>
      rintro ⟨t, ht, htb⟩
      cases p with
      | nil => cases ht
      | cons d p =>
        rw [body_cons, body_cons, List.cons_append, List.append_assoc] at ht
        have htail := (List.cons.inj ht).2
        have hb : Behind sep (body sep l ++ t) := by
          cases l with
          | nil => exact htb
          | cons e l => exact .inr ⟨_, rfl⟩
        obtain ⟨rfl, hrest⟩ := name_eq (hp d List.mem_cons_self).2 (hl c List.mem_cons_self).2
          behind_body hb htail
        exact List.prefix_cons_inj d |>.mpr (ih hl.tail hp.tail ⟨t, hrest, htb⟩)
  · rintro ⟨r, rfl⟩
    exact ⟨body sep r, body_append, behind_body⟩

theorem one_lt_body (h : Names sep (c :: cs)) : 1 < (body sep (c :: cs)).length := by
  have hpos := List.length_pos_iff.mpr (h c List.mem_cons_self).1
  rw [body_cons, List.length_cons, List.length_append]
  omega

variable [DecidableEq α] {here up r name : List α} {dir dir' : List (List α)}

theorem render_of_ne (h : cs ≠ []) : render sep cs = body sep cs := if_neg h

theorem render_nil : render sep ([] : List (List α)) = [sep] := if_pos rfl

theorem split_name (h : sep ∉ name) : split sep name = [name] := by
  induction name with
  | nil => rfl
  | cons a as ih =>
    have ha := List.ne_of_not_mem_cons h
    have has := List.not_mem_of_not_mem_cons h
    unfold split
    rw [if_neg (Ne.symm ha), ih has]

theorem split_append (h : sep ∉ name) : split sep (name ++ sep :: r) = name :: split sep r := by
  induction name with
  | nil => exact if_pos rfl
  | cons a as ih =>
    have ha := List.ne_of_not_mem_cons h
    have has := List.not_mem_of_not_mem_cons h
    rw [List.cons_append]
    conv_lhs => unfold split
    rw [if_neg (Ne.symm ha), ih has]

theorem not_mem_split (hc : c ∈ split sep r) : sep ∉ c := by
  induction r generalizing c with
  | nil =>
    rw [List.mem_singleton.mp hc]
    exact List.not_mem_nil
  | cons a r ih =>
    unfold split at hc
    by_cases ha : a = sep
    · rw [if_pos ha] at hc
      rcases List.mem_cons.mp hc with rfl | hc
      · exact List.not_mem_nil
      · exact ih hc
    · rw [if_neg ha] at hc
      split at hc
      · rw [List.mem_singleton.mp hc]
        exact fun hm => ha (List.mem_singleton.mp hm).symm
      · next d cs hd =>
        rcases List.mem_cons.mp hc with rfl | hc
        · intro hm
          rcases List.mem_cons.mp hm with he | hm
          · exact ha he.symm
          · exact ih (hd ▸ List.mem_cons_self) hm
        · exact ih (hd ▸ List.mem_cons_of_mem _ hc)

/-- The text of names behind the first separator has these names. -/
theorem split_body (hl : Names sep l) (hne : l ≠ []) : split sep (body sep l).tail = l := by
  induction l with
  | nil => exact absurd rfl hne
  | cons c l ih =>
    rw [body_cons, List.tail_cons]
    have hc := (hl c List.mem_cons_self).2
    cases l with
    | nil => rw [body_nil, List.append_nil, split_name hc]
    | cons d l =>
      have hrest := ih hl.tail (List.cons_ne_nil d l)
      rw [body_cons, List.tail_cons] at hrest
      rw [body_cons, split_append hc, hrest]

/-- A walk that does not go above the root. -/
theorem walk_eq : walk here up dir cs =
    if climbs here up dir cs = 0 then some (resolve here up dir cs) else none := by
  induction cs generalizing dir with
  | nil => rfl
  | cons c cs ih =>
    unfold walk climbs resolve
    by_cases h0 : c = [] ∨ c = here
    · simp only [if_pos h0]
      exact ih
    · by_cases hu : c = up
      · simp only [if_neg h0, if_pos hu]
        cases dir with
        | nil => rfl
        | cons d dir => exact ih
      · simp only [if_neg h0, if_neg hu]
        exact ih

/-- The names of the end are names of the path or of its beginning. -/
theorem resolve_mem (hc : c ∈ resolve here up dir cs) :
    c ∈ dir ∨ (c ∈ cs ∧ c ≠ [] ∧ c ≠ here ∧ c ≠ up) := by
  induction cs generalizing dir with
  | nil => exact .inl hc
  | cons d cs ih =>
    have hmore : ∀ {dir : List (List α)}, c ∈ resolve here up dir cs →
        c ∈ dir ∨ (c ∈ d :: cs ∧ c ≠ [] ∧ c ≠ here ∧ c ≠ up) := fun hw =>
      (ih hw).imp_right fun hd => ⟨List.mem_cons_of_mem _ hd.1, hd.2⟩
    unfold resolve at hc
    split at hc
    · exact hmore hc
    · next hd =>
      obtain ⟨h0, hh⟩ := not_or.mp hd
      split at hc
      · exact (hmore hc).imp_left List.mem_of_mem_tail
      · next hu =>
        rcases hmore hc with hm | hm
        · rcases List.mem_cons.mp hm with rfl | hm
          · exact .inr ⟨List.mem_cons_self, h0, hh, hu⟩
          · exact .inl hm
        · exact .inr hm

end

end Path
