import Mathlib.Data.List.TakeWhile
import TuduOS.Lib.Path

/-!
# Normal paths (`dfs_normalize_path`)

A C string is the list of its characters. The function works in one buffer, in which `dst` never
passes `src`: what is behind `src` is read before it is written. Here `src` is what there is to
read, and `dst` what is before `dst` in the buffer, the last character first.

* `dfsNormalizePath`: the function, with the working directory.
* `loopNames`, `normLoop_names`: the loop goes from name to name. A `..` above the root takes the
  slash of the root with it.
* `dfsNormalizePath_eq`: without one, the result is the text of the directory where the path ends.
-/

namespace Tudu.Dfs

open Path

/-- `while ((*src == '/') && (*src != '\0')) src ++;` -/
def skipSlashes (src : List Char) : List Char := src.dropWhile (· = '/')

/-- From `*dst = '\0'` on -/
def finish : List Char → List Char
  -- the byte before the block is looked at, too
  | [] => ['/']
  | [c] => [c]
  | c :: dst => if c = '/' then dst.reverse else (c :: dst).reverse

/-- Copy up to the next `/`, and erase all `/`. -/
def copyName (loop : List Char → List Char → Option (List Char)) (src dst : List Char) :
    Option (List Char) :=
  let dst := (src.takeWhile (· ≠ '/')).reverse ++ dst
  match src.dropWhile (· ≠ '/') with
  | [] => some (finish dst)
  | _ :: src => loop (skipSlashes src) ('/' :: dst)

/-- `up_one` -/
def upOne (loop : List Char → List Char → Option (List Char)) (src dst : List Char) :
    Option (List Char) :=
  match dst with
  | [] => none
  | _ :: dst => loop src (dst.dropWhile (· ≠ '/'))

/-- The `while (1)`, for `n` rounds -/
def normLoop : Nat → List Char → List Char → Option (List Char)
  | 0, _, _ => none
  | n + 1, src, dst =>
    match src with
    | ['.'] => copyName (normLoop n) [] dst
    | '.' :: '/' :: src => normLoop n (skipSlashes src) dst
    | ['.', '.'] => upOne (normLoop n) [] dst
    | '.' :: '.' :: '/' :: src => upOne (normLoop n) (skipSlashes src) dst
    | src => copyName (normLoop n) src dst

/-- The path from the root -/
def fullPath (wd filename : List Char) : List Char :=
  match filename with
  | '/' :: _ => filename
  | _ => wd ++ '/' :: filename

/-- `dfs_normalize_path(NULL, filename)`; `wd`: `working_directory`, `alloc`: the buffer is
allocated. -/
def dfsNormalizePath (wd filename : List Char) (alloc : Bool) : Option (List Char) :=
  let path := fullPath wd filename
  if alloc then normLoop (path.length + 1) path [] else none

/-! ## Directories -/

def here : List Char := ['.']

def up : List Char := ['.', '.']

/-- A directory: names, and none of `.` and `..` -/
def Dir (cs : List (List Char)) : Prop := Names '/' cs ∧ here ∉ cs ∧ up ∉ cs

/-- What is before `dst` in the directory `dir` (the last name first) -/
def dirText : List (List Char) → List Char
  | [] => ['/']
  | c :: dir => '/' :: (c.reverse ++ dirText dir)

/-- What is before `dst` if the slash of the root is gone -/
def relText : List (List Char) → List Char
  | [] => []
  | c :: dir => '/' :: (c.reverse ++ relText dir)

/-- What is before `dst`; `rooted`: the slash of the root is there. -/
def text (rooted : Bool) (dir : List (List Char)) : List Char :=
  if rooted then dirText dir else relText dir

/-- What the loop does with the names. The first `..` above the root takes the slash of the root with
it, the next one ends the loop. -/
def loopNames : Bool → List (List Char) → List (List Char) → Option (Bool × List (List Char))
  | rooted, dir, [] => some (rooted, dir)
  | rooted, dir, c :: cs =>
    if c = [] ∨ c = here then loopNames rooted dir cs
    else if c = up then
      match rooted, dir with
      | rooted, _ :: dir => loopNames rooted dir cs
      | true, [] => loopNames false [] cs
      | false, [] => none
    else loopNames rooted (c :: dir) cs

section

variable {n : Nat} {src dst name : List Char} {c : List Char} {dir dir' cs : List (List Char)}
  {rooted : Bool}

@[simp] theorem text_cons : text rooted (c :: dir) = '/' :: (c.reverse ++ text rooted dir) := by
  cases rooted <;> rfl

theorem dirText_eq (dir : List (List Char)) : dirText dir = '/' :: (body '/' dir.reverse).reverse := by
  induction dir with
  | nil => rfl
  | cons c dir ih =>
    show '/' :: (c.reverse ++ dirText dir) = _
    rw [ih, List.reverse_cons, body_append, List.reverse_append, body_cons, body_nil, List.append_nil,
      List.reverse_cons, List.append_assoc]
    rfl

theorem dirText_relText (dir : List (List Char)) : dirText dir = relText dir ++ ['/'] := by
  induction dir with
  | nil => rfl
  | cons c dir ih =>
    show '/' :: (c.reverse ++ dirText dir) = '/' :: (c.reverse ++ relText dir) ++ ['/']
    rw [ih, List.cons_append, List.append_assoc]

/-- The last slash goes, but for that of the root. -/
theorem finish_slash (h : dst ≠ []) : finish ('/' :: dst) = dst.reverse := by
  cases dst with
  | nil => exact absurd rfl h
  | cons b dst =>
    show (if '/' = '/' then (b :: dst).reverse else ('/' :: b :: dst).reverse) = _
    exact if_pos rfl

theorem append_reverse_ne (hc : c ≠ []) : c.reverse ++ dst ≠ [] := by
  intro h
  exact hc (List.reverse_eq_nil_iff.mp (List.append_eq_nil_iff.mp h).1)

theorem finish_dirText (h : Names '/' dir) : finish (dirText dir) = render '/' dir.reverse := by
  cases dir with
  | nil => rfl
  | cons c dir =>
    have hne : (c :: dir).reverse ≠ [] := by
      rw [List.reverse_cons]
      exact List.append_ne_nil_of_right_ne_nil _ (List.cons_ne_nil _ _)
    have hrest : c.reverse ++ dirText dir = (body '/' (c :: dir).reverse).reverse :=
      (List.cons.inj (dirText_eq (c :: dir))).2
    show finish ('/' :: (c.reverse ++ dirText dir)) = _
    rw [render_of_ne hne, finish_slash (append_reverse_ne (h c List.mem_cons_self).1), hrest,
      List.reverse_reverse]

/-- The text of a directory without the slash of the root. -/
theorem finish_relText (h : Names '/' dir) (hne : dir ≠ []) :
    '/' :: finish (relText dir) = render '/' dir.reverse := by
  rw [← finish_dirText h]
  cases dir with
  | nil => exact absurd rfl hne
  | cons c dir =>
    have hc := (h c List.mem_cons_self).1
    show '/' :: finish ('/' :: (c.reverse ++ relText dir)) =
      finish ('/' :: (c.reverse ++ dirText dir))
    rw [finish_slash (append_reverse_ne hc), finish_slash (append_reverse_ne hc), dirText_relText,
      ← List.append_assoc, List.reverse_concat]

/-- The last name of a path without a slash behind it -/
theorem finish_name (hc : c ≠ []) (hs : '/' ∉ c) :
    finish (c.reverse ++ dst) = finish ('/' :: (c.reverse ++ dst)) := by
  rw [finish_slash (append_reverse_ne hc)]
  obtain ⟨b, t, hbt⟩ : ∃ b t, c.reverse = b :: t := List.exists_cons_of_ne_nil fun h0 =>
    hc (List.reverse_eq_nil_iff.mp h0)
  have hb : b ≠ '/' := by
    rintro rfl
    exact hs (List.mem_reverse.mp (hbt ▸ List.mem_cons_self))
  rw [hbt, List.cons_append]
  cases t ++ dst with
  | nil => rfl
  | cons e u => exact if_neg hb

/-! ## The loop -/

theorem takeWhile_name (hs : '/' ∉ name) (hb : Behind '/' src) :
    (name ++ src).takeWhile (· ≠ '/') = name ∧ (name ++ src).dropWhile (· ≠ '/') = src := by
  have hall : ∀ a ∈ name, decide (a ≠ '/') = true := fun a ha =>
    decide_eq_true fun hc => hs (hc ▸ ha)
  have hend : src.takeWhile (· ≠ '/') = [] ∧ src.dropWhile (· ≠ '/') = src := by
    rcases hb with rfl | ⟨y, rfl⟩
    · exact ⟨rfl, rfl⟩
    · exact ⟨rfl, rfl⟩
  constructor
  · rw [List.takeWhile_append_of_pos hall, hend.1, List.append_nil]
  · rw [List.dropWhile_append_of_pos hall, hend.2]

/-- A name of the path that is neither `.` nor `..` -/
theorem normLoop_name (hs : '/' ∉ name) (hb : Behind '/' src) (hh : name ≠ here) (hu : name ≠ up) :
    normLoop (n + 1) (name ++ src) dst = copyName (normLoop n) (name ++ src) dst := by
  -- the texts of the other branches begin with the name `.` or `..`
  have hno : ∀ {m x : List Char}, '/' ∉ m → Behind '/' x → name ++ src = m ++ x → name = m :=
    fun hm hx he => (name_eq hs hm hb hx he).1
  generalize name ++ src = t at hno ⊢
  unfold normLoop
  split
  · exact absurd (hno (m := here) (by decide) (.inl rfl) rfl) hh
  · exact absurd (hno (m := here) (by decide) (.inr ⟨_, rfl⟩) rfl) hh
  · exact absurd (hno (m := up) (by decide) (.inl rfl) rfl) hu
  · exact absurd (hno (m := up) (by decide) (.inr ⟨_, rfl⟩) rfl) hu
  · rfl

/-- The last one -/
theorem copyName_last {loop : List Char → List Char → Option (List Char)} (hs : '/' ∉ name) :
    copyName loop (name ++ []) dst = some (finish (name.reverse ++ dst)) := by
  obtain ⟨htake, hdrop⟩ := takeWhile_name hs (show Behind '/' [] from .inl rfl)
  unfold copyName
  rw [htake, hdrop]

theorem copyName_next {loop : List Char → List Char → Option (List Char)} (hs : '/' ∉ name) :
    copyName loop (name ++ '/' :: src) dst =
      loop (skipSlashes src) ('/' :: (name.reverse ++ dst)) := by
  obtain ⟨htake, hdrop⟩ := takeWhile_name hs (show Behind '/' ('/' :: src) from .inr ⟨src, rfl⟩)
  unfold copyName
  rw [htake, hdrop]

theorem behind_text : Behind '/' (text rooted dir) := by
  cases dir with
  | nil =>
    cases rooted with
    | true => exact .inr ⟨[], rfl⟩
    | false => exact .inl rfl
  | cons c dir =>
    rw [text_cons]
    exact .inr ⟨_, rfl⟩

theorem dropWhile_text (hs : '/' ∉ c) :
    (c.reverse ++ text rooted dir).dropWhile (· ≠ '/') = text rooted dir :=
  (takeWhile_name (fun hc => hs (List.mem_reverse.mp hc)) behind_text).2

theorem length_skip_le (src : List Char) : (skipSlashes src).length ≤ src.length :=
  (List.dropWhile_sublist _).length_le

/-- The text behind the slashes does not begin with one. -/
theorem skip_ne : ¬ ∃ y, skipSlashes src = '/' :: y := by
  rintro ⟨y, hy⟩
  induction src with
  | nil => cases hy
  | cons a src ih =>
    unfold skipSlashes at hy ih
    by_cases ha : a = '/'
    · rw [List.dropWhile_cons_of_pos (by simpa using ha)] at hy
      exact ih hy
    · rw [List.dropWhile_cons_of_neg (by simpa using ha)] at hy
      exact ha (List.cons.inj hy).1

/-- A text is a name and what is behind it. -/
theorem exists_name (src : List Char) : ∃ name x, src = name ++ x ∧ '/' ∉ name ∧ Behind '/' x := by
  refine ⟨src.takeWhile (· ≠ '/'), src.dropWhile (· ≠ '/'), (List.takeWhile_append_dropWhile ..).symm,
    fun hc => ?_, ?_⟩
  · have := List.mem_takeWhile_imp hc
    simp at this
  · cases hd : src.dropWhile (· ≠ '/') with
    | nil => exact .inl rfl
    | cons a x =>
      have hh := List.head?_dropWhile_not (· ≠ '/') src
      rw [hd] at hh
      have ha : a = '/' := by simpa using hh
      exact .inr ⟨x, by rw [ha]⟩

/-- A `..` in front of the text `x`, of which `src` is left behind the slashes. -/
theorem upOne_text {loop : List Char → List Char → Option (List Char)} (hdir : Names '/' dir)
    (h : ∀ r d, Names '/' d → loop src (text r d) =
      (loopNames r d cs).map fun r => finish (text r.1 r.2)) :
    upOne loop src (text rooted dir) =
      (loopNames rooted dir (up :: cs)).map fun r => finish (text r.1 r.2) := by
  cases dir with
  | nil =>
    cases rooted with
    | true => exact h false [] (fun c hc => by cases hc)
    | false => rfl
  | cons c dir =>
    have hup : loopNames rooted (c :: dir) (up :: cs) = loopNames rooted dir cs := by
      cases rooted <;> rfl
    rw [hup, text_cons]
    show loop src ((c.reverse ++ text rooted dir).dropWhile (· ≠ '/')) = _
    rw [dropWhile_text (hdir c List.mem_cons_self).2]
    exact h rooted dir hdir.tail

/-- More slashes make no difference. -/
theorem loopNames_skip : loopNames rooted dir (split '/' (skipSlashes src)) =
    loopNames rooted dir (split '/' src) := by
  unfold skipSlashes
  induction src with
  | nil => rfl
  | cons a src ih =>
    by_cases ha : a = '/'
    · rw [List.dropWhile_cons_of_pos (by simpa using ha), ih]
      conv_rhs => unfold split
      rw [if_pos ha]
      conv_rhs => unfold loopNames
      rw [if_pos (.inl rfl)]
    · rw [List.dropWhile_cons_of_neg (by simpa using ha)]

/-- The loop goes from name to name. -/
theorem normLoop_names (hn : src.length < n) (hsrc : ¬ ∃ y, src = '/' :: y) (hdir : Names '/' dir) :
    normLoop n src (text rooted dir) =
      (loopNames rooted dir (split '/' src)).map fun r => finish (text r.1 r.2) := by
  induction n generalizing src rooted dir with
  | zero => omega
  | succ n ih =>
    -- what is done behind the slashes that end a name
    have hnext : ∀ (rest : List Char) (r : Bool) (d : List (List Char)), rest.length < n →
        Names '/' d → normLoop n (skipSlashes rest) (text r d) =
          (loopNames r d (split '/' rest)).map fun r => finish (text r.1 r.2) := by
      intro rest r d hlen hd
      have hskip := length_skip_le rest
      rw [← loopNames_skip]
      exact ih (by omega) skip_ne hd
    obtain ⟨name, x, rfl, hs, hx⟩ := exists_name src
    by_cases hh : name = here
    · subst hh
      rcases hx with rfl | ⟨rest, rfl⟩
      · rfl
      · rw [split_append hs]
        have hlen : (here ++ '/' :: rest).length = rest.length + 2 := rfl
        exact hnext rest rooted dir (by omega) hdir
    · by_cases hu : name = up
      · subst hu
        rcases hx with rfl | ⟨rest, rfl⟩
        · rw [List.append_nil, split_name hs]
          have hlen : (up ++ ([] : List Char)).length = 2 := rfl
          exact upOne_text hdir fun r d hd => hnext [] r d (by show 0 < n; omega) hd
        · rw [split_append hs]
          have hlen : (up ++ '/' :: rest).length = rest.length + 3 := rfl
          exact upOne_text hdir fun r d hd => hnext rest r d (by omega) hd
      · rw [normLoop_name hs hx hh hu]
        by_cases h0 : name = []
        · -- the text is at its end
          subst h0
          rcases hx with rfl | ⟨rest, rfl⟩
          · rw [copyName_last hs]
            rfl
          · exact absurd ⟨rest, rfl⟩ hsrc
        · have hcons : Names '/' (name :: dir) := by
            intro d hd
            rcases List.mem_cons.mp hd with rfl | hd
            · exact ⟨h0, hs⟩
            · exact hdir d hd
          have hpush : ∀ cs, loopNames rooted dir (name :: cs) = loopNames rooted (name :: dir) cs := by
            intro cs
            conv_lhs => unfold loopNames
            rw [if_neg (not_or.mpr ⟨h0, hh⟩), if_neg hu]
          rcases hx with rfl | ⟨rest, rfl⟩
          · rw [copyName_last hs, List.append_nil, split_name hs, hpush, finish_name h0 hs, ← text_cons]
            rfl
          · rw [split_append hs, hpush]
            rw [List.length_append, List.length_cons] at hn
            rw [copyName_next hs, ← text_cons]
            exact hnext rest rooted _ (by omega) hcons

/-- Above the root the slash of the root goes, and after that the loop ends with `NULL`. -/
theorem loopNames_eq : loopNames rooted dir cs =
    if climbs here up dir cs = 0 then some (rooted, resolve here up dir cs)
    else if rooted = true ∧ climbs here up dir cs = 1 then some (false, resolve here up dir cs)
    else none := by
  induction cs generalizing rooted dir with
  | nil => rfl
  | cons c cs ih =>
    unfold loopNames climbs resolve
    by_cases h0 : c = [] ∨ c = here
    · simp only [if_pos h0]
      exact ih
    · by_cases hu : c = up
      · simp only [if_neg h0, if_pos hu]
        cases dir with
        | cons d dir => cases rooted <;> exact ih
        | nil =>
          cases rooted with
          | true =>
            simp only [ih, Bool.false_eq_true, false_and, if_false, Nat.succ_ne_zero, true_and,
              Nat.add_eq_right, List.tail_nil]
          | false =>
            simp only [Bool.false_eq_true, false_and, if_false, Nat.succ_ne_zero]
      · simp only [if_neg h0, if_neg hu]
        exact ih

/-! ## The function -/

/-- The directory of a path that is resolved name by name. -/
theorem resolve_dir (src : List Char) : Dir (resolve here up [] (split '/' src)).reverse := by
  have hmem : ∀ c ∈ (resolve here up [] (split '/' src)).reverse,
      c ∈ split '/' src ∧ c ≠ [] ∧ c ≠ here ∧ c ≠ up := by
    intro c hc
    rcases resolve_mem (List.mem_reverse.mp hc) with h | h
    · cases h
    · exact h
  refine ⟨fun c hc => ⟨(hmem c hc).2.1, not_mem_split (hmem c hc).1⟩, fun hc => ?_, fun hc => ?_⟩
  · exact (hmem _ hc).2.2.1 rfl
  · exact (hmem _ hc).2.2.2 rfl

/-- What an absolute path comes to. -/
theorem dfsNormalizePath_names {wd filename rest : List Char}
    (hp : fullPath wd filename = '/' :: rest) : dfsNormalizePath wd filename true =
      (loopNames true [] (split '/' rest)).map fun r => finish (text r.1 r.2) := by
  have hloop : normLoop (rest.length + 1) (skipSlashes rest) (text true []) = _ :=
    normLoop_names (Nat.lt_succ_of_le (length_skip_le rest)) skip_ne fun c hc => by cases hc
  show normLoop ((fullPath wd filename).length + 1) (fullPath wd filename) [] = _
  rw [hp]
  have hfirst : normLoop (rest.length + 1 + 1) ([] ++ '/' :: rest) [] = _ := normLoop_name
    (fun hc => by cases hc) (.inr ⟨rest, rfl⟩) (by decide) (by decide)
  rw [copyName_next (fun hc => by cases hc)] at hfirst
  rw [← loopNames_skip]
  exact hfirst.trans hloop

/-- A path that does not lead above the root has the text of the directory where it ends. -/
theorem dfsNormalizePath_eq {wd filename rest : List Char} (hp : fullPath wd filename = '/' :: rest)
    (hw : walk here up [] (split '/' rest) = some dir') :
    dfsNormalizePath wd filename true = some (render '/' dir'.reverse) ∧ Dir dir'.reverse := by
  rw [walk_eq] at hw
  split at hw
  · next h0 =>
    cases hw
    have hdir := resolve_dir rest
    refine ⟨?_, hdir⟩
    rw [dfsNormalizePath_names hp, loopNames_eq, if_pos h0]
    exact congrArg some (finish_dirText fun c hc => hdir.1 c (List.mem_reverse.mpr hc))
  · cases hw

/-- Above the root the slash goes, too. -/
example : dfsNormalizePath ['/'] ['/', '.', '.', '/', 'a'] true = some ['a'] := by decide

/-! ## Every absolute path -/

/-- The names of the path, empty ones and those with dots, too -/
def pathNames (directory filename : List Char) : List (List Char) :=
  split '/' (fullPath directory filename)

/-- The text of a directory: a slash before every name, none of which is empty, `.` or `..`, and no
slash at the end but that of the root. -/
def Canonical (text : List Char) : Prop :=
  text = ['/'] ∨ ∃ rest, text = '/' :: rest ∧ Dir (split '/' rest)

/-- The property: `NULL` is for a path above the root or without memory, and the text is that of the
directory that the names lead to. -/
structure Normalizes (directory filename : List Char) (alloc : Bool) : Prop where
  null : dfsNormalizePath directory filename alloc = none →
    alloc = false ∨ 0 < climbs here up [] (pathNames directory filename)
  text : ∀ r, dfsNormalizePath directory filename alloc = some r →
    r = render '/' (resolve here up [] (pathNames directory filename)).reverse ∧ Canonical r

theorem canonical_render (h : Dir cs) : Canonical (render '/' cs) := by
  by_cases h0 : cs = []
  · rw [h0, render_nil]
    exact .inl rfl
  · rw [render_of_ne h0]
    refine .inr ⟨(body '/' cs).tail, ?_, ?_⟩
    · cases cs with
      | nil => exact absurd rfl h0
      | cons c cs => rfl
    · rwa [split_body h.1 h0]

theorem fullPath_rooted {directory : List Char} (h : ∃ d, directory = '/' :: d)
    (filename : List Char) : ∃ rest, fullPath directory filename = '/' :: rest := by
  obtain ⟨d, rfl⟩ := h
  unfold fullPath
  split
  · exact ⟨_, rfl⟩
  · exact ⟨_, rfl⟩

/-- What the function returns, by how often the path goes above the root. -/
theorem dfsNormalizePath_cases {directory : List Char} (h : ∃ d, directory = '/' :: d)
    (filename : List Char) (hdir : Dir dir.reverse)
    (heq : dir = resolve here up [] (pathNames directory filename)) :
    dfsNormalizePath directory filename true =
      if climbs here up [] (pathNames directory filename) = 0 then some (render '/' dir.reverse)
      else if climbs here up [] (pathNames directory filename) = 1 then some (finish (relText dir))
      else none := by
  obtain ⟨rest, hp⟩ := fullPath_rooted h filename
  have hnames : pathNames directory filename = [] :: split '/' rest := by
    unfold pathNames
    rw [hp]
    exact if_pos rfl
  have hclimbs : climbs here up [] ([] :: split '/' rest) = climbs here up [] (split '/' rest) :=
    if_pos (.inl rfl)
  have hres : resolve here up [] ([] :: split '/' rest) = resolve here up [] (split '/' rest) :=
    if_pos (.inl rfl)
  rw [hnames, hres] at heq
  rw [hnames, hclimbs, dfsNormalizePath_names hp, loopNames_eq, ← heq]
  split
  · exact congrArg some (finish_dirText fun c hc => hdir.1 c (List.mem_reverse.mpr hc))
  · simp only [true_and]
    split <;> rfl

/-- **Exactly one step above the root.** The function does what it should unless the path goes above
the root once, and ends in another directory than the root: then the slash of the root is missing. -/
theorem dfsNormalizePath_normal_iff {directory filename : List Char} {alloc : Bool}
    (h : ∃ d, directory = '/' :: d) : Normalizes directory filename alloc ↔
      (alloc = true → climbs here up [] (pathNames directory filename) ≠ 1 ∨
        resolve here up [] (pathNames directory filename) = []) := by
  have hdir := resolve_dir (fullPath directory filename)
  have hcases := dfsNormalizePath_cases h filename hdir rfl
  cases alloc with
  | false =>
    refine iff_of_true ⟨fun _ => .inl rfl, fun r hr => (by cases hr)⟩ fun h => (by cases h)
  | true =>
    rw [forall_prop_of_true rfl]
    by_cases h0 : climbs here up [] (pathNames directory filename) = 0
    · rw [if_pos h0] at hcases
      refine iff_of_true ⟨fun hn => ?_, fun r hr => ?_⟩ (.inl (by rw [h0]; decide))
      · rw [hn] at hcases
        cases hcases
      · rw [hcases] at hr
        cases hr
        exact ⟨rfl, canonical_render hdir⟩
    · rw [if_neg h0] at hcases
      by_cases h1 : climbs here up [] (pathNames directory filename) = 1
      · rw [if_pos h1] at hcases
        constructor
        · intro hnorm
          refine .inr (by_contra fun hne => ?_)
          have heq := (hnorm.text _ hcases).1
          have hrel := finish_relText (fun c hc => hdir.1 c (List.mem_reverse.mpr hc)) hne
          have hlen := congrArg List.length (hrel.trans heq.symm)
          rw [List.length_cons] at hlen
          exact absurd hlen (Nat.succ_ne_self _)
        · rintro (hne | hroot)
          · exact absurd h1 hne
          · have htext : dfsNormalizePath directory filename true = some ['/'] := by
              rw [hcases]
              exact congrArg (fun d => some (finish (relText d))) hroot
            refine ⟨fun hn => .inr (Nat.pos_of_ne_zero h0), fun r hr => ?_⟩
            rw [htext] at hr
            cases hr
            rw [hroot]
            exact ⟨rfl, .inl rfl⟩
      · rw [if_neg h1] at hcases
        refine iff_of_true ⟨fun _ => .inr (Nat.pos_of_ne_zero h0), fun r hr => ?_⟩ (.inl h1)
        rw [hcases] at hr
        cases hr

theorem dfsNormalizePath_normal_up : Normalizes "/home/a".toList "../.././b/".toList true :=
  (dfsNormalizePath_normal_iff ⟨"home/a".toList, by decide⟩).mpr fun _ => .inl (by decide)

theorem dfsNormalizePath_above : ¬ ∀ (directory filename : List Char) (alloc : Bool),
    (∃ d, directory = '/' :: d) → Normalizes directory filename alloc := by
  intro h
  have hnorm := h ['/'] ['/', '.', '.', '/', 'a'] true ⟨[], rfl⟩
  have htext : dfsNormalizePath ['/'] ['/', '.', '.', '/', 'a'] true = some ['a'] := by decide
  have hslash := (hnorm.text _ htext).1
  exact absurd hslash (by decide)

end

end Tudu.Dfs
