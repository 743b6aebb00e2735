import TuduOS.Lwt.Args

/-!
# The words of a command (`msh_split`)

The command is cut in place: its memory is the byte at every address. What is printed when there are
too many arguments is left out.

* `mshSplit`: the function. `SplitState`: its variables; `argc` is the length of `argv`.
* `words`: the words of a text, where a word in quotes may have blanks.
* `mshSplit_words`: the arguments are the first `FINSH_ARG_MAX` words, one behind the other.
-/

namespace Tudu.Msh

open Bytes (Memory)
open Tudu.Lwt.Args (StringAt strBytes)

/-- A blank or a tab -/
def isBlank (ch : UInt8) : Bool := ch = 32 || ch = 9

structure SplitState where
  mem : Memory
  ptr : Nat
  position : Nat
  argv : List Nat

/-- `ptr ++; position ++;` -/
def SplitState.next (s : SplitState) : SplitState :=
  { s with ptr := s.ptr + 1, position := s.position + 1 }

/-- `*ptr = '\0';` -/
def SplitState.cut (s : SplitState) : SplitState :=
  { s with mem := Function.update s.mem s.ptr 0 }

/-- `argv[argc] = ptr; argc ++;` -/
def SplitState.argument (s : SplitState) : SplitState := { s with argv := s.argv ++ [s.ptr] }

section

variable (length : Nat)

/-- `strip bank and tab` -/
def strip (s : SplitState) : SplitState :=
  if isBlank (s.mem s.ptr) ∧ s.position < length then strip s.cut.next else s
termination_by length - s.position
decreasing_by simp only [SplitState.next, SplitState.cut]; omega

/-- `skip this string` -/
def skipString (s : SplitState) : SplitState :=
  if s.mem s.ptr ≠ 34 ∧ s.position < length then
    if s.mem s.ptr = 92 ∧ s.mem (s.ptr + 1) = 34 then skipString s.next.next
    else skipString s.next
  else s
termination_by length - s.position
decreasing_by all_goals simp only [SplitState.next]; omega

/-- The loop over a word that is not in quotes. -/
def skipWord (s : SplitState) : SplitState :=
  if isBlank (s.mem s.ptr) = false ∧ s.position < length then skipWord s.next else s
termination_by length - s.position
decreasing_by simp only [SplitState.next]; omega

/-! ### Every round goes on -/

theorem le_strip (s : SplitState) : s.position ≤ (strip length s).position := by
  fun_induction strip length s with
  | case1 s h ih => exact Nat.le_trans (Nat.le_succ _) ih
  | case2 s h => exact Nat.le_refl _

theorem strip_stop (s : SplitState) :
    ¬(isBlank ((strip length s).mem (strip length s).ptr) ∧ (strip length s).position < length) := by
  fun_induction strip length s with
  | case1 s h ih => exact ih
  | case2 s h => exact h

theorem le_skipString (s : SplitState) : s.position ≤ (skipString length s).position := by
  fun_induction skipString length s with
  | case1 s h hq ih => exact Nat.le_trans (Nat.le_add_right _ 2) ih
  | case2 s h hq ih => exact Nat.le_trans (Nat.le_succ _) ih
  | case3 s h => exact Nat.le_refl _

theorem le_skipWord (s : SplitState) : s.position ≤ (skipWord length s).position := by
  fun_induction skipWord length s with
  | case1 s h ih => exact Nat.le_trans (Nat.le_succ _) ih
  | case2 s h => exact Nat.le_refl _

theorem lt_skipWord {s : SplitState} (h : isBlank (s.mem s.ptr) = false) (hlt : s.position < length) :
    s.position < (skipWord length s).position := by
  rw [skipWord, if_pos ⟨h, hlt⟩]
  exact le_skipWord length s.next

/-- `while (position < length)` -/
def splitLoop (argMax : Nat) (s : SplitState) : SplitState :=
  if s.position < length then
    let t := strip length s
    if argMax ≤ t.argv.length then t
    else if length ≤ t.position then t
    else if t.mem t.ptr = 34 then
      let u := skipString length t.next.argument
      if length ≤ u.position then u else splitLoop argMax u.cut.next
    else
      let u := skipWord length t.argument
      if length ≤ u.position then u else splitLoop argMax u
  else s
termination_by length - s.position
decreasing_by
  · have h1 := le_strip length s
    have h2 := le_skipString length (strip length s).next.argument
    simp only [SplitState.next, SplitState.cut, SplitState.argument] at h2 ⊢
    omega
  · have h1 := le_strip length s
    have hstop := strip_stop length s
    have hlt : (strip length s).position < length := Nat.lt_of_not_le ‹_›
    have h2 := lt_skipWord (s := (strip length s).argument) length
      (Bool.eq_false_iff.mpr fun hb => hstop ⟨hb, hlt⟩) hlt
    simp only [SplitState.argument] at h2 ⊢
    omega

/-- `msh_split(cmd, length, argv)`. It returns the length of `argv`. -/
def mshSplit (argMax : Nat) (m : Memory) (cmd : Nat) : SplitState :=
  splitLoop length argMax ⟨m, cmd, 0, []⟩

end

/-! ## Words -/

/-- Up to the next quote that is not behind a backslash. `prev`: the character in front. -/
def quoted (prev : UInt8) : List UInt8 → List UInt8 × List UInt8
  | [] => ([], [])
  | ch :: text =>
    if ch = 34 ∧ prev ≠ 92 then ([], ch :: text)
    else (ch :: (quoted ch text).1, (quoted ch text).2)

theorem quoted_append (prev : UInt8) (text : List UInt8) :
    (quoted prev text).1 ++ (quoted prev text).2 = text := by
  fun_induction quoted prev text with
  | case1 prev => rfl
  | case2 prev ch text h => rfl
  | case3 prev ch text h ih => exact congrArg (ch :: ·) ih

/-- The words of a text. One that begins with a quote goes to the next quote. -/
def words : List UInt8 → List (List UInt8)
  | [] => []
  | ch :: text =>
    if isBlank ch then words text
    else if ch = 34 then (quoted 34 text).1 :: words (quoted 34 text).2.tail
    else (ch :: text.takeWhile fun c => !isBlank c) :: words (text.dropWhile fun c => !isBlank c)
termination_by text => text.length
decreasing_by
  · exact Nat.lt_succ_self _
  · have h := congrArg List.length (quoted_append 34 text)
    rw [List.length_append] at h
    rw [List.length_tail, List.length_cons]
    omega
  · exact Nat.lt_succ_of_le (List.length_dropWhile_le ..)

/-- Strings in memory from `lo` to `hi`, each behind the null byte of the one before. -/
inductive Laid (m : Memory) (hi : Nat) : Nat → List Nat → List (List UInt8) → Prop
  | nil {lo : Nat} : Laid m hi lo [] []
  | cons {lo p : Nat} {w : List UInt8} {ps : List Nat} {ws : List (List UInt8)} (hle : lo ≤ p)
      (hw : StringAt m p w) (hhi : p + w.length ≤ hi) (ht : Laid m hi (p + strBytes w) ps ws) :
      Laid m hi lo (p :: ps) (w :: ws)

variable {m m' : Memory} {hi lo lo' : Nat} {length argMax : Nat} {s : SplitState}
  {text w : List UInt8} {ps : List Nat} {ws : List (List UInt8)} {prev : UInt8}

theorem Laid.mono (h : Laid m hi lo ps ws) (hle : lo' ≤ lo) : Laid m hi lo' ps ws := by
  cases h with
  | nil => exact .nil
  | cons h1 hw hhi ht => exact .cons (Nat.le_trans hle h1) hw hhi ht

theorem words_dropWhile (text : List UInt8) : words (text.dropWhile isBlank) = words text := by
  induction text with
  | nil => rfl
  | cons ch text ih =>
    cases hb : isBlank ch with
    | true => rw [List.dropWhile_cons_of_pos hb, ih, words, if_pos hb]
    | false => rw [List.dropWhile_cons_of_neg (by simp [hb])]

/-! ## The loops

The text that is left is at `ptr`, and goes up to the end of the command. -/

/-- What is left of the command. -/
structure Left (length : Nat) (s : SplitState) (text : List UInt8) : Prop where
  string : StringAt s.mem s.ptr text
  length : s.position + text.length = length

/-- `n` characters further. -/
def SplitState.skip (s : SplitState) (n : Nat) : SplitState :=
  { s with ptr := s.ptr + n, position := s.position + n }

theorem SplitState.skip_next (s : SplitState) (n : Nat) : s.next.skip n = s.skip (n + 1) := by
  simp only [SplitState.skip, SplitState.next]
  rw [Nat.add_assoc, Nat.add_assoc, Nat.add_comm 1 n]

theorem StringAt.drop (h : StringAt m lo (w ++ text)) : StringAt m (lo + w.length) text where
  bytes i b hb := by
    rw [Nat.add_assoc]
    refine h.bytes (w.length + i) b ?_
    rw [List.getElem?_append_right (Nat.le_add_right _ _), Nat.add_sub_cancel_left, hb]
  null := by
    have hnull := h.null
    rwa [List.length_append, ← Nat.add_assoc] at hnull
  not_null hm := h.not_null (List.mem_append_right w hm)

/-- A part of a string, with its null byte in another memory. -/
theorem StringAt.of_append (h : StringAt m lo (w ++ text))
    (hm : ∀ x, lo ≤ x → x < lo + w.length → m' x = m x) (h0 : m' (lo + w.length) = 0) :
    StringAt m' lo w where
  bytes i b hb := by
    have hlt : i < w.length := (List.getElem?_eq_some_iff.mp hb).1
    rw [hm _ (Nat.le_add_right _ _) (by omega)]
    exact h.bytes i b (by rw [List.getElem?_append_left hlt, hb])
  null := h0
  not_null hmem := h.not_null (List.mem_append_left text hmem)

theorem Left.skip (h : Left length s (w ++ text)) : Left length (s.skip w.length) text where
  string := StringAt.drop h.string
  length := by
    have hl := h.length
    rw [List.length_append] at hl
    simp only [SplitState.skip]
    omega

/-- In front of the end there is a character. -/
theorem Left.cons (h : Left length s text) (hlt : s.position < length) :
    ∃ rest, text = s.mem s.ptr :: rest ∧ Left length s.next rest := by
  cases text with
  | nil =>
    have hl := h.length
    rw [List.length_nil] at hl
    omega
  | cons ch rest =>
    have hch : s.mem s.ptr = ch := h.string.bytes 0 ch rfl
    exact ⟨rest, by rw [hch], h.string.tail, by
      have hl := h.length
      rw [List.length_cons] at hl
      simp only [SplitState.next]
      omega⟩

theorem Left.nil (h : Left length s text) (hge : ¬s.position < length) : text = [] := by
  have hl := h.length
  exact List.eq_nil_of_length_eq_zero (by omega)

theorem skipWord_eq (h : Left length s text) :
    skipWord length s = s.skip (text.takeWhile fun c => !isBlank c).length := by
  fun_induction skipWord length s generalizing text with
  | case1 s hgo ih =>
    obtain ⟨rest, rfl, hrest⟩ := h.cons hgo.2
    rw [ih hrest, List.takeWhile_cons_of_pos (by simp [hgo.1]), SplitState.skip_next, List.length_cons]
  | case2 s hstop =>
    have hnil : text.takeWhile (fun c => !isBlank c) = [] := by
      by_cases hlt : s.position < length
      · obtain ⟨rest, rfl, -⟩ := h.cons hlt
        have hb : isBlank (s.mem s.ptr) = true := by
          cases hb : isBlank (s.mem s.ptr) with
          | true => rfl
          | false => exact absurd ⟨hb, hlt⟩ hstop
        exact List.takeWhile_cons_of_neg (by simp [hb])
      · rw [h.nil hlt]
        rfl
    rw [hnil]
    rfl

theorem skipString_eq (prev : UInt8) (h : Left length s text)
    (hprev : prev = 92 → text.head? ≠ some 34) :
    skipString length s = s.skip (quoted prev text).1.length := by
  fun_induction skipString length s generalizing text prev with
  | case1 s hgo hq ih =>
    -- an escaped quote: the text goes on behind it
    obtain ⟨rest, rfl, hrest⟩ := h.cons hgo.2
    have hlt : s.next.position < length := by
      refine Nat.lt_of_not_le fun hge => ?_
      have hnull := hrest.string.null
      rw [hrest.nil (Nat.not_lt.mpr hge)] at hnull
      exact absurd (hq.2.symm.trans hnull) (by decide)
    obtain ⟨rest, rfl, hrest'⟩ := hrest.cons hlt
    have hquote : s.next.mem s.next.ptr = 34 := hq.2
    rw [hquote, hq.1, quoted, if_neg (fun hc => absurd hc.1 (by decide)), quoted,
      if_neg (fun hc => hc.2 rfl), ih 34 hrest' (fun hc => absurd hc (by decide)),
      SplitState.skip_next, SplitState.skip_next]
    rfl
  | case2 s hgo hq ih =>
    obtain ⟨rest, rfl, hrest⟩ := h.cons hgo.2
    have hnext : s.mem s.ptr = 92 → rest.head? ≠ some 34 := by
      intro hbs hhead
      refine hq ⟨hbs, hrest.string.bytes 0 34 ?_⟩
      rw [← hhead, List.head?_eq_getElem?]
    rw [quoted, if_neg (fun hc => hgo.1 hc.1), ih _ hrest hnext, SplitState.skip_next]
    rfl
  | case3 s hstop =>
    by_cases hlt : s.position < length
    · obtain ⟨rest, rfl, -⟩ := h.cons hlt
      have hquote : s.mem s.ptr = 34 := Classical.byContradiction fun hne => hstop ⟨hne, hlt⟩
      have hne : prev ≠ 92 := fun hc => hprev hc (by rw [hquote]; rfl)
      rw [hquote, quoted, if_pos ⟨rfl, hne⟩]
      rfl
    · rw [h.nil hlt]
      rfl

/-- The blanks become null bytes. -/
theorem strip_eq (h : Left length s text) :
    strip length s = { s with mem := Bytes.fill s.mem s.ptr (text.takeWhile isBlank).length 0 }.skip
      (text.takeWhile isBlank).length := by
  fun_induction strip length s generalizing text with
  | case1 s hgo ih =>
    obtain ⟨rest, rfl, hrest⟩ := h.cons hgo.2
    have hcut : Left length s.cut.next rest :=
      ⟨hrest.string.congr fun x hx _ => Function.update_of_ne (by
        simp only [SplitState.next] at hx
        omega) _ _, hrest.length⟩
    have hfill : ∀ n, Bytes.fill (Function.update s.mem s.ptr 0) (s.ptr + 1) n 0 =
        Bytes.fill s.mem s.ptr (n + 1) 0 := by
      intro n
      funext x
      simp only [Bytes.fill]
      by_cases hx : x = s.ptr
      · subst hx
        rw [if_neg (by omega), if_pos (by omega), Function.update_self]
      · rw [Function.update_of_ne hx]
        exact if_congr (by omega) rfl rfl
    rw [ih hcut, List.takeWhile_cons_of_pos hgo.1, List.length_cons, ← hfill, ← SplitState.skip_next]
    rfl
  | case2 s hstop =>
    have hnil : text.takeWhile isBlank = [] := by
      by_cases hlt : s.position < length
      · obtain ⟨rest, rfl, -⟩ := h.cons hlt
        exact List.takeWhile_cons_of_neg fun hb => hstop ⟨hb, hlt⟩
      · rw [h.nil hlt]
        rfl
    have hfill : Bytes.fill s.mem s.ptr 0 0 = s.mem := by
      funext x
      exact if_neg (by omega)
    rw [hnil, List.length_nil, hfill]
    rfl

/-- What is left behind the blanks. -/
theorem Left.strip (h : Left length s text) : Left length (strip length s) (text.dropWhile isBlank) := by
  have hstring : StringAt s.mem s.ptr (text.takeWhile isBlank ++ text.dropWhile isBlank) := by
    rw [List.takeWhile_append_dropWhile]
    exact h.string
  have hl := h.length
  rw [← List.takeWhile_append_dropWhile (p := isBlank) (l := text), List.length_append] at hl
  rw [strip_eq h]
  refine ⟨(StringAt.drop hstring).congr fun x hx _ => ?_, ?_⟩
  · simp only [SplitState.skip, Bytes.fill] at hx ⊢
    exact if_neg (by omega)
  · simp only [SplitState.skip]
    omega

theorem Left.strip_argv (h : Left length s text) : (Msh.strip length s).argv = s.argv := by
  rw [strip_eq h]
  rfl

theorem Left.strip_ptr (h : Left length s text) :
    (Msh.strip length s).ptr + (text.dropWhile isBlank).length = s.ptr + text.length := by
  have hl := congrArg List.length (List.takeWhile_append_dropWhile (p := isBlank) (l := text))
  rw [List.length_append] at hl
  rw [strip_eq h]
  simp only [SplitState.skip]
  omega

/-- The first character behind the blanks. -/
theorem Left.strip_cons (h : Left length s text) (hlt : (Msh.strip length s).position < length) :
    ∃ rest, text.dropWhile isBlank = (Msh.strip length s).mem (Msh.strip length s).ptr :: rest ∧
      isBlank ((Msh.strip length s).mem (Msh.strip length s).ptr) = false ∧
      Left length (Msh.strip length s).next rest := by
  obtain ⟨rest, hrest, hleft⟩ := h.strip.cons hlt
  exact ⟨rest, hrest, Bool.eq_false_iff.mpr fun hb => strip_stop length s ⟨hb, hlt⟩, hleft⟩

theorem Left.cut (h : Left length s text) (hlt : s.position < length) :
    ∃ ch rest, text = ch :: rest ∧ Left length s.cut.next rest := by
  obtain ⟨rest, hrest, hleft⟩ := h.cons hlt
  refine ⟨_, rest, hrest, hleft.string.congr fun x hx _ => Function.update_of_ne ?_ _ _, hleft.length⟩
  simp only [SplitState.next] at hx
  omega

/-! ## The command -/

/-- What the loop makes of the text that is left. -/
structure Splits (argMax length : Nat) (s s' : SplitState) (text : List UInt8) : Prop where
  argv : ∃ new, s'.argv = s.argv ++ new ∧
    Laid s'.mem (s.ptr + text.length) (s.ptr + (text.takeWhile isBlank).length) new
      ((words text).take (argMax - s.argv.length))
  frame : ∀ x, x < s.ptr ∨ s.ptr + text.length ≤ x → s'.mem x = s.mem x
  /-- The character behind a word, if there is one, is a blank. -/
  cut : ∀ ch rest, text = ch :: rest → isBlank ch = true → s'.mem s.ptr = 0

/-- No argument is added. -/
theorem Splits.of_strip (h : Left length s text)
    (hnone : (words text).take (argMax - s.argv.length) = []) :
    Splits argMax length s (strip length s) text := by
  have hlen : (text.takeWhile isBlank).length ≤ text.length :=
    (List.takeWhile_prefix _).length_le
  rw [strip_eq h]
  refine ⟨⟨[], (List.append_nil _).symm, ?_⟩, fun x hx => ?_, ?_⟩
  · rw [hnone]
    exact .nil
  · exact if_neg (by omega)
  · rintro ch rest rfl hb
    rw [List.takeWhile_cons_of_pos hb, List.length_cons]
    exact if_pos (by omega)

/-- A word is added: it ends in front of what the rest of the loop changes. -/
theorem Splits.of_word {t u s' : SplitState} {rest : List UInt8} {p : Nat}
    (ht : t = strip length s) (h : Left length s text) (hroom : s.argv.length < argMax)
    (hwords : words text = w :: words rest) (hargv : u.argv = s.argv ++ [p])
    (hp : t.ptr ≤ p) (hw : StringAt s'.mem p w) (hpu : p + w.length ≤ u.ptr)
    (hend : u.ptr + rest.length = s.ptr + text.length)
    (hbehind : p + strBytes w ≤ u.ptr + (rest.takeWhile isBlank).length ∨ rest = [])
    (hmem : ∀ x, x < t.ptr ∨ u.ptr + rest.length ≤ x → u.mem x = t.mem x)
    (hrest : Splits argMax length u s' rest) : Splits argMax length s s' text := by
  obtain ⟨new, hnew, hlaid⟩ := hrest.argv
  have hlen : (text.takeWhile isBlank).length ≤ text.length :=
    (List.takeWhile_prefix _).length_le
  rw [strip_eq h] at ht
  have htptr : t.ptr = s.ptr + (text.takeWhile isBlank).length := by rw [ht]; rfl
  refine ⟨⟨p :: new, ?_, ?_⟩, fun x hx => ?_, ?_⟩
  · rw [hnew, hargv, List.append_assoc, List.singleton_append]
  · rw [hwords, show argMax - s.argv.length = argMax - u.argv.length + 1 by
      rw [hargv, List.length_append, List.length_singleton]
      omega, List.take_succ_cons]
    refine .cons (by omega) hw (by omega) ?_
    rw [hend] at hlaid
    rcases hbehind with hle | rfl
    · exact hlaid.mono hle
    · rw [words, List.take_nil] at hlaid ⊢
      cases hlaid
      exact .nil
  · have hlt := hrest.frame x (by omega)
    rw [hlt, hmem x (by omega), ht]
    exact if_neg (by omega)
  · rintro ch rest' rfl hb
    have hpos : 0 < ((ch :: rest').takeWhile isBlank).length := by
      rw [List.takeWhile_cons_of_pos hb]
      exact Nat.succ_pos _
    rw [hrest.frame _ (by omega), hmem _ (by omega), ht]
    exact if_pos (by omega)

/-- Nothing is left. -/
theorem Splits.refl (s : SplitState) : Splits argMax length s s [] where
  argv := ⟨[], (List.append_nil _).symm, by
    rw [words, List.take_nil]
    exact .nil⟩
  frame _ _ := rfl
  cut _ _ h := by cases h

/-- The loop has read the word `w`, from `p` to where it stands now. -/
structure Word (length : Nat) (s u : SplitState) (text : List UInt8) (p : Nat)
    (w rest : List UInt8) : Prop where
  mem : u.mem = (strip length s).mem
  argv : u.argv = s.argv ++ [p]
  le : (strip length s).ptr ≤ p
  ptr : u.ptr = p + w.length
  left : Left length u rest
  string : StringAt u.mem p (w ++ rest)
  ends : u.ptr + rest.length = s.ptr + text.length

/-- A word in quotes. -/
theorem Left.quoted_word (h : Left length s text) (hlt : (Msh.strip length s).position < length)
    (hquote : (Msh.strip length s).mem (Msh.strip length s).ptr = 34) :
    ∃ p w rest, Word length s (skipString length (Msh.strip length s).next.argument) text p w rest ∧
      words text = w :: words rest.tail := by
  obtain ⟨rest, hrest, -, hleft⟩ := h.strip_cons hlt
  have hptr := h.strip_ptr
  have happ := quoted_append 34 rest
  have hlen := congrArg List.length happ
  rw [hrest, List.length_cons] at hptr
  rw [List.length_append] at hlen
  have hleft' : Left length (Msh.strip length s).next.argument
      ((quoted 34 rest).1 ++ (quoted 34 rest).2) := by
    rw [happ]
    exact ⟨hleft.string, hleft.length⟩
  have hu := skipString_eq 34 (happ ▸ hleft') fun hc => absurd hc (by decide)
  refine ⟨(Msh.strip length s).ptr + 1, (quoted 34 rest).1, (quoted 34 rest).2, ?_, ?_⟩
  · rw [hu]
    refine ⟨rfl, ?_, Nat.le_succ _, rfl, hleft'.skip, hleft'.string, ?_⟩
    · exact congrArg (· ++ [(Msh.strip length s).ptr + 1]) h.strip_argv
    · simp only [SplitState.skip, SplitState.argument, SplitState.next]
      omega
  · rw [← words_dropWhile, hrest, hquote, words, if_neg (by decide), if_pos rfl]

/-- Another word. -/
theorem Left.plain_word (h : Left length s text) (hlt : (Msh.strip length s).position < length)
    (hquote : (Msh.strip length s).mem (Msh.strip length s).ptr ≠ 34) :
    ∃ p w rest, Word length s (skipWord length (Msh.strip length s).argument) text p w rest ∧
      words text = w :: words rest ∧ ∀ ch rest', rest = ch :: rest' → isBlank ch = true := by
  obtain ⟨rest, hrest, hb, -⟩ := h.strip_cons hlt
  have hptr := h.strip_ptr
  have happ := List.takeWhile_append_dropWhile (p := fun c => !isBlank c)
    (l := text.dropWhile isBlank)
  have hlen := congrArg List.length happ
  rw [List.length_append] at hlen
  have hleft' : Left length (Msh.strip length s).argument
      ((text.dropWhile isBlank).takeWhile (fun c => !isBlank c) ++
        (text.dropWhile isBlank).dropWhile fun c => !isBlank c) := by
    rw [happ]
    exact ⟨h.strip.string, h.strip.length⟩
  have hu := skipWord_eq (happ ▸ hleft')
  refine ⟨(Msh.strip length s).ptr, (text.dropWhile isBlank).takeWhile fun c => !isBlank c,
    (text.dropWhile isBlank).dropWhile fun c => !isBlank c, ?_, ?_, ?_⟩
  · rw [hu]
    refine ⟨rfl, ?_, Nat.le_refl _, rfl, hleft'.skip, hleft'.string, ?_⟩
    · exact congrArg (· ++ [(Msh.strip length s).ptr]) h.strip_argv
    · simp only [SplitState.skip, SplitState.argument]
      omega
  · rw [← words_dropWhile, hrest, words, if_neg (by simp [hb]), if_neg hquote,
      List.takeWhile_cons_of_pos (by simp [hb]), List.dropWhile_cons_of_pos (by simp [hb])]
  · intro ch rest' heq
    have hhead := List.head?_dropWhile_not (fun c => !isBlank c) (text.dropWhile isBlank)
    rw [heq] at hhead
    simpa using hhead

variable {u s' : SplitState} {p : Nat} {rest : List UInt8}

/-- A word up to the end. -/
theorem Word.to_end (hword : Word length s u text p w []) (h : Left length s text)
    (hroom : s.argv.length < argMax) (hwords : words text = [w]) :
    Splits argMax length s u text := by
  have hstring := hword.string
  rw [List.append_nil] at hstring
  exact .of_word rfl h hroom (by rw [hwords, words]) hword.argv hword.le hstring
    (Nat.le_of_eq hword.ptr.symm) hword.ends (.inr rfl) (fun x _ => by rw [hword.mem]) (.refl u)

/-- A word up to a quote. -/
theorem Word.to_quote {ch : UInt8} (hword : Word length s u text p w (ch :: rest))
    (h : Left length s text) (hroom : s.argv.length < argMax) (hwords : words text = w :: words rest)
    (hrest : Splits argMax length u.cut.next s' rest) : Splits argMax length s s' text := by
  have hptr := hword.ptr
  have hends := hword.ends
  have hle := hword.le
  rw [List.length_cons] at hends
  have hcut : ∀ x, x ≠ u.ptr → u.cut.next.mem x = u.mem x := fun x hx => Function.update_of_ne hx _ _
  have hnext : u.cut.next.ptr = u.ptr + 1 := rfl
  have hargv : u.cut.next.argv = s.argv ++ [p] := hword.argv
  refine .of_word rfl h hroom hwords hargv hword.le ?_ (by omega) (by omega)
    (.inl (by unfold strBytes; omega)) (fun x hx => ?_) hrest
  · refine StringAt.of_append hword.string (fun x h1 h2 => ?_) ?_
    · rw [hrest.frame x (.inl (by omega)), hcut x (by omega)]
    · rw [hrest.frame _ (.inl (by omega)), ← hptr]
      exact Function.update_self ..
  · rw [hcut x (by omega), hword.mem]

/-- A word up to a blank, which is cut later. -/
theorem Word.to_blank {ch : UInt8} (hword : Word length s u text p w (ch :: rest))
    (h : Left length s text) (hroom : s.argv.length < argMax)
    (hwords : words text = w :: words (ch :: rest)) (hb : isBlank ch = true)
    (hrest : Splits argMax length u s' (ch :: rest)) : Splits argMax length s s' text := by
  have hptr := hword.ptr
  refine .of_word rfl h hroom hwords hword.argv hword.le ?_ (by omega) hword.ends (.inl ?_)
    (fun x hx => by rw [hword.mem]) hrest
  · refine StringAt.of_append hword.string (fun x h1 h2 => hrest.frame x (.inl (by omega))) ?_
    rw [← hptr]
    exact hrest.cut ch rest rfl hb
  · rw [List.takeWhile_cons_of_pos hb, List.length_cons]
    unfold strBytes
    omega

theorem splitLoop_spec (h : Left length s text) :
    Splits argMax length s (splitLoop length argMax s) text := by
  fun_induction splitLoop length argMax s generalizing text with
  | case1 =>
    rename_i s hlt t hmax
    have hargv : t.argv = s.argv := h.strip_argv
    exact .of_strip h (by rw [Nat.sub_eq_zero_of_le (hargv ▸ hmax), List.take_zero])
  | case2 =>
    rename_i s hlt t hmax hend
    have hnil := h.strip.nil (Nat.not_lt.mpr hend)
    exact .of_strip h (by rw [← words_dropWhile, hnil, words, List.take_nil])
  | case3 =>
    -- the string has no end
    rename_i s hlt t hmax hgo hquote u hend
    have hroom : s.argv.length < argMax := Nat.lt_of_not_le (h.strip_argv ▸ hmax)
    obtain ⟨p, w, rest, hword, hwords⟩ := h.quoted_word (Nat.lt_of_not_le hgo) hquote
    obtain rfl := hword.left.nil (Nat.not_lt.mpr hend)
    exact hword.to_end h hroom (by rw [hwords, List.tail_nil, words])
  | case4 =>
    rename_i s hlt t hmax hgo hquote u hgo' ih
    have hroom : s.argv.length < argMax := Nat.lt_of_not_le (h.strip_argv ▸ hmax)
    obtain ⟨p, w, rest, hword, hwords⟩ := h.quoted_word (Nat.lt_of_not_le hgo) hquote
    obtain ⟨ch, rest, rfl, hleft⟩ := hword.left.cut (Nat.lt_of_not_le hgo')
    exact hword.to_quote h hroom hwords (ih hleft)
  | case5 =>
    -- the word is the last one
    rename_i s hlt t hmax hgo hquote u hend
    have hroom : s.argv.length < argMax := Nat.lt_of_not_le (h.strip_argv ▸ hmax)
    obtain ⟨p, w, rest, hword, hwords, -⟩ := h.plain_word (Nat.lt_of_not_le hgo) hquote
    obtain rfl := hword.left.nil (Nat.not_lt.mpr hend)
    exact hword.to_end h hroom (by rw [hwords, words])
  | case6 =>
    rename_i s hlt t hmax hgo hquote u hgo' ih
    have hroom : s.argv.length < argMax := Nat.lt_of_not_le (h.strip_argv ▸ hmax)
    obtain ⟨p, w, rest, hword, hwords, hblank⟩ := h.plain_word (Nat.lt_of_not_le hgo) hquote
    obtain ⟨rest, rfl, -⟩ := hword.left.cons (Nat.lt_of_not_le hgo')
    exact hword.to_blank h hroom hwords (hblank _ _ rfl) (ih hword.left)
  | case7 =>
    rename_i s hge
    rw [h.nil hge]
    exact .refl s

/-- For every command, `argv` is its first `FINSH_ARG_MAX` words, one behind the other in the
buffer, and nothing else is written. -/
theorem mshSplit_words {cmd : Nat} (h : StringAt m cmd text) :
    Laid (mshSplit text.length argMax m cmd).mem (cmd + text.length) cmd
        (mshSplit text.length argMax m cmd).argv ((words text).take argMax) ∧
      ∀ x, x < cmd ∨ cmd + text.length ≤ x → (mshSplit text.length argMax m cmd).mem x = m x := by
  have hs : Splits argMax text.length ⟨m, cmd, 0, []⟩ (mshSplit text.length argMax m cmd) text :=
    splitLoop_spec ⟨h, Nat.zero_add _⟩
  obtain ⟨new, hnew, hlaid⟩ := hs.argv
  rw [List.nil_append] at hnew
  rw [hnew]
  exact ⟨hlaid.mono (Nat.le_add_right _ _), hs.frame⟩

/-- `a "b c"` at the address 100 -/
def twoWords : Memory := fun x => [97, 32, 34, 98, 32, 99, 34, 0].getD (x - 100) 0

theorem mshSplit_words_two : Laid (mshSplit 7 10 twoWords 100).mem 107 100
    (mshSplit 7 10 twoWords 100).argv [[97], [98, 32, 99]] := by
  have hbytes : ∀ i : Fin 7, [97, 32, 34, 98, 32, 99, 34][i.val]? = some (twoWords (100 + i)) := by
    decide
  have h : StringAt twoWords 100 [97, 32, 34, 98, 32, 99, 34] := by
    refine ⟨fun i b hb => ?_, rfl, by decide⟩
    have hlt : i < 7 := (List.getElem?_eq_some_iff.mp hb).1
    exact Option.some.inj ((hbytes ⟨i, hlt⟩).symm.trans hb)
  have hw : words [97, 32, 34, 98, 32, 99, 34] = [[97], [98, 32, 99]] := by
    simp [words, isBlank, quoted]
  have hl : Laid _ _ _ (mshSplit 7 10 twoWords 100).argv (List.take 10 _) := (mshSplit_words h).1
  rw [hw] at hl
  exact hl

end Tudu.Msh
