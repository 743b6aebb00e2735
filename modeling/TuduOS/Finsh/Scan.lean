import Mathlib.Data.List.Basic
import TuduOS.Finsh.Token

/-!
# Where the scanner stands

A token is read off the rest of the line. `tokenNextChar` and `tokenPrevChar` are a look at the next
character; at the end of the line, and at a newline, they leave the scanner ended.

* `Rest s text`: the scanner stands in front of `text`.
* `tokenWhile_eq`: a loop reads the characters that satisfy its predicate.
* `tokenRun_operator`: behind the blanks, in front of what is no name, a token is an operator or a
  literal.
-/

namespace Tudu.Finsh

namespace FinshToken

/-- `n` characters further. -/
def advance (s : FinshToken) (n : Nat) : FinshToken := { s with position := s.position + n }

/-- The end of the line was seen. -/
def ended (s : FinshToken) : FinshToken := { s with eof := true, position := 0 }

/-- The scanner is in front of the text. -/
structure Rest (s : FinshToken) (text : List Char) : Prop where
  eof : s.eof = false
  inLine : s.position ≤ s.line.length
  text : s.line.drop s.position = text

/-- Nothing more is on the line. -/
def AtEnd (text : List Char) : Prop := text = [] ∨ text.head? = some '\n'

instance (text : List Char) : Decidable (AtEnd text) := inferInstanceAs (Decidable (_ ∨ _))

/-- The next character, and the null byte at the end. -/
def peekChar (text : List Char) : Char := if AtEnd text then '\x00' else text.headD '\x00'

variable {s : FinshToken} {text ds : List Char} {c : Char} {n k : Nat} {p : Char → Bool}

@[simp] theorem advance_zero : s.advance 0 = s := rfl

@[simp] theorem advance_advance : (s.advance n).advance k = s.advance (n + k) :=
  congrArg (fun x => { s with position := x }) (Nat.add_assoc ..)

@[simp] theorem ended_advance : (s.advance n).ended = s.ended := rfl

@[simp] theorem ended_eof : s.ended.eof = true := rfl

theorem not_atEnd (hc : c ≠ '\n') : ¬AtEnd (c :: text) := by
  rintro (h | h)
  · cases h
  · exact hc (Option.some.inj h)

@[simp] theorem peekChar_cons (hc : c ≠ '\n') : peekChar (c :: text) = c := if_neg (not_atEnd hc)

theorem exists_cons (h : ¬AtEnd text) : ∃ c rest, text = c :: rest ∧ c ≠ '\n' := by
  cases text with
  | nil => exact absurd (.inl rfl) h
  | cons c rest => exact ⟨c, rest, rfl, fun hc => h (.inr (congrArg some hc))⟩

namespace Rest

theorem not_eof (h : Rest s text) : ¬s.eof = true := by
  rw [h.eof]
  exact Bool.false_ne_true

theorem getElem? (h : Rest s text) : s.line[s.position]? = text.head? := by
  rw [← h.text, List.head?_drop]

theorem advance (h : Rest s (ds ++ text)) : Rest (s.advance ds.length) text where
  eof := h.eof
  inLine := by
    have hlen := congrArg List.length h.text
    have hle := h.inLine
    rw [List.length_drop, List.length_append] at hlen
    show s.position + ds.length ≤ s.line.length
    omega
  text := by
    show s.line.drop (s.position + ds.length) = text
    rw [← List.drop_drop, h.text, List.drop_left]

theorem next (h : Rest s (c :: text)) : Rest (s.advance 1) text := by
  have hcons : Rest s ([c] ++ text) := h
  exact hcons.advance

/-- `token_next_char` -/
theorem nextChar (h : Rest s (c :: text)) (hc : c ≠ '\n') : s.tokenNextChar = (c, s.advance 1) := by
  unfold tokenNextChar
  rw [if_neg h.not_eof, h.getElem?]
  exact if_neg hc

theorem nextChar_end (h : Rest s text) (hend : AtEnd text) : s.tokenNextChar = ('\x00', s.ended) := by
  unfold tokenNextChar
  rw [if_neg h.not_eof, h.getElem?]
  rcases hend with rfl | hend
  · rfl
  · rw [hend]
    rfl

theorem nextChar_fst (h : Rest s text) : s.tokenNextChar.1 = peekChar text := by
  by_cases hend : AtEnd text
  · rw [h.nextChar_end hend, peekChar, if_pos hend]
  · obtain ⟨c, rest, rfl, hc⟩ := exists_cons hend
    rw [h.nextChar hc, peekChar_cons hc]

/-- A look at the next character. -/
theorem prev_next (h : Rest s text) :
    s.tokenNextChar.2.tokenPrevChar = if AtEnd text then s.ended else s := by
  by_cases hend : AtEnd text
  · rw [h.nextChar_end hend, if_pos hend]
    rfl
  · obtain ⟨c, rest, rfl, hc⟩ := exists_cons hend
    rw [h.nextChar hc, if_neg hend, tokenPrevChar]
    have hgo : ¬((s.advance 1).eof || (s.advance 1).position == 0) = true := by
      show ¬(s.eof || s.position + 1 == 0) = true
      rw [h.eof]
      simp
    rw [if_neg hgo]
    rfl

/-- A loop over the characters that satisfy `p`. -/
theorem tokenWhile_eq (h : Rest s (ds ++ text)) (hds : ∀ c ∈ ds, p c = true ∧ c ≠ '\n')
    (hstop : p (peekChar text) = false) (hn : ds.length < n) :
    tokenWhile p n s = some (ds, peekChar text, (s.advance ds.length).tokenNextChar.2) := by
  induction ds generalizing s n with
  | nil =>
    obtain ⟨n, rfl⟩ : ∃ m, n = m + 1 := ⟨n - 1, by rw [List.length_nil] at hn; omega⟩
    have hfst := h.nextChar_fst
    rw [List.nil_append] at hfst
    unfold tokenWhile
    simp only [hfst, hstop, Bool.false_eq_true, if_false]
    rfl
  | cons c ds ih =>
    obtain ⟨n, rfl⟩ : ∃ m, n = m + 1 := ⟨n - 1, by rw [List.length_cons] at hn; omega⟩
    obtain ⟨hp, hc⟩ := hds c List.mem_cons_self
    have hnext : Rest s (c :: (ds ++ text)) := h
    rw [List.length_cons] at hn
    have hrest := ih (n := n) hnext.next (fun d hd => hds d (List.mem_cons_of_mem c hd)) (by omega)
    unfold tokenWhile
    simp only [hnext.nextChar hc, hp, if_true, hrest, Option.map_some, advance_advance,
      List.length_cons, Nat.add_comm 1]

/-- The rounds of a loop are enough. -/
theorem lt_rounds (h : Rest s (ds ++ text)) : ds.length < s.rounds := by
  have hlen := congrArg List.length h.text
  rw [List.length_drop, List.length_append] at hlen
  unfold rounds
  omega

end Rest

/-! ## The beginning of a token -/

def isBlank (ch : Char) : Bool := ch == ' ' || ch == '\t' || ch == '\r'

/-- What a name is made of. -/
def isNameChar (ch : Char) : Bool := !isSeparator ch

theorem trim_eq (h : Rest s (ds ++ text)) (hds : ∀ c ∈ ds, isBlank c = true)
    (hstop : isBlank (peekChar text) = false) :
    s.tokenTrimSpace = some (if AtEnd text then s.ended else s.advance ds.length) := by
  have hblank : ∀ c ∈ ds, isBlank c = true ∧ c ≠ '\n' := by
    intro c hc
    refine ⟨hds c hc, ?_⟩
    rintro rfl
    exact absurd (hds _ hc) (by decide)
  have hloop := h.tokenWhile_eq hblank hstop h.lt_rounds
  unfold tokenTrimSpace
  rw [show (fun ch : Char => ch == ' ' || ch == '\t' || ch == '\r') = isBlank from rfl, hloop,
    Option.map_some, h.advance.prev_next, ended_advance]

/-- No text of a token. -/
def cleared (s : FinshToken) : FinshToken := { s with string := [] }

theorem Rest.cleared (h : Rest s text) : Rest s.cleared text := ⟨h.eof, h.inLine, h.text⟩

theorem tokenGetString_none (h : Rest s (c :: text)) (hc : c ≠ '\n')
    (hname : isDigit c = true ∨ isNameChar c = false) : s.tokenGetString = some s.cleared := by
  have hprev : (s.advance 1).cleared.tokenPrevChar = s.cleared := by
    have hpeek := h.cleared.prev_next
    rwa [h.cleared.nextChar hc, if_neg (not_atEnd hc)] at hpeek
  have heof : ¬(s.advance 1).eof = true := h.not_eof
  unfold tokenGetString
  simp only [h.nextChar hc]
  rw [if_neg heof]
  by_cases hd : isDigit c = true
  · rw [if_pos hd]
    exact congrArg some hprev
  · have hs : isSeparator c = true := by
      rcases hname with hd' | hs
      · exact absurd hd' hd
      · unfold isNameChar at hs
        simpa using hs
    rw [if_neg hd, if_pos hs]
    exact congrArg some hprev

/-- In front of what is no name there is an operator or a literal. -/
theorem tokenRun_operator (h : Rest s (ds ++ c :: text)) (hds : ∀ c ∈ ds, isBlank c = true)
    (hc : c ≠ '\n') (hb : isBlank c = false) (hname : isDigit c = true ∨ isNameChar c = false) :
    s.tokenRun = (s.advance ds.length).cleared.tokenOperator := by
  have htrim := trim_eq h hds (by rw [peekChar_cons hc]; exact hb)
  rw [if_neg (not_atEnd hc)] at htrim
  have heof : ¬(s.advance ds.length).cleared.eof = true := h.advance.not_eof
  unfold tokenRun
  rw [htrim, Option.bind_some, tokenGetString_none h.advance hc hname]
  simp only
  rw [if_neg heof]
  exact if_neg fun hne => hne rfl

end FinshToken

end Tudu.Finsh
