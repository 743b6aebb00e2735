import Mathlib.Data.List.TakeWhile
import Mathlib.Logic.Relation
import TuduOS.Finsh.Scan

/-!
# How the scanner gets on

Each token ends behind where it began, and every character is read on the line or at the null byte
behind it.

* `Moves s t`: what the scanner does between `s` and `t` is to read a character, to step back, and to
  change what is not about the line.
* `Ahead k s t`: from `s` the scanner has come to the end of the line, or `k` characters further.
* `TokenFits`: the token that a text begins with stays inside the buffer it is collected in.
* `tokenRun_spec`: a token that fits is read, and the scanner gets on.
-/

namespace Tudu.Finsh

namespace FinshToken

/-! ## Moves -/

inductive Move : FinshToken → FinshToken → Prop
  | next (s : FinshToken) : Move s s.tokenNextChar.2
  | prev (s : FinshToken) : Move s s.tokenPrevChar
  | keep {s t : FinshToken} : t.line = s.line → t.position = s.position → Move s t

def Moves : FinshToken → FinshToken → Prop := Relation.ReflTransGen Move

/-- The next character to be read is on the line, or the null byte behind it. -/
def InLine (s : FinshToken) : Prop := s.position ≤ s.line.length

variable {s t u : FinshToken} {text : List Char} {c : Char} {k j n : Nat} {p : Char → Bool}

theorem Move.line (h : Move s t) : t.line = s.line := by
  cases h with
  | next =>
    unfold tokenNextChar
    repeat' split
    all_goals rfl
  | prev =>
    unfold tokenPrevChar
    split <;> rfl
  | keep hline _ => exact hline

theorem Move.inLine (h : Move s t) (hs : s.InLine) : t.InLine := by
  unfold InLine at hs ⊢
  rw [h.line]
  cases h with
  | next =>
    unfold tokenNextChar
    split
    · exact hs
    · split
      · rename_i ch hch
        have hlt := (List.getElem?_eq_some_iff.mp hch).1
        split
        · exact Nat.zero_le _
        · exact hlt
      · exact Nat.zero_le _
  | prev =>
    unfold tokenPrevChar
    split
    · exact hs
    · exact Nat.le_trans (Nat.sub_le _ _) hs
  | keep _ hpos =>
    rw [hpos]
    exact hs

theorem Moves.line (h : Moves s t) : t.line = s.line := by
  induction h with
  | refl => rfl
  | tail _ hmove ih => exact hmove.line.trans ih

/-- The scanner never reads behind the null byte. -/
theorem Moves.inLine (h : Moves s t) (hs : s.InLine) : t.InLine := by
  induction h with
  | refl => exact hs
  | tail _ hmove ih => exact hmove.inLine ih

/-! ## What is left of the line -/

/-- The text that the scanner still reads. -/
def textLeft (s : FinshToken) : List Char :=
  if s.eof then [] else (s.line.drop s.position).takeWhile (· != '\n')

theorem textLeft_of_eof (h : s.eof = true) : s.textLeft = [] := if_pos h

theorem next_of_nil (h : s.textLeft = []) :
    s.tokenNextChar.1 = '\x00' ∧ s.tokenNextChar.2.eof = true := by
  unfold textLeft at h
  unfold tokenNextChar
  by_cases heof : s.eof = true
  · rw [if_pos heof]
    exact ⟨rfl, heof⟩
  · rw [if_neg heof] at h ⊢
    rw [← List.head?_drop]
    cases hdrop : s.line.drop s.position with
    | nil => exact ⟨rfl, rfl⟩
    | cons ch rest =>
      have hch : ch = '\n' := by
        rw [hdrop, List.takeWhile_cons] at h
        by_contra hne
        rw [if_pos (by simpa using hne)] at h
        cases h
      rw [hch]
      exact ⟨rfl, rfl⟩

theorem next_of_cons (h : s.textLeft = c :: text) :
    s.eof = false ∧ s.tokenNextChar = (c, s.advance 1) ∧ (s.advance 1).textLeft = text := by
  unfold textLeft at h
  have heof : ¬s.eof = true := by
    intro heof
    rw [if_pos heof] at h
    cases h
  rw [if_neg heof] at h
  cases hdrop : s.line.drop s.position with
  | nil =>
    rw [hdrop] at h
    cases h
  | cons ch rest =>
    rw [hdrop, List.takeWhile_cons] at h
    by_cases hch : ch = '\n'
    · rw [hch] at h
      cases h
    rw [if_pos (by simpa using hch)] at h
    injection h with hc htext
    subst hc
    have hget : s.line[s.position]? = some ch := by rw [← List.head?_drop, hdrop, List.head?_cons]
    refine ⟨Bool.eq_false_iff.mpr heof, ?_, ?_⟩
    · unfold tokenNextChar
      rw [if_neg heof, hget]
      exact if_neg hch
    · have hnext : s.line.drop (s.position + 1) = rest := by
        rw [← List.drop_drop, hdrop, List.drop_one, List.tail_cons]
      unfold textLeft
      change (if s.eof then [] else (s.line.drop (s.position + 1)).takeWhile (· != '\n')) = text
      rw [if_neg heof, hnext, htext]

theorem next_spec : s.tokenNextChar.1 = s.textLeft.headD '\x00' ∧
    s.tokenNextChar.2.textLeft = s.textLeft.tail := by
  cases h : s.textLeft with
  | nil =>
    obtain ⟨hch, heof⟩ := next_of_nil h
    exact ⟨hch, textLeft_of_eof heof⟩
  | cons c text =>
    obtain ⟨-, hnext, hrest⟩ := next_of_cons h
    rw [hnext]
    exact ⟨rfl, hrest⟩

theorem prev_advance (heof : s.eof = false) : (s.advance 1).tokenPrevChar = s := by
  have hgo : ¬((s.advance 1).eof || (s.advance 1).position == 0) = true := by
    show ¬(s.eof || s.position + 1 == 0) = true
    rw [heof]
    simp
  unfold tokenPrevChar
  rw [if_neg hgo]
  rfl

theorem prev_of_eof (heof : s.eof = true) : s.tokenPrevChar = s := by
  unfold tokenPrevChar
  rw [heof, Bool.true_or, if_pos rfl]

@[simp] theorem prev_eof : s.tokenPrevChar.eof = s.eof := by
  unfold tokenPrevChar
  split <;> rfl

@[simp] theorem prev_string : s.tokenPrevChar.string = s.string := by
  unfold tokenPrevChar
  split <;> rfl

/-- A look at the next character leaves the text. -/
theorem textLeft_look : s.tokenNextChar.2.tokenPrevChar.textLeft = s.textLeft := by
  cases h : s.textLeft with
  | nil =>
    have heof := (next_of_nil h).2
    rw [prev_of_eof heof]
    exact textLeft_of_eof heof
  | cons c text =>
    obtain ⟨heof, hnext, -⟩ := next_of_cons h
    rw [hnext, prev_advance heof, h]

/-! ## Further on the line -/

structure Ahead (k : Nat) (s t : FinshToken) : Prop where
  moves : Moves s t
  further : t.eof = false → s.eof = false ∧ s.position + k ≤ t.position

namespace Ahead

theorem refl (s : FinshToken) : Ahead 0 s s := ⟨.refl, fun h => ⟨h, Nat.le_refl _⟩⟩

theorem next (h : Ahead k s t) : Ahead (k + 1) s t.tokenNextChar.2 where
  moves := h.moves.tail (.next t)
  further := by
    intro heof
    cases htext : t.textLeft with
    | nil =>
      rw [(next_of_nil htext).2] at heof
      cases heof
    | cons c text =>
      obtain ⟨heof', hnext, -⟩ := next_of_cons htext
      obtain ⟨hs, hle⟩ := h.further heof'
      rw [hnext]
      exact ⟨hs, Nat.succ_le_succ hle⟩

theorem prev (h : Ahead (k + 1) s t) : Ahead k s t.tokenPrevChar where
  moves := h.moves.tail (.prev t)
  further := by
    intro heof
    rw [prev_eof] at heof
    obtain ⟨hs, hle⟩ := h.further heof
    refine ⟨hs, ?_⟩
    unfold tokenPrevChar
    split
    · omega
    · show s.position + k ≤ t.position - 1
      omega

theorem keep (h : Ahead k s t) (hline : u.line = t.line) (hpos : u.position = t.position)
    (heof : u.eof = t.eof) : Ahead k s u where
  moves := h.moves.tail (.keep hline hpos)
  further := by
    rw [heof, hpos]
    exact h.further

theorem mono (h : Ahead k s t) (hj : j ≤ k) : Ahead j s t where
  moves := h.moves
  further := by
    intro heof
    obtain ⟨hs, hle⟩ := h.further heof
    exact ⟨hs, by omega⟩

theorem trans (h : Ahead k s t) (h' : Ahead j t u) : Ahead (k + j) s u where
  moves := h.moves.trans h'.moves
  further := by
    intro heof
    obtain ⟨ht, hle'⟩ := h'.further heof
    obtain ⟨hs, hle⟩ := h.further ht
    exact ⟨hs, by omega⟩

end Ahead

/-- A loop reads the characters that satisfy `p`, and one more. -/
theorem tokenWhile_spec (hp : p '\x00' = false) (hn : s.line.length - s.position < n) :
    ∃ r, tokenWhile p n s = some r ∧ Ahead (r.1.length + 1) s r.2.2 ∧
      r.1 = s.textLeft.takeWhile p ∧ r.2.2.tokenPrevChar.textLeft = s.textLeft.dropWhile p := by
  induction n generalizing s with
  | zero => omega
  | succ n ih =>
    have hstop : p s.tokenNextChar.1 = false → s.textLeft.takeWhile p = [] →
        s.textLeft.dropWhile p = s.textLeft → ∃ r, tokenWhile p (n + 1) s = some r ∧
          Ahead (r.1.length + 1) s r.2.2 ∧ r.1 = s.textLeft.takeWhile p ∧
          r.2.2.tokenPrevChar.textLeft = s.textLeft.dropWhile p := by
      intro hch htake hdrop
      refine ⟨([], s.tokenNextChar), ?_, (Ahead.refl s).next, htake.symm, ?_⟩
      · unfold tokenWhile
        simp only [hch, Bool.false_eq_true, if_false]
      · rw [hdrop]
        exact textLeft_look
    cases htext : s.textLeft with
    | nil =>
      rw [htext] at hstop
      refine hstop ?_ rfl rfl
      rw [(next_of_nil htext).1]
      exact hp
    | cons c text =>
      obtain ⟨heof, hnext, hrest⟩ := next_of_cons htext
      by_cases hc : p c = true
      · have hlt : s.position < s.line.length := by
          have hget : s.line.drop s.position ≠ [] := by
            intro hnil
            unfold textLeft at htext
            rw [heof, hnil] at htext
            cases htext
          rw [Ne, List.drop_eq_nil_iff] at hget
          omega
        have hlen : (s.advance 1).line.length - (s.advance 1).position < n := by
          show s.line.length - (s.position + 1) < n
          omega
        obtain ⟨r, hr, hahead, htake, hdrop⟩ := ih hlen
        rw [hrest] at htake hdrop
        refine ⟨(c :: r.1, r.2), ?_, ?_, ?_, ?_⟩
        · unfold tokenWhile
          simp only [hnext, hc, if_true, hr, Option.map_some]
        · have hone : Ahead 1 s (s.advance 1) := by
            have h := (Ahead.refl s).next
            rwa [hnext] at h
          exact (hone.trans hahead).mono (by rw [List.length_cons]; omega)
        · rw [List.takeWhile_cons_of_pos hc, ← htake]
        · rw [List.dropWhile_cons_of_pos hc]
          exact hdrop
      · rw [htext] at hstop
        refine hstop ?_ (List.takeWhile_cons_of_neg hc) (List.dropWhile_cons_of_neg hc)
        rw [hnext]
        exact Bool.eq_false_iff.mpr hc

/-- With the rounds that the scanner gives its loops. -/
theorem tokenWhile_rounds (hp : p '\x00' = false) (hline : t.line = s.line) :
    ∃ r, tokenWhile p s.rounds t = some r ∧ Ahead (r.1.length + 1) t r.2.2 ∧
      r.1 = t.textLeft.takeWhile p ∧ r.2.2.tokenPrevChar.textLeft = t.textLeft.dropWhile p := by
  refine tokenWhile_spec hp ?_
  unfold rounds
  rw [hline]
  omega

/-! ## Tokens inside their buffers -/

/-- The digits behind the prefix of a number stay inside `buf` of `token_proc_number`. -/
def NumberFits : List Char → Prop
  | '0' :: c :: text =>
    if c = 'x' || c = 'X' then
      (text.takeWhile fun ch => isDigit ch || isAlpha ch).length < numberSize
    else if c = 'b' || c = 'B' then (text.takeWhile fun ch => ch == '0' || ch == '1').length < numberSize
    else if isOctal c then ((c :: text).takeWhile isOctal).length < numberSize
    else True
  | _ => True

/-- The digits of a character literal stay inside `buf` of `token_proc_char`. -/
def CharFits : List Char → Prop
  | '\\' :: c :: text => isDigit c = true → (text.takeWhile isDigit).length + 1 < 4
  | _ => True

/-- What is left behind an escape of a string. -/
def behindEscape : List Char → List Char
  | [] => []
  | c :: text =>
    if c = 'x' || c = 'X' then text.dropWhile isXdigit
    else if isOctal c then text.dropWhile isOctal
    else text

/-- A string ends before more than `room` characters are stored. -/
def RoomFor : Nat → List Char → Prop
  | 0, _ => False
  | _ + 1, [] => True
  | room + 1, c :: text =>
    if c = '\\' then RoomFor room (behindEscape text)
    else if c = '"' then True
    else RoomFor room text

/-- The token at the beginning of the text. -/
def TokenFits : List Char → Prop
  | [] => True
  | c :: text =>
    if isDigit c then NumberFits (c :: text)
    else if isNameChar c then (text.takeWhile isNameChar).length + 1 < stringSize
    else if c = '\'' then CharFits text
    else if c = '"' then RoomFor stringSize text
    else True

theorem tokenFits_cons : TokenFits (c :: text) ↔ if isDigit c then NumberFits (c :: text)
    else if isNameChar c then (text.takeWhile isNameChar).length + 1 < stringSize
    else if c = '\'' then CharFits text
    else if c = '"' then RoomFor stringSize text
    else True := Iff.rfl

theorem isNameChar_null : isNameChar '\x00' = false := by decide

theorem isDigit_null : isDigit '\x00' = false := by decide

theorem trimSpace_spec : ∃ t, s.tokenTrimSpace = some t ∧ Ahead 0 s t ∧
    t.textLeft = s.textLeft.dropWhile isBlank := by
  have hloop := tokenWhile_rounds (s := s) (t := s) (p := isBlank) (by decide) rfl
  obtain ⟨r, hr, hahead, -, hdrop⟩ := hloop
  refine ⟨r.2.2.tokenPrevChar, ?_, (hahead.mono (by omega)).prev, hdrop⟩
  unfold tokenTrimSpace
  rw [show (fun ch : Char => ch == ' ' || ch == '\t' || ch == '\r') = isBlank from rfl, hr,
    Option.map_some]

/-- In front of what is no name the text stays. -/
theorem getString_same (htext : s.textLeft = c :: text)
    (hname : isDigit c = true ∨ ¬isNameChar c = true) : s.tokenGetString = some s.cleared := by
  obtain ⟨heof, hnext, -⟩ := next_of_cons htext
  have hgo : ¬(s.advance 1).eof = true := Bool.eq_false_iff.mp heof
  have hback : (s.advance 1).cleared.tokenPrevChar = s.cleared := prev_advance (s := s.cleared) heof
  unfold tokenGetString
  simp only [hnext]
  rw [if_neg hgo]
  by_cases hd : isDigit c = true
  · rw [if_pos hd]
    exact congrArg some hback
  · have hs : isSeparator c = true := by
      unfold isNameChar at hname
      simpa [hd] using hname
    rw [if_neg hd, if_pos hs]
    exact congrArg some hback

/-- Either nothing is left, or the scanner is in front of what is no name, or it has read a name. -/
theorem getString_spec (hsemi : s.textLeft ≠ [] → ';' ∈ s.textLeft) (hfits : TokenFits s.textLeft) :
    ∃ t, s.tokenGetString = some t ∧ ((t.eof = true ∧ Moves s t) ∨
      (t.eof = false ∧ t.string = [] ∧ s.textLeft ≠ [] ∧ t.textLeft = s.textLeft ∧ Ahead 0 s t) ∨
      (t.eof = false ∧ t.string ≠ [] ∧ Ahead 1 s t)) := by
  have hstep := (Ahead.refl s).next
  cases htext : s.textLeft with
  | nil =>
    have heof := (next_of_nil htext).2
    refine ⟨s.tokenNextChar.2, ?_, .inl ⟨heof, hstep.moves⟩⟩
    unfold tokenGetString
    exact if_pos heof
  | cons c text =>
    obtain ⟨heof, hnext, hrest⟩ := next_of_cons htext
    rw [hnext] at hstep
    have hgo : ¬(s.advance 1).eof = true := Bool.eq_false_iff.mp heof
    by_cases hnone : isDigit c = true ∨ ¬isNameChar c = true
    · refine ⟨s.cleared, getString_same htext hnone, .inr (.inl ?_)⟩
      exact ⟨heof, rfl, List.cons_ne_nil _ _, htext, (Ahead.refl s).keep rfl rfl rfl⟩
    obtain ⟨hd, hname⟩ := not_or.mp hnone
    replace hname := not_not.mp hname
    have hs : ¬isSeparator c = true := by
      unfold isNameChar at hname
      simpa using hname
    have hloop := tokenWhile_rounds (s := s) (t := s.advance 1) isNameChar_null rfl
    obtain ⟨r, hr, hahead, htake, hdrop⟩ := hloop
    rw [hrest] at htake hdrop
    have hlen : ¬stringSize ≤ r.1.length + 1 := by
      rw [htext, tokenFits_cons, if_neg hd, if_pos hname, ← htake] at hfits
      omega
    -- the line ends with a separator, so the name does not reach up to its end
    have hafter : r.2.2.eof = false := by
      have hmem : ';' ∈ text := by
        have h := hsemi (by rw [htext]; exact List.cons_ne_nil _ _)
        rw [htext, List.mem_cons] at h
        rcases h with rfl | h
        · exact absurd hname (by decide)
        · exact h
      refine Bool.eq_false_iff.mpr fun hend => ?_
      rw [prev_of_eof hend, textLeft_of_eof hend] at hdrop
      have hall := List.dropWhile_eq_nil_iff.mp hdrop.symm ';' hmem
      exact absurd hall (by decide)
    refine ⟨{ r.2.2 with eof := false, string := c :: r.1 }.tokenPrevChar, ?_, .inr (.inr ?_)⟩
    · unfold tokenGetString
      simp only [hnext]
      rw [if_neg hgo, if_neg hd, if_neg hs, show (fun ch => !isSeparator ch) = isNameChar from rfl,
        hr]
      simp only
      rw [if_neg hlen]
    · have hread := (hstep.trans hahead).keep
        (u := { r.2.2 with eof := false, string := c :: r.1 }) rfl rfl hafter.symm
      refine ⟨prev_eof, ?_, (hread.mono (j := 2) (by omega)).prev⟩
      rw [prev_string]
      exact List.cons_ne_nil _ _

/-! ## Literals -/

theorem commonEscape_isSome {d : Char} (h : commonEscape c = some d) :
    c = 'n' ∨ c = 't' ∨ c = 'v' ∨ c = 'b' ∨ c = 'r' := by
  unfold commonEscape at h
  by_contra hne
  simp only [not_or] at hne
  obtain ⟨hn, ht, hv, hb, hr⟩ := hne
  rw [if_neg hn, if_neg ht, if_neg hv, if_neg hb, if_neg hr] at h
  cases h

theorem behindEscape_eq : behindEscape text =
    if text.headD '\x00' = 'x' || text.headD '\x00' = 'X' then text.tail.dropWhile isXdigit
    else if isOctal (text.headD '\x00') then text.tail.dropWhile isOctal
    else text.tail := by
  cases text with
  | nil => rfl
  | cons c text => rfl

theorem procEscape_spec : ∃ r, s.tokenProcEscape = some r ∧ Ahead 1 s r.2 ∧
    r.2.textLeft = behindEscape s.textLeft := by
  have hstep := (Ahead.refl s).next
  obtain ⟨hch, hrest⟩ := next_spec (s := s)
  have hline : s.tokenNextChar.2.line = s.line := hstep.moves.line
  rw [behindEscape_eq, ← hch, ← hrest]
  unfold tokenProcEscape
  simp only
  generalize hnext : s.tokenNextChar.2 = next at hstep hline
  generalize s.tokenNextChar.1 = ch
  cases hesc : commonEscape ch with
  | some d =>
    have hx : ¬(ch = 'x' || ch = 'X') = true := by
      rcases commonEscape_isSome hesc with rfl | rfl | rfl | rfl | rfl <;> decide
    have hoct : ¬isOctal ch = true := by
      rcases commonEscape_isSome hesc with rfl | rfl | rfl | rfl | rfl <;> decide
    simp only
    rw [if_neg hx, if_neg hoct]
    exact ⟨_, rfl, hstep, rfl⟩
  | none =>
    simp only
    by_cases hf : ch = 'f'
    · subst hf
      exact ⟨_, rfl, hstep, rfl⟩
    by_cases ha : ch = 'a'
    · subst ha
      exact ⟨_, rfl, hstep, rfl⟩
    by_cases hq : ch = '"'
    · subst hq
      exact ⟨_, rfl, hstep, rfl⟩
    rw [if_neg hf, if_neg ha, if_neg hq]
    by_cases hx : (ch = 'x' || ch = 'X') = true
    · rw [if_pos hx, if_pos hx]
      obtain ⟨r, hr, hahead, -, hdrop⟩ := tokenWhile_rounds (p := isXdigit) (by decide) hline
      rw [hr, Option.map_some]
      exact ⟨_, rfl, ((hstep.trans hahead).mono (j := 2) (by omega)).prev, hdrop⟩
    rw [if_neg hx, if_neg hx]
    by_cases hoct : isOctal ch = true
    · rw [if_pos hoct, if_pos hoct]
      obtain ⟨r, hr, hahead, -, hdrop⟩ := tokenWhile_rounds (p := isOctal) (by decide) hline
      rw [hr, Option.map_some]
      exact ⟨_, rfl, ((hstep.trans hahead).mono (j := 2) (by omega)).prev, hdrop⟩
    rw [if_neg hoct, if_neg hoct]
    exact ⟨_, rfl, hstep, rfl⟩

theorem roomFor_cons : RoomFor (n + 1) (c :: text) ↔
    if c = '\\' then RoomFor n (behindEscape text)
    else if c = '"' then True
    else RoomFor n text := Iff.rfl

theorem stringLoop_spec (h : RoomFor n s.textLeft) :
    ∃ r, s.tokenStringLoop n = some r ∧ Ahead 0 s r.2.1 := by
  induction n generalizing s with
  | zero => exact h.elim
  | succ n ih =>
    have hstep := (Ahead.refl s).next
    have hkeep := hstep.mono (Nat.zero_le _)
    unfold tokenStringLoop
    simp only
    cases htext : s.textLeft with
    | nil =>
      rw [if_pos (next_of_nil htext).2]
      exact ⟨_, rfl, hkeep⟩
    | cons c text =>
      obtain ⟨heof, hnext, hrest⟩ := next_of_cons htext
      have hgo : ¬(s.advance 1).eof = true := Bool.eq_false_iff.mp heof
      rw [htext, roomFor_cons] at h
      rw [hnext] at hstep hkeep ⊢
      rw [if_neg hgo]
      by_cases hbs : c = '\\'
      · rw [if_pos hbs] at h ⊢
        obtain ⟨r, hr, hahead, hbehind⟩ := procEscape_spec (s := s.advance 1)
        rw [hrest] at hbehind
        rw [← hbehind] at h
        obtain ⟨t, ht, hahead'⟩ := ih h
        rw [hr]
        simp only
        rw [ht, Option.map_some]
        exact ⟨_, rfl, (hkeep.trans hahead).trans hahead' |>.mono (Nat.zero_le _)⟩
      rw [if_neg hbs] at h ⊢
      by_cases hq : c = '"'
      · rw [if_pos hq]
        exact ⟨_, rfl, hkeep⟩
      rw [if_neg hq] at h ⊢
      rw [← hrest] at h
      obtain ⟨t, ht, hahead'⟩ := ih h
      rw [ht, Option.map_some]
      exact ⟨_, rfl, hkeep.trans hahead'⟩

theorem procString_spec (h : RoomFor stringSize s.textLeft) :
    ∃ r, s.tokenProcString = some r ∧ Ahead 0 s r.1 := by
  obtain ⟨r, hr, hahead⟩ := stringLoop_spec h
  unfold tokenProcString
  rw [hr, Option.map_some]
  exact ⟨_, rfl, hahead.keep rfl rfl rfl⟩

/-- Behind the character of a literal comes the quote, or something that is left there. -/
theorem close_spec (h : Ahead k s t) : Ahead k s (if t.tokenNextChar.1 = '\'' then
    (c, t.tokenNextChar.2, (none : Option FinshError))
    else (c, t.tokenNextChar.2.tokenPrevChar, some .expectChar)).2.1 := by
  by_cases hclose : t.tokenNextChar.1 = '\''
  · rw [if_pos hclose]
    exact h.next.mono (Nat.le_succ k)
  · rw [if_neg hclose]
    exact h.next.prev

theorem procChar_spec (h : CharFits s.textLeft) :
    ∃ r, s.tokenProcChar = some r ∧ Ahead 0 s r.2.1 := by
  have hstep := (Ahead.refl s).next
  have hstep' := hstep.next
  obtain ⟨hch, hrest⟩ := next_spec (s := s)
  unfold tokenProcChar
  simp only
  by_cases hbs : s.tokenNextChar.1 = '\\'
  · rw [if_pos hbs]
    obtain ⟨hch', hrest'⟩ := next_spec (s := s.tokenNextChar.2)
    have hline : s.tokenNextChar.2.tokenNextChar.2.line = s.line := hstep'.moves.line
    have hdigits : isDigit s.tokenNextChar.2.tokenNextChar.1 = true →
        (s.tokenNextChar.2.tokenNextChar.2.textLeft.takeWhile isDigit).length + 1 < 4 := by
      intro hd
      rw [hrest', hrest]
      rw [hch', hrest] at hd
      cases htext : s.textLeft with
      | nil =>
        rw [htext] at hd
        cases hd
      | cons a text =>
        rw [htext] at h hd hch
        rw [hbs] at hch
        cases text with
        | nil => cases hd
        | cons b text =>
          cases hch
          exact h hd
    cases hesc : commonEscape s.tokenNextChar.2.tokenNextChar.1 with
    | some d =>
      simp only
      rw [Option.map_some]
      exact ⟨_, rfl, close_spec (hstep'.mono (Nat.zero_le _))⟩
    | none =>
      simp only
      by_cases hq : (s.tokenNextChar.2.tokenNextChar.1 = '\\' ||
          s.tokenNextChar.2.tokenNextChar.1 = '\'') = true
      · rw [if_pos hq, Option.map_some]
        exact ⟨_, rfl, close_spec (hstep'.mono (Nat.zero_le _))⟩
      rw [if_neg hq]
      by_cases hd : isDigit s.tokenNextChar.2.tokenNextChar.1 = true
      · obtain ⟨r, hr, hahead, htake, -⟩ := tokenWhile_rounds (p := isDigit) isDigit_null hline
        have hlen : ¬4 ≤ r.1.length + 1 := by
          have := hdigits hd
          rw [← htake] at this
          omega
        rw [if_pos hd, hr]
        simp only
        rw [if_neg hlen, Option.map_some]
        have hread := ((hstep'.trans hahead).mono (j := 1) (by omega)).prev
        exact ⟨_, rfl, close_spec hread⟩
      · rw [if_neg hd, Option.map_some]
        exact ⟨_, rfl, close_spec (hstep'.prev.mono (Nat.zero_le _))⟩
  · rw [if_neg hbs, Option.map_some]
    exact ⟨_, rfl, close_spec (hstep.mono (Nat.zero_le _))⟩

theorem numberEnd_ahead (h : Ahead (k + 1) s t) (v : BitVec 32) (ch : Char) :
    Ahead k s (t.numberEnd v ch) := by
  have hset : ∀ type, Ahead (k + 1) s { t with value := v, currentToken := type } := fun _ =>
    h.keep rfl rfl rfl
  unfold numberEnd
  split
  · exact (hset _).mono (Nat.le_succ k)
  · exact (hset _).prev

theorem numberSpec_spec {shift : Nat} (h : Ahead k s t) (hp : p '\x00' = false)
    (hfits : (t.textLeft.takeWhile p).length < numberSize) :
    ∃ u, t.numberSpec p shift = some u ∧ Ahead k s u := by
  obtain ⟨r, hr, hahead, htake, -⟩ := tokenWhile_rounds (s := t) (t := t) hp rfl
  rw [← htake] at hfits
  unfold numberSpec
  rw [hr]
  simp only
  rw [if_neg (by omega)]
  exact ⟨_, rfl, numberEnd_ahead ((h.trans hahead).mono (by omega)) _ _⟩

theorem numberFits_zero : NumberFits ('0' :: c :: text) ↔
    if c = 'x' || c = 'X' then
      (text.takeWhile fun ch => isDigit ch || isAlpha ch).length < numberSize
    else if c = 'b' || c = 'B' then (text.takeWhile fun ch => ch == '0' || ch == '1').length < numberSize
    else if isOctal c then ((c :: text).takeWhile isOctal).length < numberSize
    else True := Iff.rfl

theorem procNumber_spec (htext : s.textLeft = c :: text) (hd : isDigit c = true)
    (h : NumberFits (c :: text)) : ∃ t, s.tokenProcNumber = some t ∧ Ahead 1 s t := by
  obtain ⟨-, hnext, hrest⟩ := next_of_cons htext
  have hstep := (Ahead.refl s).next
  rw [hnext] at hstep
  have hstep' := hstep.next
  obtain ⟨hch, htail⟩ := next_spec (s := s.advance 1)
  rw [hrest] at hch htail
  unfold tokenProcNumber
  simp only [hnext]
  by_cases hc : c = '0'
  · subst hc
    rw [if_pos rfl]
    cases text with
    | nil =>
      rw [hch]
      exact ⟨_, rfl, hstep'.prev.keep rfl rfl rfl⟩
    | cons d text =>
      rw [numberFits_zero] at h
      change (s.advance 1).tokenNextChar.1 = d at hch
      change (s.advance 1).tokenNextChar.2.textLeft = text at htail
      rw [hch]
      by_cases hx : (d = 'x' || d = 'X') = true
      · rw [if_pos hx] at h ⊢
        rw [← htail] at h
        exact numberSpec_spec (hstep'.mono (Nat.le_succ 1)) (by decide) h
      rw [if_neg hx] at h ⊢
      by_cases hb : (d = 'b' || d = 'B') = true
      · rw [if_pos hb] at h ⊢
        rw [← htail] at h
        exact numberSpec_spec (hstep'.mono (Nat.le_succ 1)) (by decide) h
      rw [if_neg hb] at h ⊢
      by_cases hoct : isOctal d = true
      · rw [if_pos hoct] at h ⊢
        rw [← hrest] at h
        exact numberSpec_spec hstep (by decide) h
      rw [if_neg hoct]
      exact ⟨_, rfl, hstep'.prev.keep rfl rfl rfl⟩
  · rw [if_neg hc]
    obtain ⟨r, hr, hahead, htake, -⟩ := tokenWhile_rounds (s := s) (t := s) isDigit_null rfl
    have hlen : 1 ≤ r.1.length := by
      rw [htake, htext, List.takeWhile_cons_of_pos hd]
      exact Nat.succ_pos _
    rw [hr, Option.map_some]
    exact ⟨_, rfl, numberEnd_ahead (hahead.mono (by omega)) _ _⟩

/-! ## A token -/

theorem twice_ahead (h : Ahead k s t) (ch : Char) (both one : TokenType) :
    Ahead k s (t.twice ch both one) := by
  unfold twice
  simp only
  split
  · exact (h.next.mono (Nat.le_succ k)).keep rfl rfl rfl
  · exact h.next.prev.keep rfl rfl rfl

/-- The scanner has got on. -/
def Runs (s : FinshToken) (o : Option (FinshToken × Option FinshError)) : Prop :=
  ∃ r, o = some r ∧ Ahead 1 s r.1

theorem Runs.ite {C : Prop} [Decidable C] {o o' : Option (FinshToken × Option FinshError)}
    (h : C → Runs s o) (h' : ¬C → Runs s o') : Runs s (if C then o else o') := by
  by_cases hC : C
  · rw [if_pos hC]
    exact h hC
  · rw [if_neg hC]
    exact h' hC

theorem operator_spec (htext : s.textLeft = c :: text) (hfits : TokenFits (c :: text)) :
    Runs s s.tokenOperator := by
  obtain ⟨heof, hnext, hrest⟩ := next_of_cons htext
  have hstep := (Ahead.refl s).next
  rw [hnext] at hstep
  have hset : ∀ type error, Runs s (some ({ s.advance 1 with currentToken := type }, error)) :=
    fun type error => ⟨_, rfl, hstep.keep rfl rfl rfl⟩
  have htwice : ∀ ch both one, Runs s (some ((s.advance 1).twice ch both one, none)) :=
    fun ch both one => ⟨_, rfl, twice_ahead hstep ch both one⟩
  rw [tokenFits_cons] at hfits
  unfold tokenOperator
  simp only [hnext]
  refine .ite (fun _ => hset _ _) fun _ => .ite (fun _ => hset _ _) fun _ =>
    .ite (fun _ => hset _ _) fun _ => .ite (fun _ => hset _ _) fun _ =>
    .ite (fun _ => hset _ _) fun _ => .ite (fun _ => hset _ _) fun _ =>
    .ite (fun _ => htwice _ _ _) fun _ => .ite (fun _ => htwice _ _ _) fun _ =>
    .ite (fun _ => htwice _ _ _) fun _ => .ite (fun _ => htwice _ _ _) fun _ =>
    .ite (fun _ => htwice _ _ _) fun _ => .ite (fun _ => hset _ _) fun _ =>
    .ite (fun _ => hset _ _) fun _ => .ite (fun _ => hset _ _) fun _ =>
    .ite (fun _ => hset _ _) fun _ => .ite (fun _ => hset _ _) fun _ =>
    .ite (fun hc => ?_) fun _ => .ite (fun hc => ?_) fun _ => .ite (fun hd => ?_) fun _ => hset _ _
  · have hchar : CharFits (s.advance 1).textLeft := by
      rw [hc] at hfits
      rw [hrest]
      exact hfits
    obtain ⟨r, hr, hahead⟩ := procChar_spec hchar
    rw [hr, Option.map_some]
    exact ⟨_, rfl, (hstep.trans hahead).keep rfl rfl rfl⟩
  · have hroom : RoomFor stringSize (s.advance 1).textLeft := by
      rw [hc] at hfits
      rw [hrest]
      exact hfits
    obtain ⟨r, hr, hahead⟩ := procString_spec hroom
    rw [hr, Option.map_some]
    exact ⟨_, rfl, (hstep.trans hahead).keep rfl rfl rfl⟩
  · rw [if_pos hd] at hfits
    rw [prev_advance heof]
    obtain ⟨t, ht, hahead⟩ := procNumber_spec htext hd hfits
    rw [ht, Option.map_some]
    exact ⟨_, rfl, hahead⟩

/-- A token that fits is read. At the end of the line it is the end. -/
theorem tokenRun_spec (hsemi : s.textLeft ≠ [] → ';' ∈ s.textLeft)
    (hfits : TokenFits (s.textLeft.dropWhile isBlank)) :
    ∃ r, s.tokenRun = some r ∧ Ahead 1 s r.1 ∧ (s.eof = true → r.1.currentToken = .eof) := by
  obtain ⟨t, ht, hblank, htext⟩ := trimSpace_spec (s := s)
  rw [← htext] at hfits
  have hsemi' : t.textLeft ≠ [] → ';' ∈ t.textLeft := by
    intro hne
    rw [htext] at hne ⊢
    have hmem := hsemi fun hnil => hne (by rw [hnil, List.dropWhile_nil])
    rw [← List.takeWhile_append_dropWhile (p := isBlank) (l := s.textLeft), List.mem_append] at hmem
    rcases hmem with hmem | hmem
    · exact absurd (List.mem_takeWhile_imp hmem) (by decide)
    · exact hmem
  obtain ⟨u, hu, hcases⟩ := getString_spec hsemi' hfits
  unfold tokenRun
  rw [ht, Option.bind_some, hu]
  simp only
  rcases hcases with ⟨heof, hmoves⟩ | ⟨heof, hnone, hne, hsame, hahead⟩ | ⟨heof, hname, hahead⟩
  · rw [if_pos heof]
    refine ⟨_, rfl, ⟨(hblank.moves.trans hmoves).tail (.keep rfl rfl), fun hgo => ?_⟩, fun _ => rfl⟩
    exact absurd heof (Bool.eq_false_iff.mp hgo)
  · rw [if_neg (Bool.eq_false_iff.mp heof), if_neg fun h => h hnone]
    obtain ⟨c, text, hcons⟩ := List.exists_cons_of_ne_nil hne
    rw [hcons] at hsame hfits
    obtain ⟨r, hr, hrun⟩ := operator_spec hsame hfits
    have hall := hblank.trans hahead
    refine ⟨r, hr, (hall.trans hrun).mono (Nat.le_refl _), fun hend => ?_⟩
    exact absurd hend (Bool.eq_false_iff.mp (hall.further heof).1)
  · rw [if_neg (Bool.eq_false_iff.mp heof), if_pos hname]
    have hall := hblank.trans hahead
    refine ⟨_, rfl, (hall.mono (by omega)).keep rfl rfl rfl, fun hend => ?_⟩
    exact absurd hend (Bool.eq_false_iff.mp (hall.further heof).1)

/-! ## Tokens that leave their buffers -/

theorem getString_none (htext : s.textLeft = c :: text) (hname : isNameChar c = true)
    (hd : ¬isDigit c = true) (h : ¬(text.takeWhile isNameChar).length + 1 < stringSize) :
    s.tokenGetString = none := by
  obtain ⟨heof, hnext, hrest⟩ := next_of_cons htext
  have hgo : ¬(s.advance 1).eof = true := Bool.eq_false_iff.mp heof
  have hs : ¬isSeparator c = true := by
    unfold isNameChar at hname
    simpa using hname
  obtain ⟨r, hr, -, htake, -⟩ := tokenWhile_rounds (s := s) (t := s.advance 1) isNameChar_null rfl
  rw [← hrest, ← htake] at h
  unfold tokenGetString
  simp only [hnext]
  rw [if_neg hgo, if_neg hd, if_neg hs, show (fun ch => !isSeparator ch) = isNameChar from rfl, hr]
  exact if_pos (Nat.le_of_not_lt h)

theorem stringLoop_none (h : ¬RoomFor n s.textLeft) : s.tokenStringLoop n = none := by
  induction n generalizing s with
  | zero => rfl
  | succ n ih =>
    unfold tokenStringLoop
    simp only
    cases htext : s.textLeft with
    | nil =>
      rw [htext] at h
      exact absurd trivial h
    | cons c text =>
      obtain ⟨heof, hnext, hrest⟩ := next_of_cons htext
      have hgo : ¬(s.advance 1).eof = true := Bool.eq_false_iff.mp heof
      rw [htext, roomFor_cons] at h
      rw [hnext, if_neg hgo]
      by_cases hbs : c = '\\'
      · rw [if_pos hbs] at h ⊢
        obtain ⟨r, hr, -, hbehind⟩ := procEscape_spec (s := s.advance 1)
        rw [hrest] at hbehind
        rw [← hbehind] at h
        rw [hr]
        simp only
        rw [ih h]
        rfl
      rw [if_neg hbs] at h ⊢
      by_cases hq : c = '"'
      · rw [if_pos hq] at h
        exact absurd trivial h
      rw [if_neg hq] at h ⊢
      rw [← hrest] at h
      rw [ih h]
      rfl

theorem procChar_none (h : ¬CharFits s.textLeft) : s.tokenProcChar = none := by
  unfold CharFits at h
  split at h
  · rename_i c text htext
    obtain ⟨hd, hlen⟩ := Classical.not_imp.mp h
    obtain ⟨-, hnext, hrest⟩ := next_of_cons htext
    obtain ⟨-, hnext', hrest'⟩ := next_of_cons hrest
    have hline : ((s.advance 1).advance 1).line = s.line := rfl
    obtain ⟨r, hr, -, htake, -⟩ := tokenWhile_rounds (p := isDigit) isDigit_null hline
    rw [← hrest', ← htake] at hlen
    have hnot : commonEscape c = none := by
      cases hesc : commonEscape c with
      | none => rfl
      | some d =>
        rcases commonEscape_isSome hesc with rfl | rfl | rfl | rfl | rfl <;> exact absurd hd (by decide)
    have hq : ¬(c = '\\' || c = '\'') = true := by
      intro hq
      rw [Bool.or_eq_true, decide_eq_true_eq, decide_eq_true_eq] at hq
      rcases hq with rfl | rfl <;> exact absurd hd (by decide)
    unfold tokenProcChar
    simp only [hnext, hnext', hnot, if_pos, hr]
    rw [if_neg hq, if_pos hd, if_pos (by omega)]
    rfl
  · exact absurd trivial h

theorem numberSpec_none {shift : Nat} (hp : p '\x00' = false)
    (h : ¬(t.textLeft.takeWhile p).length < numberSize) : t.numberSpec p shift = none := by
  obtain ⟨r, hr, -, htake, -⟩ := tokenWhile_rounds (s := t) (t := t) hp rfl
  rw [← htake] at h
  unfold numberSpec
  rw [hr]
  exact if_pos (Nat.le_of_not_lt h)

theorem procNumber_none (htext : s.textLeft = c :: text) (h : ¬NumberFits (c :: text)) :
    s.tokenProcNumber = none := by
  obtain ⟨-, hnext, hrest⟩ := next_of_cons htext
  unfold NumberFits at h
  split at h
  · rename_i d text hcons
    cases hcons
    obtain ⟨-, hnext', hrest'⟩ := next_of_cons hrest
    unfold tokenProcNumber
    simp only [hnext, hnext', if_true]
    by_cases hx : (d = 'x' || d = 'X') = true
    · rw [if_pos hx] at h ⊢
      rw [← hrest'] at h
      exact numberSpec_none (by decide) h
    rw [if_neg hx] at h ⊢
    by_cases hb : (d = 'b' || d = 'B') = true
    · rw [if_pos hb] at h ⊢
      rw [← hrest'] at h
      exact numberSpec_none (by decide) h
    rw [if_neg hb] at h ⊢
    by_cases hoct : isOctal d = true
    · rw [if_pos hoct] at h ⊢
      rw [← hrest] at h
      exact numberSpec_none (by decide) h
    rw [if_neg hoct] at h
    exact absurd trivial h
  · exact absurd trivial h

theorem operator_none (htext : s.textLeft = c :: text) (hname : isDigit c = true ∨ ¬isNameChar c = true)
    (h : ¬TokenFits (c :: text)) : s.tokenOperator = none := by
  obtain ⟨heof, hnext, hrest⟩ := next_of_cons htext
  rw [tokenFits_cons] at h
  by_cases hd : isDigit c = true
  · rw [if_pos hd] at h
    have hne : ∀ x : Char, isDigit x = false → ¬c = x := by
      rintro x hx rfl
      exact absurd (hx.symm.trans hd) Bool.false_ne_true
    unfold tokenOperator
    simp only [hnext, prev_advance heof, procNumber_none htext h, hd, hne '(' (by decide),
      hne ')' (by decide), hne ',' (by decide), hne ';' (by decide), hne '&' (by decide),
      hne '*' (by decide), hne '+' (by decide), hne '-' (by decide), hne '/' (by decide),
      hne '<' (by decide), hne '>' (by decide), hne '|' (by decide), hne '%' (by decide),
      hne '~' (by decide), hne '^' (by decide), hne '=' (by decide), hne '\'' (by decide),
      hne '"' (by decide), if_false, if_true, Option.map_none]
  rw [if_neg hd, if_neg (hname.resolve_left hd)] at h
  by_cases hq : c = '\''
  · subst hq
    rw [if_pos rfl, ← hrest] at h
    have hnone := procChar_none h
    unfold tokenOperator
    simp only [hnext, hnone]
    rfl
  rw [if_neg hq] at h
  by_cases hs : c = '"'
  · subst hs
    rw [if_pos rfl, ← hrest] at h
    have hnone : (s.advance 1).tokenProcString = none := by
      unfold tokenProcString
      rw [stringLoop_none h]
      rfl
    unfold tokenOperator
    simp only [hnext, hnone]
    rfl
  rw [if_neg hs] at h
  exact absurd trivial h

/-- A token that does not fit is not read. -/
theorem tokenRun_none (h : ¬TokenFits (s.textLeft.dropWhile isBlank)) : s.tokenRun = none := by
  obtain ⟨t, ht, -, htext⟩ := trimSpace_spec (s := s)
  rw [← htext] at h
  unfold tokenRun
  rw [ht, Option.bind_some]
  cases hcons : t.textLeft with
  | nil =>
    rw [hcons] at h
    exact absurd trivial h
  | cons c text =>
    rw [hcons] at h
    by_cases hname : isDigit c = true ∨ ¬isNameChar c = true
    · have heof : ¬t.cleared.eof = true := Bool.eq_false_iff.mp (next_of_cons hcons).1
      have hnone : t.cleared.tokenOperator = none := operator_none (s := t.cleared) hcons hname h
      rw [getString_same hcons hname]
      simp only
      rw [if_neg heof, if_neg fun hne => hne rfl]
      exact hnone
    · obtain ⟨hd, hc⟩ := not_or.mp hname
      replace hc := not_not.mp hc
      rw [tokenFits_cons, if_neg hd, if_pos hc] at h
      rw [getString_none hcons hc hd h]

end FinshToken

end Tudu.Finsh
