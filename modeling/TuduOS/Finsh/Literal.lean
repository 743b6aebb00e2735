import TuduOS.Finsh.Scan

/-!
# Literals (`token_proc_number`, `token_proc_char`, `token_proc_string`)

Which literals the scanner reads as C does: `literal_read_iff`.

* `IntLiteral`, `Item`: the literals as C has them. An item is a character of a character literal or
  of a string.
* `IntRead`, `CharRead`, `StringRead`: one token is read, with the value of the literal, up to its
  last character.
* `IntLiteral.Fits`, `Item.Fits`, `StringFits`: the literals for which that is so.
-/

namespace Tudu.Finsh

/-! ## Literals -/

def digitValue (c : Char) : Nat :=
  if c ≤ '9' then c.toNat - 48 else if c ≤ 'F' then c.toNat - 55 else c.toNat - 87

def numberOf (base : Nat) (digits : List Char) : Nat :=
  digits.foldl (fun v c => v * base + digitValue c) 0

inductive IntBody where
  | dec (digits : List Char)
  /-- `0`, and digits if there are any. -/
  | oct (digits : List Char)
  | hex (x : Char) (digits : List Char)
  | bin (b : Char) (digits : List Char)

structure IntLiteral where
  body : IntBody
  suffix : Option Char

def IntBody.text : IntBody → List Char
  | dec digits => digits
  | oct digits => '0' :: digits
  | hex x digits => '0' :: x :: digits
  | bin b digits => '0' :: b :: digits

def IntBody.value : IntBody → Nat
  | dec digits => numberOf 10 digits
  | oct digits => numberOf 8 digits
  | hex _ digits => numberOf 16 digits
  | bin _ digits => numberOf 2 digits

def IntBody.Valid : IntBody → Prop
  | dec digits => ∃ c rest, digits = c :: rest ∧ c ≠ '0' ∧ ∀ c ∈ digits, isDigit c = true
  | oct digits => ∀ c ∈ digits, isOctal c = true
  | hex x digits => (x = 'x' ∨ x = 'X') ∧ digits ≠ [] ∧ ∀ c ∈ digits, isXdigit c = true
  | bin b digits => (b = 'b' ∨ b = 'B') ∧ digits ≠ [] ∧ ∀ c ∈ digits, c = '0' ∨ c = '1'

namespace IntLiteral

def text (lit : IntLiteral) : List Char := lit.body.text ++ lit.suffix.toList

def type (lit : IntLiteral) : TokenType := if lit.suffix.isSome then .valueLong else .valueInt

structure Valid (lit : IntLiteral) : Prop where
  body : lit.body.Valid
  suffix : ∀ c, lit.suffix = some c → c = 'l' ∨ c = 'L'
  fits : lit.body.value < 4294967296

/-- There is room for the digits, no suffix is taken for one, and something stands behind the last
character that is looked at. -/
def Fits (lit : IntLiteral) (rest : List Char) : Prop :=
  (lit.suffix = none → ¬FinshToken.AtEnd rest) ∧
    match lit.body with
    | .dec _ => True
    | .oct digits => digits.length < FinshToken.numberSize ∧ (digits = [] → lit.suffix = none)
    | .hex _ digits => digits.length < FinshToken.numberSize ∧ lit.suffix = none
    | .bin _ digits => digits.length < FinshToken.numberSize

end IntLiteral

inductive SimpleEscape where
  | newline | tab | vertical | backspace | carriage | backslash | quote | doubleQuote
  deriving DecidableEq

def SimpleEscape.letter : SimpleEscape → Char
  | newline => 'n'
  | tab => 't'
  | vertical => 'v'
  | backspace => 'b'
  | carriage => 'r'
  | backslash => '\\'
  | quote => '\''
  | doubleQuote => '"'

def SimpleEscape.value : SimpleEscape → Char
  | newline => '\n'
  | tab => '\t'
  | vertical => '\x0b'
  | backspace => '\x08'
  | carriage => '\r'
  | backslash => '\\'
  | quote => '\''
  | doubleQuote => '"'

inductive Item where
  | plain (c : Char)
  | simple (e : SimpleEscape)
  | octal (digits : List Char)
  | hex (digits : List Char)

namespace Item

def text : Item → List Char
  | plain c => [c]
  | simple e => ['\\', e.letter]
  | octal digits => '\\' :: digits
  | hex digits => '\\' :: 'x' :: digits

def value : Item → Char
  | plain c => c
  | simple e => e.value
  | octal digits => Char.ofNat (numberOf 8 digits)
  | hex digits => Char.ofNat (numberOf 16 digits)

/-- An item between two `quote`s. -/
def Valid (quote : Char) : Item → Prop
  | plain c => c ≠ quote ∧ c ≠ '\\' ∧ c ≠ '\n' ∧ c ≠ '\x00' ∧ c.toNat < 256
  | simple _ => True
  | octal digits => digits ≠ [] ∧ digits.length ≤ 3 ∧ (∀ c ∈ digits, isOctal c = true) ∧
      numberOf 8 digits < 256
  | hex digits => digits ≠ [] ∧ (∀ c ∈ digits, isXdigit c = true) ∧ numberOf 16 digits < 256

/-- C takes no more characters to the item. -/
def Ends (next : Char) : Item → Prop
  | octal digits => digits.length < 3 → isOctal next = false
  | hex _ => isXdigit next = false
  | _ => True

/-- A character literal is no double quote and has no code but that of the null byte. -/
def Fits : Item → Prop
  | plain _ => True
  | simple e => e ≠ .doubleQuote
  | octal digits => numberOf 8 digits = 0
  | hex _ => False

end Item

def itemsText (items : List Item) : List Char := items.flatMap Item.text

/-- The character behind what is in front of the items. -/
def nextItemChar (items : List Item) : Char := (itemsText items).headD '"'

/-- The items are those that C takes the text of a string apart into. -/
def Lexed : List Item → Prop
  | [] => True
  | item :: items => item.Valid '"' ∧ item.Ends (nextItemChar items) ∧ Lexed items

/-- No backslash or single quote behind a backslash, and no digit behind the third of a code. -/
def ItemsFit : List Item → Prop
  | [] => True
  | item :: items => (match item with
    | .simple e => e ≠ .backslash ∧ e ≠ .quote
    | .octal _ => isOctal (nextItemChar items) = false
    | _ => True) ∧ ItemsFit items

/-- They have room in the buffer of the token as well. -/
def StringFits (items : List Item) : Prop := items.length < stringSize ∧ ItemsFit items

/-! ## Reading them -/

/-- One token of this type is read, and nothing behind its `len` characters. -/
structure OneToken (s : FinshToken) (len : Nat) (type : TokenType) (after : FinshToken) : Prop where
  run : s.tokenRun = some (after, none)
  type : after.currentToken = type
  position : after.position = s.position + len
  eof : after.eof = false

def IntRead (s : FinshToken) (blanks : List Char) (lit : IntLiteral) : Prop :=
  ∃ after, OneToken s (blanks.length + lit.text.length) lit.type after ∧
    after.value.toNat = lit.body.value

def CharRead (s : FinshToken) (blanks : List Char) (item : Item) : Prop :=
  ∃ after, OneToken s (blanks.length + (item.text.length + 2)) .valueChar after ∧
    after.value.toNat % 256 = item.value.toNat

/-- What `token_proc_string` writes to `string` in front of its null byte. -/
def stringBytes (s : FinshToken) : Option (List Char) := (s.tokenStringLoop stringSize).map Prod.fst

/-- The bytes of the string are those of the literal, and so is the text up to a null byte. -/
def StringRead (s : FinshToken) (blanks : List Char) (items : List Item) : Prop :=
  ∃ after, OneToken s (blanks.length + ((itemsText items).length + 2)) .valueString after ∧
    stringBytes (s.advance (blanks.length + 1)).cleared = some (items.map Item.value) ∧
    after.string = (items.map Item.value).takeWhile (fun ch => ch != '\x00')

/-! ## Digits -/

open FinshToken

/-- Letters up to `f` and digits are below 128. -/
theorem lt_of_isXdigit {c : Char} (h : isXdigit c = true) : c.toNat < 128 := by
  unfold isXdigit isDigit isLetterBelow at h
  simp only [Bool.or_eq_true, Bool.and_eq_true, decide_eq_true_eq] at h
  rcases h with ⟨-, h⟩ | ⟨-, h⟩
  · exact Nat.lt_of_le_of_lt h (by decide)
  · have hle : c.toNat ≤ c.toNat ||| 32 := Nat.left_le_or
    omega

/-- What holds of the characters below 128 is looked at one by one. -/
theorem forall_char_of_lt {P : Char → Prop} (h : ∀ n : Fin 128, P (Char.ofNat n)) (c : Char)
    (hc : c.toNat < 128) : P c := by
  have hn := h ⟨c.toNat, hc⟩
  rwa [Char.ofNat_toNat] at hn

/-- What the scanner makes of a digit. -/
structure DigitOf (base : Nat) (c : Char) : Prop where
  lt : digitValue c < base
  spec : specDigit c = digitValue c
  xdigit : xdigitValue c = digitValue c
  line : c ≠ '\n'

instance (base : Nat) (c : Char) : Decidable (DigitOf base c) :=
  decidable_of_iff (digitValue c < base ∧ specDigit c = digitValue c ∧ xdigitValue c = digitValue c ∧
    c ≠ '\n') ⟨fun h => ⟨h.1, h.2.1, h.2.2.1, h.2.2.2⟩, fun h => ⟨h.lt, h.spec, h.xdigit, h.line⟩⟩

theorem hexDigit {c : Char} (h : isXdigit c = true) :
    DigitOf 16 c ∧ (isDigit c || isAlpha c) = true :=
  forall_char_of_lt (P := fun c => isXdigit c = true → DigitOf 16 c ∧ (isDigit c || isAlpha c) = true)
    (by decide) c (lt_of_isXdigit h) h

theorem isXdigit_of_isDigit {c : Char} (h : isDigit c = true) : isXdigit c = true := by
  unfold isXdigit
  rw [h, Bool.true_or]

theorem decDigit {c : Char} (h : isDigit c = true) :
    DigitOf 10 c ∧ c.toNat - 48 = digitValue c ∧ isBlank c = false :=
  forall_char_of_lt (P := fun c => isDigit c = true → DigitOf 10 c ∧ c.toNat - 48 = digitValue c ∧
    isBlank c = false) (by decide) c (lt_of_isXdigit (isXdigit_of_isDigit h)) h

theorem isDigit_of_isOctal {c : Char} (h : isOctal c = true) : isDigit c = true := by
  unfold isOctal at h
  unfold isDigit
  simp only [Bool.and_eq_true, decide_eq_true_eq] at h ⊢
  exact ⟨h.1, Char.le_trans h.2 (by decide)⟩

theorem octDigit {c : Char} (h : isOctal c = true) : DigitOf 8 c ∧ c.toNat - 48 = digitValue c :=
  forall_char_of_lt (P := fun c => isOctal c = true → DigitOf 8 c ∧ c.toNat - 48 = digitValue c)
    (by decide) c (lt_of_isXdigit (isXdigit_of_isDigit (isDigit_of_isOctal h))) h

theorem binDigit {c : Char} (h : c = '0' ∨ c = '1') : DigitOf 2 c := by
  rcases h with rfl | rfl
  · decide
  · decide

/-- The shifts of `token_spec_number` are the value of the digits, in 32 bits. -/
theorem tokenSpecNumber_eq {digits : List Char} {shift : Nat}
    (h : ∀ c ∈ digits, DigitOf (2 ^ shift) c) :
    tokenSpecNumber digits shift = BitVec.ofNat 32 (numberOf (2 ^ shift) digits) := by
  have hfold : ∀ (digits : List Char) (v : Nat), (∀ c ∈ digits, DigitOf (2 ^ shift) c) →
      digits.foldl (fun (w : BitVec 32) ch => (w <<< shift) ||| BitVec.ofNat 32 (specDigit ch))
        (BitVec.ofNat 32 v) =
        BitVec.ofNat 32 (digits.foldl (fun v c => v * 2 ^ shift + digitValue c) v) := by
    intro digits
    induction digits with
    | nil => exact fun _ _ => rfl
    | cons c digits ih =>
      intro v hd
      have hc := hd c List.mem_cons_self
      have hor : BitVec.ofNat 32 v <<< shift ||| BitVec.ofNat 32 (specDigit c) =
          BitVec.ofNat 32 (v * 2 ^ shift + digitValue c) := by
        have hshift : BitVec.ofNat 32 v <<< shift = BitVec.ofNat 32 (v <<< shift) := by
          apply BitVec.eq_of_toNat_eq
          rw [BitVec.toNat_shiftLeft, BitVec.toNat_ofNat, BitVec.toNat_ofNat, Nat.shiftLeft_eq,
            Nat.shiftLeft_eq, Nat.mod_mul_mod]
        rw [hc.spec, ← Nat.shiftLeft_eq, Nat.shiftLeft_add_eq_or_of_lt hc.lt, BitVec.ofNat_or, hshift]
      rw [List.foldl_cons, List.foldl_cons, hor]
      exact ih _ fun d hm => hd d (List.mem_cons_of_mem c hm)
  exact hfold digits 0 h

/-- The decimal digits. -/
theorem decimal_eq {digits : List Char} (h : ∀ c ∈ digits, isDigit c = true) :
    digits.foldl (fun v ch => v * 10 + BitVec.ofNat 32 (ch.toNat - 48)) (0 : BitVec 32) =
      BitVec.ofNat 32 (numberOf 10 digits) := by
  have hfold : ∀ (digits : List Char) (v : Nat), (∀ c ∈ digits, isDigit c = true) →
      digits.foldl (fun (w : BitVec 32) ch => w * 10 + BitVec.ofNat 32 (ch.toNat - 48))
        (BitVec.ofNat 32 v) =
        BitVec.ofNat 32 (digits.foldl (fun v c => v * 10 + digitValue c) v) := by
    intro digits
    induction digits with
    | nil => exact fun _ _ => rfl
    | cons c digits ih =>
      intro v hd
      have hc := decDigit (hd c List.mem_cons_self)
      have hadd : BitVec.ofNat 32 v * 10 + BitVec.ofNat 32 (c.toNat - 48) =
          BitVec.ofNat 32 (v * 10 + digitValue c) := by
        rw [hc.2.1, BitVec.ofNat_add, BitVec.ofNat_mul]
        rfl
      rw [List.foldl_cons, List.foldl_cons, hadd]
      exact ih _ fun d hm => hd d (List.mem_cons_of_mem c hm)
  exact hfold digits 0 h

theorem toNat_charOfNat {n : Nat} (h : n < 256) : (Char.ofNat n).toNat = n := by
  unfold Char.ofNat
  rw [dif_pos (.inl (Nat.lt_trans h (by decide)))]
  rfl

/-- The digits of an escape. -/
theorem escape_eq {b : Nat} {digits : List Char} (f : Char → Nat)
    (h : ∀ c ∈ digits, f c = digitValue c) (v : Nat) :
    digits.foldl (fun v c => v * b + f c) v = digits.foldl (fun v c => v * b + digitValue c) v := by
  induction digits generalizing v with
  | nil => rfl
  | cons c digits ih =>
    rw [List.foldl_cons, List.foldl_cons, h c List.mem_cons_self]
    exact ih (fun d hm => h d (List.mem_cons_of_mem c hm)) _

/-! ## Integers -/

section Numbers

variable {s t : FinshToken} {rest blanks digits text : List Char} {suffix : Option Char}
  {p : Char → Bool} {shift : Nat} {lit : IntLiteral} {c : Char}

theorem prev_set (v : BitVec 32) (type : TokenType) :
    ({ t with value := v, currentToken := type } : FinshToken).tokenPrevChar =
      { t.tokenPrevChar with value := v, currentToken := type } := by
  unfold tokenPrevChar
  split <;> rfl

/-- No digit and no letter follows. -/
structure Stops (suffix : Option Char) (rest : List Char) : Prop where
  suffix : ∀ c, suffix = some c → c = 'l' ∨ c = 'L'
  rest : isNameChar (peekChar rest) = false

/-- What is behind the digits is no digit. -/
theorem Stops.peek (h : Stops suffix rest) (hp : ∀ c, p c = true → isNameChar c = true)
    (hl : p 'l' = false ∧ p 'L' = false) : p (peekChar (suffix.toList ++ rest)) = false := by
  cases hs : suffix with
  | none =>
    cases hc : p (peekChar rest) with
    | false => exact hc
    | true => exact absurd (h.rest.symm.trans (hp _ hc)) Bool.false_ne_true
  | some c =>
    rcases h.suffix c hs with rfl | rfl
    · exact hl.1
    · exact hl.2

theorem isNameChar_of_alnum {c : Char} (h : (isDigit c || isAlpha c) = true) : isNameChar c = true := by
  have hlt : c.toNat < 128 := by
    rcases Bool.or_eq_true _ _ |>.mp h with h | h
    · exact lt_of_isXdigit (isXdigit_of_isDigit h)
    · unfold isAlpha isLetterBelow at h
      simp only [Bool.and_eq_true, decide_eq_true_eq] at h
      have hle : c.toNat ≤ c.toNat ||| 32 := Nat.left_le_or
      omega
  exact forall_char_of_lt (P := fun c => (isDigit c || isAlpha c) = true → isNameChar c = true)
    (by decide) c hlt h

theorem isNameChar_of_isDigit {c : Char} (h : isDigit c = true) : isNameChar c = true :=
  isNameChar_of_alnum (by rw [h, Bool.true_or])

/-- What follows the digits. -/
theorem numberEnd_spec (h : Rest t (suffix.toList ++ rest)) (hs : Stops suffix rest) (v : BitVec 32) :
    let after := t.tokenNextChar.2.numberEnd v (peekChar (suffix.toList ++ rest))
    after.currentToken = (if suffix.isSome then .valueLong else .valueInt) ∧ after.value = v ∧
      (after.position = t.position + suffix.toList.length ∧ after.eof = false ↔
        (suffix = none → ¬AtEnd rest)) := by
  cases hsome : suffix with
  | none =>
    rw [hsome] at h
    have hnone : t.Rest rest := h
    have hpeek : ¬(peekChar rest = 'l' ∨ peekChar rest = 'L') := by
      have hstop := hs.rest
      rintro (hl | hl)
      · rw [hl] at hstop
        exact absurd hstop (by decide)
      · rw [hl] at hstop
        exact absurd hstop (by decide)
    have hafter : t.tokenNextChar.2.numberEnd v (peekChar rest) =
        { (if AtEnd rest then t.ended else t) with value := v, currentToken := .valueInt } := by
      unfold numberEnd
      rw [if_neg (by simpa using hpeek), prev_set, hnone.prev_next]
    show (t.tokenNextChar.2.numberEnd v (peekChar rest)).currentToken = _ ∧ _
    rw [Option.toList_none, List.nil_append, hafter]
    refine ⟨rfl, rfl, ?_⟩
    by_cases hend : AtEnd rest
    · rw [if_pos hend]
      exact iff_of_false (fun hx => Bool.true_eq_false.mp hx.2) fun hx => hx rfl hend
    · rw [if_neg hend]
      exact iff_of_true ⟨rfl, h.eof⟩ fun _ => hend
  | some c =>
    rw [hsome] at h
    have hc := hs.suffix c hsome
    have hne : c ≠ '\n' := by
      rcases hc with rfl | rfl
      · decide
      · decide
    have hcons : Rest t (c :: rest) := h
    have hafter : t.tokenNextChar.2.numberEnd v (peekChar (c :: rest)) =
        { t.advance 1 with value := v, currentToken := .valueLong } := by
      unfold numberEnd
      rw [hcons.nextChar hne, peekChar_cons hne, if_pos (by simpa using hc)]
    show (t.tokenNextChar.2.numberEnd v (peekChar (c :: rest))).currentToken = _ ∧ _
    rw [Option.toList_some, List.cons_append, List.nil_append, hafter]
    exact ⟨rfl, rfl, iff_of_true ⟨rfl, h.eof⟩ fun hx => by cases hx⟩

/-- Digits with a base. -/
theorem numberSpec_eq (h : Rest t (digits ++ text)) (hds : ∀ c ∈ digits, p c = true ∧ c ≠ '\n')
    (hstop : p (peekChar text) = false) :
    t.numberSpec p shift = if numberSize ≤ digits.length then none
      else some ((t.advance digits.length).tokenNextChar.2.numberEnd (tokenSpecNumber digits shift)
        (peekChar text)) := by
  unfold numberSpec
  rw [h.tokenWhile_eq hds hstop h.lt_rounds]

/-- The number is read off the text in front of the scanner. -/
def NumberRead (t : FinshToken) (lit : IntLiteral) : Prop :=
  ∃ after, t.tokenProcNumber = some after ∧ after.currentToken = lit.type ∧
    (after.position = t.position + lit.text.length ∧ after.eof = false) ∧
    after.value.toNat = lit.body.value

/-- A number with a base is read up to `k` characters of the text in front of the digits. -/
theorem numberRead_spec {k : Nat} (hv : lit.Valid) (hs : Stops lit.suffix rest)
    (h : Rest (t.advance k) (digits ++ (lit.suffix.toList ++ rest)))
    (hproc : t.tokenProcNumber = (t.advance k).numberSpec p shift)
    (htext : lit.text.length = k + digits.length + lit.suffix.toList.length)
    (hvalue : lit.body.value = numberOf (2 ^ shift) digits)
    (hds : ∀ c ∈ digits, p c = true ∧ DigitOf (2 ^ shift) c)
    (hstop : p (peekChar (lit.suffix.toList ++ rest)) = false) :
    NumberRead t lit ↔ (lit.suffix = none → ¬AtEnd rest) ∧ digits.length < numberSize := by
  have hspec : (t.advance k).numberSpec p shift = _ :=
    numberSpec_eq h (fun c hc => ⟨(hds c hc).1, (hds c hc).2.line⟩) hstop
  have hend := numberEnd_spec h.advance hs (tokenSpecNumber digits shift)
  unfold NumberRead
  rw [hproc, hspec]
  by_cases hlong : numberSize ≤ digits.length
  · rw [if_pos hlong]
    refine iff_of_false ?_ fun hx => Nat.not_lt_of_le hlong hx.2
    rintro ⟨after, hnone, -⟩
    cases hnone
  · rw [if_neg hlong, and_iff_left (Nat.lt_of_not_le hlong), ← hend.2.2]
    have hval : (tokenSpecNumber digits shift).toNat = lit.body.value := by
      have hfits := hv.fits
      rw [tokenSpecNumber_eq fun c hc => (hds c hc).2, BitVec.toNat_ofNat, ← hvalue,
        Nat.mod_eq_of_lt hfits]
    have hpos : t.position + lit.text.length =
        ((t.advance k).advance digits.length).position + lit.suffix.toList.length := by
      show _ = t.position + k + digits.length + _
      omega
    rw [hpos]
    constructor
    · rintro ⟨after, hafter, -, hread, -⟩
      cases hafter
      exact hread
    · exact fun hread => ⟨_, rfl, hend.1, hread, (congrArg BitVec.toNat hend.2.1).trans hval⟩

theorem procNumber_oct (h : Rest t ('0' :: c :: text)) (hc : isOctal c = true) :
    t.tokenProcNumber = (t.advance 1).numberSpec isOctal 3 := by
  have hne : c ≠ '\n' := (octDigit hc).1.line
  have hx : ¬((c = 'x' ∨ c = 'X') ∨ c = 'b' ∨ c = 'B') := by
    rintro ((rfl | rfl) | rfl | rfl)
    all_goals exact absurd hc (by decide)
  rw [not_or] at hx
  unfold tokenProcNumber
  simp only [h.nextChar (show '0' ≠ '\n' by decide), if_true, Bool.or_eq_true, decide_eq_true_eq,
    h.next.nextChar hne, if_neg hx.1,
    if_neg hx.2, hc]

theorem procNumber_hex (h : Rest t ('0' :: c :: text)) (hc : c = 'x' ∨ c = 'X') :
    t.tokenProcNumber = (t.advance 2).numberSpec (fun ch => isDigit ch || isAlpha ch) 4 := by
  have hne : c ≠ '\n' := by
    rintro rfl
    exact absurd hc (by decide)
  unfold tokenProcNumber
  simp only [h.nextChar (show '0' ≠ '\n' by decide), if_true, Bool.or_eq_true, decide_eq_true_eq,
    h.next.nextChar hne, if_pos hc,
    advance_advance]

theorem procNumber_bin (h : Rest t ('0' :: c :: text)) (hc : c = 'b' ∨ c = 'B') :
    t.tokenProcNumber = (t.advance 2).numberSpec (fun ch => ch == '0' || ch == '1') 1 := by
  have hne : c ≠ '\n' := by
    rintro rfl
    exact absurd hc (by decide)
  have hx : ¬(c = 'x' ∨ c = 'X') := by
    rcases hc with rfl | rfl
    · decide
    · decide
  unfold tokenProcNumber
  simp only [h.nextChar (show '0' ≠ '\n' by decide), if_true, Bool.or_eq_true, decide_eq_true_eq,
    h.next.nextChar hne, if_neg hx, if_pos hc,
    advance_advance]

/-- A zero alone. -/
theorem procNumber_zero (h : Rest t ('0' :: text)) (hoct : isOctal (peekChar text) = false)
    (hx : ¬(peekChar text = 'x' ∨ peekChar text = 'X')) (hb : ¬(peekChar text = 'b' ∨ peekChar text = 'B')) :
    t.tokenProcNumber = some { (if AtEnd text then t.ended else t.advance 1) with
      value := 0, currentToken := .valueInt } := by
  have hprev := h.next.prev_next
  have hfst := h.next.nextChar_fst
  unfold tokenProcNumber
  simp only [h.nextChar (show '0' ≠ '\n' by decide), if_true, Bool.or_eq_true, decide_eq_true_eq,
    hfst, if_neg hx, if_neg hb, hoct,
    Bool.false_eq_true, if_false, hprev, ended_advance]

/-- A decimal number is its digits, one behind the other. -/
theorem procNumber_dec (h : Rest t (c :: digits ++ text)) (hc : c ≠ '0')
    (hds : ∀ d ∈ c :: digits, isDigit d = true) (hstop : isDigit (peekChar text) = false) :
    t.tokenProcNumber = some ((t.advance (c :: digits).length).tokenNextChar.2.numberEnd
      (BitVec.ofNat 32 (numberOf 10 (c :: digits))) (peekChar text)) := by
  have hcons : Rest t (c :: (digits ++ text)) := h
  have hne : c ≠ '\n' := (decDigit (hds c List.mem_cons_self)).1.line
  unfold tokenProcNumber
  simp only [hcons.nextChar hne, if_neg hc]
  rw [h.tokenWhile_eq (fun d hd => ⟨hds d hd, (decDigit (hds d hd)).1.line⟩) hstop h.lt_rounds,
    Option.map_some, decimal_eq hds]

theorem numberRead_dec (h : Rest t (c :: digits ++ (suffix.toList ++ rest)))
    (hv : IntLiteral.Valid ⟨.dec (c :: digits), suffix⟩) (hs : Stops suffix rest) :
    NumberRead t ⟨.dec (c :: digits), suffix⟩ ↔ (suffix = none → ¬AtEnd rest) := by
  obtain ⟨d, ds, hcons, hne, hds⟩ := hv.body
  obtain ⟨rfl, rfl⟩ := List.cons.inj hcons
  have hproc := procNumber_dec h hne hds (hs.peek (fun _ => isNameChar_of_isDigit) ⟨by decide, by decide⟩)
  have hend := numberEnd_spec h.advance hs (BitVec.ofNat 32 (numberOf 10 (c :: digits)))
  have hfits : numberOf 10 (c :: digits) < 4294967296 := hv.fits
  have hval : (BitVec.ofNat 32 (numberOf 10 (c :: digits))).toNat = numberOf 10 (c :: digits) := by
    rw [BitVec.toNat_ofNat, Nat.mod_eq_of_lt hfits]
  have hpos : t.position + (IntLiteral.text ⟨.dec (c :: digits), suffix⟩).length =
      (t.advance (c :: digits).length).position + suffix.toList.length := by
    show t.position + (c :: digits ++ suffix.toList).length =
      t.position + (c :: digits).length + suffix.toList.length
    rw [List.length_append, Nat.add_assoc]
  unfold NumberRead
  rw [hproc, hpos, ← hend.2.2]
  constructor
  · rintro ⟨after, hafter, -, hread, -⟩
    cases hafter
    exact hread
  · exact fun hread => ⟨_, rfl, hend.1, hread, (congrArg BitVec.toNat hend.2.1).trans hval⟩

theorem numberRead_oct (h : Rest t ('0' :: digits ++ (suffix.toList ++ rest)))
    (hv : IntLiteral.Valid ⟨.oct digits, suffix⟩) (hs : Stops suffix rest) :
    NumberRead t ⟨.oct digits, suffix⟩ ↔ (suffix = none → ¬AtEnd rest) ∧
      digits.length < numberSize ∧ (digits = [] → suffix = none) := by
  have hoct : ∀ c ∈ digits, isOctal c = true := hv.body
  have hname : ∀ c, isOctal c = true → isNameChar c = true := fun c hc =>
    isNameChar_of_isDigit (isDigit_of_isOctal hc)
  cases hd : digits with
  | cons c ds =>
    rw [hd] at h hv hoct
    have hcons : Rest t ('0' :: c :: (ds ++ (suffix.toList ++ rest))) := h
    have hproc := procNumber_oct hcons (hoct c List.mem_cons_self)
    have hspec := numberRead_spec hv hs hcons.next hproc
      (by simp only [IntLiteral.text, IntBody.text, List.length_append, List.length_cons]; omega) rfl
      (fun d hd => ⟨hoct d hd, (octDigit (hoct d hd)).1⟩) (hs.peek hname ⟨by decide, by decide⟩)
    rw [hspec, and_iff_left (fun hnil => absurd hnil (List.cons_ne_nil c ds))]
  | nil =>
    rw [hd] at h
    have hzero : Rest t ('0' :: (suffix.toList ++ rest)) := h
    have hstop : ∀ p : Char → Bool, (∀ c, p c = true → isNameChar c = true) →
        p 'l' = false ∧ p 'L' = false → p (peekChar (suffix.toList ++ rest)) = false :=
      fun p hp hl => hs.peek hp hl
    have hnot : ∀ x y : Char, isNameChar x = true → isNameChar y = true →
        (x ≠ 'l' ∧ x ≠ 'L') ∧ y ≠ 'l' ∧ y ≠ 'L' →
        ¬(peekChar (suffix.toList ++ rest) = x ∨ peekChar (suffix.toList ++ rest) = y) := by
      intro x y hx hy hne hc
      have hp := hstop (fun c => c == x || c == y) (by simp; exact ⟨hx, hy⟩)
        (by simp; exact ⟨⟨hne.1.1.symm, hne.2.1.symm⟩, hne.1.2.symm, hne.2.2.symm⟩)
      simp only [Bool.or_eq_false_iff, beq_eq_false_iff_ne] at hp
      exact hc.elim hp.1 hp.2
    have hproc := procNumber_zero hzero (hstop isOctal hname ⟨by decide, by decide⟩)
      (hnot 'x' 'X' (by decide) (by decide) (by decide)) (hnot 'b' 'B' (by decide) (by decide) (by decide))
    unfold NumberRead
    rw [hproc]
    cases hsome : suffix with
    | some l =>
      refine iff_of_false ?_ fun hx => by cases hx.2.2 rfl
      rintro ⟨after, hafter, htype, -⟩
      cases hafter
      exact absurd htype (show TokenType.valueInt ≠ .valueLong by decide)
    | none =>
      have hsize : (0 : Nat) < numberSize := by decide
      rw [and_iff_left ⟨hsize, fun _ => rfl⟩, forall_prop_of_true rfl]
      by_cases hend : AtEnd rest
      · refine iff_of_false ?_ fun hx => hx hend
        rintro ⟨after, hafter, -, ⟨-, heof⟩, -⟩
        rw [show (none : Option Char).toList ++ rest = rest from rfl, if_pos hend] at hafter
        cases hafter
        cases heof
      · refine iff_of_true ?_ hend
        rw [show (none : Option Char).toList ++ rest = rest from rfl, if_neg hend]
        exact ⟨_, rfl, rfl, ⟨rfl, h.eof⟩, rfl⟩

theorem numberRead_hex (h : Rest t ('0' :: c :: digits ++ (suffix.toList ++ rest)))
    (hv : IntLiteral.Valid ⟨.hex c digits, suffix⟩) (hs : Stops suffix rest) :
    NumberRead t ⟨.hex c digits, suffix⟩ ↔ (suffix = none → ¬AtEnd rest) ∧
      digits.length < numberSize ∧ suffix = none := by
  obtain ⟨hc, hne, hds⟩ := hv.body
  have hproc := procNumber_hex h hc
  have hrest : Rest (t.advance 2) (digits ++ (suffix.toList ++ rest)) := h.next.next
  have hdigit : ∀ d ∈ digits, (isDigit d || isAlpha d) = true ∧ DigitOf (2 ^ 4) d := fun d hd =>
    ⟨(hexDigit (hds d hd)).2, (hexDigit (hds d hd)).1⟩
  have hstop : (isDigit (peekChar rest) || isAlpha (peekChar rest)) = false := by
    cases hp : isDigit (peekChar rest) || isAlpha (peekChar rest) with
    | false => rfl
    | true => exact absurd (hs.rest.symm.trans (isNameChar_of_alnum hp)) Bool.false_ne_true
  cases hsome : suffix with
  | none =>
    rw [hsome] at hrest hv hs
    have hspec := numberRead_spec hv hs hrest hproc
      (by simp only [IntLiteral.text, IntBody.text, List.length_append, List.length_cons]; omega) rfl
      hdigit hstop
    rw [hspec, and_iff_left rfl]
  | some l =>
    -- the suffix is taken for a digit
    refine iff_of_false ?_ fun hx => by cases hx.2.2
    rw [hsome] at hrest hs
    have hl : (isDigit l || isAlpha l) = true ∧ l ≠ '\n' := by
      rcases hs.suffix l rfl with rfl | rfl
      · decide
      · decide
    have hlong : Rest (t.advance 2) (digits ++ [l] ++ ((none : Option Char).toList ++ rest)) := by
      rw [List.append_assoc]
      exact hrest
    have hspec : (t.advance 2).numberSpec (fun ch => isDigit ch || isAlpha ch) 4 = _ :=
      numberSpec_eq hlong (fun d hd => (List.mem_append.mp hd).elim
        (fun hd => ⟨(hdigit d hd).1, (hdigit d hd).2.line⟩)
        fun hd => List.mem_singleton.mp hd ▸ hl) hstop
    have hend := numberEnd_spec hlong.advance ⟨fun c hc => (by cases hc), hs.rest⟩
      (tokenSpecNumber (digits ++ [l]) 4)
    rintro ⟨after, hafter, htype, -⟩
    rw [hproc, hspec] at hafter
    split at hafter
    · cases hafter
    · cases hafter
      exact absurd (hend.1.symm.trans htype) (show TokenType.valueInt ≠ .valueLong by decide)

theorem numberRead_bin (h : Rest t ('0' :: c :: digits ++ (suffix.toList ++ rest)))
    (hv : IntLiteral.Valid ⟨.bin c digits, suffix⟩) (hs : Stops suffix rest) :
    NumberRead t ⟨.bin c digits, suffix⟩ ↔ (suffix = none → ¬AtEnd rest) ∧
      digits.length < numberSize := by
  obtain ⟨hc, hne, hds⟩ := hv.body
  have hproc := procNumber_bin h hc
  have hrest : Rest (t.advance 2) (digits ++ (suffix.toList ++ rest)) := h.next.next
  have hname : ∀ d : Char, (d == '0' || d == '1') = true → isNameChar d = true := by
    intro d hd
    have hd : d = '0' ∨ d = '1' := by simpa using hd
    rcases hd with rfl | rfl
    · decide
    · decide
  exact numberRead_spec hv hs hrest hproc
    (by simp only [IntLiteral.text, IntBody.text, List.length_append, List.length_cons]; omega) rfl
    (fun d hd => ⟨by simpa using hds d hd, binDigit (hds d hd)⟩)
    (hs.peek hname ⟨by decide, by decide⟩)

theorem numberRead_iff (h : Rest t (lit.text ++ rest)) (hv : lit.Valid)
    (hrest : isNameChar (peekChar rest) = false) : NumberRead t lit ↔ lit.Fits rest := by
  obtain ⟨body, suffix⟩ := lit
  have hs : Stops suffix rest := ⟨hv.suffix, hrest⟩
  have htext : Rest t (body.text ++ (suffix.toList ++ rest)) := by
    rw [← List.append_assoc]
    exact h
  cases body with
  | dec digits =>
    obtain ⟨c, ds, rfl, -⟩ := hv.body
    rw [numberRead_dec htext hv hs]
    exact (and_iff_left trivial).symm
  | oct digits => exact numberRead_oct htext hv hs
  | hex x digits => exact numberRead_hex htext hv hs
  | bin b digits => exact numberRead_bin htext hv hs

theorem tokenOperator_digit (h : Rest t (c :: text)) (hd : isDigit c = true) :
    t.tokenOperator = t.tokenProcNumber.map fun after => (after, none) := by
  have hne : ∀ x : Char, isDigit x = false → c ≠ x := by
    rintro x hx rfl
    exact absurd (hx.symm.trans hd) Bool.false_ne_true
  have hline : c ≠ '\n' := hne _ (by decide)
  have hprev : (t.advance 1).tokenPrevChar = t := by
    have hpeek := h.prev_next
    rwa [h.nextChar hline, if_neg (not_atEnd hline)] at hpeek
  unfold tokenOperator
  simp only [h.nextChar hline, hd, if_true, hprev, if_neg (hne '(' (by decide)),
    if_neg (hne ')' (by decide)), if_neg (hne ',' (by decide)), if_neg (hne ';' (by decide)),
    if_neg (hne '&' (by decide)), if_neg (hne '*' (by decide)), if_neg (hne '+' (by decide)),
    if_neg (hne '-' (by decide)), if_neg (hne '/' (by decide)), if_neg (hne '<' (by decide)),
    if_neg (hne '>' (by decide)), if_neg (hne '|' (by decide)), if_neg (hne '%' (by decide)),
    if_neg (hne '~' (by decide)), if_neg (hne '^' (by decide)), if_neg (hne '=' (by decide)),
    if_neg (hne '\'' (by decide)), if_neg (hne '"' (by decide))]

/-- A number begins with a digit. -/
theorem IntLiteral.Valid.text_cons (hv : lit.Valid) :
    ∃ c text, lit.text = c :: text ∧ isDigit c = true := by
  obtain ⟨body, suffix⟩ := lit
  cases body with
  | dec digits =>
    obtain ⟨c, ds, rfl, -, hds⟩ := hv.body
    exact ⟨c, _, rfl, hds c List.mem_cons_self⟩
  | _ => exact ⟨'0', _, rfl, by decide⟩

theorem intRead_iff (hblanks : ∀ c ∈ blanks, isBlank c = true)
    (h : Rest s (blanks ++ (lit.text ++ rest))) (hv : lit.Valid)
    (hrest : isNameChar (peekChar rest) = false) : IntRead s blanks lit ↔ lit.Fits rest := by
  obtain ⟨c, text, htext, hd⟩ := hv.text_cons
  have hcons : Rest s (blanks ++ c :: (text ++ rest)) := by
    rw [htext] at h
    exact h
  have hline : c ≠ '\n' := (decDigit hd).1.line
  have hrun := tokenRun_operator hcons hblanks hline (decDigit hd).2.2 (.inl hd)
  have hstart : Rest (s.advance blanks.length).cleared (lit.text ++ rest) := h.advance.cleared
  rw [tokenOperator_digit hcons.advance.cleared hd] at hrun
  rw [← numberRead_iff hstart hv hrest]
  have hpos : (s.advance blanks.length).cleared.position + lit.text.length =
      s.position + (blanks.length + lit.text.length) := Nat.add_assoc ..
  constructor
  · rintro ⟨after, ⟨hafter, htype, hposition, heof⟩, hvalue⟩
    rw [hrun] at hafter
    obtain ⟨after', hproc, heq⟩ := Option.map_eq_some_iff.mp hafter
    cases heq
    exact ⟨after, hproc, htype, ⟨hposition.trans hpos.symm, heof⟩, hvalue⟩
  · rintro ⟨after, hproc, htype, ⟨hposition, heof⟩, hvalue⟩
    refine ⟨after, ⟨?_, htype, hposition.trans hpos, heof⟩, hvalue⟩
    rw [hrun, hproc]
    rfl

end Numbers

/-! ## Characters -/

section Characters

variable {s t u : FinshToken} {rest blanks text : List Char} {item : Item} {c : Char}

/-- What `token_run` makes of the character of a literal. -/
def charToken (r : Char × FinshToken × Option FinshError) : FinshToken × Option FinshError :=
  ({ r.2.1 with
      value := (r.2.1.value &&& 0xFFFFFF00#32) ||| BitVec.ofNat 32 (r.1.toNat % 256)
      currentToken := .valueChar }, r.2.2)

theorem tokenOperator_char (h : Rest t ('\'' :: text)) :
    t.tokenOperator = (t.advance 1).tokenProcChar.map charToken := by
  unfold tokenOperator
  rw [h.nextChar (by decide)]
  rfl

theorem charToken_value (r : Char × FinshToken × Option FinshError) :
    (charToken r).1.value.toNat % 256 = r.1.toNat % 256 := by
  have hlt : r.1.toNat % 256 < 256 := Nat.mod_lt _ (by decide)
  have hc : (BitVec.ofNat 32 (r.1.toNat % 256)).toNat = r.1.toNat % 256 := by
    rw [BitVec.toNat_ofNat, Nat.mod_eq_of_lt (by omega)]
  have hand : (r.2.1.value &&& 0xFFFFFF00#32).toNat % 2 ^ 8 = 0 := by
    rw [BitVec.toNat_and, Nat.and_mod_two_pow]
    exact Nat.and_zero _
  show ((r.2.1.value &&& 0xFFFFFF00#32) ||| BitVec.ofNat 32 (r.1.toNat % 256)).toNat % 2 ^ 8 = _
  rw [BitVec.toNat_or, Nat.or_mod_two_pow, hand, Nat.zero_or, hc]
  exact Nat.mod_eq_of_lt hlt

theorem procChar_plain (h : Rest u (c :: '\'' :: rest)) (hc : c ≠ '\\') (hline : c ≠ '\n') :
    u.tokenProcChar = some (c, u.advance 2, none) := by
  unfold tokenProcChar
  simp only [h.nextChar hline, if_neg hc, Option.map_some,
    h.next.nextChar (show '\'' ≠ '\n' by decide), if_true, advance_advance]

/-- What follows the backslash of an escape that is known. -/
theorem procChar_escape {c r : Char} (h : Rest u ('\\' :: c :: '\'' :: rest)) (hline : c ≠ '\n')
    (hr : commonEscape c = some r ∨ commonEscape c = none ∧ (c = '\\' ∨ c = '\'') ∧ r = c) :
    u.tokenProcChar = some (r, u.advance 3, none) := by
  have hclose : (u.advance 2).tokenNextChar = ('\'', u.advance 3) :=
    h.next.next.nextChar (by decide)
  unfold tokenProcChar
  simp only [h.nextChar (show '\\' ≠ '\n' by decide), if_true, h.next.nextChar hline]
  rcases hr with hr | ⟨hnone, hc, rfl⟩
  · simp only [hr, Option.map_some, advance_advance, Nat.reduceAdd, hclose, if_true]
  · simp only [hnone, Bool.or_eq_true, decide_eq_true_eq, if_pos hc, Option.map_some, advance_advance,
      Nat.reduceAdd, hclose, if_true]

theorem procChar_simple {e : SimpleEscape} (h : Rest u ('\\' :: e.letter :: '\'' :: rest))
    (he : e ≠ .doubleQuote) : u.tokenProcChar = some (e.value, u.advance 3, none) := by
  refine procChar_escape h (by cases e <;> decide) ?_
  cases e with
  | doubleQuote => exact absurd rfl he
  | backslash => exact .inr (by decide)
  | quote => exact .inr (by decide)
  | _ => exact .inl rfl

/-- An escape that is not known is not read, and there is no quote. -/
theorem procChar_unknown (h : Rest u ('\\' :: c :: text)) (hline : c ≠ '\n')
    (hnone : commonEscape c = none) (hc : ¬(c = '\\' ∨ c = '\'')) (hd : isDigit c = false) :
    ∃ r after, u.tokenProcChar = some (r, after, some .expectChar) := by
  have hprev := h.next.prev_next
  rw [h.next.nextChar hline, if_neg (not_atEnd hline)] at hprev
  unfold tokenProcChar
  simp only [h.nextChar (show '\\' ≠ '\n' by decide), if_true, h.next.nextChar hline, hnone,
    Bool.or_eq_true, decide_eq_true_eq, if_neg hc, hd, Bool.false_eq_true, if_false, Option.map_some,
    hprev, if_neg (not_or.mp hc).2]
  exact ⟨_, _, rfl⟩

/-- The number behind the backslash is read as 0. -/
theorem procChar_octal {digits : List Char} (h : Rest u ('\\' :: c :: digits ++ '\'' :: rest))
    (hds : ∀ d ∈ c :: digits, isOctal d = true) (hlen : (c :: digits).length ≤ 3) :
    u.tokenProcChar = some ('\x00', u.advance (digits.length + 3), none) := by
  have hcons : Rest u ('\\' :: c :: (digits ++ '\'' :: rest)) := h
  have hdig := hds c List.mem_cons_self
  have hline : c ≠ '\n' := (octDigit hdig).1.line
  have hnot : commonEscape c = none ∧ ¬(c = '\\' ∨ c = '\'') :=
    forall_char_of_lt (P := fun c => isOctal c = true → commonEscape c = none ∧ ¬(c = '\\' ∨ c = '\''))
      (by decide) c (lt_of_isXdigit (isXdigit_of_isDigit (isDigit_of_isOctal hdig))) hdig
  have hrest : Rest (u.advance 2) (digits ++ '\'' :: rest) := hcons.next.next
  have hloop := hrest.tokenWhile_eq (p := isDigit) (n := u.rounds)
    (fun d hd => ⟨isDigit_of_isOctal (hds d (List.mem_cons_of_mem c hd)),
      (octDigit (hds d (List.mem_cons_of_mem c hd))).1.line⟩)
    (by rw [peekChar_cons (by decide)]; decide) hrest.lt_rounds
  have hprev := hrest.advance.prev_next
  rw [if_neg (not_atEnd (by decide))] at hprev
  have hclose := hrest.advance.nextChar (show '\'' ≠ '\n' by decide)
  have hroom : ¬4 ≤ digits.length + 1 := by
    rw [List.length_cons] at hlen
    omega
  unfold tokenProcChar
  simp only [hcons.nextChar (show '\\' ≠ '\n' by decide), if_true, hcons.next.nextChar hline, hnot.1,
    Bool.or_eq_true, decide_eq_true_eq, if_neg hnot.2, isDigit_of_isOctal hdig, advance_advance,
    Nat.reduceAdd, hloop, if_neg hroom, Option.map_some]
  simp only [advance_advance] at hprev hclose
  rw [hclose] at hprev
  simp only [hclose, hprev, if_true]
  rw [show 2 + digits.length + 1 = digits.length + 3 by omega]

/-- The scanner stands behind the quote of a character. -/
theorem charRead_iff_of (hblanks : ∀ c ∈ blanks, isBlank c = true)
    (h : Rest s (blanks ++ '\'' :: text)) {r : Char × FinshToken × Option FinshError}
    (hproc : ((s.advance blanks.length).cleared.advance 1).tokenProcChar = some r)
    (hafter : r.2.2 = none →
      r.2.1 = (s.advance blanks.length).cleared.advance (item.text.length + 2)) :
    CharRead s blanks item ↔ r.2.2 = none ∧ r.1.toNat % 256 = item.value.toNat := by
  have hrun := tokenRun_operator h hblanks (by decide) (by decide) (.inr (by decide))
  rw [tokenOperator_char h.advance.cleared, hproc, Option.map_some] at hrun
  have hvalue := charToken_value r
  constructor
  · rintro ⟨after, hone, hval⟩
    have heq := hone.run
    rw [hrun, Option.some.injEq] at heq
    have hfst : (charToken r).1 = after := congrArg Prod.fst heq
    refine ⟨congrArg Prod.snd heq, ?_⟩
    rw [← hvalue, hfst]
    exact hval
  · rintro ⟨herr, hval⟩
    have hat := hafter herr
    refine ⟨(charToken r).1, ⟨?_, rfl, ?_, ?_⟩, hvalue.trans hval⟩
    · rw [hrun]
      exact congrArg (fun e => some ((charToken r).1, e)) herr
    · show r.2.1.position = _
      rw [hat]
      exact Nat.add_assoc ..
    · show r.2.1.eof = false
      rw [hat]
      exact h.eof

theorem charRead_iff (hblanks : ∀ c ∈ blanks, isBlank c = true)
    (h : Rest s (blanks ++ '\'' :: (item.text ++ '\'' :: rest))) (hv : item.Valid '\'') :
    CharRead s blanks item ↔ item.Fits := by
  have hu : Rest ((s.advance blanks.length).cleared.advance 1) (item.text ++ '\'' :: rest) :=
    h.advance.cleared.next
  cases item with
  | plain c =>
    obtain ⟨-, hbs, hline, -, hlt⟩ := hv
    rw [charRead_iff_of hblanks h (procChar_plain hu hbs hline) fun _ => rfl]
    exact iff_of_true ⟨rfl, Nat.mod_eq_of_lt hlt⟩ trivial
  | simple e =>
    by_cases he : e = .doubleQuote
    · subst he
      obtain ⟨r, after, hproc⟩ := procChar_unknown hu (by decide) rfl (by decide) (by decide)
      rw [charRead_iff_of hblanks h hproc fun hx => by cases hx]
      exact iff_of_false (fun hx => by cases hx.1) fun hx => hx rfl
    · rw [charRead_iff_of hblanks h (procChar_simple hu he) fun _ => rfl]
      refine iff_of_true ⟨rfl, ?_⟩ he
      cases e <;> rfl
  | octal digits =>
    obtain ⟨hne, hlen, hds, hlt⟩ := hv
    obtain ⟨c, digits, rfl⟩ := List.exists_cons_of_ne_nil hne
    rw [charRead_iff_of hblanks h (procChar_octal hu hds hlen) fun _ => ?_]
    · have hval : (Item.value (.octal (c :: digits))).toNat = numberOf 8 (c :: digits) :=
        toNat_charOfNat hlt
      rw [hval]
      exact ⟨fun hx => hx.2.symm, fun hx => ⟨rfl, hx.symm⟩⟩
    · refine advance_advance.trans (congrArg (FinshToken.advance _) ?_)
      show 1 + (digits.length + 3) = digits.length + 1 + 1 + 2
      omega
  | hex digits =>
    obtain ⟨r, after, hproc⟩ := procChar_unknown hu (by decide) rfl (by decide) (by decide)
    rw [charRead_iff_of hblanks h hproc fun hx => by cases hx]
    exact iff_of_false (fun hx => by cases hx.1) fun hx => hx

end Characters

/-! ## Strings -/

section Strings

variable {s t u : FinshToken} {rest blanks text digits : List Char} {item : Item} {items : List Item}
  {c : Char} {n : Nat}

/-- The character that the scanner makes of an item whose end it sees. -/
def Item.scanned : Item → Char
  | simple e => if e = .backslash ∨ e = .quote then '\x00' else e.value
  | item => item.value

theorem procEscape_simple {e : SimpleEscape} (h : Rest u (e.letter :: text)) :
    u.tokenProcEscape = some (Item.scanned (.simple e), u.advance 1) := by
  have hnext := h.nextChar (by cases e <;> decide)
  unfold tokenProcEscape
  rw [hnext]
  cases e <;> rfl

theorem charOfInt_eq (h : n < 256) : charOfInt n = Char.ofNat n := by
  rw [charOfInt, Nat.mod_eq_of_lt h]

theorem procEscape_hex (h : Rest u ('x' :: digits ++ text)) (hds : ∀ d ∈ digits, isXdigit d = true)
    (hstop : isXdigit (peekChar text) = false) (hend : ¬AtEnd text) :
    u.tokenProcEscape = some (charOfInt (numberOf 16 digits), u.advance (1 + digits.length)) := by
  have hcons : Rest u ('x' :: (digits ++ text)) := h
  have hloop := hcons.next.tokenWhile_eq (p := isXdigit) (n := u.rounds)
    (fun d hd => ⟨hds d hd, (hexDigit (hds d hd)).1.line⟩) hstop hcons.next.lt_rounds
  have hprev := hcons.next.advance.prev_next
  rw [if_neg hend, advance_advance] at hprev
  have hnum := escape_eq (b := 16) xdigitValue (fun d hd => (hexDigit (hds d hd)).1.xdigit) 0
  unfold tokenProcEscape
  rw [hcons.nextChar (by decide)]
  show ((tokenWhile isXdigit u.rounds (u.advance 1)).map _) = _
  rw [hloop, Option.map_some, advance_advance]
  simp only [hprev, hnum]
  rfl

theorem procEscape_octal (h : Rest u (c :: digits ++ text)) (hds : ∀ d ∈ c :: digits, isOctal d = true)
    (hstop : isOctal (peekChar text) = false) (hend : ¬AtEnd text) :
    u.tokenProcEscape = some (charOfInt (numberOf 8 (c :: digits)), u.advance (1 + digits.length)) := by
  have hcons : Rest u (c :: (digits ++ text)) := h
  have hc := hds c List.mem_cons_self
  have hloop := hcons.next.tokenWhile_eq (p := isOctal) (n := u.rounds)
    (fun d hd => ⟨hds d (List.mem_cons_of_mem c hd), (octDigit (hds d (List.mem_cons_of_mem c hd))).1.line⟩)
    hstop hcons.next.lt_rounds
  have hprev := hcons.next.advance.prev_next
  rw [if_neg hend, advance_advance] at hprev
  have hnum := escape_eq (b := 8) (fun ch => ch.toNat - 48) (fun d hd => (octDigit (hds d hd)).2) 0
  have hnot : commonEscape c = none ∧ c ≠ 'f' ∧ c ≠ 'a' ∧ c ≠ '"' ∧ ¬(c = 'x' ∨ c = 'X') :=
    forall_char_of_lt (P := fun c => isOctal c = true → commonEscape c = none ∧ c ≠ 'f' ∧ c ≠ 'a' ∧
      c ≠ '"' ∧ ¬(c = 'x' ∨ c = 'X')) (by decide) c
      (lt_of_isXdigit (isXdigit_of_isDigit (isDigit_of_isOctal hc))) hc
  obtain ⟨hnone, hf, ha, hq, hx⟩ := hnot
  unfold tokenProcEscape
  simp only [hcons.nextChar (octDigit hc).1.line, hnone, if_neg hf, if_neg ha, if_neg hq,
    Bool.or_eq_true, decide_eq_true_eq, if_neg hx, hc, if_true, hloop, Option.map_some, advance_advance,
    hprev, hnum]
  rfl

theorem stringLoop_quote (h : Rest s ('"' :: rest)) :
    s.tokenStringLoop (n + 1) = some ([], s.advance 1, none) := by
  have heof : ¬(s.advance 1).eof = true := h.not_eof
  unfold tokenStringLoop
  simp only [h.nextChar (show '"' ≠ '\n' by decide), if_neg heof]
  rfl

theorem stringLoop_plain (h : Rest s (c :: text)) (hv : (Item.plain c).Valid '"') :
    s.tokenStringLoop (n + 1) = ((s.advance 1).tokenStringLoop n).map fun r => (c :: r.1, r.2) := by
  obtain ⟨hquote, hbs, hline, -⟩ := hv
  have heof : ¬(s.advance 1).eof = true := h.not_eof
  rw [tokenStringLoop]
  simp only [h.nextChar hline, if_neg heof, if_neg hbs, if_neg hquote]

theorem stringLoop_escape {after : FinshToken} (h : Rest s ('\\' :: text))
    (hesc : (s.advance 1).tokenProcEscape = some (c, after)) :
    s.tokenStringLoop (n + 1) = (after.tokenStringLoop n).map fun r => (c :: r.1, r.2) := by
  have heof : ¬(s.advance 1).eof = true := h.not_eof
  rw [tokenStringLoop]
  simp only [h.nextChar (show '\\' ≠ '\n' by decide), if_neg heof, if_true, hesc]

/-- An item whose end the scanner sees. -/
theorem stringLoop_item (h : Rest s (item.text ++ text)) (hv : item.Valid '"') (hend : ¬AtEnd text)
    (hoct : ∀ ds, item = .octal ds → isOctal (peekChar text) = false)
    (hhex : ∀ ds, item = .hex ds → isXdigit (peekChar text) = false) :
    s.tokenStringLoop (n + 1) =
      ((s.advance item.text.length).tokenStringLoop n).map fun r => (item.scanned :: r.1, r.2) := by
  cases item with
  | plain c => exact stringLoop_plain h hv
  | simple e => exact stringLoop_escape h (procEscape_simple (Rest.next h))
  | octal digits =>
    obtain ⟨hne, -, hds, hlt⟩ := hv
    obtain ⟨d, ds, rfl⟩ := List.exists_cons_of_ne_nil hne
    have hesc := procEscape_octal (Rest.next h) hds (hoct _ rfl) hend
    rw [charOfInt_eq hlt, advance_advance, ← Nat.add_assoc, Nat.add_comm _ ds.length] at hesc
    exact stringLoop_escape h hesc
  | hex digits =>
    obtain ⟨hne, hds, hlt⟩ := hv
    have hesc := procEscape_hex (Rest.next h) hds (hhex _ rfl) hend
    rw [charOfInt_eq hlt, advance_advance, ← Nat.add_assoc, Nat.add_comm _ digits.length] at hesc
    exact stringLoop_escape h hesc

theorem itemsText_cons : itemsText (item :: items) = item.text ++ itemsText items := List.flatMap_cons

/-- The first character of an item. -/
theorem Item.Valid.text_cons (hv : item.Valid '"') :
    ∃ c text, item.text = c :: text ∧ c ≠ '\n' ∧ (isOctal c = true → item = .plain c) := by
  cases item with
  | plain c => exact ⟨c, [], rfl, hv.2.2.1, fun _ => rfl⟩
  | _ => exact ⟨'\\', _, rfl, by decide, fun h => absurd h (by decide)⟩

/-- What is in front of the scanner behind an item. -/
theorem Lexed.peek (rest : List Char) (h : Lexed items) :
    peekChar (itemsText items ++ '"' :: rest) = nextItemChar items ∧
      ¬AtEnd (itemsText items ++ '"' :: rest) := by
  cases items with
  | nil => exact ⟨peekChar_cons (by decide), not_atEnd (by decide)⟩
  | cons item items =>
    obtain ⟨c, text, htext, hc, -⟩ := h.1.text_cons
    rw [nextItemChar, itemsText_cons, htext, List.cons_append, List.cons_append]
    exact ⟨peekChar_cons hc, not_atEnd hc⟩

/-- The digits that stand as characters in front of the items. -/
theorem Lexed.split_octal (h : Lexed items) : ∃ ds items₂, itemsText items = ds ++ itemsText items₂ ∧
    items.length = ds.length + items₂.length ∧ (∀ d ∈ ds, isOctal d = true) ∧ Lexed items₂ ∧
    isOctal (nextItemChar items₂) = false := by
  induction items with
  | nil => exact ⟨[], [], rfl, rfl, fun d hd => absurd hd List.not_mem_nil, h, by decide⟩
  | cons item items ih =>
    obtain ⟨c, text, htext, -, hplain⟩ := h.1.text_cons
    by_cases hc : isOctal c = true
    · obtain rfl := hplain hc
      obtain ⟨ds, items₂, htail, hlen, hds, hlex, hstop⟩ := ih h.2.2
      refine ⟨c :: ds, items₂, ?_, ?_, fun d hd => ?_, hlex, hstop⟩
      · rw [itemsText_cons, htail]
        rfl
      · rw [List.length_cons, List.length_cons, hlen]
        omega
      · rcases List.mem_cons.mp hd with rfl | hd
        · exact hc
        · exact hds d hd
    · refine ⟨[], item :: items, rfl, by simp, fun d hd => absurd hd List.not_mem_nil, h, ?_⟩
      rw [nextItemChar, itemsText_cons, htext]
      simpa using hc

/-- An item that is no code with a digit behind it. -/
theorem stringLoop_lexed (hl : Lexed (item :: items))
    (h : Rest s (itemsText (item :: items) ++ '"' :: rest))
    (hoct : ∀ ds, item = .octal ds → isOctal (nextItemChar items) = false) :
    Rest (s.advance item.text.length) (itemsText items ++ '"' :: rest) ∧ ∀ n,
      s.tokenStringLoop (n + 1) =
        ((s.advance item.text.length).tokenStringLoop n).map fun r => (item.scanned :: r.1, r.2) := by
  obtain ⟨hv, hends, hlex⟩ := hl
  rw [itemsText_cons, List.append_assoc] at h
  obtain ⟨hpeek, hend⟩ := hlex.peek rest
  refine ⟨h.advance, fun n => stringLoop_item h hv hend (fun ds hd => ?_) fun ds hd => ?_⟩
  · rw [hpeek]
    exact hoct ds hd
  · rw [hpeek]
    subst hd
    exact hends

/-- Items that fit are read one by one. -/
theorem stringLoop_fits (hl : Lexed items) (hfit : ItemsFit items)
    (h : Rest s (itemsText items ++ '"' :: rest)) (hn : items.length < n) :
    s.tokenStringLoop n =
      some (items.map Item.value, s.advance ((itemsText items).length + 1), none) := by
  induction items generalizing s n with
  | nil =>
    obtain ⟨n, rfl⟩ : ∃ m, n = m + 1 := ⟨n - 1, by rw [List.length_nil] at hn; omega⟩
    exact stringLoop_quote h
  | cons item items ih =>
    obtain ⟨n, rfl⟩ : ∃ m, n = m + 1 := ⟨n - 1, by omega⟩
    rw [List.length_cons] at hn
    obtain ⟨hitem, hitems⟩ := hfit
    obtain ⟨hrest, hstep⟩ := stringLoop_lexed hl h (by rintro ds rfl; exact hitem)
    have hscan : item.scanned = item.value := by
      cases item with
      | simple e => exact if_neg fun hc => hc.elim hitem.1 hitem.2
      | _ => rfl
    rw [hstep, ih hl.2.2 hitems hrest (by omega), Option.map_some, hscan, advance_advance, itemsText_cons,
      List.length_append, List.map_cons, Nat.add_assoc]

/-- No more characters are made of the items than there are. Where they are the right ones, the items
fit. -/
theorem stringLoop_values {r : List Char × FinshToken × Option FinshError} (hl : Lexed items)
    (h : Rest s (itemsText items ++ '"' :: rest)) (hr : s.tokenStringLoop n = some r) :
    r.1.length ≤ items.length ∧
      (r.1 = items.map Item.value → ItemsFit items ∧ items.length < n) := by
  induction n generalizing items s r with
  | zero => cases hr
  | succ n ih =>
    cases items with
    | nil =>
      rw [stringLoop_quote h] at hr
      cases hr
      exact ⟨Nat.le_refl _, fun _ => ⟨trivial, Nat.succ_pos n⟩⟩
    | cons item items =>
      by_cases hmerge : ∃ ds, item = .octal ds ∧ isOctal (nextItemChar items) = true
      · -- the digits behind the code are taken to it
        obtain ⟨ds, rfl, hnext⟩ := hmerge
        obtain ⟨hv, -, hlex⟩ := hl
        obtain ⟨hne, -, hds, -⟩ := hv
        obtain ⟨c, ds, rfl⟩ := List.exists_cons_of_ne_nil hne
        obtain ⟨more, items₂, htext, hlen, hmore, hlex₂, hstop⟩ := hlex.split_octal
        obtain ⟨hpeek, hend⟩ := hlex₂.peek rest
        have hpos : 0 < more.length := by
          refine Nat.pos_of_ne_zero fun h0 => ?_
          rw [List.length_eq_zero_iff.mp h0, List.nil_append] at htext
          rw [nextItemChar, htext] at hnext
          exact absurd (hnext.symm.trans hstop) Bool.false_ne_true.symm
        have hline : Rest s ('\\' :: (c :: (ds ++ more) ++ (itemsText items₂ ++ '"' :: rest))) := by
          rw [itemsText_cons, htext] at h
          simpa [Item.text] using h
        have hesc := procEscape_octal hline.next (fun d hd => ?_) (hpeek ▸ hstop) hend
        · rw [stringLoop_escape hline hesc] at hr
          obtain ⟨r', hr', rfl⟩ := Option.map_eq_some_iff.mp hr
          have hafter : Rest ((s.advance 1).advance (1 + (ds ++ more).length))
              (itemsText items₂ ++ '"' :: rest) := by
            have hx := hline.next.advance
            rwa [List.length_cons, Nat.add_comm] at hx
          have hle := (ih hlex₂ hafter hr').1
          refine ⟨?_, fun heq => ?_⟩
          · show r'.1.length + 1 ≤ items.length + 1
            omega
          · have hlens := congrArg List.length heq
            rw [List.length_map, List.length_cons, List.length_cons] at hlens
            omega
        · rcases List.mem_append.mp (show d ∈ c :: ds ++ more from hd) with hd | hd
          · exact hds d hd
          · exact hmore d hd
      · have hoct : ∀ ds, item = .octal ds → isOctal (nextItemChar items) = false := fun ds hd => by
          cases hx : isOctal (nextItemChar items) with
          | false => rfl
          | true => exact absurd ⟨ds, hd, hx⟩ hmerge
        obtain ⟨hrest, hstep⟩ := stringLoop_lexed hl h hoct
        rw [hstep] at hr
        obtain ⟨r', hr', rfl⟩ := Option.map_eq_some_iff.mp hr
        obtain ⟨hle, hfit⟩ := ih hl.2.2 hrest hr'
        refine ⟨Nat.succ_le_succ hle, fun heq => ?_⟩
        obtain ⟨hhead, htail⟩ := List.cons.inj heq
        obtain ⟨hitems, hlt⟩ := hfit htail
        refine ⟨⟨?_, hitems⟩, Nat.succ_lt_succ hlt⟩
        cases item with
        | simple e =>
          refine ⟨?_, ?_⟩
          · rintro rfl
            exact absurd hhead (by decide)
          · rintro rfl
            exact absurd hhead (by decide)
        | octal ds => exact hoct ds rfl
        | _ => exact trivial

theorem tokenOperator_string (h : Rest t ('"' :: text)) :
    t.tokenOperator = (t.advance 1).tokenProcString.map fun r =>
      ({ r.1 with currentToken := .valueString }, r.2) := by
  unfold tokenOperator
  rw [h.nextChar (by decide)]
  rfl

theorem stringRead_iff (hblanks : ∀ c ∈ blanks, isBlank c = true)
    (h : Rest s (blanks ++ '"' :: (itemsText items ++ '"' :: rest))) (hl : Lexed items) :
    StringRead s blanks items ↔ StringFits items := by
  have hu : Rest (s.advance (blanks.length + 1)).cleared (itemsText items ++ '"' :: rest) :=
    h.advance.cleared.next
  constructor
  · rintro ⟨-, -, hbytes, -⟩
    obtain ⟨r, hr, hval⟩ := Option.map_eq_some_iff.mp hbytes
    exact ((stringLoop_values hl hu hr).2 hval).symm
  · rintro ⟨hlen, hfit⟩
    have hloop := stringLoop_fits hl hfit hu hlen
    have hrun := tokenRun_operator h hblanks (by decide) (by decide) (.inr (by decide))
    rw [tokenOperator_string h.advance.cleared] at hrun
    have hproc : ((s.advance blanks.length).cleared.advance 1).tokenProcString =
        some ({ (s.advance (blanks.length + 1)).cleared.advance ((itemsText items).length + 1) with
          string := (items.map Item.value).takeWhile fun ch => ch != '\x00' }, none) := by
      unfold tokenProcString
      show Option.map _ ((s.advance (blanks.length + 1)).cleared.tokenStringLoop stringSize) = _
      rw [hloop]
      rfl
    rw [hproc] at hrun
    refine ⟨_, ⟨hrun, rfl, ?_, h.eof⟩, ?_, rfl⟩
    · show s.position + (blanks.length + 1) + ((itemsText items).length + 1) = _
      omega
    · rw [stringBytes, hloop]
      rfl

end Strings

/-- The literals that the scanner reads as C does. No letter and no digit stands behind a number. -/
theorem literal_read_iff {s : FinshToken} {blanks rest : List Char}
    (hblanks : ∀ c ∈ blanks, isBlank c = true) :
    (∀ lit : IntLiteral, lit.Valid → isNameChar (peekChar rest) = false →
      Rest s (blanks ++ (lit.text ++ rest)) → (IntRead s blanks lit ↔ lit.Fits rest)) ∧
    (∀ item : Item, item.Valid '\'' → Rest s (blanks ++ '\'' :: (item.text ++ '\'' :: rest)) →
      (CharRead s blanks item ↔ item.Fits)) ∧
    ∀ items, Lexed items → Rest s (blanks ++ '"' :: (itemsText items ++ '"' :: rest)) →
      (StringRead s blanks items ↔ StringFits items) :=
  ⟨fun _ hv hrest h => intRead_iff hblanks h hv hrest, fun _ hv h => charRead_iff hblanks h hv,
    fun _ hl h => stringRead_iff hblanks h hl⟩

theorem rest_init (line : List Char) : Rest (finshTokenInit line) line := ⟨rfl, Nat.zero_le _, rfl⟩

def hexShort : IntLiteral := ⟨.hex 'x' ['1', 'f'], none⟩

def lineBreak : List Item := [.plain 'a', .simple .newline]

theorem literal_read_three : IntRead (finshTokenInit " 0x1f;".toList) [' '] hexShort ∧
    CharRead (finshTokenInit "'a';".toList) [] (.plain 'a') ∧
    StringRead (finshTokenInit "\"a\\n\";".toList) [] lineBreak := by
  have hnil : ∀ c ∈ ([] : List Char), isBlank c = true := fun c hc => absurd hc List.not_mem_nil
  refine ⟨?_, ?_, ?_⟩
  · have hv : hexShort.Valid :=
      ⟨⟨.inl rfl, by decide, List.all_eq_true.mp rfl⟩, fun c hc => (by cases hc), by decide⟩
    have hline : Rest (finshTokenInit " 0x1f;".toList) ([' '] ++ (hexShort.text ++ [';'])) := rest_init _
    exact ((literal_read_iff (List.all_eq_true.mp rfl)).1 hexShort hv (by decide) hline).mpr
      ⟨fun _ => by decide, by decide, rfl⟩
  · have hv : (Item.plain 'a').Valid '\'' := ⟨by decide, by decide, by decide, by decide, by decide⟩
    have hline : Rest (finshTokenInit "'a';".toList)
        ([] ++ '\'' :: ((Item.plain 'a').text ++ '\'' :: [';'])) := rest_init _
    exact ((literal_read_iff hnil).2.1 (.plain 'a') hv hline).mpr trivial
  · have hl : Lexed lineBreak :=
      ⟨⟨by decide, by decide, by decide, by decide, by decide⟩, trivial, trivial, trivial, trivial⟩
    have hline : Rest (finshTokenInit "\"a\\n\";".toList)
        ([] ++ '"' :: (itemsText lineBreak ++ '"' :: [';'])) := rest_init _
    exact ((literal_read_iff hnil).2.2 lineBreak hl hline).mpr
      ⟨by decide, trivial, ⟨by decide, by decide⟩, trivial⟩

def hexLong : IntLiteral := ⟨.hex 'x' ['1', 'f'], some 'L'⟩

/-- The suffix of a hexadecimal number is taken for a digit. -/
theorem literal_suffix : hexLong.Valid ∧ ¬IntRead (finshTokenInit "0x1fL;".toList) [] hexLong := by
  have hv : hexLong.Valid :=
    ⟨⟨.inl rfl, by decide, List.all_eq_true.mp rfl⟩, fun c hc => .inr (Option.some.inj hc).symm, by decide⟩
  have hnil : ∀ c ∈ ([] : List Char), isBlank c = true := fun c hc => absurd hc List.not_mem_nil
  have hline : Rest (finshTokenInit "0x1fL;".toList) ([] ++ (hexLong.text ++ [';'])) := rest_init _
  refine ⟨hv, fun h => ?_⟩
  have hfits := (intRead_iff hnil hline hv (by decide)).mp h
  cases hfits.2.2

end Tudu.Finsh
