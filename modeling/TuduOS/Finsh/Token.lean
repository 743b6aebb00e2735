import Mathlib.Data.BitVec

/-!
# The scanner of the shell (`finsh_token.c`)

`tokenRun` reads the next token of the line. It has no value where the source writes past a buffer:
`string` (a long name, a string literal without its end), `buf` of `token_proc_char` (an escape of
four digits) and `buf` of `token_proc_number`.

* The line is what stands before its null byte, and `string` what stands before the null byte that
  ends the text of the token.
* A loop has no value if it takes more rounds than the line has characters, and one more.
* `finsh_error_set` is the error that a function returns.
-/

namespace Tudu.Finsh

/-- `FINSH_ERROR_OK` and the other error numbers. -/
inductive FinshError where
  | ok | invalidToken | expectType | unknownType | variableExist | expectOperator | memoryFull
  | unknownOp | unknownNode | expectChar | unexpectEnd | unknownToken | noFloat | unknownSymbol
  | nullNode
  deriving DecidableEq

/-- `enum finsh_token_type` -/
inductive TokenType where
  | leftParen | rightParen | comma | semicolon | mul | add | inc | sub | dec | div | mod | assign
  | and | or | xor | bitwise | shl | shr | comments
  | void | char | short | int | long | unsigned
  | valueChar | valueInt | valueLong | valueString | valueNull
  | identifier | bad | eof
  deriving DecidableEq

/-- `struct finsh_token`, but for the replay flag, which is the parser's. -/
structure FinshToken where
  eof : Bool
  position : Nat
  currentToken : TokenType
  value : BitVec 32
  string : List Char
  line : List Char
  deriving DecidableEq

/-- `finsh_token_init`: no token has the type 0 that `memset` leaves, and none is read before the
first `token_run`. -/
def finshTokenInit (line : List Char) : FinshToken where
  eof := false
  position := 0
  currentToken := .bad
  value := 0
  string := []
  line := line

/-- `sizeof(self->string)` -/
def stringSize : Nat := 128

/-! ## Characters -/

def isDigit (ch : Char) : Bool := decide ('0' ≤ ch) && decide (ch ≤ '9')

/-- `((ch | 0x20) - 'a') < n`, of an unsigned number -/
def isLetterBelow (ch : Char) (n : Nat) : Bool :=
  decide (97 ≤ ch.toNat ||| 32) && decide ((ch.toNat ||| 32) < 97 + n)

def isAlpha (ch : Char) : Bool := isLetterBelow ch 26

def isXdigit (ch : Char) : Bool := isDigit ch || isLetterBelow ch 6

def isSeparator (ch : Char) : Bool :=
  !((decide ('a' ≤ ch) && decide (ch ≤ 'z')) || (decide ('A' ≤ ch) && decide (ch ≤ 'Z')) ||
    (decide ('0' ≤ ch) && decide (ch ≤ '9')) || decide (ch = '_'))

/-- `(ch - '0') < 8u` -/
def isOctal (ch : Char) : Bool := decide ('0' ≤ ch) && decide (ch ≤ '7')

/-- The character that an `int` is cut down to. -/
def charOfInt (n : Nat) : Char := Char.ofNat (n % 256)

namespace FinshToken

variable (self : FinshToken)

def tokenNextChar : Char × FinshToken :=
  if self.eof then ('\x00', self)
  else match self.line[self.position]? with
    | some ch =>
      if ch = '\n' then ('\x00', { self with eof := true, position := 0 })
      else (ch, { self with position := self.position + 1 })
    | none => ('\x00', { self with eof := true, position := 0 })

def tokenPrevChar : FinshToken :=
  if self.eof || self.position == 0 then self else { self with position := self.position - 1 }

/-- `while (p(ch = token_next_char(self)))`: the characters that satisfy `p`, the first that does
not, and the state behind it. -/
def tokenWhile (p : Char → Bool) : Nat → FinshToken → Option (List Char × Char × FinshToken)
  | 0, _ => none
  | n + 1, self =>
    let (ch, next) := self.tokenNextChar
    if p ch then
      (tokenWhile p n next).map fun r => (ch :: r.1, r.2)
    else some ([], ch, next)

/-- The rounds that a loop over the line is given. -/
def rounds : Nat := self.line.length + 1

def tokenTrimSpace : Option FinshToken :=
  (tokenWhile (fun ch => ch == ' ' || ch == '\t' || ch == '\r') self.rounds self).map
    fun r => r.2.2.tokenPrevChar

/-- The name at the position. The end flag is cleared if the name reaches up to the end of the line. -/
def tokenGetString : Option FinshToken :=
  let (ch, next) := self.tokenNextChar
  if next.eof then some next
  else if isDigit ch then some { next with string := [] }.tokenPrevChar
  else if isSeparator ch then some { next with string := [] }.tokenPrevChar
  else match tokenWhile (fun ch => !isSeparator ch) self.rounds next with
    | none => none
    | some (rest, _, after) =>
      if stringSize ≤ rest.length + 1 then none
      else some { after with eof := false, string := ch :: rest }.tokenPrevChar

/-- The type that `finsh_name_table` has for a name. -/
def tokenMatchName (name : List Char) : Option TokenType :=
  if name = "void".toList then some .void
  else if name = "char".toList then some .char
  else if name = "short".toList then some .short
  else if name = "int".toList then some .int
  else if name = "long".toList then some .long
  else if name = "unsigned".toList then some .unsigned
  else if name = "NULL".toList then some .valueNull
  else if name = "null".toList then some .valueNull
  else none

/-- The escapes that `token_proc_char` and `token_proc_escape` have in common. -/
def commonEscape (ch : Char) : Option Char :=
  if ch = 'n' then some '\n'
  else if ch = 't' then some '\t'
  else if ch = 'v' then some '\x0b'
  else if ch = 'b' then some '\x08'
  else if ch = 'r' then some '\r'
  else none

/-- A character literal. The digits of an escape go to `buf`, but the number is read from behind
them: it is 0. -/
def tokenProcChar : Option (Char × FinshToken × Option FinshError) :=
  let (ch, next) := self.tokenNextChar
  let body : Option (Char × FinshToken) :=
    if ch = '\\' then
      let (ch, next) := next.tokenNextChar
      match commonEscape ch with
      | some result => some (result, next)
      | none =>
        if ch = '\\' || ch = '\'' then some (ch, next)
        else if isDigit ch then
          match tokenWhile isDigit self.rounds next with
          | none => none
          | some (digits, _, after) =>
            if 4 ≤ digits.length + 1 then none else some ('\x00', after.tokenPrevChar)
        else some ('\x00', next.tokenPrevChar)
    else some (ch, next)
  body.map fun (ch, next) =>
    let (close, after) := next.tokenNextChar
    if close = '\'' then (ch, after, none) else (ch, after.tokenPrevChar, some .expectChar)

/-- The value of a hexadecimal digit. -/
def xdigitValue (ch : Char) : Nat :=
  if ch.toNat < 65 then ch.toNat - 48 else (ch.toNat ||| 32) - 97 + 10

def tokenProcEscape : Option (Char × FinshToken) :=
  let (ch, next) := self.tokenNextChar
  match commonEscape ch with
  | some result => some (result, next)
  | none =>
    if ch = 'f' then some ('\x0c', next)
    else if ch = 'a' then some ('\x07', next)
    else if ch = '"' then some ('"', next)
    else if ch = 'x' || ch = 'X' then
      (tokenWhile isXdigit self.rounds next).map fun (digits, _, after) =>
        (charOfInt (digits.foldl (fun result ch => result * 16 + xdigitValue ch) 0),
          after.tokenPrevChar)
    else if isOctal ch then
      (tokenWhile isOctal self.rounds next).map fun (digits, _, after) =>
        (charOfInt ((ch :: digits).foldl (fun result ch => result * 8 + (ch.toNat - 48)) 0),
          after.tokenPrevChar)
    else some ('\x00', next)

/-- The loop of `token_proc_string`, with `room` bytes of `string` left. -/
def tokenStringLoop : Nat → FinshToken → Option (List Char × FinshToken × Option FinshError)
  | 0, _ => none
  | room + 1, self =>
    let (ch, next) := self.tokenNextChar
    if next.eof then some ([], next, some .unexpectEnd)
    else if ch = '\\' then
      match next.tokenProcEscape with
      | none => none
      | some (ch, after) => (tokenStringLoop room after).map fun r => (ch :: r.1, r.2)
    else if ch = '"' then some ([], next, none)
    else (tokenStringLoop room next).map fun r => (ch :: r.1, r.2)

/-- At an unexpected end of the line the source writes no null byte: older bytes follow in `string`,
where the model ends it. -/
def tokenProcString : Option (FinshToken × Option FinshError) :=
  (tokenStringLoop stringSize self).map fun (chars, after, error) =>
    ({ after with string := chars.takeWhile (fun ch => ch != '\x00') }, error)

/-- The digit that `token_spec_number` makes of a character. -/
def specDigit (ch : Char) : Nat :=
  if 'a' ≤ ch ∧ ch ≤ 'f' then ch.toNat - 97 + 10
  else if 'A' ≤ ch ∧ ch ≤ 'F' then ch.toNat - 65 + 10
  else ch.toNat - 48

/-- The lower of the two words of the number. -/
def tokenSpecNumber (digits : List Char) (shift : Nat) : BitVec 32 :=
  digits.foldl (fun v ch => (v <<< shift) ||| BitVec.ofNat 32 (specDigit ch)) 0

/-- `sizeof(buf)` of `token_proc_number` -/
def numberSize : Nat := 128

/-- What follows the digits: a number is long behind an `l`. -/
def numberEnd (value : BitVec 32) (ch : Char) : FinshToken :=
  if ch = 'l' || ch = 'L' then { self with value := value, currentToken := .valueLong }
  else { self with value := value, currentToken := .valueInt }.tokenPrevChar

/-- The digits of a number with a base. -/
def numberSpec (p : Char → Bool) (shift : Nat) : Option FinshToken :=
  match tokenWhile p self.rounds self with
  | none => none
  | some (digits, ch, after) =>
    if numberSize ≤ digits.length then none
    else some (after.numberEnd (tokenSpecNumber digits shift) ch)

def tokenProcNumber : Option FinshToken :=
  let (ch, next) := self.tokenNextChar
  if ch = '0' then
    let (ch, after) := next.tokenNextChar
    if ch = 'x' || ch = 'X' then after.numberSpec (fun ch => isDigit ch || isAlpha ch) 4
    else if ch = 'b' || ch = 'B' then after.numberSpec (fun ch => ch == '0' || ch == '1') 1
    else if isOctal ch then next.numberSpec isOctal 3
    else some { after.tokenPrevChar with value := 0, currentToken := .valueInt }
  else
    (tokenWhile isDigit self.rounds self).map fun (digits, ch, after) =>
      after.numberEnd (digits.foldl (fun v ch => v * 10 + BitVec.ofNat 32 (ch.toNat - 48)) 0) ch

/-- An operator of two equal characters, or else of one. -/
def twice (ch : Char) (both one : TokenType) : FinshToken :=
  let (second, next) := self.tokenNextChar
  if second = ch then { next with currentToken := both }
  else { next.tokenPrevChar with currentToken := one }

def tokenOperator : Option (FinshToken × Option FinshError) :=
  let (ch, next) := self.tokenNextChar
  let single (type : TokenType) := some ({ next with currentToken := type }, none)
  if ch = '(' then single .leftParen
  else if ch = ')' then single .rightParen
  else if ch = ',' then single .comma
  else if ch = ';' then single .semicolon
  else if ch = '&' then single .and
  else if ch = '*' then single .mul
  else if ch = '+' then some (next.twice '+' .inc .add, none)
  else if ch = '-' then some (next.twice '-' .dec .sub, none)
  else if ch = '/' then some (next.twice '/' .eof .div, none)
  else if ch = '<' then some (next.twice '<' .shl .bad, none)
  else if ch = '>' then some (next.twice '>' .shr .bad, none)
  else if ch = '|' then single .or
  else if ch = '%' then single .mod
  else if ch = '~' then single .bitwise
  else if ch = '^' then single .xor
  else if ch = '=' then single .assign
  else if ch = '\'' then
    next.tokenProcChar.map fun (c, after, error) =>
      ({ after with
          value := (after.value &&& 0xFFFFFF00#32) ||| BitVec.ofNat 32 (c.toNat % 256)
          currentToken := .valueChar }, error)
  else if ch = '"' then
    next.tokenProcString.map fun (after, error) =>
      ({ after with currentToken := .valueString }, error)
  else if isDigit ch then
    next.tokenPrevChar.tokenProcNumber.map fun after => (after, none)
  else some ({ next with currentToken := .bad }, some .unknownToken)

def tokenRun : Option (FinshToken × Option FinshError) :=
  match self.tokenTrimSpace.bind tokenGetString with
  | none => none
  | some next =>
    if next.eof then some ({ next with currentToken := .eof }, none)
    else if next.string ≠ [] then
      some ({ next with currentToken := (tokenMatchName next.string).getD .identifier }, none)
    else next.tokenOperator

end FinshToken

end Tudu.Finsh
