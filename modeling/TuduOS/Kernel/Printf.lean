import Mathlib.Algebra.Order.Group.Unbundled.Int
import Mathlib.Data.List.Basic

/-!
# `rt_vsnprintf` (`kservice.c`), what it prints

With `RT_PRINTF_PRECISION`, without `RT_PRINTF_SPECIAL` and `RT_PRINTF_LONGLONG`: the flag `#` is
read and used nowhere.

* The statements `if (str < end) *str = c; ++str;` are the parameter `put` of all functions. With a
  list for the output it gives the characters that an unlimited buffer gets (`output`).
* An `int` is an `Int` in 32 bits, and its arithmetic wraps (`int`).
* `args n` is the n-th word behind the format on the argument list, and `strAt p` the string at the
  address `p`, which the call does not write on.
* `format_eq`: what is printed does not depend on `put`.
-/

namespace Tudu.Printf

abbrev Word := BitVec 32

/-- `int` arithmetic -/
def int (x : Int) : Int := x.bmod 4294967296

def chr (c : Char) : UInt8 := UInt8.ofNat c.toNat

/-- `isdigit` -/
def isdigit (c : UInt8) : Bool := (c - chr '0').toNat < 10

/-- `skip_atoi`, with what is behind the digits. -/
def skipAtoi : Int → List UInt8 → Int × List UInt8
  | i, [] => (i, [])
  | i, c :: s =>
    if isdigit c then skipAtoi (int (i * 10 + c.toNat - 48)) s else (i, c :: s)

/-- The bits of `flags` and `type` -/
structure Flags where
  zeropad : Bool
  sign : Bool
  plus : Bool
  space : Bool
  left : Bool
  special : Bool
  large : Bool
  deriving DecidableEq

section
variable {σ : Type} (put : σ → UInt8 → σ)

/-- `n` times the same character. -/
def pad (c : UInt8) : Nat → σ → σ
  | 0, o => o
  | n + 1, o => pad c n (put o c)

/-- `while (size-- > 0)` -/
def padWhile (c : UInt8) (size : Int) (o : σ) : Int × σ :=
  (if 0 < size then -1 else int (size - 1), pad put c size.toNat o)

/-- `while (--width > 0)` -/
def padBefore (c : UInt8) (width : Int) (o : σ) : Int × σ :=
  let width := int (width - 1)
  if 0 < width then (0, pad put c width.toNat o) else (width, o)

/-- `while (len < width--)` -/
def padTo (c : UInt8) (len width : Int) (o : σ) : Int × σ :=
  (int ((if len < width then len else width) - 1), pad put c (width - len).toNat o)

/-! ## Numbers -/

def smallDigits : List UInt8 := "0123456789abcdef".toList.map chr
def largeDigits : List UInt8 := "0123456789ABCDEF".toList.map chr

/-- `divide`: the remainder and what is left of the number. -/
def divide (n : Nat) (base : Nat) : Nat × Nat :=
  if base = 10 then (n % 10, n / 10) else (n % 16, n / 16)

/-- `while (num != 0)`: the digits, the lowest first. -/
def digitLoop (digits : List UInt8) (base : Nat) : Nat → Nat → List UInt8
  | 0, _ => []
  | fuel + 1, num =>
    if num = 0 then []
    else digits.getD (divide num base).1 0 :: digitLoop digits base fuel (divide num base).2

/-- The contents of `tmp`. A word has no more than 10 digits. -/
def tmpDigits (digits : List UInt8) (base : Nat) (num : Word) : List UInt8 :=
  if num = 0 then [chr '0'] else digitLoop digits base 10 num.toNat

/-- `sign`, when it is not 0, and the number without it. -/
def getSign (num : Word) (type : Flags) : Option UInt8 × Word :=
  if type.sign then
    if num.toInt < 0 then (some (chr '-'), -num)
    else if type.plus then (some (chr '+'), num)
    else if type.space then (some (chr ' '), num)
    else (none, num)
  else (none, num)

/-- `print_number` -/
def printNumber (o : σ) (num : Word) (base : Nat) (s precision : Int) (type : Flags) : σ :=
  let digits := if type.large then largeDigits else smallDigits
  let zeropad := if type.left then false else type.zeropad
  let c := if zeropad then chr '0' else chr ' '
  let (sign, num) := getSign num type
  let tmp := tmpDigits digits base num
  let i : Int := tmp.length
  let precisionBak := precision
  let precision := if i > precision then i else precision
  let size := int (s - precision)
  let (size, o) :=
    if ¬(zeropad ∨ type.left) then
      padWhile put (chr ' ') (if sign.isSome ∧ size > 0 then int (size - 1) else size) o
    else (size, o)
  let (size, o) :=
    match sign with
    | some sg => (int (size - 1), put o sg)
    | none => (size, o)
  let (size, o) := if ¬type.left then padWhile put c size o else (size, o)
  let o := pad put (chr '0') (precision - i).toNat o
  let o := if precisionBak ≠ 0 then tmp.reverse.foldl put o else o
  (padWhile put (chr ' ') size o).2

/-! ## Conversions -/

/-- The local variables of a conversion. -/
structure Conv where
  /-- From `*fmt` on. -/
  fmt : List UInt8
  /-- The argument words that were taken. -/
  va : Nat
  flags : Flags
  fieldWidth : Int
  precision : Int
  /-- 0, `h` or `l` -/
  qualifier : UInt8
  deriving DecidableEq

/-- The loop over the flags. -/
def getFlags : List UInt8 → Flags → List UInt8 × Flags
  | [], flags => ([], flags)
  | c :: fmt, flags =>
    if c = chr '-' then getFlags fmt { flags with left := true }
    else if c = chr '+' then getFlags fmt { flags with plus := true }
    else if c = chr ' ' then getFlags fmt { flags with space := true }
    else if c = chr '#' then getFlags fmt { flags with special := true }
    else if c = chr '0' then getFlags fmt { flags with zeropad := true }
    else (c :: fmt, flags)

variable (args : Nat → Word) (strAt : Word → List UInt8)

def getWidth (c : Conv) : Conv :=
  match c.fmt with
  | [] => c
  | ch :: fmt =>
    if isdigit ch then
      { c with fieldWidth := (skipAtoi 0 (ch :: fmt)).1, fmt := (skipAtoi 0 (ch :: fmt)).2 }
    else if ch = chr '*' then
      let width := (args c.va).toInt
      if width < 0 then
        { c with fmt := fmt, va := c.va + 1, fieldWidth := int (-width)
                 flags := { c.flags with left := true } }
      else { c with fmt := fmt, va := c.va + 1, fieldWidth := width }
    else c

/-- Behind the point. -/
def getPrecisionValue (c : Conv) : Conv :=
  match c.fmt with
  | [] => c
  | ch :: fmt =>
    if isdigit ch then
      { c with precision := (skipAtoi 0 (ch :: fmt)).1, fmt := (skipAtoi 0 (ch :: fmt)).2 }
    else if ch = chr '*' then
      { c with fmt := fmt, va := c.va + 1, precision := (args c.va).toInt }
    else c

def getPrecision (c : Conv) : Conv :=
  match c.fmt with
  | [] => c
  | ch :: fmt =>
    if ch = chr '.' then
      let c := getPrecisionValue args { c with fmt := fmt }
      { c with precision := if c.precision < 0 then 0 else c.precision }
    else c

def getQualifier (c : Conv) : Conv :=
  match c.fmt with
  | [] => c
  | ch :: fmt =>
    if ch = chr 'h' ∨ ch = chr 'l' then { c with fmt := fmt, qualifier := ch } else c

/-- From behind the `%` up to the conversion character. -/
def getConv (fmt : List UInt8) (va : Nat) : Conv :=
  let flags := getFlags fmt ⟨false, false, false, false, false, false, false⟩
  getQualifier (getPrecision args (getWidth args ⟨flags.1, va, flags.2, -1, -1, 0⟩))

/-- `num`, from its argument word -/
def intArg (qualifier : UInt8) (flags : Flags) (w : Word) : Word :=
  if qualifier = chr 'h' then
    if flags.sign then (w.setWidth 16).signExtend 32 else (w.setWidth 16).setWidth 32
  else w

/-- An integer conversion, with its base and flags. -/
def convertInt (c : Conv) (base : Nat) (flags : Flags) (o : σ) : Nat × σ :=
  (c.va + 1, printNumber put o (intArg c.qualifier flags (args c.va)) base c.fieldWidth c.precision
    flags)

def convertChar (c : Conv) (o : σ) : Nat × σ :=
  let (width, o) := if ¬c.flags.left then padBefore put (chr ' ') c.fieldWidth o
    else (c.fieldWidth, o)
  let o := put o (UInt8.ofNat (args c.va).toNat)
  (c.va + 1, (padBefore put (chr ' ') width o).2)

def convertString (c : Conv) (o : σ) : Nat × σ :=
  let s := if args c.va = 0 then "(NULL)".toList.map chr else strAt (args c.va)
  let len := int s.length
  let len := if c.precision > 0 ∧ len > c.precision then c.precision else len
  let (width, o) := if ¬c.flags.left then padTo put (chr ' ') len c.fieldWidth o
    else (c.fieldWidth, o)
  let o := (s.take len.toNat).foldl put o
  (c.va + 1, (padTo put (chr ' ') len width o).2)

def convertPointer (c : Conv) (o : σ) : Nat × σ :=
  if c.fieldWidth = -1 then
    (c.va + 1, printNumber put o (args c.va) 16 8 c.precision { c.flags with zeropad := true })
  else (c.va + 1, printNumber put o (args c.va) 16 c.fieldWidth c.precision c.flags)

/-- The `switch` over the conversion character, with the argument words that are taken then. -/
def convert (c : Conv) (o : σ) : Nat × σ :=
  match c.fmt with
  | [] => (c.va, put o (chr '%'))
  | ch :: _ =>
    if ch = chr 'c' then convertChar put args c o
    else if ch = chr 's' then convertString put args strAt c o
    else if ch = chr 'p' then convertPointer put args c o
    else if ch = chr '%' then (c.va, put o (chr '%'))
    else if ch = chr 'o' then convertInt put args c 8 c.flags o
    else if ch = chr 'X' then convertInt put args c 16 { c.flags with large := true } o
    else if ch = chr 'x' then convertInt put args c 16 c.flags o
    else if ch = chr 'd' ∨ ch = chr 'i' then
      convertInt put args c 10 { c.flags with sign := true } o
    else if ch = chr 'u' then convertInt put args c 10 c.flags o
    else (c.va, put (put o (chr '%')) ch)

/-- The loop over the format. Each turn takes a character of it at least. -/
def format : Nat → List UInt8 → Nat → σ → σ
  | 0, _, _, o => o
  | _ + 1, [], _, o => o
  | fuel + 1, ch :: fmt, va, o =>
    if ch ≠ chr '%' then format fuel fmt va (put o ch)
    else
      let c := getConv args fmt va
      let r := convert put args strAt c o
      format fuel c.fmt.tail r.1 r.2

end

/-- What an unlimited buffer gets. -/
def output (args : Nat → Word) (strAt : Word → List UInt8) (fmt : List UInt8) : List UInt8 :=
  format (fun l c => l ++ [c]) args strAt fmt.length fmt 0 []

/-! ## What is printed -/

section
variable {σ : Type} {put : σ → UInt8 → σ} {o : σ} {c : UInt8}

theorem pad_eq {n : Nat} : pad put c n o = (List.replicate n c).foldl put o := by
  induction n generalizing o with
  | zero => rfl
  | succ n ih => exact ih

/-- `size` behind `while (size-- > 0)`. -/
def sizeBehind (size : Int) : Int := if 0 < size then -1 else int (size - 1)

theorem padWhile_eq {size : Int} :
    padWhile put c size o = (sizeBehind size, (List.replicate size.toNat c).foldl put o) := by
  rw [padWhile, pad_eq, sizeBehind]

/-- The characters of a number. -/
def numberText (num : Word) (base : Nat) (s precision : Int) (type : Flags) : List UInt8 :=
  let zeropad := if type.left then false else type.zeropad
  let (sign, num) := getSign num type
  let tmp := tmpDigits (if type.large then largeDigits else smallDigits) base num
  let size := int (s - max (tmp.length : Int) precision)
  let lead := if sign.isSome ∧ size > 0 then int (size - 1) else size
  let spaces := !zeropad && !type.left
  let size := if spaces then sizeBehind lead else size
  let size := if sign.isSome then int (size - 1) else size
  List.replicate (if spaces then lead.toNat else 0) (chr ' ') ++ sign.toList ++
    List.replicate (if type.left then 0 else size.toNat) (if zeropad then chr '0' else chr ' ') ++
    List.replicate (max (tmp.length : Int) precision - tmp.length).toNat (chr '0') ++
    (if precision ≠ 0 then tmp.reverse else []) ++
    List.replicate (if type.left then size else sizeBehind size).toNat (chr ' ')

theorem printNumber_eq (num : Word) (base : Nat) (s precision : Int) (type : Flags) :
    printNumber put o num base s precision type =
      (numberText num base s precision type).foldl put o := by
  have hmax : ∀ i p : Int, (if i > p then i else p) = max i p := fun i p => by
    rw [Int.max_def]
    split <;> split <;> omega
  unfold printNumber numberText
  simp only [hmax]
  generalize getSign num type = g
  obtain ⟨sign, num'⟩ := g
  cases type.left <;> cases type.zeropad <;> cases sign <;>
    simp only [padWhile_eq, pad_eq, List.foldl_append, Bool.false_eq_true, or_false,
      or_true, or_self, not_true_eq_false, not_false_eq_true, if_true, if_false,
      Bool.not_true, Bool.not_false, Bool.and_true, Bool.and_false, Option.isSome_some,
      Option.isSome_none, true_and, false_and, Option.toList_some, Option.toList_none,
      List.foldl_cons, List.foldl_nil, List.replicate_zero] <;>
    split <;> rfl

theorem padBefore_eq {width : Int} :
    padBefore put c width o = (if 0 < int (width - 1) then 0 else int (width - 1),
      (List.replicate (int (width - 1)).toNat c).foldl put o) := by
  unfold padBefore
  simp only
  split
  · rw [pad_eq]
  · rw [Int.toNat_of_nonpos (by omega)]
    rfl

theorem padTo_eq {len width : Int} :
    padTo put c len width o = (int ((if len < width then len else width) - 1),
      (List.replicate (width - len).toNat c).foldl put o) := by
  rw [padTo, pad_eq]

end

/-- A conversion that prints `l` on every output, and takes the argument words up to `va`. -/
def Prints (f : (σ : Type) → (σ → UInt8 → σ) → σ → Nat × σ) (va : Nat) (l : List UInt8) : Prop :=
  ∀ σ put o, f σ put o = (va, l.foldl put o)

variable (args : Nat → Word) (strAt : Word → List UInt8)

theorem convertChar_prints (c : Conv) :
    ∃ l, Prints (fun _ put o => convertChar put args c o) (c.va + 1) l := by
  cases hl : c.flags.left with
  | true =>
    refine ⟨UInt8.ofNat (args c.va).toNat ::
      List.replicate (int (c.fieldWidth - 1)).toNat (chr ' '), fun _ put o => ?_⟩
    simp only [convertChar, hl, padBefore_eq, not_true_eq_false, if_false, List.foldl_cons]
  | false =>
    refine ⟨List.replicate (int (c.fieldWidth - 1)).toNat (chr ' ') ++
      UInt8.ofNat (args c.va).toNat :: List.replicate (int ((if 0 < int (c.fieldWidth - 1) then 0
        else int (c.fieldWidth - 1)) - 1)).toNat (chr ' '), fun _ put o => ?_⟩
    simp only [convertChar, hl, padBefore_eq, Bool.false_eq_true, not_false_eq_true, if_true,
      List.foldl_append, List.foldl_cons]

theorem convertString_prints (c : Conv) :
    ∃ l, Prints (fun _ put o => convertString put args strAt c o) (c.va + 1) l := by
  unfold convertString
  generalize (if args c.va = 0 then "(NULL)".toList.map chr else strAt (args c.va)) = s
  generalize hlen : (if c.precision > 0 ∧ int s.length > c.precision then c.precision
    else int s.length) = len
  cases hl : c.flags.left with
  | true =>
    refine ⟨s.take len.toNat ++ List.replicate (c.fieldWidth - len).toNat (chr ' '),
      fun _ put o => ?_⟩
    simp only [hlen, padTo_eq, not_true_eq_false, if_false, List.foldl_append]
  | false =>
    refine ⟨List.replicate (c.fieldWidth - len).toNat (chr ' ') ++ s.take len.toNat ++
      List.replicate (int ((if len < c.fieldWidth then len else c.fieldWidth) - 1) - len).toNat
        (chr ' '), fun _ put o => ?_⟩
    simp only [hlen, padTo_eq, Bool.false_eq_true, not_false_eq_true, if_true, List.foldl_append]

theorem convertPointer_prints (c : Conv) :
    ∃ l, Prints (fun _ put o => convertPointer put args c o) (c.va + 1) l := by
  by_cases h : c.fieldWidth = -1
  · refine ⟨numberText (args c.va) 16 8 c.precision { c.flags with zeropad := true },
      fun _ put o => ?_⟩
    show convertPointer put args c o = _
    rw [convertPointer, if_pos h, printNumber_eq]
  · refine ⟨numberText (args c.va) 16 c.fieldWidth c.precision c.flags, fun _ put o => ?_⟩
    show convertPointer put args c o = _
    rw [convertPointer, if_neg h, printNumber_eq]

theorem convertInt_prints (c : Conv) (base : Nat) (flags : Flags) :
    Prints (fun _ put o => convertInt put args c base flags o) (c.va + 1)
      (numberText (intArg c.qualifier flags (args c.va)) base c.fieldWidth c.precision flags) := by
  intro _ put o
  show convertInt put args c base flags o = _
  rw [convertInt, printNumber_eq]

/-- A conversion takes its argument words and prints its characters, whatever the output is. -/
theorem convert_prints (c : Conv) :
    ∃ va l, Prints (fun _ put o => convert put args strAt c o) va l := by
  unfold convert
  cases c.fmt with
  | nil => exact ⟨c.va, [chr '%'], fun _ put o => rfl⟩
  | cons ch rest =>
    simp only
    split
    · exact ⟨_, convertChar_prints args c⟩
    split
    · exact ⟨_, convertString_prints args strAt c⟩
    split
    · exact ⟨_, convertPointer_prints args c⟩
    split
    · exact ⟨c.va, [chr '%'], fun _ put o => rfl⟩
    split
    · exact ⟨_, _, convertInt_prints args c 8 c.flags⟩
    split
    · exact ⟨_, _, convertInt_prints args c 16 { c.flags with large := true }⟩
    split
    · exact ⟨_, _, convertInt_prints args c 16 c.flags⟩
    split
    · exact ⟨_, _, convertInt_prints args c 10 { c.flags with sign := true }⟩
    split
    · exact ⟨_, _, convertInt_prints args c 10 c.flags⟩
    · exact ⟨c.va, [chr '%', ch], fun _ put o => rfl⟩

theorem format_prints (fuel : Nat) (fmt : List UInt8) (va : Nat) :
    ∃ l : List UInt8, ∀ (σ : Type) (put : σ → UInt8 → σ) (o : σ),
      format put args strAt fuel fmt va o = l.foldl put o := by
  induction fuel generalizing fmt va with
  | zero => exact ⟨[], fun _ put o => rfl⟩
  | succ fuel ih =>
    cases fmt with
    | nil => exact ⟨[], fun _ put o => rfl⟩
    | cons ch fmt =>
      by_cases hch : ch = chr '%'
      · obtain ⟨va', l, hl⟩ := convert_prints args strAt (getConv args fmt va)
        obtain ⟨l', hl'⟩ := ih (getConv args fmt va).fmt.tail va'
        refine ⟨l ++ l', fun σ put o => ?_⟩
        have hc := hl σ put o
        simp only at hc
        rw [format, if_neg fun h => h hch, List.foldl_append]
        simp only [hc, hl']
      · obtain ⟨l, hl⟩ := ih fmt va
        refine ⟨ch :: l, fun _ put o => ?_⟩
        rw [format, if_pos hch, hl, List.foldl_cons]

theorem foldl_snoc (l acc : List UInt8) : l.foldl (fun l c => l ++ [c]) acc = acc ++ l := by
  induction l generalizing acc with
  | nil => exact (List.append_nil acc).symm
  | cons c l ih => rw [List.foldl_cons, ih, List.append_assoc, List.singleton_append]

/-- The same characters go to every output. -/
theorem format_eq {σ : Type} (put : σ → UInt8 → σ) (o : σ) (fmt : List UInt8) :
    format put args strAt fmt.length fmt 0 o = (output args strAt fmt).foldl put o := by
  obtain ⟨l, hl⟩ := format_prints args strAt fmt.length fmt 0
  rw [hl, output, hl, foldl_snoc, List.nil_append]

end Tudu.Printf
