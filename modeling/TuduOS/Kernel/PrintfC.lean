import TuduOS.Kernel.Printf
import Mathlib.Data.Nat.Digits.Defs

/-!
# `rt_vsnprintf` and the integer conversions of C

* `Directive`: `%`, flags, width, precision and one of the conversions `d`, `u`, `x`, `X`, `o`.
  `Directive.text` is how it is written.
* `Directive.cPrint`: the characters that C's `printf` prints for it.
* `printf_matches_c`: `rt_vsnprintf` prints the same for the directive without its `#`, which
  `RT_PRINTF_SPECIAL` switches off.

What is left out: `%o`, whose number `divide` takes
apart in base 16; a precision of 0, which stops all digits, and a negative one, which is taken as 0;
and `0` beside a precision, which C ignores.
-/

namespace Tudu.Printf

inductive Flag where
  | minus
  | plus
  | space
  | zero
  | hash
  deriving DecidableEq

def Flag.char : Flag → UInt8
  | .minus => chr '-'
  | .plus => chr '+'
  | .space => chr ' '
  | .zero => chr '0'
  | .hash => chr '#'

inductive Conversion where
  | d
  | u
  | x
  | upperX
  | o
  deriving DecidableEq

namespace Conversion

def char : Conversion → UInt8
  | d => chr 'd'
  | u => chr 'u'
  | x => chr 'x'
  | upperX => chr 'X'
  | o => chr 'o'

def base : Conversion → Nat
  | d => 10
  | u => 10
  | x => 16
  | upperX => 16
  | o => 8

end Conversion

/-- A width or a precision: digits, or `*`. -/
inductive Amount where
  | lit (digits : List (Fin 10))
  | arg
  deriving DecidableEq

namespace Amount

def text : Amount → List UInt8
  | lit digits => digits.map fun d => chr '0' + UInt8.ofNat d.val
  | arg => [chr '*']

/-- The argument words that it takes. -/
def taken : Amount → Nat
  | lit _ => 0
  | arg => 1

/-- The number that is written. -/
def numeral (digits : List (Fin 10)) : Nat := digits.foldl (fun n d => n * 10 + d.val) 0

def value (args : Nat → Word) (va : Nat) : Amount → Int
  | lit digits => numeral digits
  | arg => (args va).toInt

end Amount

/-- A precision with no digits is a point alone. -/
structure Directive where
  flags : List Flag
  width : Option Amount
  precision : Option Amount
  conv : Conversion
  deriving DecidableEq

namespace Directive

def text (d : Directive) : List UInt8 :=
  chr '%' :: (d.flags.map Flag.char ++ (d.width.elim [] Amount.text ++
    (d.precision.elim [] (fun a => chr '.' :: a.text) ++ [d.conv.char])))

variable (d : Directive) (args : Nat → Word)

/-- The argument words in front of the precision's, and in front of the number. -/
def vaPrecision : Nat := d.width.elim 0 Amount.taken
def vaNumber : Nat := d.vaPrecision + d.precision.elim 0 Amount.taken

def widthValue : Option Int := d.width.map (Amount.value args 0)
def precisionValue : Option Int := d.precision.map (Amount.value args d.vaPrecision)
def number : Word := args d.vaNumber

/-! ## What C prints -/

/-- A negative width is a `-` flag and a width. -/
def cLeft : Bool := Flag.minus ∈ d.flags ∨ ∃ w ∈ d.widthValue args, w < 0

def cWidth : Nat := (d.widthValue args).elim 0 Int.natAbs

/-- A negative precision is taken as if it were omitted. -/
def cPrecision : Option Nat := ((d.precisionValue args).filter (0 ≤ ·)).map Int.toNat

def cMagnitude : Nat :=
  match d.conv with
  | .d => (d.number args).toInt.natAbs
  | _ => (d.number args).toNat

def cSign : List UInt8 :=
  match d.conv with
  | .d =>
    if (d.number args).toInt < 0 then [chr '-']
    else if Flag.plus ∈ d.flags then [chr '+']
    else if Flag.space ∈ d.flags then [chr ' ']
    else []
  | _ => []

def cPrefix : List UInt8 :=
  if Flag.hash ∈ d.flags ∧ d.cMagnitude args ≠ 0 then
    match d.conv with
    | .x => [chr '0', chr 'x']
    | .upperX => [chr '0', chr 'X']
    | _ => []
  else []

/-- No digits for 0: the precision, which is 1 by default, brings its zeros. -/
def cDigits : List UInt8 :=
  let body := (Nat.digits d.conv.base (d.cMagnitude args)).reverse.map fun n =>
    (if d.conv = .upperX then largeDigits else smallDigits).getD n 0
  let body := List.replicate ((d.cPrecision args).getD 1 - body.length) (chr '0') ++ body
  if d.conv = .o ∧ Flag.hash ∈ d.flags ∧ body.head? ≠ some (chr '0') then chr '0' :: body else body

def cPrint : List UInt8 :=
  let sign := d.cSign args ++ d.cPrefix args
  let body := d.cDigits args
  let n := d.cWidth args - (sign.length + body.length)
  if d.cLeft args then sign ++ body ++ List.replicate n (chr ' ')
  else if Flag.zero ∈ d.flags ∧ d.cPrecision args = none then
    sign ++ List.replicate n (chr '0') ++ body
  else List.replicate n (chr ' ') ++ sign ++ body

def withoutHash : Directive := { d with flags := d.flags.filter (· ≠ .hash) }

/-- The width is a 32-bit number, and digits of it do not begin with 0, which is a flag. -/
def WidthOk : Prop :=
  match d.width with
  | none => True
  | some (.lit digits) => (∃ n ∈ digits.head?, n ≠ 0) ∧ Amount.numeral digits ≤ 2147483647
  | some .arg => -2147483648 < (args 0).toInt

/-- No precision, or one from 1 up to where `size` is still an `int`. -/
def PrecisionOk : Prop :=
  ∀ p ∈ d.precisionValue args, 1 ≤ p ∧ p ≤ 2147483644

/-- The directives on which the two agree by design. -/
structure Supported : Prop where
  conv : d.conv ≠ .o
  width : d.WidthOk args
  precision : d.PrecisionOk args
  /-- A flag `0` that C does not ignore, or that has no effect. -/
  zero : Flag.zero ∈ d.flags → d.precision = none ∨ d.cLeft args = true ∨
    d.cWidth args ≤ (d.cSign args).length + (d.cDigits args).length

end Directive

/-! ## The format -/

/-- The bit of a flag. -/
def setFlag (b : Flags) : Flag → Flags
  | .minus => { b with left := true }
  | .plus => { b with plus := true }
  | .space => { b with space := true }
  | .zero => { b with zeropad := true }
  | .hash => { b with special := true }

/-- The bits behind all flags. -/
def flagBits (fs : List Flag) : Flags :=
  fs.foldl setFlag ⟨false, false, false, false, false, false, false⟩

theorem getFlags_eq (fs : List Flag) (b : Flags) {c : UInt8} {rest : List UInt8}
    (hc : ∀ f : Flag, c ≠ f.char) :
    getFlags (fs.map Flag.char ++ c :: rest) b = (c :: rest, fs.foldl setFlag b) := by
  induction fs generalizing b with
  | nil =>
    have h₁ : c ≠ chr '-' := hc .minus
    have h2 : c ≠ chr '+' := hc .plus
    have h3 : c ≠ chr ' ' := hc .space
    have h4 : c ≠ chr '#' := hc .hash
    have h5 : c ≠ chr '0' := hc .zero
    rw [List.map_nil, List.nil_append, getFlags, if_neg h₁, if_neg h2, if_neg h3, if_neg h4,
      if_neg h5]
    rfl
  | cons f fs ih =>
    have hf : getFlags (f.char :: (fs.map Flag.char ++ c :: rest)) b =
        getFlags (fs.map Flag.char ++ c :: rest) (setFlag b f) := by
      cases f <;> rfl
    rw [List.map_cons, List.cons_append, hf, ih, List.foldl_cons]

/-- Each bit is there when its flag is. -/
theorem flagBits_eq (fs : List Flag) : flagBits fs =
    { left := decide (Flag.minus ∈ fs), plus := decide (Flag.plus ∈ fs)
      space := decide (Flag.space ∈ fs), special := decide (Flag.hash ∈ fs)
      zeropad := decide (Flag.zero ∈ fs), sign := false, large := false } := by
  have hfold : ∀ (fs : List Flag) (b : Flags), fs.foldl setFlag b =
      { b with
        left := b.left || decide (Flag.minus ∈ fs), plus := b.plus || decide (Flag.plus ∈ fs)
        space := b.space || decide (Flag.space ∈ fs)
        special := b.special || decide (Flag.hash ∈ fs)
        zeropad := b.zeropad || decide (Flag.zero ∈ fs) } := by
    intro fs
    induction fs with
    | nil => intro b; simp
    | cons f fs ih =>
      intro b
      rw [List.foldl_cons, ih]
      cases f <;> simp [setFlag]
  rw [flagBits, hfold]
  simp

theorem digit_char (d : Fin 10) : isdigit (chr '0' + UInt8.ofNat d.val) = true ∧
    ((chr '0' + UInt8.ofNat d.val).toNat : Int) - 48 = d.val := by
  revert d
  decide

theorem digit_not_flag {d : Fin 10} (h : d ≠ 0) (f : Flag) :
    chr '0' + UInt8.ofNat d.val ≠ f.char := by
  revert d
  cases f <;> decide

theorem int_of_range {x : Int} (h₁ : -2147483648 ≤ x) (h2 : x ≤ 2147483647) : int x = x := by
  unfold int
  rw [Int.bmod_def]
  split <;> omega

theorem foldl_numeral_ge (ds : List (Fin 10)) (n : Nat) :
    n ≤ ds.foldl (fun n d => n * 10 + d.val) n := by
  induction ds generalizing n with
  | nil => exact Nat.le_refl n
  | cons d ds ih =>
    have := ih (n * 10 + d.val)
    rw [List.foldl_cons]
    omega

/-- The number that is written, when it is an `int`. -/
theorem skipAtoi_eq (ds : List (Fin 10)) {n : Nat} {c : UInt8} {rest : List UInt8}
    (hc : isdigit c = false) (h : ds.foldl (fun n d => n * 10 + d.val) n ≤ 2147483647) :
    skipAtoi n (ds.map (fun d => chr '0' + UInt8.ofNat d.val) ++ c :: rest) =
      (((ds.foldl (fun n d => n * 10 + d.val) n : Nat) : Int), c :: rest) := by
  induction ds generalizing n with
  | nil =>
    rw [List.map_nil, List.nil_append, skipAtoi, hc]
    rfl
  | cons d ds ih =>
    obtain ⟨hd, hval⟩ := digit_char d
    rw [List.foldl_cons] at h ⊢
    have hge := foldl_numeral_ge ds (n * 10 + d.val)
    have hint : int ((n : Int) * 10 + ((chr '0' + UInt8.ofNat d.val).toNat : Int) - 48) =
        ((n * 10 + d.val : Nat) : Int) := by
      rw [int_of_range (by omega) (by omega)]
      omega
    rw [List.map_cons, List.cons_append, skipAtoi, if_pos hd, hint, ih h]

/-- A conversion character is no part of what is in front of it. -/
theorem conversion_char (k : Conversion) : isdigit k.char = false ∧ k.char ≠ chr '*' ∧
    k.char ≠ chr '.' ∧ k.char ≠ chr 'h' ∧ k.char ≠ chr 'l' ∧ ∀ f : Flag, k.char ≠ f.char := by
  refine ⟨?_, ?_, ?_, ?_, ?_, fun f => ?_⟩
  · cases k <;> decide
  · cases k <;> decide
  · cases k <;> decide
  · cases k <;> decide
  · cases k <;> decide
  · cases k <;> cases f <;> decide

theorem point_char : isdigit (chr '.') = false ∧ chr '.' ≠ chr '*' ∧
    ∀ f : Flag, chr '.' ≠ f.char := by
  refine ⟨by decide, by decide, fun f => ?_⟩
  cases f <;> decide

namespace Directive

variable {d : Directive} {args : Nat → Word}

/-- `field_width` -/
def widthInt (d : Directive) (args : Nat → Word) : Int :=
  (d.widthValue args).elim (-1) fun w => w.natAbs

/-- The width, in front of a character that is no part of it. -/
theorem getWidth_eq (hw : d.WidthOk args) {b : Flags} {p : Int} {q c : UInt8} {rest : List UInt8}
    (hc : isdigit c = false) (hs : c ≠ chr '*') :
    getWidth args ⟨d.width.elim [] Amount.text ++ c :: rest, 0, b, -1, p, q⟩ =
      ⟨c :: rest, d.vaPrecision,
        { b with left := b.left || decide (∃ w ∈ d.widthValue args, w < 0) },
        d.widthInt args, p, q⟩ := by
  unfold WidthOk at hw
  unfold vaPrecision widthInt widthValue
  cases hd : d.width with
  | none =>
    simp only [Option.elim_none, List.nil_append, getWidth, hc, Bool.false_eq_true, if_false,
      if_neg hs, Option.map_none]
    simp
  | some a =>
    rw [hd] at hw
    cases a with
    | lit ds =>
      obtain ⟨⟨x, hx, -⟩, hle⟩ := hw
      cases ds with
      | nil => cases hx
      | cons x ds =>
        have hsk := @skipAtoi_eq (x :: ds) 0 c rest hc hle
        have hge : ¬((Amount.numeral (x :: ds) : Int) < 0) := by omega
        simp only [Option.elim_some, Amount.text, List.map_cons, List.cons_append] at hsk ⊢
        simp only [getWidth, (digit_char x).1, if_true]
        rw [show ((0 : Nat) : Int) = 0 from rfl] at hsk
        simp only [hsk, Option.map_some, Option.mem_def, Option.some.injEq, exists_eq_left',
          Amount.value, decide_eq_false hge, Bool.or_false, Option.elim_some, Int.natAbs_natCast]
        rfl
    | arg =>
      have hstar : isdigit (chr '*') = false := by decide
      simp only [Option.elim_some, Amount.text, List.cons_append, List.nil_append, getWidth, hstar,
        Bool.false_eq_true, if_false, if_true, Option.map_some, Amount.value, Amount.taken,
        Option.mem_def, Option.some.injEq, exists_eq_left']
      by_cases hneg : (args 0).toInt < 0
      · have hlt := (args 0).toInt_lt
        have habs : int (-(args 0).toInt) = ((args 0).toInt.natAbs : Int) := by
          rw [int_of_range (by omega) (by omega)]
          omega
        simp only [if_pos hneg, habs, decide_eq_true hneg, Bool.or_true]
      · have habs : ((args 0).toInt.natAbs : Int) = (args 0).toInt := by omega
        simp only [if_neg hneg, habs, decide_eq_false hneg, Bool.or_false, Nat.zero_add]

/-- The precision and its point, in front of a character that is no part of them. -/
theorem getPrecision_eq (hp : d.PrecisionOk args) {b : Flags} {w : Int} {q c : UInt8}
    {rest : List UInt8} (hc : isdigit c = false) (hpt : c ≠ chr '.') :
    getPrecision args
        ⟨d.precision.elim [] (fun a => chr '.' :: a.text) ++ c :: rest, d.vaPrecision, b, w, -1, q⟩ =
      ⟨c :: rest, d.vaNumber, b, w, (d.precisionValue args).getD (-1), q⟩ := by
  unfold PrecisionOk at hp
  unfold vaNumber precisionValue at *
  cases hd : d.precision with
  | none =>
    simp only [Option.elim_none, List.nil_append, getPrecision, if_neg hpt, Option.map_none,
      Option.getD_none, Nat.add_zero]
  | some a =>
    rw [hd] at hp
    have hv := hp (a.value args d.vaPrecision) rfl
    have hneg : ¬a.value args d.vaPrecision < 0 := by omega
    suffices h : getPrecisionValue args ⟨a.text ++ c :: rest, d.vaPrecision, b, w, -1, q⟩ =
        ⟨c :: rest, d.vaPrecision + a.taken, b, w, a.value args d.vaPrecision, q⟩ by
      simp only [Option.elim_some, List.cons_append, getPrecision, if_true, h, if_neg hneg,
        Option.map_some, Option.getD_some]
    cases a with
    | lit ds =>
      cases ds with
      | nil =>
        have hzero : Amount.value args d.vaPrecision (.lit []) = 0 := rfl
        omega
      | cons x ds =>
        have hle : Amount.numeral (x :: ds) ≤ 2147483647 := by
          have := hv.2
          simp only [Amount.value] at this
          omega
        have hsk := @skipAtoi_eq (x :: ds) 0 c rest hc hle
        simp only [Amount.text, List.map_cons, List.cons_append] at hsk ⊢
        simp only [getPrecisionValue, (digit_char x).1, if_true]
        rw [show ((0 : Nat) : Int) = 0 from rfl] at hsk
        simp only [hsk]
        rfl
    | arg =>
      have hstar : isdigit (chr '*') = false := by decide
      simp only [Amount.text, List.cons_append, List.nil_append, getPrecisionValue, hstar,
        Bool.false_eq_true, if_false, if_true, Amount.value, Amount.taken]

/-- The character behind the flags is no flag. -/
theorem behind_flags (hw : d.WidthOk args) : ∃ c rest, (∀ f : Flag, c ≠ f.char) ∧
    d.width.elim [] Amount.text ++ (d.precision.elim [] (fun a => chr '.' :: a.text) ++
      [d.conv.char]) = c :: rest := by
  unfold WidthOk at hw
  cases hd : d.width with
  | none =>
    cases d.precision with
    | none => exact ⟨_, _, (conversion_char d.conv).2.2.2.2.2, rfl⟩
    | some a => exact ⟨_, _, point_char.2.2, rfl⟩
  | some a =>
    rw [hd] at hw
    cases a with
    | lit ds =>
      obtain ⟨⟨x, hx, hx0⟩, -⟩ := hw
      cases ds with
      | nil => cases hx
      | cons y ds =>
        cases hx
        exact ⟨_, _, digit_not_flag hx0, rfl⟩
    | arg =>
      refine ⟨chr '*', _, fun f => ?_, rfl⟩
      cases f <;> decide

/-- The character behind the width is no part of it. -/
theorem behind_width (d : Directive) : ∃ c rest, isdigit c = false ∧ c ≠ chr '*' ∧
    d.precision.elim [] (fun a => chr '.' :: a.text) ++ [d.conv.char] = c :: rest := by
  cases d.precision with
  | none => exact ⟨_, _, (conversion_char d.conv).1, (conversion_char d.conv).2.1, rfl⟩
  | some a => exact ⟨_, _, point_char.1, point_char.2.1, rfl⟩

/-- The flags, and the sign of the width. -/
def bits (d : Directive) (args : Nat → Word) : Flags :=
  { flagBits d.flags with left := d.cLeft args }

theorem getConv_eq (hw : d.WidthOk args) (hp : d.PrecisionOk args) :
    getConv args d.text.tail 0 = ⟨[d.conv.char], d.vaNumber, d.bits args, d.widthInt args,
      (d.precisionValue args).getD (-1), 0⟩ := by
  obtain ⟨hdig, -, hpt, hh, hl, -⟩ := conversion_char d.conv
  have hfl : getFlags d.text.tail ⟨false, false, false, false, false, false, false⟩ =
      (d.width.elim [] Amount.text ++ (d.precision.elim [] (fun a => chr '.' :: a.text) ++
        [d.conv.char]), flagBits d.flags) := by
    obtain ⟨c, rest, hc, hrest⟩ := behind_flags hw
    rw [text, List.tail_cons, hrest]
    exact getFlags_eq d.flags _ hc
  have hbits : ({ flagBits d.flags with
      left := (flagBits d.flags).left || decide (∃ w ∈ d.widthValue args, w < 0) } : Flags) =
      d.bits args := by
    rw [bits, cLeft, flagBits_eq]
    simp
  have hwid : getWidth args ⟨d.width.elim [] Amount.text ++
      (d.precision.elim [] (fun a => chr '.' :: a.text) ++ [d.conv.char]), 0, flagBits d.flags, -1,
        -1, 0⟩ =
      ⟨d.precision.elim [] (fun a => chr '.' :: a.text) ++ [d.conv.char], d.vaPrecision,
        d.bits args, d.widthInt args, -1, 0⟩ := by
    obtain ⟨c, rest, hc, hs, hrest⟩ := behind_width d
    rw [hrest, getWidth_eq hw hc hs, hbits]
  rw [getConv, hfl, hwid, getPrecision_eq hp hdig hpt, getQualifier]
  exact if_neg fun h => h.elim hh hl

/-- The bits that the conversion sets besides. -/
def convBits (d : Directive) (args : Nat → Word) : Flags :=
  match d.conv with
  | .d => { d.bits args with sign := true }
  | .upperX => { d.bits args with large := true }
  | _ => d.bits args

theorem convert_conversion {σ : Type} (put : σ → UInt8 → σ) (strAt : Word → List UInt8) {c : Conv}
    (o : σ) (hf : c.fmt = [d.conv.char]) (hb : c.flags = d.bits args) :
    convert put args strAt c o = convertInt put args c d.conv.base (d.convBits args) o := by
  unfold convBits
  rw [convert, hf, hb]
  cases d.conv <;> rfl

/-- One directive prints its number. -/
theorem output_text (strAt : Word → List UInt8) (hw : d.WidthOk args) (hp : d.PrecisionOk args) :
    output args strAt d.text = numberText (d.number args) d.conv.base (d.widthInt args)
      ((d.precisionValue args).getD (-1)) (d.convBits args) := by
  have hend : ∀ fuel va (l : List UInt8),
      format (fun l c => l ++ [c]) args strAt fuel [] va l = l := fun fuel _ _ => by
    cases fuel <;> rfl
  have hconv : convert (fun l c => l ++ [c]) args strAt ⟨[d.conv.char], d.vaNumber, d.bits args,
      d.widthInt args, (d.precisionValue args).getD (-1), 0⟩ [] =
      (d.vaNumber + 1, numberText (d.number args) d.conv.base (d.widthInt args)
        ((d.precisionValue args).getD (-1)) (d.convBits args)) := by
    rw [convert_conversion _ strAt [] rfl rfl, convertInt, printNumber_eq, foldl_snoc,
      List.nil_append]
    rfl
  rw [output, text, List.length_cons, format, if_neg fun h => h rfl]
  have hget := getConv_eq hw hp
  rw [text, List.tail_cons] at hget
  simp only [hget, hconv, List.tail_cons, hend]

end Directive

/-! ## The number -/

theorem sizeBehind_nonpos (size : Int) (h₁ : -2147483647 ≤ size) (h2 : size ≤ 2147483647) :
    sizeBehind size ≤ -1 ∧ min (-1) (size - 1) ≤ sizeBehind size := by
  unfold sizeBehind
  split
  · omega
  · rw [int_of_range (by omega) (by omega)]
    omega

/-- Where the padding goes: `size` is the width less the sign and the digits. -/
theorem numberText_layout {num num' : Word} {base : Nat} {s p : Int} {type : Flags}
    {sign : Option UInt8} {tmp : List UInt8} (hg : getSign num type = (sign, num'))
    (ht : tmpDigits (if type.large then largeDigits else smallDigits) base num' = tmp)
    (hk : 1 ≤ tmp.length ∧ tmp.length ≤ 10) (hs : -1 ≤ s ∧ s ≤ 2147483647)
    (hp : p = -1 ∨ 1 ≤ p ∧ p ≤ 2147483644) :
    numberText num base s p type =
      let body := List.replicate (max (tmp.length : Int) p - tmp.length).toNat (chr '0') ++
        tmp.reverse
      let n := (s - (max (tmp.length : Int) p + sign.toList.length)).toNat
      if type.left then sign.toList ++ body ++ List.replicate n (chr ' ')
      else if type.zeropad then sign.toList ++ List.replicate n (chr '0') ++ body
      else List.replicate n (chr ' ') ++ sign.toList ++ body := by
  have hp0 : p ≠ 0 := by omega
  unfold numberText
  simp only [hg, ht, ne_eq, hp0, not_false_eq_true, if_true]
  generalize hM : max (tmp.length : Int) p = M
  have hM₁ : 1 ≤ M := by omega
  have hM₂ : M ≤ 2147483644 := by omega
  have hsize : int (s - M) = s - M := int_of_range (by omega) (by omega)
  have hless : int (s - M - 1) = s - M - 1 := int_of_range (by omega) (by omega)
  -- `size` behind the sign
  have hsign : (if sign.isSome then int (s - M - 1) else s - M) =
      s - (M + (sign.toList.length : Int)) := by
    cases sign with
    | none => simp
    | some c =>
      rw [Option.isSome_some, if_pos rfl, hless]
      show s - M - 1 = s - (M + 1)
      omega
  rw [hsize]
  cases hl : type.left with
  | true =>
    simp only [Bool.not_true, Bool.and_false, Bool.false_eq_true, if_true, if_false, hsign,
      List.replicate_zero, List.nil_append, List.append_nil, List.append_assoc]
  | false =>
    cases hz : type.zeropad with
    | true =>
      -- zeros take the place of the spaces: nothing is left for the end
      have hend : (sizeBehind (s - (M + (sign.toList.length : Int)))).toNat = 0 := by
        have hle : sign.toList.length ≤ 1 := by cases sign <;> simp
        have := (sizeBehind_nonpos (s - (M + (sign.toList.length : Int)))
          (by omega) (by omega)).1
        omega
      simp only [Bool.not_true, Bool.not_false, Bool.and_true, Bool.false_eq_true, if_true,
        if_false, hsign, hend, List.replicate_zero, List.nil_append, List.append_nil,
        List.append_assoc]
    | false =>
      -- spaces in front; `size` is negative behind them
      generalize hlead : (if sign.isSome ∧ s - M > 0 then int (s - M - 1) else s - M) = lead
      have hlen : sign.toList.length = if sign.isSome then 1 else 0 := by cases sign <;> rfl
      have hpad : lead.toNat = (s - (M + (sign.toList.length : Int))).toNat ∧
          -2147483645 ≤ lead ∧ lead ≤ 2147483647 := by
        rw [← hlead, hless, hlen]
        cases sign with
        | none =>
          simp only [Option.isSome_none, false_and, Bool.false_eq_true, if_false]
          omega
        | some c =>
          simp only [Option.isSome_some, true_and, if_true]
          split <;> omega
      obtain ⟨hb1, hb2⟩ := sizeBehind_nonpos lead (by omega) hpad.2.2
      generalize hz' : (if sign.isSome then int (sizeBehind lead - 1) else sizeBehind lead) = z
      have hzneg : -2147483647 ≤ z ∧ z ≤ -1 := by
        rw [← hz', int_of_range (by omega) (by omega)]
        split <;> omega
      have hend := (sizeBehind_nonpos z hzneg.1 (by omega)).1
      have hz0 : z.toNat = 0 := by omega
      have hend0 : (sizeBehind z).toNat = 0 := by omega
      simp only [Bool.not_false, Bool.and_true, Bool.false_eq_true, if_true, if_false,
        hz', hz0, hend0, hpad.1, List.replicate_zero, List.append_nil, List.append_assoc]

theorem digitLoop_eq (ds : List UInt8) {base fuel n : Nat} (hb : base = 10 ∨ base = 16)
    (h : n < base ^ fuel) :
    digitLoop ds base fuel n = (Nat.digits base n).map fun k => ds.getD k 0 := by
  induction fuel generalizing n with
  | zero =>
    have h0 : n = 0 := by
      rw [Nat.pow_zero] at h
      omega
    rw [h0, Nat.digits_zero]
    rfl
  | succ fuel ih =>
    by_cases h0 : n = 0
    · rw [h0, Nat.digits_zero, digitLoop, if_pos rfl]
      rfl
    · have hdiv : divide n base = (n % base, n / base) := by
        rcases hb with rfl | rfl <;> rfl
      have hlt : n / base < base ^ fuel := by
        rw [Nat.div_lt_iff_lt_mul (by omega), ← Nat.pow_succ]
        exact h
      rw [digitLoop, if_neg h0, hdiv, ih hlt, Nat.digits_def' (by omega) (Nat.pos_of_ne_zero h0),
        List.map_cons]

/-- The digits of a word, the highest first, and at least one. -/
theorem tmpDigits_eq (ds : List UInt8) {base : Nat} (num : Word) (hb : base = 10 ∨ base = 16) :
    (tmpDigits ds base num).reverse = (if num.toNat = 0 then [chr '0'] else
        (Nat.digits base num.toNat).reverse.map fun k => ds.getD k 0) ∧
      1 ≤ (tmpDigits ds base num).length ∧ (tmpDigits ds base num).length ≤ 10 := by
  by_cases h0 : num = 0
  · subst h0
    exact ⟨rfl, Nat.le_refl 1, show 1 ≤ 10 by decide⟩
  · have hn : num.toNat ≠ 0 := fun hn => h0 (BitVec.eq_of_toNat_eq hn)
    have hlt : num.toNat < base ^ 10 := by
      have := num.isLt
      rcases hb with rfl | rfl <;> simp only [Nat.reducePow] <;> omega
    have hle : ∀ fuel n, (digitLoop ds base fuel n).length ≤ fuel := by
      intro fuel
      induction fuel with
      | zero => exact fun n => Nat.le_refl 0
      | succ fuel ih =>
        intro n
        rw [digitLoop]
        split
        · exact Nat.zero_le _
        · exact Nat.succ_le_succ (ih _)
    rw [tmpDigits, if_neg h0, if_neg hn]
    refine ⟨?_, ?_, hle 10 num.toNat⟩
    · rw [digitLoop_eq ds hb hlt, List.map_reverse]
    · rw [digitLoop, if_neg hn]
      exact Nat.succ_le_succ (Nat.zero_le _)

namespace Directive

variable {d : Directive} {args : Nat → Word}

theorem toNat_neg_of_neg {x : Word} (h : x.toInt < 0) : (-x).toNat = x.toInt.natAbs := by
  rw [BitVec.toInt_eq_toNat_cond] at *
  rw [BitVec.toNat_neg]
  have := x.isLt
  split at h <;> omega

theorem toNat_of_nonneg {x : Word} (h : ¬x.toInt < 0) : x.toNat = x.toInt.natAbs := by
  rw [BitVec.toInt_eq_toNat_cond] at *
  have := x.isLt
  split at h <;> omega

/-- The sign, and the number without it. -/
theorem getSign_eq (d : Directive) (args : Nat → Word) :
    (getSign (d.number args) (d.convBits args)).1.toList = d.cSign args ∧
      (getSign (d.number args) (d.convBits args)).2.toNat = d.cMagnitude args := by
  have hsign : (d.bits args).sign = false := by
    rw [bits, flagBits_eq]
  have hplus : (d.bits args).plus = decide (Flag.plus ∈ d.flags) := by
    rw [bits, flagBits_eq]
  have hspace : (d.bits args).space = decide (Flag.space ∈ d.flags) := by
    rw [bits, flagBits_eq]
  unfold convBits cSign cMagnitude
  cases d.conv with
  | d =>
    simp only [getSign, if_true, hplus, hspace, decide_eq_true_eq]
    by_cases hneg : (d.number args).toInt < 0
    · rw [if_pos hneg, if_pos hneg]
      exact ⟨rfl, toNat_neg_of_neg hneg⟩
    · rw [if_neg hneg, if_neg hneg]
      have habs := toNat_of_nonneg hneg
      by_cases hp : Flag.plus ∈ d.flags
      · rw [if_pos hp, if_pos hp]
        exact ⟨rfl, habs⟩
      · rw [if_neg hp, if_neg hp]
        by_cases hs : Flag.space ∈ d.flags
        · rw [if_pos hs, if_pos hs]
          exact ⟨rfl, habs⟩
        · rw [if_neg hs, if_neg hs]
          exact ⟨rfl, habs⟩
  | u | x | upperX | o => exact ⟨by simp [getSign, hsign], by simp [getSign, hsign]⟩

theorem convBits_large (d : Directive) (args : Nat → Word) :
    (d.convBits args).large = decide (d.conv = .upperX) := by
  have hlarge : (d.bits args).large = false := by
    rw [bits, flagBits_eq]
  unfold convBits
  cases d.conv <;> simp [hlarge]

theorem convBits_pad (d : Directive) (args : Nat → Word) :
    (d.convBits args).left = d.cLeft args ∧
      (d.convBits args).zeropad = decide (Flag.zero ∈ d.flags) := by
  unfold convBits
  cases d.conv <;> exact ⟨rfl, by rw [bits, flagBits_eq]⟩

/-- A precision that is there counts as it is. -/
theorem cPrecision_eq (hp : d.PrecisionOk args) :
    d.cPrecision args = (d.precisionValue args).map Int.toNat := by
  unfold PrecisionOk at hp
  unfold cPrecision
  cases hv : d.precisionValue args with
  | none => rfl
  | some p =>
    have h1 := (hp p hv).1
    rw [Option.filter_some, if_pos (decide_eq_true (by omega))]

/-- C's digits are those of `tmp`, behind the zeros of the precision. -/
theorem cDigits_eq (h : d.Supported args) {sign : Option UInt8} {num : Word} {tmp : List UInt8}
    (hg : getSign (d.number args) (d.convBits args) = (sign, num))
    (ht : tmpDigits (if (d.convBits args).large then largeDigits else smallDigits) d.conv.base num =
      tmp) :
    d.cDigits args = List.replicate (max (tmp.length : Int) ((d.precisionValue args).getD (-1)) -
        tmp.length).toNat (chr '0') ++ tmp.reverse ∧
      ((d.cDigits args).length : Int) =
        max (tmp.length : Int) ((d.precisionValue args).getD (-1)) ∧
      1 ≤ tmp.length ∧ tmp.length ≤ 10 := by
  have hbase : d.conv.base = 10 ∨ d.conv.base = 16 := by
    have := h.conv
    cases hc : d.conv <;> simp_all [Conversion.base]
  obtain ⟨hrev, hk⟩ := tmpDigits_eq (if (d.convBits args).large then largeDigits else smallDigits)
    num hbase
  have hmag := (getSign_eq d args).2
  rw [hg] at hmag
  simp only at hmag
  rw [ht, hmag, convBits_large] at hrev
  rw [ht] at hk
  simp only [decide_eq_true_eq] at hrev
  have hlen := congrArg List.length hrev
  rw [List.length_reverse] at hlen
  -- the zeros that C puts in front
  have hprec : ((d.cPrecision args).getD 1 : Int) =
      max 1 ((d.precisionValue args).getD (-1)) := by
    rw [cPrecision_eq h.precision]
    have hp := h.precision
    unfold PrecisionOk at hp
    cases hv : d.precisionValue args with
    | none => rfl
    | some p =>
      have h1 := (hp p hv).1
      simp only [Option.map_some, Option.getD_some]
      omega
  unfold cDigits
  rw [if_neg fun hc => h.conv hc.1]
  by_cases h0 : d.cMagnitude args = 0
  · rw [if_pos h0] at hrev hlen
    rw [List.length_singleton] at hlen
    rw [h0, Nat.digits_zero, hrev, hlen]
    have hzeros : (d.cPrecision args).getD 1 =
        (max ((1 : Nat) : Int) ((d.precisionValue args).getD (-1)) - ((1 : Nat) : Int)).toNat + 1 := by
      omega
    simp only [List.reverse_nil, List.map_nil, List.length_nil, Nat.sub_zero, List.append_nil]
    refine ⟨?_, ?_, by omega, by omega⟩
    · rw [hzeros, List.replicate_succ']
    · rw [List.length_replicate]
      exact hprec
  · rw [if_neg h0] at hrev
    rw [← hrev]
    simp only [List.length_reverse]
    have hzeros : (d.cPrecision args).getD 1 - tmp.length =
        (max (tmp.length : Int) ((d.precisionValue args).getD (-1)) - tmp.length).toNat := by
      omega
    refine ⟨by rw [hzeros], ?_, hk⟩
    rw [List.length_append, List.length_replicate, List.length_reverse]
    omega

/-- The width as an `int`, and C's. -/
theorem widthInt_eq (hw : d.WidthOk args) : d.widthInt args ≤ 2147483647 ∧
    (d.widthInt args = -1 ∧ d.cWidth args = 0 ∨ d.widthInt args = d.cWidth args) := by
  unfold WidthOk at hw
  unfold widthInt cWidth widthValue
  cases hd : d.width with
  | none => exact ⟨show (-1 : Int) ≤ 2147483647 by decide, .inl ⟨rfl, rfl⟩⟩
  | some a =>
    rw [hd] at hw
    refine ⟨?_, .inr rfl⟩
    cases a with
    | lit ds =>
      have := hw.2
      simp only [Option.map_some, Option.elim_some, Amount.value, Int.natAbs_natCast]
      omega
    | arg =>
      have hlt := (args 0).toInt_lt
      simp only [Option.map_some, Option.elim_some, Amount.value]
      omega

theorem mem_withoutHash {f : Flag} (hf : f ≠ .hash) : f ∈ d.withoutHash.flags ↔ f ∈ d.flags := by
  simp [withoutHash, hf]

theorem cLeft_withoutHash : d.withoutHash.cLeft args = d.cLeft args := by
  simp only [cLeft, mem_withoutHash (f := .minus) (by decide)]
  rfl

theorem cSign_withoutHash : d.withoutHash.cSign args = d.cSign args := by
  simp only [cSign, mem_withoutHash (f := .plus) (by decide),
    mem_withoutHash (f := .space) (by decide)]
  rfl

theorem cDigits_withoutHash (hc : d.conv ≠ .o) : d.withoutHash.cDigits args = d.cDigits args := by
  have hc' : d.withoutHash.conv ≠ .o := hc
  simp only [cDigits, hc, hc', false_and, if_false]
  rfl

/-- For every value, and every directive without `%o`, a precision below 1, and a `0` beside a
precision. A `#` has no effect. -/
theorem printf_matches_c (d : Directive) (args : Nat → Word) (strAt : Word → List UInt8)
    (h : d.Supported args) : output args strAt d.text = d.withoutHash.cPrint args ∧
      (Flag.hash ∉ d.flags → output args strAt d.text = d.cPrint args) := by
  suffices hall : output args strAt d.text = d.withoutHash.cPrint args by
    refine ⟨hall, fun hnone => ?_⟩
    have hself : d.flags.filter (· ≠ .hash) = d.flags :=
      List.filter_eq_self.mpr fun f hf => decide_eq_true fun he => hnone (he ▸ hf)
    rw [hall, withoutHash, hself]
  obtain ⟨hsign, -⟩ := getSign_eq d args
  obtain ⟨sign, num, hg⟩ : ∃ sign num, getSign (d.number args) (d.convBits args) = (sign, num) :=
    ⟨_, _, rfl⟩
  obtain ⟨tmp, ht⟩ : ∃ tmp, tmpDigits (if (d.convBits args).large then largeDigits
    else smallDigits) d.conv.base num = tmp := ⟨_, rfl⟩
  obtain ⟨hdig, hlen, hk⟩ := cDigits_eq h hg ht
  rw [hg] at hsign
  simp only at hsign
  obtain ⟨hw, hwc⟩ := widthInt_eq h.width
  obtain ⟨hleft, hzero⟩ := convBits_pad d args
  have hp : (d.precisionValue args).getD (-1) = -1 ∨
      1 ≤ (d.precisionValue args).getD (-1) ∧ (d.precisionValue args).getD (-1) ≤ 2147483644 := by
    cases hv : d.precisionValue args with
    | none => exact .inl rfl
    | some p => exact .inr (h.precision p hv)
  have hpre : d.withoutHash.cPrefix args = [] :=
    if_neg fun hc => by simp [withoutHash] at hc
  -- the padding
  have hn : (d.widthInt args - (((d.cDigits args).length : Int) + (d.cSign args).length)).toNat =
      d.cWidth args - ((d.cSign args).length + (d.cDigits args).length) := by
    omega
  rw [output_text strAt h.width h.precision, numberText_layout hg ht hk (by omega) hp]
  simp only [hsign, hleft, hzero, ← hlen] at hdig ⊢
  rw [← hdig, hn]
  unfold cPrint
  rw [hpre, List.append_nil, cSign_withoutHash, cDigits_withoutHash h.conv, cLeft_withoutHash,
    show d.withoutHash.cWidth args = d.cWidth args from rfl,
    show d.withoutHash.cPrecision args = d.cPrecision args from rfl]
  simp only [decide_eq_true_eq, mem_withoutHash (f := .zero) (by decide)]
  by_cases hl : d.cLeft args = true
  · rw [if_pos hl, if_pos hl]
  rw [if_neg hl, if_neg hl]
  by_cases hz : Flag.zero ∈ d.flags
  · rw [if_pos hz]
    rcases h.zero hz with hnone | hl' | hle
    · have hprec : d.cPrecision args = none := by
        rw [cPrecision_eq h.precision, precisionValue, hnone]
        rfl
      rw [if_pos ⟨hz, hprec⟩]
    · exact absurd hl' hl
    · simp only [Nat.sub_eq_zero_of_le hle, List.replicate_zero, List.append_nil, List.nil_append,
        ite_self]
  · rw [if_neg hz, if_neg fun hc => hz hc.1]

/-- `divide` takes every base but 10 for 16. -/
theorem numberText_octal (num : Word) (s p : Int) (type : Flags) :
    numberText num 8 s p type = numberText num 16 s p type := by
  have hloop : ∀ ds fuel n, digitLoop ds 8 fuel n = digitLoop ds 16 fuel n := by
    intro ds fuel
    induction fuel with
    | zero => exact fun n => rfl
    | succ fuel ih =>
      intro n
      rw [digitLoop, digitLoop, show divide n 8 = divide n 16 from rfl, ih]
  unfold numberText tmpDigits
  simp only [hloop]

/-- So `%o` prints what `%x` prints. -/
theorem octal_prints_hex (d : Directive) (args : Nat → Word) (strAt : Word → List UInt8)
    (hw : d.WidthOk args) (hp : d.PrecisionOk args) :
    output args strAt (text { d with conv := .o }) =
      output args strAt (text { d with conv := .x }) := by
  rw [output_text strAt (d := { d with conv := .o }) hw hp,
    output_text strAt (d := { d with conv := .x }) hw hp]
  exact numberText_octal ..

/-- `%#*.3x` of 7 and a width of -6 -/
def sample : Directive := ⟨[.hash], some .arg, some (.lit [3]), .x⟩

def sampleArgs (n : Nat) : Word := if n = 0 then 0xfffffffa#32 else 7#32

theorem printf_matches_c_sample :
    output sampleArgs (fun _ => []) sample.text = sample.withoutHash.cPrint sampleArgs :=
  (printf_matches_c sample sampleArgs (fun _ => [])
    { conv := by decide
      width := show -2147483648 < (sampleArgs 0).toInt by decide
      precision := fun p hp => by
        cases hp
        decide
      zero := by decide }).1

/-- `%#x` of 10 prints `a`, and C `0xa`. -/
theorem printf_hash_differs :
    output (fun _ => 10#32) (fun _ => []) (text ⟨[.hash], none, none, .x⟩) = [chr 'a'] ∧
      cPrint ⟨[.hash], none, none, .x⟩ (fun _ => 10#32) = [chr '0', chr 'x', chr 'a'] := by
  decide

end Directive

end Tudu.Printf
