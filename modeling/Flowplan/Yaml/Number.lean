import Flowplan.Yaml.Scalar

/-!
# Numbers in YAML text

Whole numbers are written in base ten or with the mark of another base: `0x` for sixteen, `0o`
or a leading zero for eight, `0b` for two. A decimal stands for the double nearest to it, ties
to even; here only the whole part of that double is kept, because settings are whole numbers.

Long decimals are read with limits. Of an exponent no more digits count once it has five. The
first nineteen digits of a decimal settle its double in nearly every case. Otherwise its first
eight hundred digits do, and a whole part with more digits is then taken for one of eight
hundred.
-/

namespace Flowplan.Yaml

/-- The value of digits in a base. There must be only digits. -/
def digitsValue? (base : Nat) (digits : List Char) : Option Nat :=
  digits.foldl
    (fun value c => do
      let digit ← hexDigit? c
      if digit < base then return (← value) * base + digit else none)
    (some 0)

/-- The value of a whole number without a sign, in the base that its first characters mark. -/
def unsigned? : List Char → Option Nat
  | [] => none
  | '0' :: mark :: digit :: digits =>
      match mark.toLower with
      | 'b' => digitsValue? 2 (digit :: digits)
      | 'o' => digitsValue? 8 (digit :: digits)
      | 'x' => digitsValue? 16 (digit :: digits)
      | _ => digitsValue? 8 (mark :: digit :: digits)
  | '0' :: digits => digitsValue? 8 digits
  | digits => digitsValue? 10 digits

/-- The least number that does not fit 64 bits with a sign, which is `2 ^ 63`. -/
def signedLimit : Nat := 0x8000000000000000

/-- The least number that does not fit 64 bits, which is `2 ^ 64`. -/
def unsignedLimit : Nat := 0x10000000000000000

/-- Whether a text has a minus sign, and what is behind its sign. -/
def splitSign : List Char → Bool × List Char
  | '-' :: rest => (true, rest)
  | '+' :: rest => (false, rest)
  | rest => (false, rest)

/-- The number with a sign and a magnitude, if it fits 64 bits with a sign. -/
def signed? (negative : Bool) (magnitude : Nat) : Option Int :=
  if negative then if magnitude ≤ signedLimit then some (-(magnitude : Int)) else none
  else if magnitude < signedLimit then some magnitude else none

/-- Reads a whole number of 64 bits, with or without a sign. -/
def integer? (text : List Char) : Option Int :=
  let (negative, magnitude) := splitSign text
  let unsigned : Option Int := do
    let value ← unsigned? text
    if value < unsignedLimit then some (value : Int) else none
  ((unsigned? magnitude).bind (signed? negative)).or unsigned

/-- Reads a whole number in base two whose sign stands behind the mark of the base. -/
def innerSigned? : List Char → Option Int
  | '0' :: 'b' :: rest =>
      let (negative, digits) := splitSign rest
      if digits.isEmpty then none else (digitsValue? 2 digits).bind (signed? negative)
  | _ => none

/-- A fraction times a power of two. -/
def scaled (numerator denominator : Nat) (power : Int) : Nat × Nat :=
  if 0 ≤ power then (numerator <<< power.toNat, denominator)
  else (numerator, denominator <<< (-power).toNat)

/-- The whole number nearest to a fraction. A tie goes to the even one. -/
def nearest (numerator denominator : Nat) : Nat :=
  let quotient := numerator / denominator
  let twice := 2 * (numerator % denominator)
  if denominator < twice || (twice = denominator && quotient % 2 = 1) then quotient + 1
  else quotient

/-- The exponent of the leading bit of a fraction, which is not zero. -/
def leadingBit (numerator denominator : Nat) : Int :=
  let estimate : Int := (numerator.log2 : Int) - denominator.log2
  let (dividend, divisor) := scaled numerator denominator (-estimate)
  if dividend < divisor then estimate - 1 else estimate

/-- A finite double without a sign, which is `significand * 2 ^ power`. -/
structure Double where
  significand : Nat
  power : Int
  deriving DecidableEq, Repr

namespace Double

def zero : Double := ⟨0, 0⟩

/-- The double nearest to a fraction, unless the fraction is too large for any. -/
def nearest? (numerator denominator : Nat) : Option Double :=
  if numerator = 0 then some zero
  else
    let shift : Int := min 1074 (52 - leadingBit numerator denominator)
    let (dividend, divisor) := scaled numerator denominator shift
    let significand := nearest dividend divisor
    let rounded : Double :=
      if significand = 1 <<< 53 then ⟨1 <<< 52, 1 - shift⟩ else ⟨significand, -shift⟩
    if rounded.power ≤ 971 then some rounded else none

/-- The double nearest to `digits * 10 ^ exponent`. -/
def ofDecimal? (digits : Nat) (exponent : Int) : Option Double :=
  if 0 ≤ exponent then nearest? (digits * Nat.pow 10 exponent.toNat) 1
  else nearest? digits (Nat.pow 10 (-exponent).toNat)

/-- The whole part of a double. -/
def whole (double : Double) : Nat :=
  let (dividend, divisor) := scaled double.significand 1 double.power
  dividend / divisor

end Double

/-- A decimal without a sign: digits, of which the first is not zero, behind a point that is
moved to the right. -/
structure Decimal where
  digits : List Nat
  /-- How far the point is moved by the way the digits are written. -/
  point : Int
  /-- How far the point is moved by the exponent. -/
  exponent : Int
  deriving DecidableEq, Repr

namespace Decimal

/-- The value of digits. -/
def value (digits : List Nat) : Nat :=
  digits.foldl (fun value digit => value * 10 + digit) 0

/-- The double that the first nineteen digits settle. -/
def settled? (decimal : Decimal) : Option Double :=
  let first := decimal.digits.take 19
  let exponent := decimal.point + decimal.exponent - first.length
  if -348 ≤ exponent && exponent ≤ 347 then
    let least := Double.ofDecimal? (value first) exponent
    if (decimal.digits.drop 19).all (· = 0) then least
    else if Double.ofDecimal? (value first + 1) exponent = least then least
    else none
  else none

/-- The double that the first eight hundred digits settle. Of the others it matters only whether
all are zero. -/
def settledLate? (decimal : Decimal) : Option Double :=
  let first := decimal.digits.take 800
  let rest := if (decimal.digits.drop 800).all (· = 0) then 0 else 1
  let point := min decimal.point 800 + decimal.exponent
  if 310 < point then none
  else if point < -330 then some .zero
  else Double.ofDecimal? (value first * 10 + rest) (point - first.length - 1)

/-- The double a decimal stands for, unless it is too large for any. -/
def double? (decimal : Decimal) : Option Double :=
  if decimal.digits.isEmpty then some .zero else decimal.settled?.or decimal.settledLate?

/-- The value of the digits of an exponent. -/
def exponentValue (digits : List Char) : Nat :=
  digits.foldl
    (fun value c => if value < 10000 then value * 10 + (c.toNat - '0'.toNat) else value) 0

/-- Reads the exponent of a decimal to the end of the text. -/
def exponent? : List Char → Option Int
  | [] => some 0
  | mark :: rest =>
      if mark = 'e' || mark = 'E' then
        let (negative, digits) := splitSign rest
        let value : Int := exponentValue digits
        if digits.isEmpty || !digits.all Char.isDigit then none
        else some (if negative then -value else value)
      else none

/-- Reads a decimal without a sign: digits with at most one point, and an exponent. -/
def read? (text : List Char) : Option Decimal :=
  let whole := text.takeWhile Char.isDigit
  let behind := text.dropWhile Char.isDigit
  let (fraction, rest) :=
    match behind with
    | '.' :: more => (more.takeWhile Char.isDigit, more.dropWhile Char.isDigit)
    | _ => ([], behind)
  if whole.isEmpty && fraction.isEmpty then none
  else do
    let exponent ← exponent? rest
    let isZero (c : Char) : Bool := c = '0'
    let front := whole.dropWhile isZero
    let point : Int :=
      if front.isEmpty then -((fraction.takeWhile isZero).length : Int) else front.length
    return {
      digits := ((front ++ fraction).dropWhile isZero).map fun c => c.toNat - '0'.toNat
      point := point
      exponent := exponent }

end Decimal

/-- The whole part of the double that a decimal without a sign stands for. -/
def decimal? (text : List Char) : Option Nat := do
  let decimal ← Decimal.read? text
  return (← decimal.double?).whole

/-- Whether every underscore stands between two digits. -/
def underscoresBetweenDigits (afterDigit : Bool) : List Char → Bool
  | [] => true
  | '_' :: rest =>
      afterDigit && rest.head?.any Char.isDigit && underscoresBetweenDigits false rest
  | c :: rest => underscoresBetweenDigits c.isDigit rest

end Flowplan.Yaml
