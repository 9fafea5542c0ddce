import ItemDelta.Number.Decimal

/-!
# Binary floating-point numbers of 64 bits

A number is a NaN, a signed infinity, or `± mantissa · 2 ^ exponent`. Every operation of this
module builds the standard form, with a mantissa below `2 ^ 53` that reaches `2 ^ 52` unless
the exponent is the least one, so one number has one representation. All arithmetic is exact
arithmetic on natural numbers followed by one rounding to the nearest, ties to even.

## Main definitions

* `Binary64` — the numbers.
* `Binary64.ofRatio` — the number nearest to a ratio.
* `Binary64.toDecimal` — the exact value as a decimal.
* `Binary64.next` — the sum with one.
-/

namespace ItemDelta

/-- A binary floating-point number of 64 bits. -/
inductive Binary64 where
  | nan
  | infinite (negative : Bool)
  | finite (negative : Bool) (mantissa : Nat) (exponent : Int)
deriving DecidableEq

namespace Binary64

/-- The exponent of subnormal numbers, the least there is. -/
def minExponent : Int := -1074

/-- The exponent of the largest finite numbers. -/
def maxExponent : Int := 971

/-- Mantissas have at most 53 bits. -/
def mantissaBound : Nat := Nat.pow 2 53

/-- The least mantissa of 53 bits. -/
def leastNormalMantissa : Nat := Nat.pow 2 52

/-- A zero keeps its sign. -/
def zero (negative : Bool) : Binary64 := .finite negative 0 minExponent

/-- The numerator over the denominator times `2 ^ exponent`, with the power of two moved to
    where it is a natural number. -/
def scaled (numerator denominator : Nat) (exponent : Int) : Nat × Nat :=
  if 0 ≤ exponent then (numerator, denominator * Nat.pow 2 exponent.toNat)
  else (numerator * Nat.pow 2 (-exponent).toNat, denominator)

/-- The exponent at which the ratio has a mantissa of 53 bits, or the least exponent. The
    difference of the binary logarithms is the logarithm of the ratio or one more. -/
def exponentOf (numerator denominator : Nat) : Int :=
  let guess : Int := (numerator.log2 : Int) - denominator.log2 - 1 - 52
  let low := max guess minExponent
  let (n, d) := scaled numerator denominator low
  if mantissaBound ≤ n / d then low + 1 else low

/-- The number nearest to `± numerator / denominator`, an exact half going to the even
    mantissa; a ratio too large for any finite number becomes an infinity. -/
def ofRatio (negative : Bool) (numerator denominator : Nat) : Binary64 :=
  if numerator = 0 then zero negative
  else
    let exponent := exponentOf numerator denominator
    let (n, d) := scaled numerator denominator exponent
    let mantissa := Decimal.roundHalfEven n d
    let (mantissa, exponent) :=
      if mantissa = mantissaBound then (leastNormalMantissa, exponent + 1) else (mantissa, exponent)
    if maxExponent < exponent then .infinite negative else .finite negative mantissa exponent

/-- The number nearest to `± coefficient · 10 ^ exponent`. Beyond four hundred digits on either
    side of the point the answer is an infinity or a zero, whatever the digits. -/
def ofDecimalParts (negative : Bool) (coefficient : Nat) (exponent : Int) : Binary64 :=
  if coefficient = 0 then zero negative
  else if 400 < Decimal.magnitude coefficient exponent then .infinite negative
  else if Decimal.magnitude coefficient exponent < -400 then zero negative
  else if 0 ≤ exponent then ofRatio negative (coefficient * Nat.pow 10 exponent.toNat) 1
  else ofRatio negative coefficient (Nat.pow 10 (-exponent).toNat)

/-- The number nearest to what a numeral denotes. -/
def ofNumeral (numeral : Numeral) : Binary64 :=
  ofDecimalParts numeral.negative numeral.coefficient numeral.scale

/-- The number nearest to a decimal. -/
def ofDecimal : Decimal → Binary64
  | .finite negative coefficient exponent => ofDecimalParts negative coefficient exponent
  | .infinite negative => .infinite negative
  | .nan .. => .nan

/-- The exact value as a decimal: a power of two below one is a power of five over a power of
    ten. -/
def toDecimal : Binary64 → Decimal
  | .nan => .nan false false 0
  | .infinite negative => .infinite negative
  | .finite negative mantissa exponent =>
    if 0 ≤ exponent then .finite negative (mantissa * Nat.pow 2 exponent.toNat) 0
    else .finite negative (mantissa * Nat.pow 5 (-exponent).toNat) exponent

/-- The sum with one, rounded once. A sum of zero is positive. -/
def next : Binary64 → Binary64
  | .finite negative mantissa exponent =>
    let scale := min exponent 0
    let magnitude : Int := mantissa * Nat.pow 2 (exponent - scale).toNat
    let total := (if negative then -magnitude else magnitude) + Nat.pow 2 (-scale).toNat
    ofRatio (total < 0) total.natAbs (Nat.pow 2 (-scale).toNat)
  | x => x

end Binary64

end ItemDelta
