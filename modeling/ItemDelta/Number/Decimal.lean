import ItemDelta.Number.Numeral

/-!
# Decimal floating-point numbers

Numbers `± coefficient · 10 ^ exponent` of any length, with signed infinities and two kinds of
NaN. Two members of a cohort such as `1.5` and `1.50` are different decimals of one value: the
text keeps the digits, the comparison does not see them.

## Main definitions

* `Decimal` — the numbers.
* `Decimal.toText` — positional text where the exponent is not positive and the point is less
  than six zeros away, scientific text otherwise.
* `Decimal.compare?` — the order of the values, undefined on NaN.
* `Decimal.next` — the sum with one, rounded to 28 digits, a half going to the even neighbour.
-/

namespace ItemDelta

/-- A decimal floating-point number. -/
inductive Decimal where
  | finite (negative : Bool) (coefficient : Nat) (exponent : Int)
  | infinite (negative : Bool)
  | nan (negative signaling : Bool) (payload : Nat)
deriving DecidableEq

/-- Why an operation on decimals has no result. -/
inductive DecimalFault where
  /-- A signaling NaN was used. -/
  | invalid
  /-- The exponent of the result is out of range. -/
  | overflow
deriving DecidableEq

namespace Decimal

/-- A signaling NaN cannot be compared or added to. -/
def isSignaling : Decimal → Bool
  | .nan _ signaling _ => signaling
  | _ => false

/-- The number of digits of a coefficient. -/
def digitCount (coefficient : Nat) : Nat := (decimalDigits coefficient).length

/-- The sign in front of a number. -/
def sign (negative : Bool) : List Char := if negative then ['-'] else []

/-- Digits with a point after the first `point` of them, padded with zeros on either side. -/
def positional (digits : List Char) (point : Int) : List Char :=
  if point ≤ 0 then
    '0' :: '.' :: (List.replicate (-point).toNat '0' ++ digits)
  else if digits.length ≤ point.toNat then
    digits ++ List.replicate (point.toNat - digits.length) '0'
  else
    digits.take point.toNat ++ '.' :: digits.drop point.toNat

/-- An exponent always shows its sign. -/
def exponentText (exponent : Int) : List Char :=
  if exponent < 0 then integerDigits exponent else '+' :: integerDigits exponent

/-- The text of a decimal. `leading` counts the digits before the point when the number is
    written out in full; scientific text keeps one digit before the point. -/
def toChars : Decimal → List Char
  | .finite negative coefficient exponent =>
    let digits := decimalDigits coefficient
    let leading : Int := exponent + digits.length
    if exponent ≤ 0 ∧ -6 < leading then
      sign negative ++ positional digits leading
    else if leading = 1 then
      sign negative ++ positional digits 1
    else
      sign negative ++ positional digits 1 ++ 'E' :: exponentText (leading - 1)
  | .infinite negative => sign negative ++ "Infinity".toList
  | .nan negative signaling payload =>
    sign negative ++ (if signaling then ['s'] else []) ++ "NaN".toList ++
      (if payload = 0 then [] else decimalDigits payload)

/-- The text of a decimal as a string. -/
def toText (d : Decimal) : String := String.ofList d.toChars

/-- The decimal denoted by a numeral keeps every digit of it. -/
def ofNumeral (numeral : Numeral) : Decimal :=
  .finite numeral.negative numeral.coefficient numeral.scale

/-- An integer as a decimal. -/
def ofInt (n : Int) : Decimal := .finite (n < 0) n.natAbs 0

/-- The largest exponent of a readable decimal in scientific form. -/
def maxExponent : Int := 999999999999999999

/-- The smallest exponent of a readable decimal's last digit. -/
def minExponent : Int := -1999999999999999997

/-- Whether the exponent of a decimal is in the range that can be represented exactly. -/
def inRange : Decimal → Bool
  | .finite _ coefficient exponent =>
    minExponent ≤ exponent && exponent + digitCount coefficient - 1 ≤ maxExponent
  | _ => true

/-- The decimal written by a text: a numeral, `Infinity`, or `NaN` with an optional payload. -/
def ofText? (text : String) : Option Decimal :=
  let (negative, body) := match text.toList with
    | '-' :: rest => (true, rest)
    | '+' :: rest => (false, rest)
    | chars => (false, chars)
  let lower := String.ofList (body.map Char.toLower)
  if lower = "infinity" ∨ lower = "inf" then some (.infinite negative)
  else if lower.startsWith "nan" ∧ (body.drop 3).all Char.isDigit then
    some (.nan negative false (digitsValue (body.drop 3)))
  else if lower.startsWith "snan" ∧ (body.drop 4).all Char.isDigit then
    some (.nan negative true (digitsValue (body.drop 4)))
  else
    match Numeral.scanUnsigned? negative body with
    | some (numeral, []) => some (ofNumeral numeral)
    | _ => none

/-- The position of the leading digit of a nonzero number: a number with a higher position is
    larger. -/
def magnitude (coefficient : Nat) (exponent : Int) : Int := exponent + digitCount coefficient

/-- The order of two nonnegative numbers `coefficient · 10 ^ exponent`. Scaling happens only
    between numbers with leading digits in one place, so it is bounded by their lengths. -/
def compareMagnitude (c₁ : Nat) (e₁ : Int) (c₂ : Nat) (e₂ : Int) : Ordering :=
  if c₁ = 0 ∧ c₂ = 0 then .eq
  else if c₁ = 0 then .lt
  else if c₂ = 0 then .gt
  else if magnitude c₁ e₁ < magnitude c₂ e₂ then .lt
  else if magnitude c₂ e₂ < magnitude c₁ e₁ then .gt
  else if e₂ ≤ e₁ then compare (c₁ * Nat.pow 10 (e₁ - e₂).toNat) c₂
  else compare c₁ (c₂ * Nat.pow 10 (e₂ - e₁).toNat)

/-- The order of the values of two decimals; nothing is known about NaN. Zeros are equal
    whatever their sign. -/
def compare? : Decimal → Decimal → Option Ordering
  | .nan .., _ => none
  | _, .nan .. => none
  | .infinite true, .infinite true => some .eq
  | .infinite false, .infinite false => some .eq
  | .infinite true, _ => some .lt
  | _, .infinite true => some .gt
  | .infinite false, _ => some .gt
  | _, .infinite false => some .lt
  | .finite n₁ c₁ e₁, .finite n₂ c₂ e₂ =>
    match decide (n₁ = true ∧ c₁ ≠ 0), decide (n₂ = true ∧ c₂ ≠ 0) with
    | false, false => some (compareMagnitude c₁ e₁ c₂ e₂)
    | true, true => some (compareMagnitude c₂ e₂ c₁ e₁)
    | true, false => some .lt
    | false, true => some .gt

/-- The number of digits that a sum keeps. -/
def precision : Nat := 28

/-- The largest exponent, in scientific form, of a sum. -/
def sumMaxExponent : Int := 999999

/-- The smallest exponent of the last digit of a sum. -/
def sumMinExponent : Int := -1000026

/-- A quotient rounded to the nearest natural number, a half going to the even neighbour. -/
def roundHalfEven (numerator denominator : Nat) : Nat :=
  let quotient := numerator / denominator
  let twice := 2 * (numerator % denominator)
  if twice < denominator then quotient
  else if denominator < twice then quotient + 1
  else if quotient % 2 = 0 then quotient
  else quotient + 1

/-- A number cut to `precision` digits, and to the digits from the smallest exponent on. Rounding up
    to the next power of ten moves the point. -/
def roundToPrecision (coefficient : Nat) (exponent : Int) : Nat × Int :=
  let excess := max (digitCount coefficient - precision) (sumMinExponent - exponent).toNat
  if excess = 0 then (coefficient, exponent)
  else
    let rounded := roundHalfEven coefficient (Nat.pow 10 excess)
    if rounded = Nat.pow 10 precision then (Nat.pow 10 (precision - 1), exponent + excess + 1)
    else (rounded, exponent + excess)

/-- The sum of `upper · 10 ^ upperExponent` and `lower · 10 ^ lowerExponent` as a coefficient and
    an exponent, where the first exponent is not the smaller one. A lower number that lies
    entirely below the digits kept is represented by a single unit below them: it decides on
    which side of a tie the sum lies, and nothing else. -/
def alignedSum (upper : Int) (upperExponent : Int) (lower : Int) (lowerExponent : Int) :
    Int × Int :=
  let keep := upperExponent +
    min (-1) ((digitCount upper.natAbs : Int) - precision - 2)
  if lower ≠ 0 ∧ upper ≠ 0 ∧ lowerExponent + digitCount lower.natAbs - 1 < keep then
    (upper * Nat.pow 10 (upperExponent - keep).toNat + lower.sign, keep)
  else
    (upper * Nat.pow 10 (upperExponent - lowerExponent).toNat + lower, lowerExponent)

/-- A decimal plus one, rounded to `precision` digits. The infinities stay what they are, and so
    does a quiet NaN, but for the digits in front of the last `precision` ones. -/
def next : Decimal → Except DecimalFault Decimal
  | .nan _ true _ => .error .invalid
  | .nan negative false payload => .ok (.nan negative false (payload % Nat.pow 10 precision))
  | .infinite negative => .ok (.infinite negative)
  | .finite negative coefficient exponent =>
    let signed : Int := if negative then -coefficient else coefficient
    let exponent := if coefficient = 0 then max exponent (-(precision + 1 : Int)) else exponent
    let (total, scale) :=
      if coefficient = 0 ∧ 0 < exponent then (1, 0)
      else if 0 ≤ exponent then alignedSum signed exponent 1 0
      else alignedSum 1 0 signed exponent
    let (rounded, scale) := roundToPrecision total.natAbs scale
    if rounded ≠ 0 ∧ sumMaxExponent < scale + digitCount rounded - 1 then .error .overflow
    else .ok (.finite (total < 0) rounded scale)

/-- The integer equal to a finite decimal, if there is one. A number whose digits all lie
    behind the point is none, which is decided without scaling it. -/
def toInt? : Decimal → Option Int
  | .finite negative coefficient exponent =>
    let signed (n : Nat) : Int := if negative then -n else n
    if coefficient = 0 then some 0
    else if 0 ≤ exponent then some (signed (coefficient * Nat.pow 10 exponent.toNat))
    else if magnitude coefficient exponent ≤ 0 then none
    else if coefficient % Nat.pow 10 (-exponent).toNat = 0 then
      some (signed (coefficient / Nat.pow 10 (-exponent).toNat))
    else none
  | _ => none

end Decimal

end ItemDelta
