import ItemDelta.Number.Binary64

/-!
# The shortest text of a binary number

The digits of a binary number are the fewest whose decimal reads back as the number, and of
those the nearest to it. On the grid of decimals with a given number of digits only the two
neighbours of the exact value can be the answer, so the search tests these two on ever finer
grids; seventeen digits always suffice.

## Main definitions

* `Binary64.shortest` — the digits, as a coefficient and a power of ten.
* `Binary64.toText` — positional text from `1e-4` up to `1e16`, scientific text with a two-digit
  exponent elsewhere.
-/

namespace ItemDelta

namespace Binary64

/-- The exponent of the leading decimal digit of a positive ratio. -/
def leadingExponent (numerator denominator : Nat) : Int :=
  let guess : Int := (Decimal.digitCount numerator : Int) - Decimal.digitCount denominator
  let reaches :=
    if 0 ≤ guess then denominator * Nat.pow 10 guess.toNat ≤ numerator
    else denominator ≤ numerator * Nat.pow 10 (-guess).toNat
  if reaches then guess else guess - 1

/-- Of the two neighbours of a ratio on the grid `10 ^ exponent`, the nearer one that reads back
    as the number; a tie goes to the even coefficient. -/
def onGrid? (mantissa : Nat) (exponent : Int) (numerator denominator : Nat) (grid : Int) :
    Option Nat :=
  let (n, d) :=
    if 0 ≤ grid then (numerator, denominator * Nat.pow 10 grid.toNat)
    else (numerator * Nat.pow 10 (-grid).toNat, denominator)
  let nearest := Decimal.roundHalfEven n d
  let other := if nearest = n / d then nearest + 1 else n / d
  let readsBack (coefficient : Nat) : Bool :=
    ofDecimalParts false coefficient grid = .finite false mantissa exponent
  if readsBack nearest then some nearest
  else if readsBack other then some other
  else none

/-- The first hit on the grids with `count`, `count + 1`, … digits, `remaining` of them. -/
def searchGrids (mantissa : Nat) (exponent : Int) (numerator denominator : Nat) (leading : Int) :
    (remaining count : Nat) → Nat × Int
  | 0, count => (Decimal.roundHalfEven numerator denominator, leading + 1 - count)
  | remaining + 1, count =>
    let grid := leading + 1 - count
    match onGrid? mantissa exponent numerator denominator grid with
    | some coefficient => (coefficient, grid)
    | none => searchGrids mantissa exponent numerator denominator leading remaining (count + 1)

/-- The shortest digits of a positive finite number `mantissa · 2 ^ exponent`, as a coefficient
    and a power of ten. -/
def shortest (mantissa : Nat) (exponent : Int) : Nat × Int :=
  let numerator := if 0 ≤ exponent then mantissa * Nat.pow 2 exponent.toNat else mantissa
  let denominator := if 0 ≤ exponent then 1 else Nat.pow 2 (-exponent).toNat
  searchGrids mantissa exponent numerator denominator (leadingExponent numerator denominator) 17 1

/-- A list of digits without the zeros at its end. -/
def dropTrailingZeros (digits : List Char) : List Char :=
  (digits.reverse.dropWhile (· == '0')).reverse

/-- Digits with a point after the first `point` of them, and at least one digit behind it. -/
def positional (digits : List Char) (point : Int) : List Char :=
  if 0 < point ∧ digits.length ≤ point.toNat then Decimal.positional digits point ++ ['.', '0']
  else Decimal.positional digits point

/-- An exponent shows its sign and at least two digits. -/
def exponentText (exponent : Int) : List Char :=
  let digits := decimalDigits exponent.natAbs
  (if exponent < 0 then '-' else '+') ::
    (if digits.length < 2 then '0' :: digits else digits)

/-- Digits `d₁d₂…` of the number `0.d₁d₂… · 10 ^ point`, written out. -/
def layOut (digits : List Char) (point : Int) : List Char :=
  if -4 < point ∧ point ≤ 16 then positional digits point
  else
    match digits with
    | [] => []
    | [digit] => digit :: 'e' :: exponentText (point - 1)
    | digit :: rest => digit :: '.' :: rest ++ 'e' :: exponentText (point - 1)

/-- The text of a number. -/
def toChars : Binary64 → List Char
  | .nan => "nan".toList
  | .infinite negative => Decimal.sign negative ++ "inf".toList
  | .finite negative mantissa exponent =>
    if mantissa = 0 then Decimal.sign negative ++ "0.0".toList
    else
      let (coefficient, scale) := shortest mantissa exponent
      let digits := decimalDigits coefficient
      Decimal.sign negative ++ layOut (dropTrailingZeros digits) (scale + digits.length)

/-- The text of a number as a string. -/
def toText (x : Binary64) : String := String.ofList x.toChars

/-- The number written by a text: a numeral, `nan` or `inf`. -/
def ofText? (text : String) : Option Binary64 :=
  match text with
  | "nan" => some .nan
  | "inf" => some (.infinite false)
  | "-inf" => some (.infinite true)
  | _ =>
    match Numeral.scan? text.toList with
    | some (numeral, []) => some (ofNumeral numeral)
    | _ => none

end Binary64

end ItemDelta
