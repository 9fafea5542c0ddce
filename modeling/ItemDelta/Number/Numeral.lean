/-!
# Numerals

The written form of a number: an optional minus sign, whole digits without superfluous leading
zeros, and optionally a fraction and a power of ten. `Numeral.scan?` takes the longest numeral
off the front of a text, and the number types say which number a numeral denotes.

## Main definitions

* `Numeral` — a scanned numeral, digit by digit.
* `Numeral.scan?` — the longest numeral at the front of a text, with what follows it.
* `Numeral.toInt` — the integer denoted by a numeral of whole digits only.
* `decimalDigits`, `digitsValue` — a natural number as a list of digits, and back.
-/

namespace ItemDelta

/-- The digits of a natural number in base ten, most significant first; zero is the one digit
    `0`. -/
def decimalDigits (n : Nat) : List Char := Nat.toDigits 10 n

/-- The natural number written by a list of digits in base ten. -/
def digitsValue (digits : List Char) : Nat := Nat.ofDigitChars 10 digits 0

/-- Reading the digits of a number gives the number back. -/
@[simp] theorem digitsValue_decimalDigits (n : Nat) : digitsValue (decimalDigits n) = n :=
  Nat.ofDigitChars_toDigits (by decide) (by decide)

/-- Every character of a written natural number is a digit. -/
theorem isDigit_of_mem_decimalDigits {n : Nat} {c : Char} (h : c ∈ decimalDigits n) :
    c.isDigit = true :=
  Nat.isDigit_of_mem_toDigits (by decide) (by decide) h

/-- The text of an integer: a minus sign if it is negative, then its digits. -/
def integerDigits : Int → List Char
  | .ofNat n => decimalDigits n
  | .negSucc n => '-' :: decimalDigits (n + 1)

/-- The text of an integer as a string. -/
def integerText (n : Int) : String := String.ofList (integerDigits n)

/-- A number as it is written. The fraction and the exponent are absent from the numeral of an
    integer; where the fraction is present it has at least one digit. -/
structure Numeral where
  negative : Bool
  whole : List Char
  fraction : Option (List Char)
  exponent : Option Int
deriving DecidableEq

namespace Numeral

/-- The digits at the front of a text, and the rest. -/
def spanDigits (text : List Char) : List Char × List Char :=
  (text.takeWhile Char.isDigit, text.dropWhile Char.isDigit)

/-- Whole digits: a lone `0`, or digits that start with another one. -/
def scanWhole? : List Char → Option (List Char × List Char)
  | [] => none
  | '0' :: rest => some (['0'], rest)
  | c :: rest => if c.isDigit then some (spanDigits (c :: rest)) else none

/-- A fraction is a point and at least one digit; a point without digits is left unread. -/
def scanFraction : List Char → Option (List Char) × List Char
  | '.' :: rest =>
    match spanDigits rest with
    | ([], _) => (none, '.' :: rest)
    | (digits, after) => (some digits, after)
  | text => (none, text)

/-- The sign and digits behind an exponent mark. -/
def scanPower? : List Char → Option (Int × List Char)
  | '-' :: rest =>
    match spanDigits rest with
    | ([], _) => none
    | (digits, after) => some (-(digitsValue digits : Int), after)
  | '+' :: rest =>
    match spanDigits rest with
    | ([], _) => none
    | (digits, after) => some (digitsValue digits, after)
  | text =>
    match spanDigits text with
    | ([], _) => none
    | (digits, after) => some (digitsValue digits, after)

/-- An exponent is a mark, an optional sign and at least one digit; a mark without digits is
    left unread. -/
def scanExponent (text : List Char) : Option Int × List Char :=
  match text with
  | c :: rest =>
    if c = 'e' ∨ c = 'E' then
      match scanPower? rest with
      | some (power, after) => (some power, after)
      | none => (none, text)
    else (none, text)
  | [] => (none, [])

/-- The digits of a numeral from its first whole digit on. -/
def scanUnsigned? (negative : Bool) (text : List Char) : Option (Numeral × List Char) :=
  match scanWhole? text with
  | none => none
  | some (whole, rest) =>
    let (fraction, rest) := scanFraction rest
    let (exponent, rest) := scanExponent rest
    some (⟨negative, whole, fraction, exponent⟩, rest)

/-- The longest numeral at the front of a text, with what follows it. -/
def scan? : List Char → Option (Numeral × List Char)
  | '-' :: rest => scanUnsigned? true rest
  | text => scanUnsigned? false text

/-- A numeral of whole digits only denotes an integer. -/
def isIntegral (numeral : Numeral) : Bool :=
  numeral.fraction.isNone && numeral.exponent.isNone

/-- All digits of a numeral, whole and fractional. -/
def digits (numeral : Numeral) : List Char :=
  numeral.whole ++ numeral.fraction.getD []

/-- The digits of a numeral read as one natural number. -/
def coefficient (numeral : Numeral) : Nat := digitsValue numeral.digits

/-- The power of ten that scales `coefficient` to the number denoted. -/
def scale (numeral : Numeral) : Int :=
  numeral.exponent.getD 0 - (numeral.fraction.getD []).length

/-- The integer denoted by the whole digits of a numeral. -/
def toInt (numeral : Numeral) : Int :=
  if numeral.negative then -(digitsValue numeral.whole : Int) else digitsValue numeral.whole

end Numeral

end ItemDelta
