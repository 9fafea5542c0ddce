import ItemDelta.Number.Numeral

/-!
# Timestamps

A point in time, given in seconds since the start of 1970, as a calendar date and a time of day
in Coordinated Universal Time.

## Main definitions

* `civilDate` — the date of a day.
* `timestamp` — the text of a point in time.

## Design notes

Dates are counted in years that start in March, so that a leap day is the last day of its year,
and in cycles of four hundred years, after which the calendar repeats.
-/

namespace ItemDelta

/-- A date of the Gregorian calendar. -/
structure CivilDate where
  year : Int
  month : Nat
  day : Nat
deriving DecidableEq

/-- The number of days in four hundred years. -/
def daysPerCycle : Nat := 146097

/-- The date of the `n`-th day after the first of January 1970. That day is day 719468 after the
    first of March of the year zero. -/
def civilDate (n : Int) : CivilDate :=
  let shifted := n + 719468
  let cycle := shifted / daysPerCycle
  let dayOfCycle := (shifted % daysPerCycle).toNat
  let yearOfCycle :=
    (dayOfCycle - dayOfCycle / 1460 + dayOfCycle / 36524 - dayOfCycle / 146096) / 365
  let dayOfYear := dayOfCycle - (365 * yearOfCycle + yearOfCycle / 4 - yearOfCycle / 100)
  let monthFromMarch := (5 * dayOfYear + 2) / 153
  let day := dayOfYear - (153 * monthFromMarch + 2) / 5 + 1
  let month := if monthFromMarch < 10 then monthFromMarch + 3 else monthFromMarch - 9
  let year := cycle * 400 + yearOfCycle
  ⟨if month ≤ 2 then year + 1 else year, month, day⟩

/-- A number with zeros in front, up to a number of digits. -/
def padded (width n : Nat) : String :=
  let digits := decimalDigits n
  String.ofList (List.replicate (width - digits.length) '0' ++ digits)

/-- The text of a point in time. Microseconds are shown unless there are none. -/
def timestamp (seconds : Int) (microseconds : Nat) : String :=
  let date := civilDate (seconds / 86400)
  let time := (seconds % 86400).toNat
  padded 4 date.year.toNat ++ "-" ++ padded 2 date.month ++ "-" ++ padded 2 date.day ++ " " ++
    padded 2 (time / 3600) ++ ":" ++ padded 2 (time / 60 % 60) ++ ":" ++ padded 2 (time % 60) ++
    (if microseconds = 0 then "" else "." ++ padded 6 microseconds)

end ItemDelta
