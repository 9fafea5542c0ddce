import ItemDelta.Error
import ItemDelta.Text.Quoted

/-!
# Reading JSON

A document is read off the front of a text, item by item. Beyond the standard, the three names
for numbers that are not finite are read too. Of members with one name the last wins; it keeps
the place of the first. Integers are read exactly and all other numbers as binary ones, or, on
request, all numbers as decimals.

## Main definitions

* `Numbers` — how numerals are read.
* `readValue` — the value at the front of a text, with what follows it.
* `readJson` — the value of a whole text.

## Design notes

The functions that call each other are bounded by a number of steps. Every two steps consume a
character, so twice the length of the text is enough and the bound is never met.
-/

namespace ItemDelta

/-- How numerals are read. -/
inductive Numbers where
  /-- Integers exactly, all others as the nearest binary number. -/
  | binary
  /-- All as decimals, digit by digit. -/
  | decimal
deriving DecidableEq

namespace Json

/-- Blanks between the parts of a JSON text. -/
def isSpace (c : Char) : Bool := c == ' ' || c == '\t' || c == '\n' || c == '\r'

/-- A text without the blanks at its front. -/
def skipSpace (text : List Char) : List Char := text.dropWhile isSpace

/-- The rest of a text that starts with a word. -/
def afterWord? : (word text : List Char) → Option (List Char)
  | [], text => some text
  | w :: word, c :: text => if w = c then afterWord? word text else none
  | _ :: _, [] => none

/-- The value of a numeral. -/
def ofNumeral (numbers : Numbers) (numeral : Numeral) : Except Error Value :=
  match numbers with
  | .decimal =>
    let d := Decimal.ofNumeral numeral
    if d.inRange then .ok (.decimal d) else .error (.decimal .invalid)
  | .binary =>
    if numeral.isIntegral then
      if integerDigitLimit < numeral.whole.length then
        .error (.tooManyDigits (some numeral.whole.length))
      else .ok (.int numeral.toInt)
    else .ok (.float (Binary64.ofNumeral numeral))

/-- The words that stand for values. -/
def words : List (String × Value) :=
  [("null", .null), ("true", .bool true), ("false", .bool false), ("NaN", .float .nan),
    ("Infinity", .float (.infinite false)), ("-Infinity", .float (.infinite true))]

/-- The word at the front of a text, as a value. -/
def scanWord? (text : List Char) : Option (Value × List Char) :=
  words.findSome? fun (word, value) => (afterWord? word.toList text).map (value, ·)

/-- A word or a number at the front of a text. -/
def readScalar (numbers : Numbers) (text : List Char) : Except Error (Value × List Char) :=
  match scanWord? text with
  | some found => .ok found
  | none =>
    match Numeral.scan? text with
    | some (numeral, rest) => (ofNumeral numbers numeral).map (·, rest)
    | none => .error .malformedJson

/-- The name and the colon in front of a member's value. -/
def readName (text : List Char) : Except Error (String × List Char) :=
  match text with
  | '"' :: text =>
    match scanQuoted? text with
    | some (name, rest) =>
      match skipSpace rest with
      | ':' :: rest => .ok (String.ofList name, skipSpace rest)
      | _ => .error .malformedJson
    | none => .error .malformedJson
  | _ => .error .malformedJson

mutual

/-- The value at the front of a text. -/
def readValue (numbers : Numbers) (steps : Nat) (text : List Char) :
    Except Error (Value × List Char) :=
  match steps with
  | 0 => .error .malformedJson
  | steps + 1 =>
    match text with
    | '"' :: text =>
      match scanQuoted? text with
      | some (s, rest) => .ok (.text (String.ofList s), rest)
      | none => .error .malformedJson
    | '[' :: text =>
      match skipSpace text with
      | ']' :: rest => .ok (.list [], rest)
      | text => do
        let (items, rest) ← readItems numbers steps text
        return (.list items, rest)
    | '\x7b' :: text =>
      match skipSpace text with
      | '\x7d' :: rest => .ok (.map [], rest)
      | text => do
        let (members, rest) ← readMembers numbers [] steps text
        return (.map members, rest)
    | text => readScalar numbers text

/-- The elements up to the closing bracket. -/
def readItems (numbers : Numbers) (steps : Nat) (text : List Char) :
    Except Error (List Value × List Char) :=
  match steps with
  | 0 => .error .malformedJson
  | steps + 1 => do
    let (item, rest) ← readValue numbers steps text
    match skipSpace rest with
    | ']' :: rest => return ([item], rest)
    | ',' :: rest => do
      let (items, rest) ← readItems numbers steps (skipSpace rest)
      return (item :: items, rest)
    | _ => .error .malformedJson

/-- The members up to the closing brace, put behind those read before. -/
def readMembers (numbers : Numbers) (members : Members) (steps : Nat) (text : List Char) :
    Except Error (Members × List Char) :=
  match steps with
  | 0 => .error .malformedJson
  | steps + 1 => do
    let (name, rest) ← readName text
    let (value, rest) ← readValue numbers steps rest
    let members := members.insert (.name name) value
    match skipSpace rest with
    | '\x7d' :: rest => return (members, rest)
    | ',' :: rest => readMembers numbers members steps (skipSpace rest)
    | _ => .error .malformedJson

end

end Json

/-- The value of a JSON text. A text that starts with a byte order mark is refused. -/
def readJson (numbers : Numbers) (text : String) : Except Error Value := do
  let chars := text.toList
  let (value, rest) ← Json.readValue numbers (2 * chars.length + 2) (Json.skipSpace chars)
  if Json.skipSpace rest = [] then return value else .error .malformedJson

/-- The document of the null file: an empty map, or no document. -/
def nullDocument (mode : Value) : Except Error Value :=
  match mode with
  | .text "empty" => .ok .emptyMap
  | .text "none" => .ok .null
  | _ =>
    if mode.hasLongInteger then .error (.tooManyDigits none)
    else .error (.unknownNullMode mode)

end ItemDelta
