import ItemDelta.Text.Quoted
import ItemDelta.Value.Element

/-!
# Writing JSON

A document is written in two steps. First it is brought into plain form, which holds only what
JSON can say: sets become sorted lists, decimals become integers or binary numbers, and maps have
their members in key order. Then the plain form is written out, with one item on each line or all
on one line, in ASCII.

## Main definitions

* `Value.plainForm` — the plain form of a document, if it has one.
* `Json.indented`, `Json.oneLine` — the two ways to write a plain form.
* `writeJson` — the indented text of a document, closed by a line feed.
* `writeJsonLine` — the text of a document that is plain already, on one line.
-/

namespace ItemDelta

namespace Value

/-- An integral decimal becomes an integer, any other one the nearest binary number. A decimal
    with too many digits before the point is refused without expanding it. -/
def plainDecimal (d : Decimal) : Except Error Value :=
  match d with
  | .nan _ true _ => .error (.decimal .invalid)
  | .nan _ false _ => .ok (.float .nan)
  | .infinite _ => .error .outOfRange
  | .finite _ coefficient exponent =>
    if coefficient ≠ 0 ∧ 0 ≤ exponent ∧ integerDigitLimit < Decimal.magnitude coefficient exponent
    then .error (.tooManyDigits none)
    else
      match d.toInt? with
      | some n => if isLongInteger n then .error (.tooManyDigits none) else .ok (.int n)
      | none => .ok (.float (Binary64.ofDecimal d))

/-- Refuses maps that hold values both under names and under positions. -/
def checkKeys (members : Members) : Except Error Unit :=
  let isName (member : Key × Value) : Bool := match member.1 with
    | .name _ => true
    | .index _ => false
  if members.any isName && members.any (!isName ·) then .error .wrongKind else .ok ()

/-- What belongs to the elements of a set, in the order of the elements. -/
def sortedByElement {α : Type} (elements : List (Value × α)) : List (Value × α) :=
  elements.mergeSort fun (v, _) (w, _) => elementLe v w

mutual

/-- The plain form of a value. The error reported is the one that comes first in the text. -/
def plainForm : Value → Except Error Value
  | .int n => if isLongInteger n then .error (.tooManyDigits none) else .ok (.int n)
  | .decimal d => plainDecimal d
  | .list items => ((plainForms items).mapM id).map .list
  | .set elements => do
    checkOrdered elements
    let sorted := sortedByElement (elements.zip (plainForms elements))
    return .list (← sorted.mapM (·.2))
  | .map members => do
    checkKeys members
    let sorted := sortedByKey (plainMembers members)
    return .map (← sorted.mapM fun (key, result) => result.map (key, ·))
  | v => .ok v

/-- The plain forms of several values. -/
def plainForms : List Value → List (Except Error Value)
  | [] => []
  | v :: vs => plainForm v :: plainForms vs

/-- The plain forms of the values of several members. -/
def plainMembers : List (Key × Value) → List (Key × Except Error Value)
  | [] => []
  | (key, v) :: members => (key, plainForm v) :: plainMembers members

end

mutual

/-- Refuses values that are not plain. Members may have any order. -/
def checkPlain : Value → Except Error Unit
  | .int n => if isLongInteger n then .error (.tooManyDigits none) else .ok ()
  | .decimal _ | .set _ => .error .wrongKind
  | .list items => checkPlainItems items
  | .map members => checkPlainMembers members
  | _ => .ok ()

/-- Refuses lists with values that are not plain. -/
def checkPlainItems : List Value → Except Error Unit
  | [] => .ok ()
  | v :: vs => do
    checkPlain v
    checkPlainItems vs

/-- Refuses members with values that are not plain. -/
def checkPlainMembers : List (Key × Value) → Except Error Unit
  | [] => .ok ()
  | (_, v) :: members => do
    checkPlain v
    checkPlainMembers members

end

end Value

namespace Json

/-- A number as it is written. The names for numbers that are not finite go beyond the
    standard. -/
def numberChars : Binary64 → List Char
  | .nan => "NaN".toList
  | .infinite negative => Decimal.sign negative ++ "Infinity".toList
  | x => x.toChars

/-- A scalar as it is written; what is not plain is written like null. -/
def scalarChars : Value → List Char
  | .bool true => "true".toList
  | .bool false => "false".toList
  | .int n => integerDigits n
  | .float x => numberChars x
  | .text s => quoteAscii s.toList
  | _ => "null".toList

/-- A key as it is written: always as a name. -/
def keyChars : Key → List Char
  | .name text => quoteAscii text.toList
  | .index position => quoteAscii (decimalDigits position)

/-- A new line, indented by two blanks for each level of nesting. -/
def newLine (depth : Nat) : List Char := '\n' :: List.replicate (2 * depth) ' '

mutual

/-- A plain value with one item on each line, at a level of nesting. -/
def indented (depth : Nat) : Value → List Char
  | .list [] => ['[', ']']
  | .list (v :: vs) =>
    '[' :: newLine (depth + 1) ++ indented (depth + 1) v ++ indentedItems depth vs
  | .map [] => ['\x7b', '\x7d']
  | .map ((key, v) :: members) =>
    '\x7b' :: newLine (depth + 1) ++ keyChars key ++ ':' :: ' ' :: indented (depth + 1) v ++
      indentedMembers depth members
  | v => scalarChars v

/-- The elements of a list behind the first one, up to the closing bracket. -/
def indentedItems (depth : Nat) : List Value → List Char
  | [] => newLine depth ++ [']']
  | v :: vs =>
    ',' :: newLine (depth + 1) ++ indented (depth + 1) v ++ indentedItems depth vs

/-- The members of a map behind the first one, up to the closing brace. -/
def indentedMembers (depth : Nat) : List (Key × Value) → List Char
  | [] => newLine depth ++ ['\x7d']
  | (key, v) :: members =>
    ',' :: newLine (depth + 1) ++ keyChars key ++ ':' :: ' ' :: indented (depth + 1) v ++
      indentedMembers depth members

end

mutual

/-- A plain value on one line. -/
def oneLine : Value → List Char
  | .list items => '[' :: Value.commaJoined (oneLineItems items) ++ [']']
  | .map members => '\x7b' :: Value.commaJoined (oneLineMembers members) ++ ['\x7d']
  | v => scalarChars v

/-- Several plain values, each on one line. -/
def oneLineItems : List Value → List (List Char)
  | [] => []
  | v :: vs => oneLine v :: oneLineItems vs

/-- Several members, each on one line. -/
def oneLineMembers : List (Key × Value) → List (List Char)
  | [] => []
  | (key, v) :: members => (keyChars key ++ ':' :: ' ' :: oneLine v) :: oneLineMembers members

end

end Json

/-- The indented text of a document. -/
def writeJson (document : Value) : Except Error String := do
  let plain ← document.plainForm
  return String.ofList (Json.indented 0 plain ++ ['\n'])

/-- The text of a plain document on one line, its members in their order. -/
def writeJsonLine (document : Value) : Except Error String := do
  document.checkPlain
  return String.ofList (Json.oneLine document)

end ItemDelta
