import ItemDelta.Number.Shortest
import ItemDelta.Text.Inspected
import ItemDelta.Value.Basic

/-!
# Inspected values

The one-line form in which messages and listings show a value: texts between quotes, lists and
maps in brackets and braces, decimals under their name.

## Main definitions

* `Value.inspectChars`, `Value.inspect` — the form of a value.
* `Value.toText` — a text or a decimal as it is, any other value inspected.
* `Value.sortMembers` — the value with the members of all maps in key order.
* `Value.hasLongInteger` — whether some integer is too long to be written out.
-/

namespace ItemDelta

/-- The most digits that an integer may have to be read or written. -/
def integerDigitLimit : Nat := 4300

/-- The smallest natural number that is too long to be written. -/
def firstLongInteger : Nat := Nat.pow 10 integerDigitLimit

/-- Whether an integer has too many digits to be written. -/
def isLongInteger (n : Int) : Bool := firstLongInteger ≤ n.natAbs

/-- A key as it is shown inside a map. -/
def Key.inspectChars : Key → List Char
  | .name text => ItemDelta.inspectChars text.toList
  | .index position => decimalDigits position

namespace Value

/-- Items with a comma and a blank between them. -/
def commaJoined : List (List Char) → List Char
  | [] => []
  | [item] => item
  | item :: items => item ++ ',' :: ' ' :: commaJoined items

mutual

/-- A value on one line. -/
def inspectChars : Value → List Char
  | .null => "None".toList
  | .bool true => "True".toList
  | .bool false => "False".toList
  | .int n => integerDigits n
  | .float x => x.toChars
  | .decimal d => "Decimal('".toList ++ d.toChars ++ "')".toList
  | .text s => ItemDelta.inspectChars s.toList
  | .list items => '[' :: commaJoined (inspectItems items) ++ [']']
  | .map members => '\x7b' :: commaJoined (inspectMembers members) ++ ['\x7d']
  | .set [] => "set()".toList
  | .set (e :: es) => '\x7b' :: commaJoined (inspectItems (e :: es)) ++ ['\x7d']

/-- Each of several values on one line. -/
def inspectItems : List Value → List (List Char)
  | [] => []
  | v :: vs => inspectChars v :: inspectItems vs

/-- Each of several members: the key, a colon and the value. -/
def inspectMembers : List (Key × Value) → List (List Char)
  | [] => []
  | (key, v) :: members =>
    (key.inspectChars ++ ':' :: ' ' :: inspectChars v) :: inspectMembers members

end

/-- A value on one line, as a string. -/
def inspect (v : Value) : String := String.ofList v.inspectChars

/-- The text of a value where no quotes are wanted. -/
def toText : Value → String
  | .text s => s
  | .decimal d => d.toText
  | v => v.inspect

mutual

/-- Whether some integer of a value is too long to be written. -/
def hasLongInteger : Value → Bool
  | .int n => isLongInteger n
  | .list items => anyLongInteger items
  | .map members => anyLongMember members
  | .set elements => anyLongInteger elements
  | _ => false

/-- Whether some integer of several values is too long to be written. -/
def anyLongInteger : List Value → Bool
  | [] => false
  | v :: vs => hasLongInteger v || anyLongInteger vs

/-- Whether some integer of several members is too long to be written. -/
def anyLongMember : List (Key × Value) → Bool
  | [] => false
  | (key, v) :: members =>
    (match key with
      | .index position => isLongInteger position
      | .name _ => false) || hasLongInteger v || anyLongMember members

end

/-- What is held under keys, in key order. -/
def sortedByKey {α : Type} (members : List (Key × α)) : List (Key × α) :=
  members.mergeSort fun (k, _) (l, _) => !l.lt k

mutual

/-- A value with the members of all its maps in key order. -/
def sortMembers : Value → Value
  | .list items => .list (sortItems items)
  | .map members => .map (sortedByKey (sortValues members))
  | v => v

/-- Several values, each with its maps in key order. -/
def sortItems : List Value → List Value
  | [] => []
  | v :: vs => sortMembers v :: sortItems vs

/-- Members in the order given, their values with maps in key order. -/
def sortValues : List (Key × Value) → List (Key × Value)
  | [] => []
  | (key, v) :: members => (key, sortMembers v) :: sortValues members

end

end Value

end ItemDelta
