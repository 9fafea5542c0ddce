import ItemDelta.Error
import ItemDelta.Value.Agreement

/-!
# Elements

What can be an element of a set, the order in which elements are shown, and the parts that values
are made of.

## Main definitions

* `Value.canBeElement` — what can be an element.
* `Value.ofElements` — a set, each element taken once.
* `Value.elementLe` — the order of elements.
* `Value.checkOrdered`, `Value.checkSortable` — the elements that can be put in order among their
  own kind, and among all kinds.
* `Value.parts`, `Value.keys`, `Value.size?` — the parts of a value, the different ones among them,
  and their number.

## Design notes

Sets hold their elements in order. A decimal NaN refuses to be put in order with other numbers,
so whoever depends on the order checks it first.
-/

namespace ItemDelta

/-- A key as a value. -/
def Key.toValue : Key → Value
  | .name text => .text text
  | .index position => .int position

namespace Value

/-- Whether a value can be an element of a set or the key of a table. -/
def canBeElement : Value → Bool
  | .list _ | .map _ | .set _ => false
  | .decimal d => !d.isSignaling
  | _ => true

/-- The elements of a list without those that agree with an earlier one. -/
def distinct : List Value → List Value
  | [] => []
  | v :: vs => v :: (distinct vs).filter fun w => !agrees v w

/-- Among elements null comes first, then numbers and truth values, then texts. -/
def elementRank : Value → Nat
  | .null => 0
  | .text _ => 2
  | _ => 1

/-- The order of elements: by rank, numbers by value and texts by code points. -/
def elementLe : Value → Value → Bool
  | .text s, .text t => s ≤ t
  | v, w =>
    match v.toDecimal?, w.toDecimal? with
    | some x, some y => x.compare? y != some .gt
    | _, _ => v.elementRank ≤ w.elementRank

/-- Elements in ascending order. -/
def sortElements (elements : List Value) : List Value := elements.mergeSort elementLe

/-- A set, each element taken once, in ascending order. -/
def ofElements (elements : List Value) : Value := .set (sortElements (distinct elements))

/-- A decimal that is no number. -/
def isDecimalNan : Value → Bool
  | .decimal (.nan ..) => true
  | _ => false

/-- Refuses elements that are not all texts or all numbers, or that a decimal NaN is among. -/
def checkOrdered (elements : List Value) : Except Error Unit :=
  if elements.length < 2 then .ok ()
  else if elements.all fun v => v.kind = .text then .ok ()
  else if elements.all fun v => v.toDecimal?.isSome then
    if elements.any isDecimalNan then .error (.decimal .invalid) else .ok ()
  else .error .wrongKind

/-- Refuses elements of any kinds if a decimal NaN would have to find its place among other
    numbers. -/
def checkSortable (elements : List Value) : Except Error Unit :=
  let numbers := elements.filter (·.toDecimal?.isSome)
  if numbers.any isDecimalNan && 1 < numbers.length then .error (.decimal .invalid) else .ok ()

/-- The parts of a value: the elements of a list or a set, the keys of a map, or the characters of
    a text. -/
def parts : Value → Except Error (List Value)
  | .list items => .ok items
  | .set elements => .ok elements
  | .map members => .ok (members.map fun (key, _) => key.toValue)
  | .text s => .ok (s.toList.map fun c => .text (String.singleton c))
  | _ => .error .wrongKind

/-- The number of characters, elements or members of a value that has such parts. -/
def size? : Value → Option Nat
  | .text s => some s.length
  | .list items => some items.length
  | .map members => some members.length
  | .set elements => some elements.length
  | _ => none

/-- The different parts of a value, if they can be told apart as elements of a set are. -/
def keys (v : Value) : Except Error (List Value) := do
  let parts ← v.parts
  if parts.all canBeElement then return distinct parts else .error .wrongKind

end Value

end ItemDelta
