import ItemDelta.Json.Writer
import ItemDelta.Layout
import ItemDelta.Path.Printer

/-!
# Reports on documents

A document is shown with one member on each line as `key: value`, nested maps and long lists
indented below their key. Every line that the report starts begins with the same lead.

## Main definitions

* `formatValue` — a value as it stands behind its key.
* `nested` — the lead of indented lines.
* `reportValue` — a document.
* `reportMembers` — the members of a map, some of which may be left out.

## Design notes

Reports are lists of characters, put together from complete lines. A value whose integers are
too long to be written cannot be reported, nor can a map under both names and positions.

What is reported member by member need not be a map. Of a list, a set or a text the parts are
taken for the keys. Only a list has anything under such keys, and only under those that are
positions, so a list of its own positions is reported like a map.

A lead is a value too, whose text stands at the start of the lines. Only a text can be followed by
the blanks of an indented line, and only what has a size says how much room is left for a list.
-/

namespace ItemDelta

/-- What an indented line has behind the lead of the line above. -/
def nesting : String := "  "

/-- The lead of the lines that are indented below a line. -/
def nested : Value → Except Error Value
  | .text lead => .ok (.text (lead ++ nesting))
  | _ => .error .wrongKind

/-- Lists that would reach this column have one element on each line. -/
def listWidth : Nat := 78

/-- Refuses values with integers that are too long to be written. -/
def checkWritable (v : Value) : Except Error Unit :=
  if v.hasLongInteger then .error (.tooManyDigits none) else .ok ()

/-- A value as it stands behind its key: a text of one line as it is, anything else wrapped. -/
def formatChars (v : Value) : Except Error (List Char) := do
  checkWritable v
  match v with
  | .text s => if s.toList.contains '\n' then v.wrapped else return s.toList
  | v => v.wrapped

/-- A value as it stands behind its key, as a string. -/
def formatValue (v : Value) : Except Error String := String.ofList <$> formatChars v

/-- Whether a value stands on the line of its key. -/
def isInline (lead : Value) : Value → Except Error Bool
  | .map members => .ok members.isEmpty
  | .list items => do
    checkWritable (.list items)
    let text ← (Value.list items).wrapped
    let size ← lead.size?.elim (.error .wrongKind) .ok
    return (text.length : Int) < (listWidth : Int) - size
  | _ => .ok true

/-- One line. -/
def line (lead text : List Char) : List Char := lead ++ text ++ ['\n']

/-- One line behind a lead. -/
def leadLine (lead : Value) (text : List Char) : List Char := line lead.toText.toList text

/-- A key as it stands in front of its value. -/
def Key.label : Key → List Char
  | .name text => text.toList
  | .index position => decimalDigits position

mutual

/-- A value whose maps are in key order. -/
def valueLines (lead : Value) : Value → Except Error (List Char)
  | .map [] => (leadLine lead) <$> formatChars (.map [])
  | .map (member :: members) => do
    Value.checkKeys (member :: members)
    memberLines lead (member :: members)
  | .list items => do
    if ← isInline lead (.list items) then (leadLine lead) <$> formatChars (.list items)
    else elementLines lead 0 items
  | v => (leadLine lead) <$> formatChars v

/-- Members, the value of each on the line of its key or below. -/
def memberLines (lead : Value) : List (Key × Value) → Except Error (List Char)
  | [] => .ok []
  | (key, v) :: members => do
    let first ←
      if ← isInline lead v then
        (fun text => leadLine lead (key.label ++ ':' :: ' ' :: text)) <$> formatChars v
      else
        (fun lines => leadLine lead (key.label ++ [':']) ++ lines) <$>
          valueLines (← nested lead) v
    let rest ← memberLines lead members
    return first ++ rest

/-- List elements, each under its position in brackets. -/
def elementLines (lead : Value) (position : Nat) : List Value → Except Error (List Char)
  | [] => .ok []
  | v :: vs => do
    let label := indexStep position
    let first ←
      if ← isInline lead v then
        (fun text => leadLine lead (label ++ ':' :: ' ' :: text)) <$> formatChars v
      else
        (fun lines => leadLine lead (label ++ [':']) ++ lines) <$> valueLines (← nested lead) v
    let rest ← elementLines lead (position + 1) vs
    return first ++ rest

end

/-- A value behind the same lead on every line that the report starts. -/
def reportChars (lead v : Value) : Except Error (List Char) :=
  valueLines lead v.sortMembers

/-- A value, as a string. -/
def reportValue (lead v : Value) : Except Error String :=
  String.ofList <$> reportChars lead v

/-- The element of a list at a position. Negative positions count from the end. -/
def elementAt? (items : List Value) (position : Int) : Option Value :=
  if 0 ≤ position then items[position.toNat]?
  else if items.length < position.natAbs then none
  else items[items.length - position.natAbs]?

/-- What a value that is no map has under one of its keys. -/
def Value.underKey : Value → Value → Except Error Value
  | .list items, key =>
    match key.toInteger? with
    | some position => (elementAt? items position).elim (.error .missingElement) .ok
    | none => .error .wrongKind
  | _, _ => .error .wrongKind

/-- The members of a map in key order. -/
def membersChars (lead : Value) (members : Members) : Except Error (List Char) := do
  Value.checkKeys members
  memberLines lead (Value.sortedByKey (Value.sortValues members))

/-- What a value that is no map has under some of its keys, in the order of these. -/
def partsChars (lead v : Value) (keys : List Value) : Except Error (List Char) := do
  Value.checkOrdered keys
  let parts ← (Value.sortElements keys).mapM fun key => do
    let part ← v.underKey key
    memberLines lead [(.name key.toText, part.sortMembers)]
  return parts.flatten

/-- A value member by member, but for some keys. -/
def mapChars (lead excluded v : Value) : Except Error (List Char) := do
  let keys ← v.keys
  let hidden ← excluded.keys
  let isShown (key : Value) : Bool := !hidden.any key.agrees
  match v with
  | .map members => membersChars lead (members.filter fun (key, _) => isShown key.toValue)
  | v => partsChars lead v (keys.filter isShown)

/-- A value member by member, as a string. -/
def reportMembers (lead excluded v : Value) : Except Error String :=
  String.ofList <$> mapChars lead excluded v

end ItemDelta
