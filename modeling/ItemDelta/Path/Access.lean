import ItemDelta.Path.Parser
import ItemDelta.Value.Agreement

/-!
# Reading and writing along paths

A read follows a list of keys and finds nothing if some step is missing. A write creates the
containers that are missing on its way, lists where the next step is a position and maps
elsewhere, and pads lists with nulls. A removal deletes members of maps and puts null in the
place of list elements, so that no other element changes its position.

## Main definitions

* `Value.get?` — the value at the end of a list of keys.
* `Value.assign` — the document after a write, together with the error that stopped it, if any.
* `Value.removeAt` — the document after a removal.
* `getPath`, `setPath`, `removePath` — the same for the text of a path.

## Design notes

A write that fails keeps the containers created before the failure, so `assign` returns a
document in every case. `Outcome` is such a pair.
-/

namespace ItemDelta

/-- A document after an operation, and the error that ended the operation early, if any. -/
structure Outcome where
  document : Value
  error : Option Error

/-- The outcome as a result, where the document of a failed operation is of no interest. -/
def Outcome.toExcept (outcome : Outcome) : Except Error Value :=
  match outcome.error with
  | none => .ok outcome.document
  | some error => .error error

namespace Value

/-- The value one step below. Names lead into maps and positions into lists. -/
def child? : Value → Key → Option Value
  | .map members, .name name => Members.get? members (.name name)
  | .list items, .index position => items[position]?
  | _, _ => none

/-- The value at the end of a list of keys. -/
def get? : Value → List Key → Option Value
  | v, [] => some v
  | v, key :: keys => (v.child? key).bind (·.get? keys)

@[simp] theorem get?_nil (v : Value) : v.get? [] = some v := by
  cases v <;> rfl

@[simp] theorem get?_cons (v : Value) (key : Key) (keys : List Key) :
    v.get? (key :: keys) = (v.child? key).bind (·.get? keys) := by
  cases v <;> rfl

/-- Reading along two lists of keys is reading along one after the other. -/
theorem get?_append (v : Value) (keys rest : List Key) :
    v.get? (keys ++ rest) = (v.get? keys).bind (·.get? rest) := by
  induction keys generalizing v with
  | nil => simp
  | cons key keys ih =>
    cases h : v.child? key with
    | none => simp [h]
    | some w => simp [h, ih w]

/-- The value that a container holds under a key. A map can hold values under positions too. -/
def held? : Value → Key → Option Value
  | .map members, key => Members.get? members key
  | .list items, .index position => items[position]?
  | _, _ => none

/-- The longest list whose length the machine can count. -/
def maxListLength : Nat := Nat.pow 2 63 - 1

/-- Lists from this length on do not fit into memory. -/
def memoryListLength : Nat := Nat.pow 2 30

/-- A list with one element replaced, padded with nulls up to its position. -/
def padSet (items : List Value) (position : Nat) (value : Value) : List Value :=
  if position < items.length then items.set position value
  else items ++ List.replicate (position - items.length) .null ++ [value]

/-- Puts a value into a container under a key. -/
def place : Value → Key → Value → Except Error Value
  | .map members, key, value => .ok (.map (Members.insert members key value))
  | .list items, .index position, value =>
    if maxListLength < position + 1 - items.length then .error .outOfRange
    else if memoryListLength ≤ position + 1 - items.length then .error .outOfMemory
    else .ok (.list (padSet items position value))
  | _, _, _ => .error .wrongKind

/-- The container that is created above a step. -/
def emptyAbove : Key → Value
  | .index _ => emptyList
  | .name _ => emptyMap

/-- The document after a write along a step and the keys below it. -/
def assignBelow (v : Value) (key : Key) : List Key → Value → Outcome
  | [], value =>
    match v.place key value with
    | .ok v => ⟨v, none⟩
    | .error error => ⟨v, some error⟩
  | next :: keys, value =>
    let child := match v.held? key with
      | some (.list items) => .list items
      | some (.map members) => .map members
      | _ => emptyAbove next
    match v.place key child with
    | .error error => ⟨v, some error⟩
    | .ok _ =>
      let below := assignBelow child next keys value
      match v.place key below.document with
      | .ok v => ⟨v, below.error⟩
      | .error error => ⟨v, some error⟩

/-- The document after a write along a list of keys. The root itself cannot be written. -/
def assign (v : Value) : List Key → Value → Outcome
  | [], _ => ⟨v, some .rootWritten⟩
  | key :: keys, value => assignBelow v key keys value

/-- Whether one text occurs inside another. -/
def occursIn (part : List Char) : List Char → Bool
  | [] => part.isEmpty
  | c :: rest => part.isPrefixOf (c :: rest) || occursIn part rest

/-- A value after the removal of what it holds under a key. Removing what is not there changes
    nothing; only maps and lists can be changed. -/
def removeKey : Value → Key → Except Error Value
  | .map members, key => .ok (.map (Members.erase members key))
  | .list items, .index position => .ok (.list (items.set position .null))
  | .list items, .name _ => .ok (.list items)
  | .text s, .name name =>
    if occursIn name.toList s.toList then .error .wrongKind else .ok (.text s)
  | .set elements, .name name =>
    if elements.any (agrees (.text name)) then .error .wrongKind else .ok (.set elements)
  | .set elements, .index position =>
    if elements.any (agrees (.int position)) then .error .wrongKind else .ok (.set elements)
  | _, _ => .error .wrongKind

/-- The document with the value one step below replaced. -/
def replaceChild : Value → Key → Value → Value
  | .map members, key, value => .map (Members.insert members key value)
  | .list items, .index position, value => .list (items.set position value)
  | v, _, _ => v

/-- The document after the removal of a key from the value at the end of a list of keys. -/
def removeAt : Value → List Key → Key → Except Error Value
  | v, [], key => v.removeKey key
  | v, next :: keys, key =>
    match v.child? next with
    | none => .ok v
    | some child => (child.removeAt keys key).map (v.replaceChild next)

end Value

/-- The value at a path, if there is one. -/
def getPath (document : Value) (path : String) : Except Error (Option Value) :=
  (pathKeys path).map document.get?

/-- The document after a write at a path. -/
def setPath (document : Value) (path : String) (value : Value) : Outcome :=
  match pathKeys path with
  | .ok keys => document.assign keys value
  | .error error => ⟨document, some error⟩

/-- The document after a removal at a path. The parent is looked up by the text of its own path,
    which can only be read if no name in it ends in an overlooked line feed. -/
def removePath (document : Value) (path : String) : Except Error Value := do
  let keys ← pathKeys path
  match keys.getLast? with
  | none => .error .rootRemoved
  | some key =>
    let parents ← pathKeys (pathText keys.dropLast)
    document.removeAt parents key

end ItemDelta
