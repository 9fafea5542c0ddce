import ItemDelta.Alias.Basic
import ItemDelta.Node

/-!
# Registering placeholders

A name gets one placeholder for each prefix and keeps it, unless that stands for another name in
the registry at hand; a value gets a new placeholder each time. An aliased path has a placeholder
for each of its names and keeps its subscripts.

## Main definitions

* `AliasState` — a context together with the two registries.
* `AliasState.drawing` — an action on the context alone.
* `AliasState.registerName`, `AliasState.registerValue` — one registration.
* `nameAlias`, `valueAlias` — the same, where it is allowed.
* `aliasPath`, `aliasNode` — the placeholders of a whole path, and of its value.

## Design notes

A failing step keeps the registrations made before the failure and the numbers that were drawn, so
`aliasPath` runs in a state monad whose errors carry the state. A registration fails only where the
counter has come to a number that is too long to be written.
-/

namespace ItemDelta

/-- A context and the registries that it fills. -/
structure AliasState where
  context : AliasContext
  names : Registry String
  values : Registry Value
  /-- The name placeholders that stand for something that is no name. -/
  taken : List String
deriving Inhabited

namespace AliasState

/-- A context with empty registries. -/
def start (context : AliasContext) : AliasState := ⟨context, [], [], []⟩

/-- Whether a placeholder may stand for a name: it is not registered, or for this name. -/
def isFreeFor (state : AliasState) (name placeholder : String) : Bool :=
  match state.names.get? placeholder with
  | some registered => registered == name
  | none => !state.taken.contains placeholder

/-- Whether a placeholder may stand for a new value: it is not registered. -/
def isFreeForValue (state : AliasState) (placeholder : String) : Bool :=
  (state.values.get? placeholder).isNone

end AliasState

/-- An action on contexts and registries. -/
abbrev Aliasing := EStateM Error AliasState

namespace AliasState

/-- An action on the context alone. What it drew is spent if it fails. -/
def drawing {α : Type} (action : Drawing α) : Aliasing α := fun state =>
  match action state.context with
  | .ok result context => .ok result { state with context }
  | .error error context => .error error { state with context }

/-- A new placeholder for a name, noted in the context. -/
def newNameAlias (state : AliasState) (lead : Value) (name : String) : Drawing String := do
  let placeholder ← freePlaceholder nameSigil [lead.part, some name] "attr"
    (state.isFreeFor name) (state.names.length + state.taken.length)
  modify (·.noteAlias lead name placeholder)
  return placeholder

/-- The placeholder that a name keeps under a prefix, unless it stands for another name in this
    registry, and a new one otherwise. -/
def placeholderFor (lead : Value) (name : String) : Aliasing String := do
  let state ← get
  match state.context.alias? lead name with
  | some placeholder =>
    if state.isFreeFor name placeholder then return placeholder
    else drawing (state.newNameAlias lead name)
  | none => drawing (state.newNameAlias lead name)

/-- The placeholder of a name, registered. -/
def registerName (lead : Value) (name : String) : Aliasing String := do
  let placeholder ← placeholderFor lead name
  modify fun state => { state with names := state.names.insert placeholder name }
  return placeholder

/-- A new placeholder for a value, named after a prefix and the parts of the path that leads to
    the value. -/
def registerValue (parts : List (Option String)) (value : Value) : Aliasing String := do
  let state ← get
  let placeholder ← drawing
    (freePlaceholder valueSigil parts "value" state.isFreeForValue state.values.length)
  modify fun state => { state with values := state.values.insert placeholder value }
  return placeholder

end AliasState

/-- The placeholder of a name, registered, if the name is not too long and can be noted under the
    prefix. -/
def nameAlias (lead : Value) (name : String) : Aliasing String := do
  ofExcept (checkLength name)
  ofExcept (checkLead lead)
  AliasState.registerName lead name

/-- The placeholder of a value at the end of a list of keys, registered, if all parts of it can be
    written. -/
def valueAlias (lead : Value) (keys : List Value) (value : Value) : Aliasing String := do
  let parts ← ofExcept ((lead :: keys).mapM Value.writtenPart)
  AliasState.registerValue parts value

/-- A subscript put behind the last of several parts of a path, or standing alone. -/
def addSubscript (subscript : String) : List String → List String
  | [] => [subscript]
  | [part] => [part ++ subscript]
  | part :: parts => part :: addSubscript subscript parts

/-- The parts of an aliased path: one placeholder for each name, with its subscripts. -/
def aliasSegments (lead : Value) (parts : List String) :
    List Segment → Aliasing (List String)
  | [] => return parts
  | segment :: segments =>
    match segment.key with
    | .index position =>
      aliasSegments lead (addSubscript (String.ofList (indexStep position)) parts) segments
    | .name name => do
      let placeholder ← nameAlias lead name
      aliasSegments lead (parts ++ [placeholder]) segments

/-- The prefix to be used: the one asked for, or that of the context. One in a context that counts
    as false is empty. -/
def effectiveLead (lead : Value) (context : AliasContext) : Value :=
  leadOr lead (if context.lead.isTruthy then context.lead else .text "")

/-- A path with a placeholder for each name. -/
def aliasPath (lead : Value) (path : String) : Aliasing String := do
  let lead := effectiveLead lead (← get).context
  let segments ← ofExcept (parsePath path)
  return ".".intercalate (← aliasSegments lead [] segments)

/-- A path with a placeholder for each name, and the placeholder of the value there. -/
def aliasNode (lead : Value) (node : Node) : Aliasing (String × String) := do
  let lead := effectiveLead lead (← get).context
  let segments ← ofExcept (parsePath node.path)
  let parts ← aliasSegments lead [] segments
  let first ← ofExcept lead.writtenPart
  let placeholder ← AliasState.registerValue
    (first :: segments.map fun segment => segment.key.part) node.value
  return (".".intercalate parts, placeholder)

/-- Refuses paths with names in them, for want of a registry of names. -/
def checkNameless (lead : Value) (path : String) : Except Error Unit := do
  let keys ← pathKeys path
  let name? (key : Key) : Option String := match key with
    | .name name => some name
    | .index _ => none
  match keys.findSome? name? with
  | some name => do
    checkLength name
    checkLead lead
    .error .unsupported
  | none => .ok ()

end ItemDelta
