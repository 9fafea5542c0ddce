import ItemDelta.Alias.Registration
import ItemDelta.Diff.Partition

/-!
# Update expressions

An update expression is a text of up to three clauses: assignments, removals, and deletions from
sets. It is accompanied by the registries that give its placeholders their meaning and, if the
update is to go through only under a condition, by the text of that condition. A builder collects
the parts step by step; all its steps share their registries and their context, so no two
placeholders collide.

## Main definitions

* `AliasedNode`, `Clauses`, `Condition` — the parts, with placeholders for names and values.
* `Builder` — what has been collected.
* `Builder.set`, `Builder.remove`, `Builder.delete`, `Builder.require` — one step each.
* `Expression` — the finished texts and registries.
* `updateExpression` — the expression for the changes between two documents.

## Design notes

A step that fails adds nothing to its clause, but the placeholders that it made before the
failure stay registered. Builder steps therefore run in a state monad whose errors carry the
state.
-/

namespace ItemDelta

/-- A path and a value, both written with placeholders. -/
structure AliasedNode where
  path : String
  value : String
deriving DecidableEq, Inhabited

/-- The items of the three clauses, each in the order in which it was added. -/
structure Clauses where
  set : List AliasedNode
  remove : List String
  delete : List AliasedNode
deriving DecidableEq, Inhabited

/-- What has to hold of the stored item. -/
inductive Condition where
  /-- There is no value at a path. -/
  | absent (path : String)
  /-- The value at a path compares as stated with another value. -/
  | compares (path operator value : String)
deriving DecidableEq

/-- The text of an assignment. -/
def AliasedNode.assignment (node : AliasedNode) : String := node.path ++ " = " ++ node.value

/-- The text of a deletion from a set. -/
def AliasedNode.deletion (node : AliasedNode) : String := node.path ++ " " ++ node.value

/-- The text of a condition. -/
def Condition.text : Condition → String
  | .absent path => "attribute_not_exists (" ++ path ++ ")"
  | .compares path operator value => path ++ " " ++ operator ++ " " ++ value

/-- The clause behind a keyword; a clause without items is left out. -/
def clause (keyword : String) (items : List String) : List String :=
  if items.isEmpty then [] else [keyword ++ " " ++ ", ".intercalate items]

namespace Clauses

/-- No items at all. -/
def empty : Clauses := ⟨[], [], []⟩

/-- The texts of the clauses that have items. -/
def texts (clauses : Clauses) : List String :=
  clause "SET" (clauses.set.map AliasedNode.assignment) ++
    clause "REMOVE" clauses.remove ++
    clause "DELETE" (clauses.delete.map AliasedNode.deletion)

/-- The text of the update. -/
def text (clauses : Clauses) : String := " ".intercalate clauses.texts

end Clauses

/-- A finished update expression. -/
structure Expression where
  update : String
  names : Registry String
  values : Registry Value
  condition : Option String

namespace Expression

/-- An expression as a map of arguments for the store. Registries without entries are left out,
    since the store refuses placeholders that are declared and not used. -/
def toValue (expression : Expression) : Value :=
  let names := expression.names.map fun (placeholder, name) => (placeholder, Value.text name)
  let registry (key : String) (entries : Registry Value) : List (String × Value) :=
    if entries.isEmpty then [] else [(key, .ofNamed entries)]
  .ofNamed <|
    ("UpdateExpression", .text expression.update) ::
      registry "ExpressionAttributeNames" names ++
      registry "ExpressionAttributeValues" expression.values ++
      (expression.condition.map fun text => ("ConditionExpression", Value.text text)).toList

end Expression

/-- What has been collected for an update expression. -/
structure Builder where
  aliasing : AliasState
  /-- The prefix of placeholders; if it is null, that of the context. -/
  lead : Value
  clauses : Clauses
  condition : Option Condition
deriving Inhabited

/-- One step of a builder. -/
abbrev Building := EStateM Error Builder

namespace Builder

/-- A builder with empty registries. -/
def start (context : AliasContext) (lead : Value) : Builder :=
  ⟨.start context, lead, .empty, none⟩

/-- A registration inside a builder. What was registered stays so if the action fails later. -/
def registering {α : Type} (action : Aliasing α) : Building α := fun builder =>
  match action builder.aliasing with
  | .ok result aliasing => .ok result { builder with aliasing }
  | .error error aliasing => .error error { builder with aliasing }

/-- The placeholders of a node, under the builder's own prefix or another one. -/
def aliased (node : Node) (lead : Value) : Building AliasedNode := do
  let lead := leadOr lead (← get).lead
  let (path, value) ← registering (aliasNode lead node)
  return ⟨path, value⟩

/-- The placeholders of a path, under the builder's own prefix or another one. -/
def aliasedPath (path : String) (lead : Value) : Building String := do
  let lead := leadOr lead (← get).lead
  registering (aliasPath lead path)

/-- Adds assignments. -/
def set (nodes : List Node) : Building Unit := do
  let items ← nodes.mapM (aliased · .null)
  modify fun builder =>
    { builder with clauses := { builder.clauses with set := builder.clauses.set ++ items } }

/-- Adds removals of members and list elements. -/
def remove (nodes : List Node) : Building Unit := do
  let items ← nodes.mapM fun node => aliasedPath node.path .null
  modify fun builder =>
    { builder with clauses := { builder.clauses with remove := builder.clauses.remove ++ items } }

/-- Adds deletions from sets. -/
def delete (nodes : List Node) : Building Unit := do
  let items ← nodes.mapM (aliased · .null)
  modify fun builder =>
    { builder with clauses := { builder.clauses with delete := builder.clauses.delete ++ items } }

/-- Puts a condition on the value at a path: that it compares as stated with the expected value
    or, without one, that it is absent. -/
def require (path : String) (expected : Option Value) (operator : String)
    (lead : Value) : Building Unit := do
  let condition ← match expected with
    | none => do
      let item ← aliasedPath path lead
      pure (Condition.absent item)
    | some value => do
      let item ← aliased ⟨path, value⟩ lead
      pure (Condition.compares item.path operator item.value)
  modify fun builder => { builder with condition := some condition }

/-- Adds the clauses of a regrouped diff. The order of the steps decides which names get the
    lower suffixes. -/
def addPartition (nodes : Partition) : Building Unit := do
  set nodes.set
  remove nodes.remove
  delete nodes.delete

/-- The expression collected so far. -/
def finish (builder : Builder) : Expression :=
  { update := builder.clauses.text
    names := builder.aliasing.names
    values := builder.aliasing.values
    condition := builder.condition.map Condition.text }

end Builder

/-- An action on the context that several compilations share. -/
abbrev Compiling := EStateM Error AliasContext

/-- The expression that the steps of a fresh builder collect. -/
def build (lead : Value) (steps : Building Unit) : Compiling Expression := fun context =>
  match steps (Builder.start context lead) with
  | .ok _ builder => .ok builder.finish builder.aliasing.context
  | .error error builder => .error error builder.aliasing.context

/-- The expression for the changes from a base to a modified document. -/
def updateExpression (base modified : Value) (orphans supportSets : Bool) :
    Compiling Expression := do
  let nodes ← ofExcept (partition base modified orphans supportSets)
  build .null (Builder.addPartition nodes)

end ItemDelta
