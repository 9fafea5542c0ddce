import ItemDelta.Diff.Basic

/-!
# Partitions of a diff by update clause

An update expression has three kinds of clause. Added and set nodes are assigned; deleted nodes
are removed; and, on request, deleted nodes that look like elements of a set-valued attribute
are deleted from the set. The last is a guess: a list of numbers or texts looks the same.

## Main definitions

* `Partition` — the nodes of each clause.
* `Node.isSetElement` — the guess.
* `partition` — the diff of two documents, regrouped.
-/

namespace ItemDelta

/-- Nodes by the clause of an update expression that they go to. -/
structure Partition where
  set : List Node
  remove : List Node
  delete : List Node
deriving Inhabited

/-- Whether a deleted node looks like an element of a set: its path ends in a position and its
    value is a number or a text. -/
def Node.isSetElement (node : Node) : Except Error Bool := do
  let segments ← parsePath node.path
  let atIndex := match segments.getLast? with
    | some segment => segment.isIndex
    | none => false
  let fits := match node.value with
    | .text _ => true
    | value => value.isNumber
  return atIndex && fits

/-- The nodes of a diff, regrouped. -/
def Diff.partition (d : Diff) (supportSets : Bool) : Except Error Partition :=
  if supportSets then do
    let deleted ← d.delete.filterM Node.isSetElement
    let removed ← d.delete.filterM fun node => node.isSetElement.map (!·)
    return { set := d.add ++ d.set, remove := removed, delete := deleted }
  else
    return { set := d.add ++ d.set, remove := d.delete, delete := [] }

/-- The diff of two documents, regrouped. -/
def partition (base modified : Value) (orphans supportSets : Bool) :
    Except Error Partition := do
  (← diff base modified orphans).partition supportSets

end ItemDelta
