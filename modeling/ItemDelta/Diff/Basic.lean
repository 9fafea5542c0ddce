import ItemDelta.Node

/-!
# Diffs of documents

A diff lists what changed from a base to a modified document as nodes in three buckets:
nodes to add, nodes to set and nodes to delete. Elements of lists are deleted by nulling them,
never by closing the gap, so that the positions of the other elements keep their meaning.

Where a filled container and a scalar swap places, or a map and a list do, no list of leaves can
say so: the whole path is one node then, set to the modified value, or deleted if that is null
or empty, and nothing below it is listed.

## Main definitions

* `Value.differs` — when a leaf counts as changed.
* `Value.tellApart` — the same, unless a signaling NaN stands in the way.
* `Diff`, `diff` — the buckets, and how they are filled.
-/

namespace ItemDelta

namespace Value

/-- Leaves differ if their data do. Numbers of different kinds are compared by value; otherwise
    values of different kinds always differ, so true is not one. -/
def differs (v w : Value) : Bool :=
  if v.isNumber && w.isNumber then !v.agrees w
  else if v.kind ≠ w.kind then true
  else !v.agrees w

/-- Whether it takes a look at a signaling NaN to find out if leaves differ. Values of different
    kinds are told apart without a look at them, unless both are numbers. -/
def needsSignaling (v w : Value) : Bool :=
  ((v.isNumber && w.isNumber) || v.kind = w.kind) && v.signals w

/-- Whether leaves differ. A signaling NaN cannot be compared. -/
def tellApart (v w : Value) : Except Error Bool :=
  if v.needsSignaling w then .error (.decimal .invalid) else .ok (v.differs w)

/-- The base document had a value and the modified document has null. -/
def nullified (base modified : Value) : Bool := base ≠ .null && modified = .null

/-- The modified document has the empty text where the base document had something else. -/
def emptied (base modified : Value) : Bool := !base.isEmptyText && modified.isEmptyText

/-- The kind of a container, nothing for any other value. -/
def containerKind? (v : Value) : Option Kind := if v.isContainer then some v.kind else none

end Value

/-- Changed nodes in three buckets. -/
structure Diff where
  add : List Node
  set : List Node
  delete : List Node
deriving DecidableEq, Inhabited

/-- A deletion is what remains of a value that was nulled or emptied. -/
def deletes (base modified : Value) : Bool :=
  Value.nullified base modified || Value.emptied base modified

/-- The leaves of the base document that are gone from the modified document, or deleted there. -/
def removedNodes (baseLeaves modifiedNodes : List Node) : List Node :=
  baseLeaves.filter fun a =>
    match nodeAt? modifiedNodes a.path with
    | none => true
    | some b => deletes a.value b.value

/-- The leaf of the base document that a leaf of the modified one is compared with. Nothing is
    compared with what is deleted. -/
def counterpart? (baseLeaves : List Node) (b : Node) : Option Node :=
  (nodeAt? baseLeaves b.path).filter fun a => !deletes a.value b.value

/-- The leaves of both documents whose values differ, with the modified values. -/
def updatedNodes (baseLeaves modifiedLeaves : List Node) : List Node :=
  modifiedLeaves.filter fun b =>
    (counterpart? baseLeaves b).any fun a => a.value.differs b.value

/-- Refuses documents with leaves that cannot be compared. -/
def checkComparable (baseLeaves modifiedLeaves : List Node) : Except Error Unit :=
  let isRefused (b : Node) : Bool :=
    (counterpart? baseLeaves b).any fun a => a.value.needsSignaling b.value
  if modifiedLeaves.any isRefused then .error (.decimal .invalid) else .ok ()

/-- Whether two values at one path are of different container kinds and one of them is filled. -/
def swapsKind (base modified : Value) : Bool :=
  base.containerKind? ≠ modified.containerKind? &&
    (base.isInternal || modified.isInternal)

/-- The paths where container kinds swap: the nodes to set and the nodes to delete. -/
def replacedNodes (baseNodes modifiedNodes : List Node) : List Node × List Node :=
  let swaps := modifiedNodes.filterMap fun b =>
    match nodeAt? baseNodes b.path with
    | some a => if swapsKind a.value b.value then some (a, b) else none
    | none => none
  ((swaps.filter fun (a, b) => !deletes a.value b.value).map (·.2),
    (swaps.filter fun (a, b) => deletes a.value b.value).map (·.1))

/-- The nodes that lie neither at nor below any of the roots. -/
def outside (nodes roots : List Node) : Except Error (List Node) :=
  let paths := pathsOf roots
  nodes.filterM fun node =>
    if paths.contains node.path then .ok false
    else (ancestorPaths node.path).map fun ancestors => !paths.any ancestors.contains

/-- Checks that every path of a bucket can be read and that none occurs twice, `seen` being the
    paths before. -/
def checkPaths (seen : List String) : List Node → Except Error Unit
  | [] => .ok ()
  | node :: nodes => do
    let _ ← parsePath node.path
    if seen.contains node.path then .error (.repeatedPath node.path)
    else checkPaths (node.path :: seen) nodes

/-- Checks the paths of all buckets. -/
def Diff.check (d : Diff) : Except Error Unit := do
  checkPaths [] d.add
  checkPaths [] d.delete
  checkPaths [] d.set

/-- An absent document is read as an empty map. -/
def orEmpty : Value → Value
  | .null => .emptyMap
  | v => v

/-- The nodes that are new in the modified document: every new leaf with `orphans`, the top of
    each new subtree otherwise. -/
def addedNodes (orphans : Bool)
    (baseNodes baseLeaves modifiedNodes modifiedLeaves : List Node) :
    Except Error (List Node) :=
  if orphans then
    let known := pathsOf baseLeaves
    .ok (modifiedLeaves.filter fun node => !known.contains node.path)
  else
    let known := pathsOf baseNodes
    rootNodes (modifiedNodes.filter fun node => !known.contains node.path)

/-- The diff from a base to a modified document. -/
def diff (base modified : Value) (orphans : Bool) : Except Error Diff := do
  let baseNodes := allNodes (orEmpty base)
  let modifiedNodes := allNodes (orEmpty modified)
  let baseLeaves ← leafNodes baseNodes
  let modifiedLeaves ← leafNodes modifiedNodes
  let added ← addedNodes orphans baseNodes baseLeaves modifiedNodes modifiedLeaves
  checkComparable baseLeaves modifiedLeaves
  let removed := removedNodes baseLeaves modifiedNodes
  let updated := updatedNodes baseLeaves modifiedLeaves
  let (replaced, replacedRemoved) := replacedNodes baseNodes modifiedNodes
  let roots := replaced ++ replacedRemoved
  let d : Diff :=
    { add := ← outside added roots
      set := sortByPath ((← outside updated roots) ++ replaced)
      delete := sortByPath ((← outside removed roots) ++ replacedRemoved) }
  d.check
  return d

end ItemDelta
