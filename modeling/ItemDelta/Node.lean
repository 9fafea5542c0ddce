import ItemDelta.Path.Access

/-!
# Nodes

A node is a value at a path. A document is compared through the flat list of its nodes, sorted
by path, and through two selections of a node list: the leaves, which no other node lies below,
and the roots, which lie below no other node.

## Main definitions

* `Node` — a path and the value there.
* `allNodes` — every node of a document below the root, sorted by path.
* `leafNodes`, `rootNodes` — the two selections.
-/

namespace ItemDelta

/-- A value at a path. -/
structure Node where
  path : String
  value : Value
deriving DecidableEq, Inhabited

/-- The step to a member of a map. A position under which a map holds a value is written like a
    member name. -/
def Key.memberText : Key → String
  | .name text => String.ofList (memberStep text.toList)
  | .index position => String.ofList (memberStep (decimalDigits position))

mutual

/-- The nodes strictly below a value that lies at a path, parents before children. -/
def nodesBelow (path : String) : Value → List Node
  | .list items => nodesOfItems path 0 items
  | .map members => nodesOfMembers path members
  | _ => []

/-- The nodes at and below the elements of a list from a position on. -/
def nodesOfItems (path : String) (position : Nat) : List Value → List Node
  | [] => []
  | v :: vs =>
    let step := path ++ String.ofList (indexStep position)
    ⟨step, v⟩ :: nodesBelow step v ++ nodesOfItems path (position + 1) vs

/-- The nodes at and below the members of a map. -/
def nodesOfMembers (path : String) : List (Key × Value) → List Node
  | [] => []
  | (key, v) :: members =>
    let step := path ++ key.memberText
    ⟨step, v⟩ :: nodesBelow step v ++ nodesOfMembers path members

end

/-- Nodes in the order of their paths; nodes of one path keep their order. -/
def sortByPath (nodes : List Node) : List Node :=
  nodes.mergeSort fun a b => decide (a.path ≤ b.path)

/-- The paths of a list of nodes. -/
def pathsOf (nodes : List Node) : List String := nodes.map (·.path)

/-- Every node of a document below the root, sorted by path. -/
def allNodes (document : Value) : List Node :=
  sortByPath (nodesBelow (String.singleton rootSign) document)

/-- The first node of a list with a path. -/
def nodeAt? (nodes : List Node) (path : String) : Option Node :=
  nodes.find? fun node => node.path == path

/-- The nodes that have no descendant in the list: scalars, sets and empty containers. -/
def leafNodes (nodes : List Node) : Except Error (List Node) := do
  let ancestors ← nodes.mapM fun node => ancestorPaths node.path
  let parents := ancestors.flatten
  return nodes.filter fun node => !parents.contains node.path

/-- The nodes that have no ancestor in the list: the top of each subtree. -/
def rootNodes (nodes : List Node) : Except Error (List Node) := do
  let paths := pathsOf nodes
  nodes.filterM fun node =>
    (ancestorPaths node.path).map fun ancestors => !ancestors.any paths.contains

end ItemDelta
