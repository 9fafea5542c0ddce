import ItemDelta.Diff.Offered

/-!
# Patching documents

A diff is applied by removing the nodes to delete and then writing the nodes to add and to set.
The writes create missing containers and the removals keep list positions, so the nodes of a
diff do not get into each other's way.

## Main definitions

* `Diff.apply` — the document after all changes of a diff.
* `patch` — the same for a diff from outside.
* `Diff.patches` — each bucket as a partial document of its own.
-/

namespace ItemDelta

/-- The document after removing nodes one after the other. -/
def removeNodes (document : Value) (nodes : List Node) : Except Error Value :=
  nodes.foldlM (fun v node => removePath v node.path) document

/-- The document after writing nodes one after the other. -/
def writeNodes (document : Value) (nodes : List Node) : Except Error Value :=
  nodes.foldlM (fun v node => (setPath v node.path node.value).toExcept) document

/-- The document after all changes of a diff. -/
def Diff.apply (d : Diff) (document : Value) : Except Error Value := do
  let removed ← removeNodes document d.delete
  let added ← writeNodes removed d.add
  writeNodes added d.set

/-- A document patched with a diff from outside. Only lists and maps can be patched. -/
def patch (document : Value) (offered : OfferedDiff) : Except Error Value := do
  let d ← offered.toDiff
  if document.isContainer then d.apply document else .error (.notPatchable document.kind)

/-- A document patched with a diff. -/
def patchWith (document : Value) (d : Diff) : Except Error Value := do
  d.check
  if document.isContainer then d.apply document else .error (.notPatchable document.kind)

/-- Partial documents, one for each bucket of a diff. -/
structure Patches where
  add : Value
  set : Value
  delete : Value

/-- Each bucket of a diff written into an empty map. -/
def Diff.patches (d : Diff) : Except Error Patches := do
  return {
    add := ← writeNodes .emptyMap d.add
    set := ← writeNodes .emptyMap d.set
    delete := ← writeNodes .emptyMap d.delete }

/-- The partial documents as one map under the names of the buckets. -/
def Patches.toValue (p : Patches) : Value :=
  .ofNamed [("ADD", p.add), ("SET", p.set), ("DELETE", p.delete)]

/-- A node as a map. -/
def Node.toValue (node : Node) : Value :=
  .ofNamed [("path", .text node.path), ("value", node.value)]

/-- The buckets as one map under their names. -/
def Diff.toValue (d : Diff) : Value :=
  let bucket (nodes : List Node) : Value := .list (nodes.map Node.toValue)
  .ofNamed [("ADD", bucket d.add), ("SET", bucket d.set), ("DELETE", bucket d.delete)]

end ItemDelta
