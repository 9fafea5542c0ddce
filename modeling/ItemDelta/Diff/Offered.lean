import ItemDelta.Diff.Basic
import ItemDelta.Value.Element

/-!
# Diffs offered from outside

A diff that comes from outside can have any shape. Accepting it checks the shape step by step
and turns it into typed buckets; the first fault found is the one reported.

## Main definitions

* `OfferedDiff` — a diff of any shape.
* `OfferedDiff.accept` — its buckets, if it is well formed.
* `OfferedDiff.acceptAs` — the same for buckets asked for in any way.
-/

namespace ItemDelta

/-- An item of a bucket. -/
inductive OfferedNode where
  /-- A record meant as a node, with some members. -/
  | record (members : Members)
  /-- Anything else. -/
  | other (value : Value)

/-- What stands under the name of a bucket. -/
inductive OfferedBucket where
  | items (nodes : List OfferedNode)
  | other (kind : Value.Kind)

/-- What is offered as a diff. -/
inductive OfferedDiff where
  | buckets (named : List (String × OfferedBucket))
  | other

/-- The node that an item of a bucket is. -/
def OfferedNode.accept : OfferedNode → Except Error Node
  | .other value =>
    if value.hasLongInteger then .error (.tooManyDigits none) else .error (.notNode value)
  | .record members =>
    match Members.get? members (.name "path"), Members.get? members (.name "value") with
    | some (.text path), some value => .ok ⟨path, value⟩
    | some _, some _ => .error .unsupported
    | _, _ =>
      if Value.anyLongMember members then .error (.tooManyDigits none)
      else .error (.incompleteNode members)

/-- The nodes of a bucket, with readable paths that occur once each, `seen` being the paths
    before. -/
def acceptNodes (seen : List String) : List OfferedNode → Except Error (List Node)
  | [] => .ok []
  | item :: items => do
    let node ← item.accept
    let _ ← parsePath node.path
    if seen.contains node.path then .error (.repeatedPath node.path)
    else return node :: (← acceptNodes (node.path :: seen) items)

/-- The nodes of what stands under the name of a bucket. -/
def OfferedBucket.accept : OfferedBucket → Except Error (List Node)
  | .items nodes => acceptNodes [] nodes
  | .other kind => .error (.notNodeList kind)

/-- Names in the order of code points, as values. -/
def sortNames (names : List String) : List Value := Value.sortElements (names.map .text)

namespace OfferedDiff

/-- The buckets of a diff that has exactly the buckets asked for, in the order asked for. -/
def accept (names : List String) : OfferedDiff → Except Error (List (String × List Node))
  | .other => .error .notBuckets
  | .buckets named =>
    let found := named.map (·.1)
    if !(found.all names.contains && names.all found.contains) then
      .error (.bucketNames (sortNames found) (sortNames names))
    else
      names.mapM fun name =>
        match named.lookup name with
        | some bucket => bucket.accept.map (name, ·)
        | none => .error .missingMember

/-- The buckets of a diff that has exactly the buckets asked for, which need not be names. -/
def acceptAs (asked : Value) (offered : OfferedDiff) :
    Except Error (List (String × List Node)) := do
  let .buckets named := offered | .error .notBuckets
  let parts ← asked.parts
  if !parts.all Value.canBeElement then .error .wrongKind
  else
    let name? (v : Value) : Option String := match v with
      | .text name => some name
      | _ => none
    match parts.mapM name? with
    | some names => offered.accept names
    | none => do
      Value.checkOrdered parts
      .error (.bucketNames (sortNames (named.map (·.1))) (Value.sortElements parts))

/-- The names of the buckets of a diff, in the order in which they are checked. -/
def bucketNames : List String := ["ADD", "DELETE", "SET"]

/-- The diff with the buckets given under their names. All three have to be there. -/
def ofBuckets (buckets : List (String × List Node)) : Except Error Diff :=
  match buckets.lookup "ADD", buckets.lookup "SET", buckets.lookup "DELETE" with
  | some add, some set, some delete => .ok { add, set, delete }
  | _, _, _ => .error .missingMember

/-- The typed diff that a diff of any shape is. -/
def toDiff (offered : OfferedDiff) : Except Error Diff := do
  ofBuckets (← offered.accept bucketNames)

end OfferedDiff

end ItemDelta
