import ItemDelta.Expression.Builder
import ItemDelta.Path.Access

/-!
# Optimistic locking

An update expression can be guarded by a condition on a version that is stored in the item
itself: the update goes through only while the stored version still compares as expected. Where
no version has been written yet, the condition is that there is none, so one call both creates a
lock and, later on, compares and swaps it.

## Main definitions

* `comparisonOperator` — the operator that a condition names.
* `VersionCheck` — what the condition is about.
* `versionedExpression` — the expression for a change, guarded by its version.
* `nextVersion` — the version that follows another one.
* `lockExpression` — the guarded expression that changes nothing but the version.

## Design notes

A version may be absent or null, and these are different: an absent one is `none`, a null one is
`some .null`.
-/

namespace ItemDelta

/-- The comparison operators of conditions. -/
def comparisonOperators : List String := ["=", "<", "<=", ">", ">=", "<>"]

/-- The operator that a condition names. -/
def comparisonOperator (condition : Value) : Except Error String :=
  match condition with
  | .text operator =>
    if comparisonOperators.contains operator then .ok operator
    else .error (.unknownCondition condition)
  | _ =>
    if condition.hasLongInteger then .error (.tooManyDigits none)
    else .error (.unknownCondition condition)

/-- Where the version is stored unless stated otherwise. -/
def defaultVersionPath : String := "$.version"

/-- The prefix of the placeholders of a condition: that of the context, or a default. -/
def conditionLead (context : AliasContext) : Value := leadOr context.lead (.text "expected")

/-- The guard of an expression. -/
structure VersionCheck where
  /-- Where the version is stored: a path, or names with points between them. -/
  path : String
  /-- How the stored version has to compare with the expected one. -/
  condition : Value
  /-- The version known to be stored; without it, the one of the base document. -/
  current : Option Value
  /-- Whether the current version is expected, or else the one of the modified document. -/
  expectCurrent : Bool

/-- The version that a condition compares the stored one with. Nothing is compared where there is
    no current version. -/
def VersionCheck.expected (check : VersionCheck) (base modified : Value) :
    Except Error (Option Value) := do
  let current ← match check.current with
    | some version => pure (some version)
    | none => getPath base check.path
  match current with
  | none => return none
  | some version =>
    if check.expectCurrent then return some version
    else
      match ← getPath modified check.path with
      | some version => return some version
      | none => .error (.missingVersion check.path)

/-- The expression for the changes from a base to a modified document, which goes through
    only if the stored version is as expected. Placeholders of the changes go without prefix,
    those of the condition with one. -/
def versionedExpression (base modified : Value) (check : VersionCheck) (orphans : Bool) :
    Compiling Expression := do
  let operator ← ofExcept (comparisonOperator check.condition)
  let check := { check with path := asPath check.path }
  let base := orEmpty base
  let modified := orEmpty modified
  let nodes ← ofExcept (partition base modified orphans false)
  let lead := conditionLead (← get)
  build (.text "") do
    Builder.addPartition nodes
    let expected ← ofExcept (check.expected base modified)
    Builder.require check.path expected operator lead

/-- The version that follows another one: one more than a number, and one if there is none. -/
def nextVersion : Option Value → Except Error Value
  | none | some .null => .ok (.int 1)
  | some (.int n) => .ok (.int (n + 1))
  | some (.float x) => .ok (.float x.next)
  | some (.decimal d) =>
    match d.next with
    | .ok next => .ok (.decimal next)
    | .error fault => .error (.decimal fault)
  | some version =>
    if version.hasLongInteger then .error (.tooManyDigits none)
    else .error (.ambiguousVersion version)

/-- A new version to be written, and the guard that goes with it. -/
structure VersionStep where
  current : Option Value
  new : Value
  expectCurrent : Bool

/-- The step from the version of a base document. A version that is given is written as it
    is, under a condition on itself; otherwise the next one is, under a condition on the current
    one. Nothing is known about the version of a document that is not there. -/
def versionStep (base : Value) (path : String) (new : Option Value) :
    Except Error VersionStep := do
  let current ← if base = .null then pure (some .null) else getPath base path
  match new with
  | some version => return ⟨current, version, false⟩
  | none =>
    let version ← nextVersion current
    return ⟨if current = some .null then none else current, version, true⟩

/-- An empty map with a version written into it, if there is one. -/
def versionDocument (path : String) : Option Value → Except Error Value
  | none => .ok .emptyMap
  | some version => (setPath .emptyMap path version).toExcept

/-- The expression that writes a version and nothing else, which goes through only if the stored
    version is as expected. -/
def lockExpression (base : Value) (path : String) (new : Option Value) (condition : Value)
    (orphans : Bool) : Compiling Expression := do
  let path := asPath path
  let step ← ofExcept (versionStep base path new)
  let before ← ofExcept (versionDocument path step.current)
  let after ← ofExcept (versionDocument path (some step.new))
  versionedExpression before after ⟨path, condition, step.current, step.expectCurrent⟩ orphans

end ItemDelta
