import ItemDelta.Diff.Patch
import ItemDelta.Report.Document

/-!
# Reports on diffs

A diff is shown node by node in the order of the paths. Each node has a heading that says what
happens at its path, the values that go and come behind their markers, and an empty line.

## Main definitions

* `Markers` — what lines of a report start with, in color or not.
* `reportDiff` — a diff against its base document.
* `reportDocumentDiff` — the same under a header that names both documents.
-/

namespace ItemDelta

/-- What lines of a report start and end with. -/
structure Markers where
  removed : List Char
  added : List Char
  info : List Char
  reset : List Char

/-- A terminal control sequence. -/
def controlSequence (code : List Char) : List Char := '\x1b' :: '[' :: code ++ ['m']

/-- Markers without color. -/
def Markers.plain : Markers := ⟨"-  ".toList, "+  ".toList, "## ".toList, []⟩

/-- Red for what goes, green for what comes, bright blue for headings. -/
def Markers.colored : Markers :=
  { removed := controlSequence ['3', '1'] ++ Markers.plain.removed
    added := controlSequence ['3', '2'] ++ Markers.plain.added
    info := controlSequence ['3', '4'] ++ controlSequence ['1'] ++ Markers.plain.info
    reset := controlSequence ['0'] }

/-- The markers that a setting asks for; only truth values and the numbers equal to them are
    settings. -/
def Markers.ofSetting (setting : Value) : Except Error Markers :=
  if (Value.bool true).agrees setting then .ok .colored
  else if (Value.bool false).agrees setting then .ok .plain
  else .error (if setting.canBeElement then .missingMember else .wrongKind)

/-- The marker of what goes, as a lead. -/
def Markers.removedLead (markers : Markers) : Value := .text (String.ofList markers.removed)

/-- The marker of what comes, as a lead. -/
def Markers.addedLead (markers : Markers) : Value := .text (String.ofList markers.added)

/-- What happens to a node of a diff. -/
inductive Change where
  | added
  | replaced
  | deleted

/-- The heading above the values of a node. -/
def heading (markers : Markers) (action : List Char) (path : String) : List Char :=
  line markers.info (action ++ ' ' :: path.toList ++ ':' :: markers.reset)

/-- The heading of a replacement, which names the kinds of both values if these differ. -/
def replacement (before : Option Value) (after : Value) : List Char :=
  match before with
  | some before =>
    if before.kind = after.kind then "replaced".toList
    else "replaced (type changed from ".toList ++ before.kind.name.toList ++ " to ".toList ++
      after.kind.name.toList ++ [')']
  | none => "replaced".toList

/-- The value that a replacement takes the place of. It is looked up before anything is shown. -/
def replacedValue? (base : Value) (change : Change) (node : Node) : Except Error (Option Value) :=
  match change with
  | .replaced => if base = .null then .ok none else getPath base node.path
  | _ => .ok none

/-- One node of a diff: a heading, the values, and an empty line. -/
def nodeChars (markers : Except Error Markers) (base : Value) (change : Change) (node : Node) :
    Except Error (List Char) := do
  let before ← replacedValue? base change node
  let markers ← markers
  let lines ← match change with
    | .added => do
      let value ← reportChars markers.addedLead node.value
      pure (heading markers "added".toList node.path ++ value)
    | .deleted => do
      let value ← reportChars markers.removedLead node.value
      pure (heading markers "deleted".toList node.path ++ value)
    | .replaced => do
      let old ← match before with
        | some value => reportChars markers.removedLead value
        | none => pure []
      let new ← reportChars markers.addedLead node.value
      pure (heading markers (replacement before node.value) node.path ++ old ++ new)
  return lines ++ '\n' :: markers.reset

/-- The nodes of a diff with what happens to them, in the order of the paths. Nodes of one path
    are added first and deleted last. -/
def changes (d : Diff) : List (Change × Node) :=
  let all := d.add.map (Change.added, ·) ++ d.set.map (Change.replaced, ·) ++
    d.delete.map (Change.deleted, ·)
  all.mergeSort fun (_, a) (_, b) => decide (a.path ≤ b.path)

/-- A diff against its base document. The markers are needed only where there is a node. -/
def diffChars (markers : Except Error Markers) (base : Value) (d : Diff) :
    Except Error (List Char) := do
  let parts ← (changes d).mapM fun (change, node) => nodeChars markers base change node
  return parts.flatten

/-- A diff against its base document, as a string. -/
def reportDiff (markers : Except Error Markers) (base : Value) (d : Diff) : Except Error String :=
  String.ofList <$> diffChars markers base d

/-- Where a document comes from. -/
structure Source where
  name : String
  /-- When it was last changed, if that is known. -/
  time : Option String

/-- A source as it stands in the header of a report. -/
def Source.label (source : Source) : String :=
  source.name ++ "  " ++ source.time.getD "(no timestamp)"

/-- The header above the diff of two documents. -/
def diffHeader (base modified : Source) : String :=
  "ddbdiff " ++ base.name ++ " " ++ modified.name ++ "\n" ++
    "--- " ++ base.label ++ "\n" ++
    "+++ " ++ modified.label ++ "\n"

/-- Whether a diff says that nothing changed. -/
def Diff.isEmpty (d : Diff) : Bool := d.add.isEmpty && d.set.isEmpty && d.delete.isEmpty

/-- The diff of two documents under a header, or nothing if they do not differ. -/
def reportDocumentDiff (markers : Except Error Markers) (base modified : Source)
    (document : Value) (d : Diff) : Except Error String :=
  if d.isEmpty then .ok ""
  else do
    return diffHeader base modified ++ (← reportDiff markers document d)

end ItemDelta
