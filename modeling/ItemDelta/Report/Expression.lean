import ItemDelta.Report.Diff

/-!
# Reports on update expressions

An update expression is shown with each clause on a line of its own, followed by its condition
and by the registries of its placeholders.

## Main definitions

* `splitClauses` — the clauses of an update expression.
* `reportExpression` — the report.

## Design notes

The text is split wherever a keyword and a blank stand at its start or behind a blank. No
placeholder contains a blank, so that this happens between clauses only.
-/

namespace ItemDelta

/-- The keywords that clauses of an update expression start with. -/
def clauseKeywords : List String := ["SET", "REMOVE", "DELETE"]

/-- Whether a keyword and a blank stand at the front of a text. -/
def startsClause (text : List Char) : Bool :=
  clauseKeywords.any fun keyword => (keyword.toList ++ [' ']).isPrefixOf text

/-- The pieces of a text between the blanks that keywords follow. -/
def clausePieces : List Char → List (List Char)
  | [] => [[]]
  | c :: rest =>
    if c = ' ' ∧ startsClause rest then [] :: clausePieces rest
    else
      match clausePieces rest with
      | [] => [[c]]
      | piece :: pieces => (c :: piece) :: pieces

/-- The clauses of an update expression. -/
def splitClauses (text : List Char) : List (List Char) :=
  (clausePieces text).filter fun piece => !piece.isEmpty

/-- A titled part of a report on an update expression. -/
def titled (markers : Markers) (title : String) (lines : List Char) : List Char :=
  line markers.info (title.toList ++ ':' :: markers.reset) ++ lines

/-- The text of a member of an update expression. -/
def memberText (v : Value) : Except Error (List Char) := do
  checkWritable v
  return v.toText.toList

/-- The report on an update expression, given as the map of arguments for the store. -/
def expressionChars (markers : Markers) (arguments : Members) : Except Error (List Char) := do
  let part (name : String) (lines : Value → Except Error (List Char)) :
      Except Error (List Char) :=
    match arguments.get? (.name name) with
    | some v => (titled markers name) <$> lines v
    | none => .ok []
  let update ← match arguments.get? (.name "UpdateExpression") with
    | some (.text s) =>
      let clauses := splitClauses s.toList
      pure (titled markers "UpdateExpression" (clauses.flatMap (line nesting.toList)))
    | some _ => .error .wrongKind
    | none => .error .missingMember
  let condition ← part "ConditionExpression" fun v => (line nesting.toList) <$> memberText v
  let names ← part "ExpressionAttributeNames" (mapChars (.text nesting) .emptyList)
  let values ← part "ExpressionAttributeValues" (mapChars (.text nesting) .emptyList)
  return update ++ condition ++ names ++ values

/-- The report on an update expression, as a string. -/
def reportExpression (markers : Markers) (expression : Value) : Except Error String :=
  match expression with
  | .map arguments => String.ofList <$> expressionChars markers arguments
  | _ => .error .wrongKind

end ItemDelta
