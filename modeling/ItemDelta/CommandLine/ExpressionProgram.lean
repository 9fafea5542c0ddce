import ItemDelta.CommandLine.Transcript
import ItemDelta.Expression.Lock
import ItemDelta.Report.Expression

/-!
# The program that compiles update expressions

It compiles the changes between two documents into an update expression, guarded by a version
condition on request, or locks a single document by changing its version only. The arguments for
the store are printed or written as JSON, or printed as a report.
-/

namespace ItemDelta

namespace ExpressionProgram

/-- What the program accepts. -/
def grammar : Grammar where
  options := sharedOptions ++
    [⟨["--decimal"], "decimal", .flag true⟩,
      ⟨["--orphans"], "orphans", .flag true⟩,
      ⟨["--support-sets"], "support_sets", .flag true⟩,
      ⟨["--prefix"], "prefix", .text⟩,
      ⟨["--versioned"], "versioned", .flag true⟩,
      ⟨["--lock"], "lock", .flag true⟩,
      ⟨["--version-path"], "version_path", .text⟩,
      ⟨["--condition"], "condition", .choice comparisonOperators⟩,
      ⟨["--use-new"], "use_current", .flag false⟩,
      ⟨["--new-version"], "new_version", .json⟩,
      ⟨["--no-color"], "color", .flag false⟩,
      ⟨["--out"], "out", .text⟩,
      ⟨["--pretty"], "pretty", .flag true⟩]
  positions := [⟨"base", true⟩, ⟨"modified", false⟩]
  exclusive := ["versioned", "lock"]

/-- Settings that are made in no other way. -/
def builtin : Settings :=
  [(.name "color", .bool true), (.name "version_path", .text defaultVersionPath),
    (.name "condition", .text "="), (.name "use_current", .bool true)]

/-- The path that a setting asks for. -/
def pathOf : Value → Except Error String
  | .text path => .ok path
  | _ => .error .unsupported

/-- A compilation in a context of its own. -/
def compileIn (lead : Value) (compilation : Compiling Expression) : Except Error Expression :=
  match compilation { AliasContext.fresh with lead } with
  | .ok expression _ => .ok expression
  | .error error _ => .error error

/-- The expression that the settings ask for. -/
def compile (settings : Settings) (base modified : Value) : Except Error Expression := do
  let orphans := settings.isOn "orphans"
  let condition := settings.value "condition"
  let lead := settings.value "prefix"
  if settings.isOn "lock" then
    let path ← pathOf (settings.value "version_path")
    compileIn lead (lockExpression base path (Members.get? settings (.name "new_version"))
      condition orphans)
  else if settings.isOn "versioned" then
    let _ ← comparisonOperator condition
    let path ← pathOf (settings.value "version_path")
    compileIn lead
      (versionedExpression base modified
        { path, condition, current := none, expectCurrent := settings.isOn "use_current" }
        orphans)
  else
    compileIn lead (updateExpression base modified orphans (settings.isOn "support_sets"))

/-- What is logged before the compilation. -/
def warnings (settings : Settings) : List (LogLevel × String) :=
  if settings.isOn "versioned" && !settings.isOn "lock" && settings.isOn "support_sets" then
    [(.warning, "--support-sets is ignored for versioned update expressions")]
  else []

/-- The result in the form that the settings ask for. -/
def render (settings : Settings) (expression : Expression) : Except Error String :=
  if !settings.isOn "out" && settings.isOn "pretty" then do
    reportExpression (← Markers.ofSetting (settings.value "color")) expression.toValue
  else writeJson expression.toValue

/-- The run on documents that have been read. -/
def runOn (view : FileView) (settings : Settings) (threshold : LogLevel)
    (base modified : Value) : Except Error Transcript :=
  let messages := warnings settings
  match compile settings base modified with
  | .ok expression => do
    let transcript ← deliver view (settings.value "out") (render settings expression)
    return { transcript with logs := logged threshold messages }
  | .error error =>
    if error.isExpression then
      .ok ⟨.code 1, "", "", logged threshold (messages ++ [(.error, error.message)]), none⟩
    else .error error

/-- The run with all settings made. Locking needs one document only, but checks and reads the
    second one if there is one. -/
def run (view : FileView) (settings : Settings) (threshold : LogLevel) :
    Except Error Transcript := do
  let baseFile := settings.value "base"
  let modifiedFile := settings.value "modified"
  let inputs := if modifiedFile = .null then [baseFile] else [baseFile, modifiedFile]
  if modifiedFile = .null && !settings.isOn "lock" then
    return .printed 1 "A modified document is required unless --lock is given\n"
  else
    match ← firstMissing view inputs with
    | some setting => return .printed 1 (missingText setting)
    | none =>
      let numbers := if settings.isOn "decimal" then Numbers.decimal else .binary
      let base ← readDocument view numbers baseFile
      let modified ←
        if modifiedFile = .null then pure .null else readDocument view numbers modifiedFile
      runOn view settings threshold base modified

end ExpressionProgram

end ItemDelta
