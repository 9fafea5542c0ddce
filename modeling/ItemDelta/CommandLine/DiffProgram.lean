import ItemDelta.CommandLine.Transcript

/-!
# The program that compares two documents

It prints the diff of two documents as a report, or writes its buckets to a file as JSON. On
request the buckets are given as partial documents, always as JSON.
-/

namespace ItemDelta

namespace DiffProgram

/-- What the program accepts. -/
def grammar : Grammar where
  options := sharedOptions ++
    [⟨["--decimal"], "decimal", .flag true⟩,
      ⟨["--orphans"], "orphans", .flag true⟩,
      ⟨["--no-color"], "color", .flag false⟩,
      ⟨["--out"], "out", .text⟩,
      ⟨["--patches"], "patches", .flag true⟩]
  positions := [⟨"base", true⟩, ⟨"modified", true⟩]
  exclusive := []

/-- Settings that are made in no other way. -/
def builtin : Settings := [(.name "color", .bool true)]

/-- How a file is named in the header of a report. -/
def source (view : FileView) (setting : Value) : Source :=
  match setting with
  | .text name => ⟨name, view.time name⟩
  | setting => ⟨setting.toText, none⟩

/-- The report on a diff of two files. -/
def report (view : FileView) (settings : Settings) (document : Value) (d : Diff) :
    Except Error String :=
  reportDocumentDiff (Markers.ofSetting (settings.value "color"))
    (source view (settings.value "base")) (source view (settings.value "modified")) document d

/-- The run with all settings made. -/
def run (view : FileView) (settings : Settings) : Except Error Transcript := do
  let baseFile := settings.value "base"
  let modifiedFile := settings.value "modified"
  match ← firstMissing view [baseFile, modifiedFile] with
  | some setting => return .printed 1 (missingText setting)
  | none =>
    let numbers := if settings.isOn "decimal" then Numbers.decimal else .binary
    let base ← readDocument view numbers baseFile
    let modified ← readDocument view numbers modifiedFile
    let d ← diff base modified (settings.isOn "orphans")
    let out := settings.value "out"
    if settings.isOn "patches" then
      let patches ← d.patches
      deliver view out (writeJson patches.toValue)
    else if out.isTruthy then deliver view out (writeJson d.toValue)
    else deliver view out (report view settings base d)

end DiffProgram

end ItemDelta
