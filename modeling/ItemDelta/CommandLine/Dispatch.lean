import ItemDelta.CommandLine.DiffProgram
import ItemDelta.CommandLine.ExpressionProgram

/-!
# Commands

The two programs, and a command in front of them that picks one by its first argument.

## Main definitions

* `Program.run` — a run of a program from its arguments.
* `dispatch` — a run of the command in front of the programs.
* `Program.inputs`, `dispatchInputs` — the files that a run looks at.
-/

namespace ItemDelta

namespace Program

/-- What a program accepts. -/
def grammar : Program → Grammar
  | .ddbdiff => DiffProgram.grammar
  | .ddbexpr => ExpressionProgram.grammar

/-- Settings of a program that are made in no other way. -/
def builtin : Program → Settings
  | .ddbdiff => DiffProgram.builtin
  | .ddbexpr => ExpressionProgram.builtin

/-- A run of a program. -/
def run (program : Program) (files : ConfigFiles) (view : FileView) (arguments : List String) :
    Except Error Transcript := do
  let defaults ← program.defaults program.builtin files
  match program.grammar.parse defaults arguments with
  | .error interrupt => interrupt.transcript program program.grammar files
  | .ok given =>
    let settings := Settings.onTopOf given defaults
    match program with
    | .ddbdiff => DiffProgram.run view settings
    | .ddbexpr => ExpressionProgram.run view settings (logThreshold given)

/-- The names of the documents that a run looks at. -/
def inputs (program : Program) (files : ConfigFiles) (arguments : List String) : List String :=
  match program.defaults program.builtin files with
  | .error _ => []
  | .ok defaults =>
    match program.grammar.parse defaults arguments with
    | .error _ => []
    | .ok given =>
      let settings := Settings.onTopOf given defaults
      ["base", "modified"].filterMap fun name =>
        match settings.value name with
        | .text file => some file
        | _ => none

end Program

/-- The names by which the command knows the programs. -/
def commands : List (String × Program) := [("diff", .ddbdiff), ("expr", .ddbexpr)]

/-- How the command is used. -/
def commandHelp : String :=
  "Usage: ddbupdate [OPTIONS]\n\n" ++
    "OPTIONS: -h, --version, --config, COMMANDS\x7b" ++ ", ".intercalate (commands.map (·.1)) ++
    "\x7d\n\n" ++
    "Examples: ddbupdate --version\n" ++
    "          ddbupdate diff -h\n" ++
    "          ddbupdate expr before.json after.json\n" ++
    "          ddbupdate expr item.json --lock\n"

/-- The configurations of all programs. -/
def listings (files : ConfigFiles) : Except Error String := do
  let parts ← Program.all.mapM fun program => program.listing files
  return "All available config options, and their current values:\n\n" ++
    String.join (parts.map (· ++ "\n"))

/-- A run that ends with a message. -/
def Transcript.stopped (text : String) : Transcript := ⟨.message text, "", "", [], none⟩

/-- A run of the command. -/
def dispatch (files : ConfigFiles) (view : FileView) (arguments : List String) :
    Except Error Transcript :=
  match arguments with
  | [] => .ok (.stopped ("Option missing.\n\n" ++ commandHelp))
  | command :: arguments =>
    match commands.lookup command with
    | some program => program.run files view arguments
    | none =>
      if command = "--version" then .ok (.stopped programVersion)
      else if command = "-h" ∨ command = "--help" then .ok (.stopped commandHelp)
      else if command = "--config" then do
        return ⟨.code 1, "", ← listings files, [], none⟩
      else
        .ok (.stopped ("Unrecognized command '" ++ command ++ "'\n\n" ++ commandHelp ++ "."))

/-- The names of the documents that a run of the command looks at. -/
def dispatchInputs (files : ConfigFiles) (arguments : List String) : List String :=
  match arguments with
  | [] => []
  | command :: arguments =>
    match commands.lookup command with
    | some program => program.inputs files arguments
    | none => []

end ItemDelta
