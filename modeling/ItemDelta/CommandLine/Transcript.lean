import ItemDelta.CommandLine.Arguments
import ItemDelta.CommandLine.Files
import ItemDelta.Config.Sections
import ItemDelta.Report.Diff

/-!
# Runs of a program

What the runs of all programs have in common: the options that every program has, the reading of
documents and the delivery of results, and what can be observed of a run.

## Main definitions

* `LogLevel`, `Exit`, `Transcript` — what can be observed of a run.
* `sharedOptions`, `Interrupt.transcript` — the options that every program has.
* `readDocument`, `deliver` — input and output.
* `Program.defaults` — the defaults of a program with its configuration on top.
-/

namespace ItemDelta

/-- How severe a log message is. -/
inductive LogLevel where
  | debug
  | info
  | warning
  | error
  | critical
deriving DecidableEq

namespace LogLevel

/-- Higher levels are more severe. -/
def rank : LogLevel → Nat
  | .debug => 10
  | .info => 20
  | .warning => 30
  | .error => 40
  | .critical => 50

/-- The name of a level in a log. -/
def name : LogLevel → String
  | .debug => "DEBUG"
  | .info => "INFO"
  | .warning => "WARNING"
  | .error => "ERROR"
  | .critical => "CRITICAL"

/-- The levels by the names that options know them by. -/
def named : List (String × LogLevel) :=
  [("DEBUG", .debug), ("INFO", .info), ("WARN", .warning), ("ERROR", .error),
    ("CRITICAL", .critical)]

end LogLevel

/-- How a program ends. -/
inductive Exit where
  | code (n : Nat)
  /-- With a message, which is an error. -/
  | message (text : String)

/-- What can be observed of a run. -/
structure Transcript where
  exit : Exit
  stdout : String
  stderr : String
  logs : List (LogLevel × String)
  /-- A file that was written, by name. -/
  written : Option (String × String)

/-- A run that prints something and ends. -/
def Transcript.printed (code : Nat) (stdout : String) : Transcript :=
  ⟨.code code, stdout, "", [], none⟩

/-- The version of all programs. -/
def programVersion : String := "0.3.0"

/-- The options that every program has. -/
def sharedOptions : List OptionSpec :=
  [⟨["-h", "--help"], "help", .help⟩,
    ⟨["--version"], "version", .version⟩,
    ⟨["--config"], "config", .listing⟩,
    ⟨["--log-level"], "log_level", .level (LogLevel.named.map (·.1))⟩]

/-- The least severe level that is logged. Only the argument counts, not the configuration. -/
def logThreshold (given : Settings) : LogLevel :=
  match given.value "log_level" with
  | .text name => (LogLevel.named.lookup name).getD .info
  | _ => .info

/-- The messages that are severe enough. -/
def logged (threshold : LogLevel) (messages : List (LogLevel × String)) :
    List (LogLevel × String) :=
  messages.filter fun (level, _) => threshold.rank ≤ level.rank

/-- The options of a program with their present values, under the name of its own section. -/
def Program.listing (program : Program) (files : ConfigFiles) : Except Error String := do
  let printed ← printedSettings (← program.config true files)
  reportMembers (.text "") .emptyList (.ofNamed [(program.ownSection.name, printed)])

/-- A summary of what a program accepts. -/
def Grammar.summary (g : Grammar) (program : Program) : String :=
  let option (spec : OptionSpec) : String :=
    "[" ++ (spec.names.headD "") ++ (if spec.action.takesArgument then " VALUE]" else "]")
  let position (p : Position) : String := if p.required then p.setting else "[" ++ p.setting ++ "]"
  "usage: " ++ " ".intercalate
    (program.name :: g.options.map option ++ g.positions.map position) ++ "\n"

/-- The run of a program that ends while its arguments are read. -/
def Interrupt.transcript (interrupt : Interrupt) (program : Program) (g : Grammar)
    (files : ConfigFiles) : Except Error Transcript :=
  match interrupt with
  | .usage => .ok ⟨.code 2, "", g.summary program, [], none⟩
  | .help => .ok (.printed 0 (g.summary program))
  | .version => .ok (.printed 0 (program.name ++ " " ++ programVersion ++ "\n"))
  | .listing => do return ⟨.code 1, "", ← program.listing files, [], none⟩
  | .failure error => .error error

/-- The defaults of a program with its configuration on top. A configuration whose content is
    wrong is passed over, and no option may be called `self`. -/
def Program.defaults (program : Program) (builtin : Settings) (files : ConfigFiles) :
    Except Error Settings :=
  match program.config false files with
  | .ok (.map options) =>
    if Members.contains options (.name "self") then .error .wrongKind
    else .ok (Settings.onTopOf options builtin)
  | .ok _ => .ok builtin
  | .error error => if error.isContent then .ok builtin else .error error

/-- The first of several files that does not exist, as it is set. The null file always does. -/
def firstMissing (view : FileView) : List Value → Except Error (Option Value)
  | [] => .ok none
  | setting :: settings => do
    let isThere ← (← FileRef.ofValue setting).isThere view
    if isThere || setting = .text nullFile then firstMissing view settings
    else return some setting

/-- What is printed about a missing file. -/
def missingText (setting : Value) : String := "Missing file " ++ setting.toText ++ "\n"

/-- The document in a file; that of the null file is an empty map. None can be read from a file
    that is open already. -/
def readDocument (view : FileView) (numbers : Numbers) (setting : Value) : Except Error Value := do
  match ← FileRef.ofValue setting with
  | .numbered _ => .error .unsupported
  | .named name =>
    if name = nullFile then return .emptyMap
    else
      match view.entry name with
      | .file text => readJson numbers text
      | .directory => .error .isDirectory
      | .missing => .error .missingFile

/-- A run that writes a result to a file. -/
def Transcript.delivered (file : FileRef) (result : String) : Transcript :=
  match file with
  | .named name => ⟨.code 0, "", "", [], some (name, result)⟩
  | .numbered number =>
    if number = FileRef.standardError then ⟨.code 0, "", result, [], none⟩
    else .printed 0 result

/-- A result, written to the file that is set or printed. -/
def deliver (view : FileView) (out : Value) (result : Except Error String) :
    Except Error Transcript :=
  if out.isTruthy then do
    let file ← FileRef.ofValue out
    match file.writeFault view with
    | some error => .error error
    | none => return .delivered file (← result)
  else do
    return .printed 0 (← result)

end ItemDelta
