import ItemDelta.Config.Merge
import ItemDelta.Path.Access
import ItemDelta.Json.Reader
import ItemDelta.Value.Element

/-!
# Configuration

The options of a program have declared defaults, and configuration files can change them. Both
are arranged in sections, from general to special: a later section overrides an earlier one,
also with its defaults. There are two files, of which the one in the working directory overrides
the one in the home directory.

## Main definitions

* `Section` — a named group of options with their defaults.
* `Program` — the programs that have a configuration, and their sections.
* `readConfig` — the content of a configuration file.
* `buildConfig` — the options of a program.
-/

namespace ItemDelta

/-- A named group of options with their defaults. -/
structure Section where
  name : String
  defaults : List (String × Value)

/-- The programs that have a configuration. -/
inductive Program where
  | ddbdiff
  | ddbexpr
deriving DecidableEq

namespace Section

/-- Settings that all programs share and that have no defaults. -/
def base : Section := ⟨"DdbUpdateConfigurable", []⟩

/-- How results are printed. -/
def printing : Section := ⟨"_Printing", [("color", .bool true)]⟩

/-- How expressions are locked. -/
def locking : Section :=
  ⟨"_Locking", [("version_path", .text "$.version"), ("condition", .text "=")]⟩

/-- What is logged. -/
def global : Section := ⟨"Global", [("log_level", .text "INFO")]⟩

/-- How documents are compared. -/
def diffing : Section := ⟨"_Diffing", [("orphans", .bool false)]⟩

/-- How expressions are compiled. -/
def compiling : Section := ⟨"_Compiling", [("support_sets", .bool false), ("prefix", .null)]⟩

end Section

namespace Program

/-- The name of a program. -/
def name : Program → String
  | .ddbdiff => "ddbdiff"
  | .ddbexpr => "ddbexpr"

/-- All programs. -/
def all : List Program := [.ddbdiff, .ddbexpr]

/-- The program with a name. -/
def ofName? (name : String) : Option Program := all.find? fun program => program.name == name

/-- The program's own section, which has no defaults. -/
def ownSection : Program → Section
  | .ddbdiff => ⟨"DdbDiff", []⟩
  | .ddbexpr => ⟨"DdbExpr", []⟩

/-- The sections of a program, from general to special. -/
def sections (program : Program) : List Section :=
  match program with
  | .ddbdiff => [.base, .printing, .global, .diffing, program.ownSection]
  | .ddbexpr =>
    [.base, .printing, .locking, .global, .diffing, .compiling, program.ownSection]

end Program

/-- The members that a pair stands for: a list or a text of length two, or a map of two names. -/
def pairOf (position : Nat) (item : Value) : Except Error (Value × Value) :=
  let ofParts (parts : List Value) : Except Error (Value × Value) :=
    match parts with
    | [key, v] => .ok (key, v)
    | parts => .error (.notPair position parts.length)
  match item with
  | .list items => do
    let (key, v) ← ofParts items
    match key with
    | .list _ | .map _ | .set _ => .error .wrongKind
    | key => return (key, v)
  | .text s => ofParts (s.toList.map fun c => .text (String.singleton c))
  | .map members => ofParts (members.map fun (key, _) => match key with
      | .name text => .text text
      | .index position => .int position)
  | _ => .error .wrongKind

/-- The pairs of a list, each with its position. -/
def pairsOf (position : Nat) : List Value → Except Error (List (Value × Value))
  | [] => .ok []
  | item :: items => do
    let pair ← pairOf position item
    let rest ← pairsOf (position + 1) items
    return pair :: rest

/-- The key of a pair. Keys are names. What else counts as false is let pass too, null and the
    zeros each as a position; nobody asks for settings under these, but they are merged like any
    others. -/
def keyOf : Value → Except Error Key
  | .text name => .ok (.name name)
  | .null => .ok (.index 1)
  | key => if key.isTruthy then .error .wrongKind else .ok (.index 0)

/-- Settings given as pairs. -/
def ofPairs (pairs : List (Value × Value)) : Except Error Members :=
  pairs.foldlM (fun members (key, v) => do return Members.insert members (← keyOf key) v) []

/-- The settings in a configuration file. A map may state the version of the format. -/
def settingsOf (document : Value) : Except Error Members :=
  match document with
  | .map members =>
    match Members.get? members (.name "version") with
    | none => .ok members
    | some version =>
      if version.agrees (.int 1) then
        .ok (Members.erase members (.name "version"))
      else .error (.unknownConfigVersion version)
  | .list items =>
    if items.any fun item => item.agrees (.text "version") then .error .wrongKind
    else do ofPairs (← pairsOf 0 items)
  | .text s =>
    if Value.occursIn "version".toList s.toList then .error .unsupported
    else do ofPairs (← pairsOf 0 (s.toList.map fun c => .text (String.singleton c)))
  | _ => .error .wrongKind

/-- The settings in the text of a configuration file. -/
def readConfig (text : String) : Except Error Members := do
  settingsOf (← readJson .binary text)

/-- The texts of the configuration files, as far as there are any. -/
structure ConfigFiles where
  home : Option String
  working : Option String

/-- The settings of both files. -/
def ConfigFiles.settings (files : ConfigFiles) (keepNull : Bool) : Except Error Value :=
  [files.home, files.working].foldlM (fun settings file =>
    match file with
    | some text => do mergeMembers keepNull settings (← readConfig text)
    | none => .ok settings) .emptyMap

/-- The options after one more section: its defaults, and then what the files say. -/
def addSection (keepNull : Bool) (settings : Value) (options : Value) (part : Section) :
    Except Error Value := do
  let options ← mergeSettings keepNull options (.ofNamed part.defaults)
  match settings.get? [.name part.name] with
  | some changes => mergeSettings keepNull options changes
  | none => return options

/-- The options of a program. A null in a file is kept as the value of its option, or takes the
    option away. -/
def Program.config (program : Program) (keepNull : Bool) (files : ConfigFiles) :
    Except Error Value := do
  let settings ← files.settings keepNull
  program.sections.foldlM (addSection keepNull settings) .emptyMap

/-- The program that a value names. -/
def Program.ofValue (v : Value) : Except Error Program :=
  let program? := match v with
    | .text name => Program.ofName? name
    | _ => none
  match program? with
  | some program => .ok program
  | none =>
    if !v.canBeElement then .error .wrongKind
    else if v.hasLongInteger then .error (.tooManyDigits none)
    else .error (.unknownProgram v)

/-- The options of the program with a name. -/
def buildConfig (name : Value) (keepNull : Bool) (files : ConfigFiles) : Except Error Value := do
  (← Program.ofValue name).config keepNull files

end ItemDelta
