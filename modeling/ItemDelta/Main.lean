import ItemDelta.CommandLine.Dispatch
import ItemDelta.CommandLine.Timestamp

/-!
# The command

Reads the configuration and the documents that a run looks at, runs the command, and shows what
can be observed of the run. Everything else is decided by `ItemDelta.dispatch`.
-/

namespace ItemDelta

/-- The name of configuration files. -/
def configName : String := "ddbupdate_config.json"

/-- The text of a file, if it can be read. -/
def readText? (name : String) : IO (Option String) := do
  try
    return some (← IO.FS.readFile name)
  catch _ =>
    return none

/-- The configuration files in the home directory and in the working directory. -/
def readConfigFiles : IO ConfigFiles := do
  let home ← match ← IO.getEnv "HOME" with
    | some directory => readText? (directory ++ "/.ddbupdate/" ++ configName)
    | none => pure none
  return { home, working := ← readText? configName }

/-- What stands under the name of something that exists, and when it was last changed. -/
def lookAtExisting (name : String) : IO (FileEntry × Option String) := do
  let path ← IO.FS.realPath name
  let modified := (← path.metadata).modified
  let time := timestamp modified.sec (modified.nsec.toNat / 1000)
  if ← path.isDir then
    return (.directory, some time)
  else
    return (.file (← IO.FS.readFile name), some time)

/-- What stands under a name, and when it was last changed. -/
def lookAt (name : String) : IO (FileEntry × Option String) := do
  try
    lookAtExisting name
  catch _ =>
    return (.missing, none)

/-- A view of the files with the names given. Whether something can be written is found out by
    writing it. -/
def viewOf (names : List String) : IO FileView := do
  let found ← names.mapM fun name => do
    return (name, ← lookAt name)
  return {
    entry := fun name => ((found.lookup name).map (·.1)).getD .missing
    time := fun name => (found.lookup name).bind (·.2)
    writeFault := fun _ => none }

/-- Shows what can be observed of a run, and gives the code that it ends with. -/
def present (transcript : Transcript) : IO UInt32 := do
  match transcript.written with
  | some (name, text) => IO.FS.writeFile name text
  | none => pure ()
  IO.print transcript.stdout
  IO.eprint transcript.stderr
  for (level, message) in transcript.logs do
    IO.eprintln ("[" ++ (level.name.take 1).toString ++ "] " ++ message)
  match transcript.exit with
  | .code n => return n.toUInt32
  | .message text =>
    IO.eprintln text
    return 1

end ItemDelta

/-- Runs the command with its arguments. -/
def main (arguments : List String) : IO UInt32 := do
  let files ← ItemDelta.readConfigFiles
  let view ← ItemDelta.viewOf (ItemDelta.dispatchInputs files arguments)
  match ItemDelta.dispatch files view arguments with
  | .ok transcript => ItemDelta.present transcript
  | .error error =>
    IO.eprintln error.message
    return 1
