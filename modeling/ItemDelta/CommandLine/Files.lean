import ItemDelta.Error
import ItemDelta.Value.Agreement

/-!
# Files

What a program sees of the files around it: what stands under a name, when it was last changed,
and whether something can be written there. A tree of text files is such a view. Its names are
resolved step by step; around the tree there are only the directories and the null file that every
system has.

## Main definitions

* `FileEntry`, `FileView` — what can be seen.
* `FileTree` — text files by name, with slashes between the parts of a name.
* `FileTree.view` — what can be seen of a tree.
* `FileRef` — what a setting stands for as a file.
-/

namespace ItemDelta

/-- The name of the file that is always empty. -/
def nullFile : String := "/dev/null"

/-- What stands under a name. -/
inductive FileEntry where
  | missing
  | directory
  | file (text : String)

/-- What a program sees of the files around it. -/
structure FileView where
  entry : String → FileEntry
  /-- When the file was last changed. -/
  time : String → Option String
  /-- Why nothing can be written under a name, if that is so. -/
  writeFault : String → Option Error

/-- The most bytes that a part of a name may have. -/
def maxPartSize : Nat := 255

/-- The most bytes that a name may have. -/
def maxPathSize : Nat := 4095

/-- Text files by name. The parts of a name that lie in front of others are directories. -/
abbrev FileTree := List (String × String)

/-- A place inside a tree or around it, by the parts of its name. Around the tree they count from
    the root of the system. -/
structure Place where
  isInside : Bool
  parts : List String

/-- Where a name leads to. -/
inductive Destination where
  | found (place : Place)
  /-- A part on the way does not exist. -/
  | nowhere
  /-- A part is a file although more parts follow. -/
  | blocked
  /-- A part has too many bytes. -/
  | tooLong

/-- The directories that lie below the root of every system. -/
def systemDirectories : List String :=
  ["bin", "boot", "dev", "etc", "home", "lib", "media", "mnt", "opt", "proc", "root", "run", "sbin",
    "srv", "sys", "tmp", "usr", "var"]

namespace Place

/-- The top of a tree. -/
def top : Place := ⟨true, []⟩

/-- The root of the system. -/
def root : Place := ⟨false, []⟩

/-- The place one step below. -/
def below (place : Place) (part : String) : Place := { place with parts := place.parts ++ [part] }

/-- The place one step above. Around the tree nothing is known but the root. -/
def above (place : Place) : Place :=
  if place.parts.isEmpty then root else { place with parts := place.parts.dropLast }

end Place

/-- What stands at a place around the tree. -/
def systemEntry (parts : List String) : FileEntry :=
  match parts with
  | [] => .directory
  | [part] => if systemDirectories.contains part then .directory else .missing
  | _ => if parts = ["dev", "null"] then .file "" else .missing

/-- The parts of a name between its slashes, and whether a slash stands at its end. -/
def nameParts (name : String) : List String × Bool :=
  ((name.splitOn "/").filter (· ≠ ""), name.endsWith "/")

namespace FileTree

/-- What stands at a place. -/
def entryAt (tree : FileTree) (place : Place) : FileEntry :=
  if place.isInside then
    let name := "/".intercalate place.parts
    match tree.lookup name with
    | some text => .file text
    | none =>
      if place.parts.isEmpty || tree.any fun (other, _) => other.startsWith (name ++ "/") then
        .directory
      else .missing
  else systemEntry place.parts

/-- Where further parts lead to. A point stays where it is, and two points lead one step up. -/
def walk (tree : FileTree) (place : Place) : List String → Destination
  | [] => .found place
  | part :: parts =>
    match tree.entryAt place with
    | .missing => .nowhere
    | .file _ => .blocked
    | .directory =>
      if part = "." then tree.walk place parts
      else if part = ".." then tree.walk place.above parts
      else if maxPartSize < part.utf8ByteSize then .tooLong
      else tree.walk (place.below part) parts

/-- Where a name starts from. -/
def startOf (name : String) : Place := if name.startsWith "/" then .root else .top

/-- What stands under a name. Only a directory can have a slash behind its name. -/
def entry (tree : FileTree) (name : String) : FileEntry :=
  let (parts, isClosed) := nameParts name
  if name = "" || name.contains '\x00' || maxPathSize < name.utf8ByteSize then .missing
  else
    match tree.walk (startOf name) parts with
    | .found place =>
      match tree.entryAt place with
      | .file text => if isClosed then .missing else .file text
      | found => found
    | _ => .missing

/-- Why no file with a name can be written at a place, if that is so. A slash behind the name asks
    for a directory, whatever stands there. -/
def writeFaultAt (tree : FileTree) (place : Place) (name : String) (isClosed : Bool) :
    Option Error :=
  match tree.entryAt place with
  | .missing => some .missingFile
  | .file _ => some .notDirectory
  | .directory =>
    if name = "." || name = ".." || isClosed then some .isDirectory
    else if maxPartSize < name.utf8ByteSize then some .fileNameTooLong
    else
      match tree.entryAt (place.below name) with
      | .directory => some .isDirectory
      | _ => none

/-- Why nothing can be written under a name, if that is so. -/
def writeFault (tree : FileTree) (name : String) : Option Error :=
  let (parts, isClosed) := nameParts name
  if name.contains '\x00' then some .brokenFileName
  else if name = "" then some .missingFile
  else if maxPathSize < name.utf8ByteSize then some .fileNameTooLong
  else
    match parts.getLast? with
    | none => some .isDirectory
    | some last =>
      match tree.walk (startOf name) parts.dropLast with
      | .found place => tree.writeFaultAt place last isClosed
      | .blocked => some .notDirectory
      | .tooLong => some .fileNameTooLong
      | .nowhere => some .missingFile

/-- The files of a tree that are new or changed after a text has been written under a name. -/
def changedBy (tree : FileTree) (name text : String) : List (String × String) :=
  match tree.walk (startOf name) (nameParts name).1 with
  | .found place =>
    let stored := "/".intercalate place.parts
    if !place.isInside || tree.lookup stored = some text then [] else [(stored, text)]
  | _ => []

/-- What can be seen of a tree whose files were all last changed at one time. -/
def view (tree : FileTree) (time : String) : FileView where
  entry := tree.entry
  time name :=
    match tree.entry name with
    | .missing => none
    | _ => if name = nullFile then none else some time
  writeFault := tree.writeFault

end FileTree

/-- What a setting stands for as a file: its name, or the number of an open file. -/
inductive FileRef where
  | named (name : String)
  | numbered (number : Int)

namespace FileRef

/-- What a value stands for as a file. Truth values are numbers too. -/
def ofValue : Value → Except Error FileRef
  | .text name => .ok (.named name)
  | v => v.toInteger?.elim (.error .wrongKind) fun number => .ok (.numbered number)

/-- The number of the standard output. -/
def standardOutput : Int := 1

/-- The number of the standard error output. -/
def standardError : Int := 2

/-- The numbers of the files that are always open. -/
def alwaysOpen : List Int := [0, standardOutput, standardError]

/-- Whether a number is small enough to be that of an open file. -/
def isCountable (number : Int) : Bool :=
  -(Nat.pow 2 31 : Int) ≤ number && number < (Nat.pow 2 31 : Int)

/-- Whether there is such a file. -/
def isThere (view : FileView) : FileRef → Except Error Bool
  | .named name =>
    match view.entry name with
    | .missing => .ok false
    | _ => .ok true
  | .numbered number =>
    if isCountable number then .ok (alwaysOpen.contains number) else .error .outOfRange

/-- Why nothing can be written to a file, if that is so. -/
def writeFault (view : FileView) : FileRef → Option Error
  | .named name => view.writeFault name
  | .numbered number =>
    if !isCountable number then some .wrongKind
    else if number < 0 then some .negativeDescriptor
    else if alwaysOpen.contains number then none
    else some .notOpen

end FileRef

end ItemDelta
