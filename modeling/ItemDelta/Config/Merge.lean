import ItemDelta.Json.Writer

/-!
# Merging settings

Settings are maps whose values may be maps again. Merging new settings into present ones goes
down the maps of the new ones: what is no map there replaces what is present, and a null either
does so too or, in the other mode, takes the present value away. In that mode maps that end up
empty are taken away as well.

## Main definitions

* `mergeMembers`, `mergeSettings` — the merge.
* `printedSettings` — the settings as texts, for a listing.
-/

namespace ItemDelta

/-- Puts a value under a key; only maps take one. -/
def putSetting (target : Value) (key : Key) (value : Value) : Except Error Value :=
  match target with
  | .map members => .ok (.map (Members.insert members key value))
  | _ => .error .wrongKind

/-- Takes a key away. Of the other kinds of values, lists and sets have an operation of the same
    name, which does not apply. -/
def dropSetting (target : Value) (key : Key) : Except Error Value :=
  match target with
  | .map members => .ok (.map (Members.erase members key))
  | .list _ | .set _ => .error .wrongKind
  | _ => .error .unsupported

/-- What is present under a key, an empty map if nothing is. -/
def presentSetting (target : Value) (key : Key) : Except Error Value :=
  match target with
  | .map members => .ok ((Members.get? members key).getD .emptyMap)
  | _ => .error .wrongKind

/-- Puts merged settings under a key, unless nothing is left of them and nulls take away. -/
def putMerged (keepNull : Bool) (target : Value) (key : Key) (merged : Value) :
    Except Error Value :=
  if keepNull || merged.isTruthy then putSetting target key merged else dropSetting target key

mutual

/-- One new setting merged into present ones. -/
def mergeMember (keepNull : Bool) (target : Value) (key : Key) : Value → Except Error Value
  | .map members => do
    let present ← presentSetting target key
    let merged ← mergeMembers keepNull present members
    putMerged keepNull target key merged
  | .null => if keepNull then putSetting target key .null else dropSetting target key
  | v => putSetting target key v

/-- New settings merged into present ones, in their order. -/
def mergeMembers (keepNull : Bool) (target : Value) : List (Key × Value) → Except Error Value
  | [] => .ok target
  | (key, v) :: members => do
    let target ← mergeMember keepNull target key v
    mergeMembers keepNull target members

end

/-- New settings merged into present ones. New settings are a map. -/
def mergeSettings (keepNull : Bool) (target new : Value) : Except Error Value :=
  match new with
  | .map members => mergeMembers keepNull target members
  | _ => .error .unsupported

mutual

/-- A setting as it is listed: its JSON text, or a map of listed settings. -/
def printedSetting : Value → Except Error Value
  | .map [] => .ok (.text "\x7b\x7d")
  | .map (member :: members) => Value.map <$> printedMembers (member :: members)
  | v => Value.text <$> writeJsonLine v

/-- Several settings as they are listed. -/
def printedMembers : List (Key × Value) → Except Error (List (Key × Value))
  | [] => .ok []
  | (key, v) :: members => do
    let first ← printedSetting v
    let rest ← printedMembers members
    return (key, first) :: rest

end

/-- All settings as they are listed. -/
def printedSettings (settings : Value) : Except Error Value :=
  match settings with
  | .map members => Value.map <$> printedMembers members
  | _ => .error .unsupported

end ItemDelta
