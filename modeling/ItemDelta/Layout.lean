import ItemDelta.Text.Blank
import ItemDelta.Value.Element

/-!
# Wrapped values

A value is shown on one line as long as that fits between its indentation and the right margin.
A longer list, map or set has one item on each line, aligned behind the opening bracket, and each
item is wrapped by the same rule. A longer text is split at its line ends, and lines that are
still too long at their blanks; the pieces stand below each other, in parentheses unless they
are part of something larger. A set with one element on each line is shown in order, which a set
with a decimal NaN among numbers does not have.

## Main definitions

* `wrapText` — the pieces of a text.
* `Value.wrapped` — a value, wrapped.

## Design notes

What has to follow an item on its last line, such as closing brackets and a comma, is reserved
at the right margin: it is the `allowance` of the item.
-/

namespace ItemDelta

/-- The number of columns. -/
def lineWidth : Nat := 80

/-- A new line with an indentation. -/
def indentedLine (indent : Nat) : List Char := '\n' :: List.replicate indent ' '

/-- The character put in front of the first part, which ends where a blank is followed by
    something else. -/
def joinPart (c : Char) : List (List Char) → List (List Char)
  | [] => [[c]]
  | [] :: parts => [c] :: parts
  | (d :: part) :: parts =>
    if isBlank c && !isBlank d then [c] :: (d :: part) :: parts else (c :: d :: part) :: parts

/-- The parts of a line: each ends with the blanks behind its characters. -/
def lineParts (line : List Char) : List (List Char) := line.foldr joinPart []

/-- Parts put together as long as their inspected form fits into a width, which is another one
    for the last part. `current` are the characters put together so far. -/
def fillParts (width lastWidth : Int) (current : List Char) : List (List Char) → List (List Char)
  | [] => if current.isEmpty then [] else [inspectChars current]
  | part :: parts =>
    let available := if parts.isEmpty then lastWidth else width
    if available < (inspectChars (current ++ part)).length then
      let done := if current.isEmpty then [] else [inspectChars current]
      done ++ fillParts width lastWidth part parts
    else fillParts width lastWidth (current ++ part) parts

/-- The inspected pieces of the lines of a text. -/
def wrapLines (width lastWidth : Int) : List (List Char) → List (List Char)
  | [] => []
  | line :: lines =>
    let available := if lines.isEmpty then lastWidth else width
    let inspected := inspectChars line
    let pieces :=
      if available < inspected.length then fillParts width available [] (lineParts line)
      else [inspected]
    pieces ++ wrapLines width lastWidth lines

/-- Pieces below each other. -/
def stacked (indent : Nat) : List (List Char) → List Char
  | [] => []
  | [piece] => piece
  | piece :: pieces => piece ++ indentedLine indent ++ stacked indent pieces

/-- A text that does not fit on one line. A text that stands alone gets parentheses, which take
    a column on either side. -/
def wrapText (alone : Bool) (indent allowance : Nat) (text : List Char) : List Char :=
  let indent := if alone then indent + 1 else indent
  let allowance := if alone then allowance + 1 else allowance
  let width : Int := (lineWidth : Int) - indent
  match wrapLines width (width - allowance) (splitLines text) with
  | [] => inspectChars text
  | [piece] => piece
  | pieces =>
    if alone then '(' :: stacked indent pieces ++ [')'] else stacked indent pieces

namespace Value

/-- Whether the inspected form of a value fits. -/
def fitsInto (v : Value) (indent allowance : Nat) : Bool :=
  v.inspectChars.length ≤ (lineWidth : Int) - indent - allowance

mutual

/-- A value, wrapped unless it fits, behind `indent` columns and before `allowance` reserved
    ones. -/
def wrapAt (alone : Bool) (indent allowance : Nat) : Value → Except Error (List Char)
  | .text s =>
    if fitsInto (.text s) indent allowance then .ok (inspectChars (.text s))
    else .ok (wrapText alone indent allowance s.toList)
  | .list items =>
    if fitsInto (.list items) indent allowance then .ok (inspectChars (.list items))
    else do
      let lines ← wrapItems (indent + 1) (allowance + 1) items
      return '[' :: lines ++ [']']
  | .map members =>
    if fitsInto (.map members) indent allowance then .ok (inspectChars (.map members))
    else do
      let lines ← wrapMembers (indent + 1) (allowance + 1) members
      return '\x7b' :: lines ++ ['\x7d']
  | .set [] => .ok (inspectChars (.set []))
  | .set (e :: es) =>
    if fitsInto (.set (e :: es)) indent allowance then .ok (inspectChars (.set (e :: es)))
    else do
      checkSortable (e :: es)
      let lines ← wrapItems (indent + 1) (allowance + 1) (e :: es)
      return '\x7b' :: lines ++ ['\x7d']
  | v => .ok (inspectChars v)

/-- Items below each other. Only the last one has more than a comma behind it. -/
def wrapItems (indent allowance : Nat) : List Value → Except Error (List Char)
  | [] => .ok []
  | [v] => wrapAt false indent allowance v
  | v :: w :: vs => do
    let first ← wrapAt false indent 1 v
    let rest ← wrapItems indent allowance (w :: vs)
    return first ++ ',' :: indentedLine indent ++ rest

/-- Members below each other, each with its key. -/
def wrapMembers (indent allowance : Nat) : List (Key × Value) → Except Error (List Char)
  | [] => .ok []
  | [(key, v)] => do
    let label := key.inspectChars
    let lines ← wrapAt false (indent + label.length + 2) allowance v
    return label ++ ':' :: ' ' :: lines
  | (key, v) :: member :: members => do
    let label := key.inspectChars
    let first ← wrapAt false (indent + label.length + 2) 1 v
    let rest ← wrapMembers indent allowance (member :: members)
    return label ++ ':' :: ' ' :: first ++ ',' :: indentedLine indent ++ rest

end

/-- A value, wrapped, with the members of its maps in key order. -/
def wrapped (v : Value) : Except Error (List Char) := wrapAt true 0 0 v.sortMembers

end Value

end ItemDelta
