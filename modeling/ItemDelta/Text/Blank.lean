import ItemDelta.Text.CodeTable

/-!
# Blanks and line ends

Blanks are the white space of Unicode together with the four information separators. Lines end
at the usual line feed and carriage return, singly or as a pair, and at the other vertical
separators.

## Main definitions

* `isBlank`, `isLineEnd` — the two classes.
* `splitLines` — the lines of a text, each with its line end.
-/

namespace ItemDelta

namespace CodeTable

/-- The code points of blanks. -/
def blanks : List (Nat × Nat) := [
    (9, 13), (28, 32), (133, 133), (160, 160), (5760, 5760), (8192, 8202), (8232, 8233),
    (8239, 8239), (8287, 8287), (12288, 12288)]

/-- The code points at which a line ends. -/
def lineEnds : List (Nat × Nat) := [
    (10, 13), (28, 30), (133, 133), (8232, 8233)]

end CodeTable

/-- Blanks of any kind. -/
def isBlank (c : Char) : Bool := CodeTable.inRanges CodeTable.blanks c.toNat

/-- Characters that end a line. -/
def isLineEnd (c : Char) : Bool := CodeTable.inRanges CodeTable.lineEnds c.toNat

/-- The lines of a text after the characters `line` of the first one, in reverse. -/
def splitLinesAfter (line : List Char) : List Char → List (List Char)
  | [] => if line.isEmpty then [] else [line.reverse]
  | '\r' :: '\n' :: rest => ('\n' :: '\r' :: line).reverse :: splitLinesAfter [] rest
  | c :: rest =>
    if isLineEnd c then (c :: line).reverse :: splitLinesAfter [] rest
    else splitLinesAfter (c :: line) rest

/-- The lines of a text, each with its line end; the last one may have none. -/
def splitLines (text : List Char) : List (List Char) := splitLinesAfter [] text

end ItemDelta
