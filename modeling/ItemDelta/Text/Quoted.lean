import ItemDelta.Text.Hexadecimal

/-!
# Quoted texts

The string literals of JSON. A literal stands between double quotes; a quote, a backslash and
the control characters inside it are written as escapes. In the ASCII form every character
beyond the tilde is written as one or two 16-bit units as well.

## Main definitions

* `quote`, `quoteAscii` — the literal of a text, in the two forms.
* `scanQuoted?` — the text of the literal at the front, its opening quote already read.
-/

namespace ItemDelta

/-- A backslash, the letter `u` and the four digits of a 16-bit unit. -/
def unitEscape (unit : Nat) : List Char := '\\' :: 'u' :: hexDigits 4 unit

/-- Quotes, backslashes and control characters as they are written inside a literal. -/
def escapeControl (c : Char) : List Char :=
  if c = '"' then ['\\', '"']
  else if c = '\\' then ['\\', '\\']
  else if c = '\n' then ['\\', 'n']
  else if c = '\r' then ['\\', 'r']
  else if c = '\t' then ['\\', 't']
  else if c = '\x0c' then ['\\', 'f']
  else if c = '\x08' then ['\\', 'b']
  else if c.toNat < 0x20 then unitEscape c.toNat
  else [c]

/-- A character as it is written inside an ASCII literal: beyond the Basic Multilingual Plane it
    takes a surrogate pair. -/
def escapeAscii (c : Char) : List Char :=
  if c.toNat < 0x7f then escapeControl c
  else if c.toNat < 0x10000 then unitEscape c.toNat
  else
    unitEscape (0xd800 + (c.toNat - 0x10000) / 0x400) ++
      unitEscape (0xdc00 + (c.toNat - 0x10000) % 0x400)

/-- The literal of a text, with characters beyond ASCII as they are. -/
def quote (text : List Char) : List Char := '"' :: text.flatMap escapeControl ++ ['"']

/-- The literal of a text in ASCII. -/
def quoteAscii (text : List Char) : List Char := '"' :: text.flatMap escapeAscii ++ ['"']

/-- The character of an escape of one letter. -/
def letterEscape? (c : Char) : Option Char :=
  match c with
  | '"' => some '"'
  | '\\' => some '\\'
  | '/' => some '/'
  | 'b' => some '\x08'
  | 'f' => some '\x0c'
  | 'n' => some '\n'
  | 'r' => some '\r'
  | 't' => some '\t'
  | _ => none

/-- A unit that opens a surrogate pair. -/
def isHighSurrogate (unit : Nat) : Bool := 0xd800 ≤ unit && unit < 0xdc00

/-- A unit that closes a surrogate pair. -/
def isLowSurrogate (unit : Nat) : Bool := 0xdc00 ≤ unit && unit < 0xe000

/-- The character of one unit. Half a surrogate pair is no character and is replaced. -/
def unitCharacter (unit : Nat) : Char :=
  if isHighSurrogate unit || isLowSurrogate unit then '\ufffd' else Char.ofNat unit

/-- The character of a surrogate pair. -/
def pairCharacter (high low : Nat) : Char :=
  Char.ofNat (0x10000 + (high - 0xd800) * 0x400 + (low - 0xdc00))

/-- The text of a list of units, in which a surrogate pair is two neighbours and every other
    character is one. -/
def ofUnits : List Nat → List Char
  | [] => []
  | [unit] => [unitCharacter unit]
  | high :: low :: rest =>
    if isHighSurrogate high && isLowSurrogate low then pairCharacter high low :: ofUnits rest
    else unitCharacter high :: ofUnits (low :: rest)

/-- The units up to the closing quote, and what follows it. Control characters, unknown escapes
    and a missing quote are refused. -/
def scanUnits? : List Char → Option (List Nat × List Char)
  | [] => none
  | '"' :: rest => some ([], rest)
  | '\\' :: 'u' :: a :: b :: c :: d :: rest =>
    match hexUnit? a b c d with
    | some unit => (scanUnits? rest).map fun (units, after) => (unit :: units, after)
    | none => none
  | '\\' :: c :: rest =>
    match letterEscape? c with
    | some escaped => (scanUnits? rest).map fun (units, after) => (escaped.toNat :: units, after)
    | none => none
  | c :: rest =>
    if c.toNat < 0x20 ∨ c = '\\' then none
    else (scanUnits? rest).map fun (units, after) => (c.toNat :: units, after)

/-- The text up to the closing quote, and what follows it. -/
def scanQuoted? (text : List Char) : Option (List Char × List Char) :=
  (scanUnits? text).map fun (units, rest) => (ofUnits units, rest)

end ItemDelta
