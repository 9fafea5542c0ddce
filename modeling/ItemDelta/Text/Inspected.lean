import ItemDelta.Text.Hexadecimal
import ItemDelta.Text.Printable

/-!
# Inspected texts

The form in which messages and listings show a text so that every character can be seen: between
single quotes, or between double quotes when it holds a single quote and no double one, with
escapes for backslashes, for the quote in use and for everything that is not printable.
-/

namespace ItemDelta

/-- The quote that an inspected text stands between. -/
def quoteOf (text : List Char) : Char :=
  if text.contains '\'' && !text.contains '"' then '"' else '\''

/-- A character as it is shown between quotes of the given kind. -/
def inspectCharacter (mark c : Char) : List Char :=
  if c = mark ∨ c = '\\' then ['\\', c]
  else if c = '\t' then ['\\', 't']
  else if c = '\n' then ['\\', 'n']
  else if c = '\r' then ['\\', 'r']
  else if isPrintable c then [c]
  else if c.toNat < 0x100 then '\\' :: 'x' :: hexDigits 2 c.toNat
  else if c.toNat < 0x10000 then '\\' :: 'u' :: hexDigits 4 c.toNat
  else '\\' :: 'U' :: hexDigits 8 c.toNat

/-- A text as it is shown in messages. -/
def inspectChars (text : List Char) : List Char :=
  let mark := quoteOf text
  mark :: text.flatMap (inspectCharacter mark) ++ [mark]

/-- A string as it is shown in messages. -/
def inspectText (text : String) : String := String.ofList (inspectChars text.toList)

end ItemDelta
