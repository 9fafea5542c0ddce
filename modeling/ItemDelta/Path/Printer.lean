import ItemDelta.Error
import ItemDelta.Text.Quoted

/-!
# The text of paths

A path is written as the root sign and one step for each key: a point and a plain name, a quoted
name in brackets, or a position in brackets. Quoting keeps a point inside a name from being read
as the start of the next step.

## Main definitions

* `isIdentifier` — the names that need no quotes.
* `memberStep`, `indexStep` — one step.
* `pathText` — the path along a list of keys.
* `pathOfValues` — the same for keys given as values of any kind.
* `asPath` — a path from names with points between them.
-/

namespace ItemDelta

/-- The sign for the root of a document. -/
def rootSign : Char := '$'

/-- The characters that a plain name starts with. -/
def isIdentifierStart (c : Char) : Bool := c.isAlpha || c == '_' || c == '$'

/-- The characters that a plain name goes on with. -/
def isIdentifierPart (c : Char) : Bool := c.isAlphanum || c == '_' || c == '$'

/-- Names of ASCII letters, digits, underscores and dollar signs that do not start with a
    digit. -/
def isIdentifier : List Char → Bool
  | [] => false
  | c :: rest => isIdentifierStart c && rest.all isIdentifierPart

/-- A name is written without quotes if it is an identifier; a line feed at its end is
    overlooked. -/
def isPlainName (name : List Char) : Bool :=
  isIdentifier name || (name.getLast? == some '\n' && isIdentifier name.dropLast)

/-- The step to a member. -/
def memberStep (name : List Char) : List Char :=
  if isPlainName name then '.' :: name else '[' :: quote name ++ [']']

/-- The step to a list element. -/
def indexStep (position : Nat) : List Char := '[' :: decimalDigits position ++ [']']

/-- The step of a key. -/
def Key.step : Key → List Char
  | .name text => memberStep text.toList
  | .index position => indexStep position

/-- The characters of the path along a list of keys. -/
def pathChars (keys : List Key) : List Char := rootSign :: keys.flatMap Key.step

/-- The path along a list of keys. -/
def pathText (keys : List Key) : String := String.ofList (pathChars keys)

/-- The step to the member whose name is the text of a value. -/
def memberStepOfValue (value : Value) : Except Error (List Char) :=
  if value.hasLongInteger then .error (.tooManyDigits none)
  else .ok (memberStep value.toText.toList)

/-- The step along a value: integers are positions, the text of anything else is a member
    name. -/
def stepOfValue : Value → Except Error (List Char)
  | .int n =>
    if isLongInteger n then .error (.tooManyDigits none)
    else .ok ('[' :: integerDigits n ++ [']'])
  | value => memberStepOfValue value

/-- The path along a list of values. -/
def pathOfValues (keys : List Value) : Except Error String := do
  let steps ← keys.mapM stepOfValue
  return String.ofList (rootSign :: steps.flatten)

/-- The parts of a text between its points. -/
def dottedParts : List Char → List (List Char)
  | [] => [[]]
  | c :: rest =>
    if c = '.' then [] :: dottedParts rest
    else
      match dottedParts rest with
      | [] => [[c]]
      | part :: parts => (c :: part) :: parts

/-- A path as it is, or the path that names with points between them stand for. -/
def asPath (text : String) : String :=
  if text.toList.head? = some rootSign then text
  else pathText ((dottedParts text.toList).map fun part => .name (String.ofList part))

end ItemDelta
