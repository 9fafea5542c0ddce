import ItemDelta.Text.Alphanumeric
import ItemDelta.Text.CaseMap
import ItemDelta.Text.Digit
import ItemDelta.Text.LetterCase

/-!
# Words of a name

A name is split into words at everything that is neither a letter nor a number, and between two
neighbours where digits begin or end, where upper case follows other letters, and before the
last of several capitals that lower case follows.

## Main definitions

* `isWordBoundary` — where two neighbouring characters belong to different words.
* `splitWords` — the words of a text, in order.
* `camelCase` — the words joined: the first in lower case, the others capitalised.
-/

namespace ItemDelta

/-- Whether a word ends between two neighbouring alphanumeric characters, `next` being the
    alphanumeric character behind them, if there is one. -/
def isWordBoundary (previous current : Char) (next : Option Char) : Bool :=
  isDigitCharacter previous != isDigitCharacter current ||
    (!isUpperCase previous && !isDigitCharacter previous && isUpperCase current) ||
    (isUpperCase previous && isUpperCase current && next.any isLowerCase)

/-- A character put in front of the first word. -/
def joinFirst (c : Char) : List (List Char) → List (List Char)
  | [] => [[c]]
  | word :: words => (c :: word) :: words

/-- The words of a text. -/
def splitWords : List Char → List (List Char)
  | [] => []
  | c :: rest =>
    if isAlphanumeric c then
      match rest with
      | [] => [[c]]
      | d :: after =>
        if isAlphanumeric d && !isWordBoundary c d (after.head?.filter isAlphanumeric) then
          joinFirst c (splitWords rest)
        else [c] :: splitWords rest
    else splitWords rest

/-- A word with its first character in upper case and the others in lower case. -/
def capitalised (word : List Char) : List Char :=
  upperCased (word.take 1) ++ lowerCased (word.drop 1)

/-- Words joined into one name. -/
def joinWords : List (List Char) → List Char
  | [] => []
  | word :: words => lowerCased word ++ words.flatMap capitalised

/-- The words of all parts of a name, joined. -/
def camelCase (parts : List (List Char)) : List Char := joinWords (parts.flatMap splitWords)

end ItemDelta
