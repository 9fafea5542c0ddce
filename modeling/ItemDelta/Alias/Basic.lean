import ItemDelta.Alias.Limit
import ItemDelta.Text.Words

/-!
# Placeholders

The expressions of the store take no literal names and values: every member name and every value
stands in them as a placeholder, and two registries say what the placeholders mean. A placeholder
is the camel-cased name behind a sigil. Where that would be too long, or is taken by something
else, the next number of a counter is put at its end.

## Main definitions

* `Registry` — what the placeholders mean.
* `NotedAlias` — the placeholder that a name has under a prefix.
* `AliasContext` — the prefix, the counter and the names that already have a placeholder.
* `Drawing`, `AliasContext.nextSuffix` — an action on a context, and the next number of its counter.
* `cutName` — a name cut to a length, a number from the counter at its end.
* `cutTo` — the same for a name and a length of any kind.
* `freeCandidate` — the first placeholder that is free.
* `baseName` — the camel-cased parts of a name.
* `freePlaceholder` — a free placeholder named after some parts.

## Design notes

The counter is an integer of any size, but one of more than 4300 digits cannot be written. Whoever
draws such a number fails, and the numbers drawn before are spent; so actions on a context run in a
state monad whose errors carry the context.
-/

namespace ItemDelta

/-- What is registered under each placeholder, in the order of registration. -/
abbrev Registry (α : Type) := List (String × α)

namespace Registry

/-- What is registered under a placeholder. -/
def get? {α : Type} (registry : Registry α) (placeholder : String) : Option α :=
  List.lookup placeholder registry

/-- A registry with one more entry; an entry that is there already keeps its place. -/
def insert {α : Type} : Registry α → String → α → Registry α
  | [], placeholder, meaning => [(placeholder, meaning)]
  | (p, m) :: rest, placeholder, meaning =>
    if p = placeholder then (placeholder, meaning) :: rest
    else (p, m) :: insert rest placeholder meaning

end Registry

/-- The longest camel-cased name that leaves room for a sigil. -/
def maxBaseLength : Int := 254

/-- The sigil of name placeholders. -/
def nameSigil : Char := '#'

/-- The sigil of value placeholders. -/
def valueSigil : Char := ':'

/-- Whether two prefixes are one: they carry the same data, or are the same value. -/
def sameLead (lead other : Value) : Bool := lead.agrees other || lead = other

/-- The placeholder that a name has under a prefix. -/
structure NotedAlias where
  lead : Value
  name : String
  placeholder : String
deriving Inhabited

namespace NotedAlias

/-- Whether this is the placeholder of a name under a prefix. -/
def isFor (noted : NotedAlias) (lead : Value) (name : String) : Bool :=
  sameLead noted.lead lead && noted.name == name

/-- Placeholders with one more. A name that has one under a prefix already keeps its place, and the
    prefix stays as it was given first. -/
def insert (lead : Value) (name placeholder : String) : List NotedAlias → List NotedAlias
  | [] => [⟨lead, name, placeholder⟩]
  | noted :: rest =>
    if noted.isFor lead name then { noted with placeholder } :: rest
    else noted :: insert lead name placeholder rest

end NotedAlias

/-- State shared by all placeholders of one compilation, and by several compilations if they are
    to be composed. -/
structure AliasContext where
  /-- The prefix of every placeholder. It can be any value, whose text is used; null stands for
      none. -/
  lead : Value
  /-- The next number to be put at the end of a placeholder. -/
  counter : Int
  /-- The placeholders of names, by the prefix that each was asked for with. -/
  aliases : List NotedAlias
deriving Inhabited

/-- An action on a context. -/
abbrev Drawing := EStateM Error AliasContext

namespace AliasContext

/-- A context without a prefix, whose counter starts at one. -/
def fresh : AliasContext := ⟨.null, 1, []⟩

/-- The next number of the counter, as text, if it can be written. -/
def nextSuffix : Drawing String := fun context =>
  if isLongInteger context.counter then .error (.tooManyDigits none) context
  else .ok (integerText context.counter) { context with counter := context.counter + 1 }

/-- The placeholder that a name has under a prefix. -/
def alias? (context : AliasContext) (lead : Value) (name : String) : Option String :=
  (context.aliases.find? (·.isFor lead name)).map (·.placeholder)

/-- Notes the placeholder of a name. -/
def noteAlias (context : AliasContext) (lead : Value) (name placeholder : String) :
    AliasContext :=
  { context with aliases := NotedAlias.insert lead name placeholder context.aliases }

/-- The context as it is shown, if it can be written. -/
def inspect (context : AliasContext) : Except Error String :=
  if context.lead.hasLongInteger || isLongInteger context.counter then .error (.tooManyDigits none)
  else .ok ("AliasContext(prefix=" ++ context.lead.inspect ++ ", counter=" ++
    integerText context.counter ++ ")")

end AliasContext

/-- The first characters of a text. A negative number leaves out as many at the end. -/
def firstCharacters (text : List Char) (count : Int) : List Char :=
  if 0 ≤ count then text.take count.toNat else text.take (text.length - (-count).toNat)

/-- A name with its end cut off so that, with a suffix, it has at most `limit` characters. -/
def withSuffix (name : String) (limit : Int) (suffix : String) : String :=
  String.ofList (firstCharacters name.toList (limit - suffix.length)) ++ suffix

/-- A name cut to a length. What is cut off is replaced by the next number of the counter. -/
def cutName (name : String) (limit : Int) : Drawing String := do
  if name.length ≤ limit then return name
  return withSuffix name limit (← AliasContext.nextSuffix)

/-- A value of any kind cut to a length of any kind. What fits stays what it is. Only texts can be
    cut, and only to whole lengths, which shows when a number has been drawn already. -/
def cutTo (v limit : Value) : Drawing Value := do
  match ← ofExcept (compareSize v limit) with
  | some .lt | some .eq => return v
  | _ =>
    let suffix ← AliasContext.nextSuffix
    match v, limit.toInteger? with
    | .text name, some length => return .text (withSuffix name length suffix)
    | _, _ => throw .wrongKind

/-- How many numbers are drawn at most before a placeholder is free among `entries` taken ones.
    Placeholders with suffixes of one length differ, and suffixes soon have one length for long
    enough. -/
def drawLimit (entries : Nat) : Nat := 10 * (entries + 1)

/-- The first free one among a candidate and the placeholders with the next numbers at their
    end, drawing `draws` numbers at most. -/
def firstFree (isFree : String → Bool) (base : String) : (draws : Nat) → String → Drawing String
  | 0, candidate => return candidate
  | draws + 1, candidate => do
    if isFree candidate then return candidate
    let suffix ← AliasContext.nextSuffix
    firstFree isFree base draws (withSuffix base maxNameLength suffix)

/-- The first free placeholder made from a base, given how many are taken. -/
def freeCandidate (isFree : String → Bool) (entries : Nat) (base : String) : Drawing String :=
  firstFree isFree base (drawLimit entries) base

/-- The camel-cased parts of a name, or a default if no word is left. -/
def baseName (parts : List (Option String)) (default : String) : String :=
  let name := camelCase (parts.filterMap (·.map String.toList))
  if name.isEmpty then default else String.ofList name

/-- A free placeholder named after some parts, given how many are taken. -/
def freePlaceholder (sigil : Char) (parts : List (Option String)) (default : String)
    (isFree : String → Bool) (entries : Nat) : Drawing String := do
  let base ← cutName (baseName parts default) maxBaseLength
  freeCandidate isFree entries (sigil.toString ++ base)

/-- A key as a part of a name. -/
def Key.part : Key → Option String
  | .name text => some text
  | .index position => some (String.ofList (decimalDigits position))

/-- A value as a part of a name: its text, or nothing for null. -/
def Value.part : Value → Option String
  | .null => none
  | v => some v.toText

/-- A value as a part of a name, if it can be written. -/
def Value.writtenPart (v : Value) : Except Error (Option String) :=
  if v.hasLongInteger then .error (.tooManyDigits none) else .ok v.part

/-- Refuses prefixes under which no name can be noted. -/
def checkLead (lead : Value) : Except Error Unit :=
  if !lead.canBeElement then .error .wrongKind
  else if lead.hasLongInteger then .error (.tooManyDigits none)
  else .ok ()

/-- The prefix asked for, or another one if that is null. -/
def leadOr (lead other : Value) : Value := if lead = .null then other else lead

end ItemDelta
