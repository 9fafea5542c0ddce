import ItemDelta.Error
import ItemDelta.Text.Digit

/-!
# The grammar of command lines

The arguments of a program are options and operands. An option is known by its full name, by any
beginning of its name that no other option has, and may carry its argument behind an equals sign.
A lone double dash makes everything behind it an operand.

## Main definitions

* `OptionSpec`, `Position`, `Grammar` — what a program accepts.
* `Interrupt` — what can end a program while its arguments are read.
* `Token`, `Grammar.tokenize` — the arguments by their form.
-/

namespace ItemDelta

/-- What an option does. -/
inductive OptionAction where
  /-- Shows what the program accepts, and ends it. -/
  | help
  /-- Shows the version of the program, and ends it. -/
  | version
  /-- Shows the configuration, and ends the program. -/
  | listing
  /-- Sets a truth value. -/
  | flag (value : Bool)
  /-- Takes a text as its argument. -/
  | text
  /-- Takes one of several texts as its argument. -/
  | choice (texts : List String)
  /-- Takes one of several texts as its argument, and needs the text at once. -/
  | level (texts : List String)
  /-- Takes a JSON text as its argument. -/
  | json
deriving DecidableEq

/-- Whether an option takes an argument. -/
def OptionAction.takesArgument : OptionAction → Bool
  | .text | .choice _ | .level _ | .json => true
  | _ => false

/-- An option: the names it can be called by, the setting it makes and what it does. -/
structure OptionSpec where
  names : List String
  setting : String
  action : OptionAction

/-- A place for an operand. -/
structure Position where
  setting : String
  required : Bool

/-- What a program accepts. -/
structure Grammar where
  options : List OptionSpec
  positions : List Position
  /-- Of these settings only one can be made by an option. -/
  exclusive : List String

/-- Something that ends a program while its arguments are read. -/
inductive Interrupt where
  /-- The arguments are not accepted. -/
  | usage
  | help
  | version
  | listing
  /-- An option fails with an error. -/
  | failure (error : Error)

/-- What stands in the same word as an option. -/
inductive Attached where
  | none
  /-- Behind the name and an equals sign. -/
  | assigned (text : String)
  /-- Behind a single letter, with or without an equals sign. -/
  | clustered (text : String)

/-- The form of an argument. -/
inductive Token where
  | operand (text : String)
  | option (spec : OptionSpec) (attached : Attached)
  /-- It looks like an option, and there is no such option. -/
  | unknown
  /-- The double dash that ends the options. -/
  | separator

/-- Whether a token stands where options act. -/
def Token.isOption : Token → Bool
  | .option .. | .unknown => true
  | _ => false

/-- A minus sign and digits, which may have a point in front of the last of them. -/
def isNegativeNumber (text : List Char) : Bool :=
  let text := if text.getLast? = some '\n' then text.dropLast else text
  let isDigit (c : Char) : Bool := (decimalDigit? c).isSome
  match text with
  | '-' :: rest =>
    match rest.dropWhile isDigit with
    | [] => !rest.isEmpty
    | '.' :: fraction => !fraction.isEmpty && fraction.all isDigit
    | _ => false
  | _ => false

/-- A text up to its first equals sign, and what follows that. -/
def splitAssignment (text : List Char) : List Char × Option (List Char) :=
  match text.dropWhile (· ≠ '=') with
  | _ :: value => (text.takeWhile (· ≠ '='), some value)
  | [] => (text, none)

/-- What an equals sign attaches. -/
def attachedOf : Option (List Char) → Attached
  | some text => .assigned (String.ofList text)
  | none => .none

/-- What an equals sign attaches to the name of an option. -/
def attachedTo (name text : List Char) : Attached :=
  match name with
  | '-' :: '-' :: _ => .assigned (String.ofList text)
  | _ => .clustered (String.ofList text)

namespace Grammar

/-- The option with a name. -/
def optionNamed? (g : Grammar) (name : List Char) : Option OptionSpec :=
  g.options.find? fun spec => spec.names.any fun n => n.toList == name

/-- The options that the beginning of a name, or a single letter with something attached, could
    stand for. -/
def candidates (g : Grammar) (text : List Char) : List (OptionSpec × Attached) :=
  match text with
  | '-' :: '-' :: _ =>
    let (start, value) := splitAssignment text
    g.options.flatMap fun spec =>
      (spec.names.filter fun name => start.isPrefixOf name.toList).map fun _ =>
        (spec, attachedOf value)
  | _ =>
    g.options.flatMap fun spec =>
      (spec.names.filter fun name => name.toList == text.take 2).map fun _ =>
        (spec, .clustered (String.ofList (text.drop 2)))

/-- The form of an argument in front of a double dash. -/
def token (g : Grammar) (text : List Char) : Except Interrupt Token :=
  let operand := Token.operand (String.ofList text)
  match text with
  | '-' :: _ :: _ =>
    match g.optionNamed? text with
    | some spec => .ok (.option spec .none)
    | none =>
      match splitAssignment text with
      | (name, some value) =>
        match g.optionNamed? name with
        | some spec => .ok (.option spec (attachedTo name value))
        | none => byBeginning operand
      | _ => byBeginning operand
  | _ => .ok operand
where
  /-- The form of an argument that is no full name. -/
  byBeginning (operand : Token) : Except Interrupt Token :=
    match g.candidates text with
    | [(spec, attached)] => .ok (.option spec attached)
    | _ :: _ :: _ => .error .usage
    | [] =>
      if isNegativeNumber text || text.contains ' ' then .ok operand else .ok .unknown

/-- The forms of all arguments. -/
def tokenize (g : Grammar) : List String → Except Interrupt (List Token)
  | [] => .ok []
  | argument :: arguments =>
    if argument = "--" then .ok (.separator :: arguments.map Token.operand)
    else do
      let first ← g.token argument.toList
      let rest ← g.tokenize arguments
      return first :: rest

end Grammar

end ItemDelta
