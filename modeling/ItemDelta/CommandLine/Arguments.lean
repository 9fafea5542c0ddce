import ItemDelta.CommandLine.Grammar
import ItemDelta.Json.Reader

/-!
# Command line arguments

Options act in the order in which they are given. Operands are taken in runs: those between two
options are matched together against the positions still to be filled.

## Main definitions

* `Settings` — what is set, by the name of the setting.
* `Reading` — how far the arguments have been read.
* `Grammar.parse` — the settings that a list of arguments makes.
* `Settings.onTopOf` — settings on top of others.

## Design notes

The first interruption wins, since options act in order. Only a name that could be several
options is refused before anything else.
-/

namespace ItemDelta

/-- What is set, under the names of the settings. -/
abbrev Settings := Members

/-- How far the arguments have been read. -/
structure Reading where
  settings : Settings
  /-- The places still to be filled. -/
  positions : List Position
  /-- The exclusive settings made so far. -/
  exclusive : List String
  /-- Whether there was an argument that nothing takes. -/
  surplus : Bool

namespace Reading

/-- Makes a setting. -/
def set (r : Reading) (setting : String) (value : Value) : Reading :=
  { r with settings := Members.insert r.settings (.name setting) value }

/-- Notes an argument that nothing takes. -/
def addSurplus (r : Reading) : Reading := { r with surplus := true }

/-- Makes an exclusive setting, unless another one has been made. -/
def reserve (r : Reading) (g : Grammar) (setting : String) : Except Interrupt Reading :=
  if g.exclusive.contains setting then
    if r.exclusive.any (· != setting) then .error .usage
    else .ok { r with exclusive := setting :: r.exclusive }
  else .ok r

end Reading

/-- The value that an option reads its argument as. -/
def OptionAction.read (action : OptionAction) (argument : String) : Except Interrupt Value :=
  match action with
  | .choice texts | .level texts =>
    if texts.contains argument then .ok (.text argument) else .error .usage
  | .json =>
    match readJson .binary argument with
    | .ok value => .ok value
    | .error _ => .error .usage
  | _ => .ok (.text argument)

/-- The value of an option's argument. A double dash is taken out even there, and leaves an empty
    list, which is not looked at unless it is needed at once. -/
def OptionAction.value (action : OptionAction) (argument : String) : Except Interrupt Value :=
  if argument = "--" then
    match action with
    | .level _ => .error (.failure .wrongKind)
    | _ => .ok .emptyList
  else action.read argument

/-- The option without argument that a letter stands for. -/
def Grammar.flagLettered (g : Grammar) (letter : Char) : Except Interrupt OptionSpec :=
  match g.optionNamed? ['-', letter] with
  | some spec => if spec.action.takesArgument then .error .usage else .ok spec
  | none => .error .usage

/-- The options that follow an option without argument in the same word. Behind a single letter
    there may be more letters of such options, and nothing else. -/
def Attached.flags (g : Grammar) : Attached → Except Interrupt (List OptionSpec)
  | .none => .ok []
  | .assigned _ | .clustered "" => .error .usage
  | .clustered text => text.toList.mapM g.flagLettered

/-- What an option without argument does. -/
def Reading.act (r : Reading) (g : Grammar) (spec : OptionSpec) : Except Interrupt Reading :=
  match spec.action with
  | .help => .error .help
  | .version => .error .version
  | .listing => .error .listing
  | .flag value => do return (← r.reserve g spec.setting).set spec.setting (.bool value)
  | _ => .error .usage

/-- What an option with an argument does. -/
def Reading.actOn (r : Reading) (g : Grammar) (spec : OptionSpec) (argument : String) :
    Except Interrupt Reading := do
  let value ← spec.action.value argument
  return (← r.reserve g spec.setting).set spec.setting value

/-- What an option does with the tokens behind it, and how many of them it takes. -/
def Reading.option (r : Reading) (g : Grammar) (spec : OptionSpec) (attached : Attached)
    (tokens : List Token) : Except Interrupt (Reading × Nat) :=
  if spec.action.takesArgument then
    match attached, tokens with
    | .assigned argument, _ | .clustered argument, _ => do return (← r.actOn g spec argument, 0)
    | .none, .operand argument :: _ => do return (← r.actOn g spec argument, 1)
    | .none, _ => .error .usage
  else do
    let more ← attached.flags g
    let r ← (spec :: more).foldlM (fun r spec => r.act g spec) r
    return (r, 0)

/-- Whether a token is a double dash. -/
def Token.isSeparator : Token → Bool
  | .separator => true
  | _ => false

/-- The operand for a position and how many tokens that takes, with the double dash on either
    side of it. Of two double dashes in a row the second is an operand, but a double dash that
    stands alone is none. -/
def Position.match? (position : Position) (tokens : List Token) : Option (Option Value × Nat) :=
  let before := (tokens.takeWhile Token.isSeparator).length
  match tokens.drop before with
  | .operand text :: rest =>
    let after := (rest.takeWhile Token.isSeparator).length
    let value :=
      if text = "--" ∧ before + after = 0 then
        if position.required then some .emptyList else none
      else some (.text text)
    some (value, before + 1 + after)
  | _ => if position.required then none else some (none, before)

/-- Fills as many positions as the tokens allow, and counts the tokens taken. -/
def fillPositions (settings : Settings) (tokens : List Token) :
    List Position → Settings × List Position × Nat
  | [] => (settings, [], 0)
  | position :: positions =>
    match position.match? tokens with
    | none => (settings, position :: positions, 0)
    | some (value, count) =>
      let settings := match value with
        | some value => Members.insert settings (.name position.setting) value
        | none => settings
      let (settings, pending, more) := fillPositions settings (tokens.drop count) positions
      (settings, pending, count + more)

/-- Fills positions, and counts the tokens taken. -/
def Reading.fill (r : Reading) (tokens : List Token) : Reading × Nat :=
  let (settings, positions, count) := fillPositions r.settings tokens r.positions
  ({ r with settings, positions }, count)

/-- The reading after all tokens. -/
def Reading.tokens (r : Reading) (g : Grammar) (tokens : List Token) : Except Interrupt Reading :=
  if tokens.any Token.isOption then
    match tokens with
    | [] => .ok r
    | .unknown :: rest => r.addSurplus.tokens g rest
    | .option spec attached :: rest =>
      match r.option g spec attached rest with
      | .ok (next, count) => next.tokens g (rest.drop count)
      | .error interrupt => .error interrupt
    | first :: rest =>
      match r.fill (first :: rest) with
      | (_, 0) => r.addSurplus.tokens g (rest.dropWhile fun token => !token.isOption)
      | (next, count + 1) => next.tokens g (rest.drop count)
  else
    let (next, count) := r.fill tokens
    .ok (if count < tokens.length then next.addSurplus else next)
termination_by tokens.length
decreasing_by
  · simp
  · simp only [List.length_drop, List.length_cons]; omega
  · have := (List.dropWhile_sublist (fun token => !Token.isOption token) (l := rest)).length_le
    simp only [List.length_cons]; omega
  · simp only [List.length_drop, List.length_cons]; omega

namespace Grammar

/-- The settings of options whose argument is JSON and whose default is a text: the text is read
    if the option is not given. -/
def readDefaults (g : Grammar) (defaults settings : Settings) : Except Interrupt Settings :=
  g.options.foldlM (fun settings spec =>
    let key := Key.name spec.setting
    match spec.action, defaults.get? key, settings.get? key with
    | .json, some (.text argument), none => do
      return settings.insert key (← spec.action.read argument)
    | _, _, _ => .ok settings) settings

/-- The settings that a list of arguments makes, some of which depend on defaults. -/
def parse (g : Grammar) (defaults : Settings) (arguments : List String) :
    Except Interrupt Settings := do
  let tokens ← g.tokenize arguments
  let reading ← Reading.tokens ⟨[], g.positions, [], false⟩ g tokens
  let settings ← g.readDefaults defaults reading.settings
  if reading.surplus || reading.positions.any (·.required) then .error .usage
  else return settings

end Grammar

namespace Settings

/-- All settings of two lists, where the first has priority. -/
def onTopOf (settings defaults : Settings) : Settings :=
  settings.foldl (fun all (key, value) => Members.insert all key value) defaults

/-- A setting, null if it is not made. -/
def value (settings : Settings) (name : String) : Value :=
  (Members.get? settings (.name name)).getD .null

/-- Whether a setting counts as true. -/
def isOn (settings : Settings) (name : String) : Bool := (settings.value name).isTruthy

end Settings

end ItemDelta
