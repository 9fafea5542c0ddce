import ItemDelta.Value.Element

/-!
# Limits on names

The store takes names, and placeholders, of up to 255 characters. A limit that is asked for can be
a number of any kind, and it can be put on anything that has a size.

## Main definitions

* `maxNameLength`, `checkLength` — the limit of the store.
* `compareSize`, `checkSize` — a size against a limit of any kind.
-/

namespace ItemDelta

/-- The longest name, and the longest placeholder, that the store takes. -/
def maxNameLength : Nat := 255

/-- Refuses names that are too long for the store. -/
def checkLength (name : String) : Except Error Unit :=
  if maxNameLength < name.length then
    .error (.nameTooLong name (integerText maxNameLength))
  else .ok ()

/-- How the size of a value compares with a limit. It does not compare at all with a binary NaN,
    and a decimal NaN cannot be a limit. -/
def compareSize (v limit : Value) : Except Error (Option Ordering) :=
  match v.size?, limit.toDecimal? with
  | some size, some number =>
    if limit.isDecimalNan then .error (.decimal .invalid)
    else .ok ((Decimal.ofInt size).compare? number)
  | _, _ => .error .wrongKind

/-- Refuses values whose size is above a limit. -/
def checkSize (v limit : Value) : Except Error Unit := do
  if (← compareSize v limit) = some .gt then
    if v.hasLongInteger || limit.hasLongInteger then .error (.tooManyDigits none)
    else .error (.nameTooLong v.toText limit.toText)
  else .ok ()

end ItemDelta
