import ItemDelta.Value.Basic

/-!
# Agreement of values

Two values agree when they carry the same data, whatever represents it: numbers of all kinds and
truth values by their numeric value, maps whatever the order of their members, sets by their
elements. A NaN agrees with nothing, itself included.

## Main definitions

* `Value.toDecimal?` — the exact numeric value of a number or a truth value.
* `Value.agrees` — the comparison.
* `Value.coincides` — the same between a document and what was made from its own parts.
* `Value.signals` — whether the comparison runs into a signaling NaN.

## Design notes

The comparison itself always has a result. Whoever has to refuse signaling NaNs asks `signals`
first, which follows the comparison up to the first difference.
-/

namespace ItemDelta

namespace Value

/-- The exact numeric value of a number or a truth value. -/
def toDecimal? : Value → Option Decimal
  | .bool b => some (.ofInt b.toNat)
  | .int n => some (.ofInt n)
  | .float x => some x.toDecimal
  | .decimal d => some d
  | _ => none

/-- The integer that an integer or a truth value stands for. -/
def toInteger? : Value → Option Int
  | .int n => some n
  | .bool b => some b.toNat
  | _ => none

/-- Whether two values have equal numeric values. -/
def agreesNumerically (v w : Value) : Bool :=
  match v.toDecimal?, w.toDecimal? with
  | some x, some y => x.compare? y == some .eq
  | _, _ => false

mutual

/-- Whether two values carry the same data. -/
def agrees : Value → Value → Bool
  | .null, .null => true
  | .text s, .text t => s == t
  | .list vs, .list ws => agreesList vs ws
  | .map vs, .map ws => vs.length == ws.length && agreesMembers vs ws
  | .set vs, .set ws => vs.length == ws.length && agreesElements vs ws
  | v, w => agreesNumerically v w

/-- Lists agree position by position. -/
def agreesList : List Value → List Value → Bool
  | [], [] => true
  | v :: vs, w :: ws => agrees v w && agreesList vs ws
  | _, _ => false

/-- Every member has a counterpart under the same key. -/
def agreesMembers : List (Key × Value) → Members → Bool
  | [], _ => true
  | (key, v) :: vs, ws =>
    (match ws.get? key with
      | some w => agrees v w
      | none => false) && agreesMembers vs ws

/-- Every element has a counterpart. -/
def agreesElements : List Value → List Value → Bool
  | [], _ => true
  | v :: vs, ws => ws.any (agrees v) && agreesElements vs ws

end

mutual

/-- A value with a text in the place of every NaN. Texts agree with themselves. -/
def withoutNan : Value → Value
  | .float .nan => .text "NaN"
  | .decimal (.nan ..) => .text "NaN"
  | .list items => .list (itemsWithoutNan items)
  | .map members => .map (membersWithoutNan members)
  | .set elements => .set (itemsWithoutNan elements)
  | v => v

/-- Several values with a text in the place of every NaN. -/
def itemsWithoutNan : List Value → List Value
  | [] => []
  | v :: vs => withoutNan v :: itemsWithoutNan vs

/-- Several members with a text in the place of every NaN among their values. -/
def membersWithoutNan : List (Key × Value) → List (Key × Value)
  | [] => []
  | (key, v) :: members => (key, withoutNan v) :: membersWithoutNan members

end

/-- Whether two documents, of which one was made from parts of the other, carry the same data. A
    NaN in both is one that was taken over. -/
def coincides (v w : Value) : Bool := v.withoutNan.agrees w.withoutNan

/-- Whether comparing two numbers runs into a signaling NaN. -/
def signalsNumerically (v w : Value) : Bool :=
  match v.toDecimal?, w.toDecimal? with
  | some x, some y => x.isSignaling || y.isSignaling
  | _, _ => false

mutual

/-- Whether comparing two values runs into a signaling NaN before it is decided. No set holds
    one. -/
def signals : Value → Value → Bool
  | .list vs, .list ws => vs.length == ws.length && signalsList vs ws
  | .map vs, .map ws => vs.length == ws.length && signalsMembers vs ws
  | v, w => signalsNumerically v w

/-- Lists are compared position by position, up to the first difference. -/
def signalsList : List Value → List Value → Bool
  | v :: vs, w :: ws => signals v w || (agrees v w && signalsList vs ws)
  | _, _ => false

/-- Members are compared with their counterparts, up to the first difference. -/
def signalsMembers : List (Key × Value) → Members → Bool
  | [], _ => false
  | (key, v) :: vs, ws =>
    match ws.get? key with
    | some w => signals v w || (agrees v w && signalsMembers vs ws)
    | none => false

end

end Value

end ItemDelta
