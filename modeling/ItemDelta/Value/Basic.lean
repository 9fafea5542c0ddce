import ItemDelta.Number.Binary64

/-!
# Documents

A document is a value: a scalar, a list, a map from keys to values, or a set. Maps keep their
members in the order in which they were put there. The keys of a map are names; a write below a
list position can put a position into a map as well, so both kinds of path step are keys.

## Main definitions

* `Key` — one step down a document, by member name or by list position.
* `Value` — documents and their parts.
* `Members.get?`, `Members.insert`, `Members.erase` — looking up and changing one member.
* `Value.isNumber`, `Value.isContainer`, `Value.kind` — what kind of value it is.

## Design notes

The functions on whole documents are families of structural recursions over a value, a list of
values and a list of members, so that they compute in proofs as well as in the program.
-/

namespace ItemDelta

/-- One step down a document. -/
inductive Key where
  /-- A member of a map. -/
  | name (text : String)
  /-- An element of a list, counted from zero. -/
  | index (position : Nat)
deriving DecidableEq, Inhabited

/-- Positions come before names; positions are ordered by size and names by code points. -/
def Key.lt : Key → Key → Bool
  | .index i, .index j => i < j
  | .index _, .name _ => true
  | .name _, .index _ => false
  | .name s, .name t => s < t

/-- A document, or a part of one. -/
inductive Value where
  | null
  | bool (b : Bool)
  | int (n : Int)
  | float (x : Binary64)
  | decimal (d : Decimal)
  | text (s : String)
  | list (items : List Value)
  | map (members : List (Key × Value))
  | set (elements : List Value)
deriving Inhabited

/-- The members of a map, in insertion order and with one value for each key. -/
abbrev Members := List (Key × Value)

namespace Members

/-- The value of a member. -/
def get? : Members → Key → Option Value
  | [], _ => none
  | (k, v) :: rest, key => if k = key then some v else get? rest key

/-- Whether a map has a member. -/
def contains (members : Members) (key : Key) : Bool := (members.get? key).isSome

/-- A member that is there already keeps its place, a new one comes last. -/
def insert : Members → Key → Value → Members
  | [], key, value => [(key, value)]
  | (k, v) :: rest, key, value =>
    if k = key then (key, value) :: rest else (k, v) :: insert rest key value

/-- The other members, in their order. -/
def erase : Members → Key → Members
  | [], _ => []
  | (k, v) :: rest, key => if k = key then rest else (k, v) :: erase rest key

@[simp] theorem get?_nil (key : Key) : get? [] key = none := rfl

@[simp] theorem get?_insert_self (members : Members) (key : Key) (value : Value) :
    (members.insert key value).get? key = some value := by
  induction members with
  | nil => simp [insert, get?]
  | cons member rest ih =>
    obtain ⟨k, v⟩ := member
    by_cases h : k = key <;> simp [insert, get?, h, ih]

theorem get?_insert_of_ne {members : Members} {key other : Key} {value : Value}
    (h : other ≠ key) : (members.insert key value).get? other = members.get? other := by
  induction members with
  | nil => simp [insert, get?, Ne.symm h]
  | cons member rest ih =>
    obtain ⟨k, v⟩ := member
    by_cases hk : k = key
    · subst hk
      simp [insert, get?, Ne.symm h]
    · simp [insert, get?, hk, ih]

end Members

namespace Value

/-- The empty list. -/
def emptyList : Value := .list []

/-- The empty map. -/
def emptyMap : Value := .map []

/-- A map with names as keys. -/
def ofNamed (members : List (String × Value)) : Value :=
  .map (members.map fun (name, value) => (.name name, value))

/-- Numbers are integers, binary and decimal floating-point numbers; truth values are not. -/
def isNumber : Value → Bool
  | .int _ | .float _ | .decimal _ => true
  | _ => false

/-- Lists and maps contain values that paths lead to; sets do not. -/
def isContainer : Value → Bool
  | .list _ | .map _ => true
  | _ => false

/-- Lists and maps that hold something. -/
def isInternal : Value → Bool
  | .list items => !items.isEmpty
  | .map members => !members.isEmpty
  | _ => false

/-- The text of length zero. -/
def isEmptyText : Value → Bool
  | .text s => s.isEmpty
  | _ => false

/-- Whether a value counts as true in a condition: all do but null, false, the zeros and what is
    empty. -/
def isTruthy : Value → Bool
  | .null => false
  | .bool b => b
  | .int n => n != 0
  | .float (.finite _ mantissa _) => mantissa != 0
  | .float _ => true
  | .decimal (.finite _ coefficient _) => coefficient != 0
  | .decimal _ => true
  | .text s => !s.isEmpty
  | .list items => !items.isEmpty
  | .map members => !members.isEmpty
  | .set elements => !elements.isEmpty

/-- The kinds of values. -/
inductive Kind where
  | null | bool | int | float | decimal | text | list | map | set
deriving DecidableEq

/-- The kind of a value. -/
def kind : Value → Kind
  | .null => .null
  | .bool _ => .bool
  | .int _ => .int
  | .float _ => .float
  | .decimal _ => .decimal
  | .text _ => .text
  | .list _ => .list
  | .map _ => .map
  | .set _ => .set

/-- The name of a kind in reports and messages. -/
def Kind.name : Kind → String
  | .null => "NoneType"
  | .bool => "bool"
  | .int => "int"
  | .float => "float"
  | .decimal => "Decimal"
  | .text => "str"
  | .list => "list"
  | .map => "dict"
  | .set => "set"

end Value

mutual

/-- Equality of representations is decidable. -/
def Value.decEq : (v w : Value) → Decidable (v = w)
  | .null, .null => isTrue rfl
  | .bool a, .bool b => decidable_of_iff (a = b) (by simp)
  | .int a, .int b => decidable_of_iff (a = b) (by simp)
  | .float a, .float b => decidable_of_iff (a = b) (by simp)
  | .decimal a, .decimal b => decidable_of_iff (a = b) (by simp)
  | .text a, .text b => decidable_of_iff (a = b) (by simp)
  | .list a, .list b =>
    match Value.decEqList a b with
    | isTrue h => isTrue (h ▸ rfl)
    | isFalse h => isFalse fun e => h (Value.list.inj e)
  | .map a, .map b =>
    match Value.decEqMembers a b with
    | isTrue h => isTrue (h ▸ rfl)
    | isFalse h => isFalse fun e => h (Value.map.inj e)
  | .set a, .set b =>
    match Value.decEqList a b with
    | isTrue h => isTrue (h ▸ rfl)
    | isFalse h => isFalse fun e => h (Value.set.inj e)
  | .null, .bool _ | .null, .int _ | .null, .float _ | .null, .decimal _ | .null, .text _
  | .null, .list _ | .null, .map _ | .null, .set _
  | .bool _, .null | .bool _, .int _ | .bool _, .float _ | .bool _, .decimal _ | .bool _, .text _
  | .bool _, .list _ | .bool _, .map _ | .bool _, .set _
  | .int _, .null | .int _, .bool _ | .int _, .float _ | .int _, .decimal _ | .int _, .text _
  | .int _, .list _ | .int _, .map _ | .int _, .set _
  | .float _, .null | .float _, .bool _ | .float _, .int _ | .float _, .decimal _
  | .float _, .text _ | .float _, .list _ | .float _, .map _ | .float _, .set _
  | .decimal _, .null | .decimal _, .bool _ | .decimal _, .int _ | .decimal _, .float _
  | .decimal _, .text _ | .decimal _, .list _ | .decimal _, .map _ | .decimal _, .set _
  | .text _, .null | .text _, .bool _ | .text _, .int _ | .text _, .float _ | .text _, .decimal _
  | .text _, .list _ | .text _, .map _ | .text _, .set _
  | .list _, .null | .list _, .bool _ | .list _, .int _ | .list _, .float _ | .list _, .decimal _
  | .list _, .text _ | .list _, .map _ | .list _, .set _
  | .map _, .null | .map _, .bool _ | .map _, .int _ | .map _, .float _ | .map _, .decimal _
  | .map _, .text _ | .map _, .list _ | .map _, .set _
  | .set _, .null | .set _, .bool _ | .set _, .int _ | .set _, .float _ | .set _, .decimal _
  | .set _, .text _ | .set _, .list _ | .set _, .map _ => isFalse (by simp)

/-- Equality of lists of values is decidable. -/
def Value.decEqList : (vs ws : List Value) → Decidable (vs = ws)
  | [], [] => isTrue rfl
  | [], _ :: _ => isFalse (by simp)
  | _ :: _, [] => isFalse (by simp)
  | v :: vs, w :: ws =>
    match Value.decEq v w, Value.decEqList vs ws with
    | isTrue h, isTrue hs => isTrue (h ▸ hs ▸ rfl)
    | isFalse h, _ => isFalse fun e => h (List.cons.inj e).1
    | _, isFalse hs => isFalse fun e => hs (List.cons.inj e).2

/-- Equality of lists of members is decidable. -/
def Value.decEqMembers : (vs ws : List (Key × Value)) → Decidable (vs = ws)
  | [], [] => isTrue rfl
  | [], _ :: _ => isFalse (by simp)
  | _ :: _, [] => isFalse (by simp)
  | (k, v) :: vs, (l, w) :: ws =>
    match instDecidableEqKey k l, Value.decEq v w, Value.decEqMembers vs ws with
    | isTrue hk, isTrue h, isTrue hs => isTrue (hk ▸ h ▸ hs ▸ rfl)
    | isFalse hk, _, _ => isFalse fun e => hk (Prod.mk.inj (List.cons.inj e).1).1
    | _, isFalse h, _ => isFalse fun e => h (Prod.mk.inj (List.cons.inj e).1).2
    | _, _, isFalse hs => isFalse fun e => hs (List.cons.inj e).2

end

instance : DecidableEq Value := Value.decEq

end ItemDelta
