import ItemDelta.Alias.Limit
import ItemDelta.Proofs.Alias.Search
import ItemDelta.Proofs.Number.Value

/-!
# Names that were cut

A name that is too long gives up its end for the next number of a counter. The number does not keep
cut names apart: numbers have more and more digits, so the beginning of one name together with the
first digits of a later number can be what an earlier name still shows.

## Main definitions

* `cutNames` — names cut one after the other.
* `numberAt` — the number that stands at the end of a name in such a row.

## Main results

* `withSuffix_eq_iff` — when two names with numbers at their ends are equal.
* `cutTo_text` — a text is cut to a whole length as a name is.
* `cutNames_eq_iff` — when two names that were cut are equal.
-/

namespace ItemDelta

/-- Whether a name is too long to be the base of a placeholder. -/
def isLong (name : String) : Bool := maxBaseLength < name.length

/-- What calls one after the other cut names to, each to the length of a base, with the numbers of
    one counter. A call fails where its number is too long to be written. -/
def cutNames : List String → AliasContext → List (Except Error String)
  | [], _ => []
  | name :: names, context =>
    match cutName name maxBaseLength context with
    | .ok cut next => .ok cut :: cutNames names next
    | .error fault next => .error fault :: cutNames names next

/-- The number for the name at a position, if that is cut: the first one, and one more for each
    name that was cut before. -/
def numberAt (first : Nat) (names : List String) (position : Nat) : Nat :=
  first + (names.take position).countP isLong

theorem numberAt_zero (first : Nat) (names : List String) : numberAt first names 0 = first := by
  simp [numberAt]

theorem numberAt_lt (first : Nat) {i j : Nat} {names : List String} {name : String} (hlt : i < j)
    (hname : names[i]? = some name) (hlong : isLong name = true) :
    numberAt first names i < numberAt first names j := by
  have hi : i < names.length := (List.getElem?_eq_some_iff.mp hname).1
  have hprefix : names.take (i + 1) <+: names.take j := List.take_prefix_take_left (by omega)
  have hcount := hprefix.sublist.countP_le (p := isLong)
  rw [List.take_add_one, hname, Option.toList_some, List.countP_append, List.countP_singleton,
    if_pos hlong] at hcount
  rw [numberAt, numberAt]
  omega

theorem le_numberAt (first : Nat) (names : List String) (position : Nat) :
    first ≤ numberAt first names position :=
  Nat.le_add_right _ _

/-! ### One name -/

section Name

variable {name : String} {context : AliasContext} {first m n : Nat}

theorem cutName_of_long (hlong : isLong name = true)
    (hwritten : isLongInteger context.counter = false) :
    cutName name maxBaseLength context =
      .ok (withSuffix name maxBaseLength (integerText context.counter)) (context.advance 1) := by
  rw [cutName, if_neg (by simpa [isLong] using hlong),
    bind_of_ok (AliasContext.nextSuffix_of_short hwritten)]
  rfl

theorem cutName_of_long_number (hlong : isLong name = true)
    (hnumber : isLongInteger context.counter = true) :
    cutName name maxBaseLength context = .error (.tooManyDigits none) context := by
  rw [cutName, if_neg (by simpa [isLong] using hlong),
    bind_of_error (AliasContext.nextSuffix_of_long hnumber)]

theorem cutName_of_not_long (hlong : isLong name = false) :
    cutName name maxBaseLength context = .ok name context := by
  rw [cutName, if_pos (by simpa [isLong] using hlong)]
  rfl

theorem isLongInteger_mono (hle : m ≤ n) (h : isLongInteger m = true) :
    isLongInteger n = true := by
  rw [isLongInteger, Int.natAbs_natCast, decide_eq_true_eq] at h ⊢
  exact Nat.le_trans h hle

/-- A text is cut to a whole length as a name is. -/
theorem cutTo_text (name : String) (limit : Int) :
    cutTo (.text name) (.int limit) = Value.text <$> cutName name limit := by
  have hcompare : compareSize (.text name) (.int limit) =
      .ok (some (cmp ((name.length : Int) : ℚ) (limit : ℚ))) := by
    rw [← Decimal.compare?_eq_cmp (Decimal.value?_ofInt _) (Decimal.value?_ofInt _)]
    rfl
  rw [Int.cast_strictMono.cmp_map_eq] at hcompare
  have hbind : ∀ (order : Option Ordering) (next : Option Ordering → Drawing Value),
      (ofExcept (.ok order) >>= next) = next order := fun _ _ => rfl
  rw [cutTo, hcompare, hbind, cutName]
  by_cases hle : (name.length : Int) ≤ limit
  · rw [if_pos hle]
    rcases hle.lt_or_eq with hlt | heq
    · rw [(cmp_eq_lt_iff _ _).mpr hlt]
      rfl
    · rw [(cmp_eq_eq_iff _ _).mpr heq]
      rfl
  · rw [if_neg hle, (cmp_eq_gt_iff _ _).mpr (by omega), map_bind]
    exact bind_congr fun suffix => rfl

/-- Two names with numbers at their ends are equal just if the digits of the later number end in
    those of the earlier one, and the first name goes on where the other one ends with the digits
    that are left. -/
theorem withSuffix_eq_iff (name other : String) (limit : Int) (hlt : m < n) :
    withSuffix name limit (integerText m) = withSuffix other limit (integerText n) ↔
      ∃ digits, decimalDigits n = digits ++ decimalDigits m ∧
        firstCharacters name.toList (limit - (decimalDigits m).length) =
          firstCharacters other.toList (limit - (decimalDigits n).length) ++ digits := by
  have hmono := length_decimalDigits_mono (Nat.le_of_lt hlt)
  have hdigits : ∀ k : Nat, (integerText k).toList = decimalDigits k := fun k =>
    String.toList_ofList
  have hlength : ∀ k : Nat, (integerText k).length = (decimalDigits k).length := fun k =>
    length_integerText k
  rw [← String.toList_inj, toList_withSuffix, toList_withSuffix, hdigits, hdigits, hlength,
    hlength, List.append_eq_append_iff]
  constructor
  · rintro (⟨rest, -, hm⟩ | ⟨digits, hkept, hn⟩)
    · -- The earlier number does not have more digits than the later one, so they would be one.
      have hrest : rest = [] := by
        apply List.eq_nil_of_length_eq_zero
        have hcount := congrArg List.length hm
        rw [List.length_append] at hcount
        omega
      rw [hrest, List.nil_append] at hm
      exact absurd (decimalDigits_inj hm) (Nat.ne_of_lt hlt)
    · exact ⟨digits, hn, hkept⟩
  · rintro ⟨digits, hn, hkept⟩
    exact .inr ⟨digits, hkept, hn⟩

end Name

/-! ### Names in a row -/

section Row

variable {names : List String} {name other : String} {context : AliasContext} {first i j : Nat}

/-- What a name in a row is cut to: it is cut on its own, with the number at its position. -/
theorem cutNames_getElem? (hcounter : context.counter = first) (hname : names[i]? = some name)
    (hlong : isLong name = true) :
    (cutNames names context)[i]? = some (if isLongInteger (numberAt first names i)
      then .error (.tooManyDigits none)
      else .ok (withSuffix name maxBaseLength (integerText (numberAt first names i)))) := by
  -- A name that is cut moves the first number for the others on by one.
  induction names generalizing first context i with
  | nil => cases hname
  | cons head names ih =>
    rw [cutNames]
    cases i with
    | zero =>
      rw [List.getElem?_cons_zero, Option.some.injEq] at hname
      rw [hname, numberAt_zero]
      rw [← hcounter]
      cases hnumber : isLongInteger context.counter with
      | false =>
        rw [cutName_of_long hlong hnumber]
        rfl
      | true =>
        rw [cutName_of_long_number hlong hnumber]
        rfl
    | succ i =>
      rw [List.getElem?_cons_succ] at hname
      cases hhead : isLong head with
      | true =>
        have hstep : numberAt first (head :: names) (i + 1) = numberAt (first + 1) names i := by
          simp [numberAt, hhead]
          omega
        rw [hstep]
        cases hnumber : isLongInteger context.counter with
        | false =>
          have hmoved : (context.advance 1).counter = ((first + 1 : Nat) : Int) := by
            rw [AliasContext.counter_advance, hcounter]
            rfl
          rw [cutName_of_long hhead hnumber]
          exact ih hmoved hname
        | true =>
          -- No number after one that is too long can be written.
          rw [cutName_of_long_number hhead hnumber]
          rw [hcounter] at hnumber
          have hsame := isLongInteger_mono (le_numberAt first names i) hnumber
          have hlater := isLongInteger_mono (Nat.le_trans (Nat.le_succ first)
            (le_numberAt (first + 1) names i)) hnumber
          have hrest := ih hcounter hname
          rw [hsame, if_pos rfl] at hrest
          rw [hlater, if_pos rfl]
          exact hrest
      | false =>
        have hstep : numberAt first (head :: names) (i + 1) = numberAt first names i := by
          simp [numberAt, hhead]
        rw [cutName_of_not_long hhead, hstep]
        exact ih hcounter hname

/-- Two names that were cut, with any number of others before, between and behind them, are equal
    just if the digits of the later number end in those of the earlier one, and the characters kept
    of the earlier name are those kept of the later one and the digits that are left. In particular
    they differ if their numbers have equally many digits. The later name is cut, and so is the
    earlier one, unless its number is too long to be written. -/
theorem cutNames_eq_iff (hcounter : context.counter = first) (hlt : i < j)
    (hname : names[i]? = some name) (hother : names[j]? = some other)
    (hlong : isLong name = true) (hlong' : isLong other = true) :
    (isLongInteger (numberAt first names j) = true →
      (cutNames names context)[j]? = some (.error (.tooManyDigits none))) ∧
    (isLongInteger (numberAt first names j) = false → ∃ cut later,
      (cutNames names context)[i]? = some (.ok cut) ∧
      (cutNames names context)[j]? = some (.ok later) ∧
      (cut = later ↔ ∃ digits, decimalDigits (numberAt first names j) =
          digits ++ decimalDigits (numberAt first names i) ∧
        firstCharacters name.toList
            (maxBaseLength - (decimalDigits (numberAt first names i)).length) =
          firstCharacters other.toList
            (maxBaseLength - (decimalDigits (numberAt first names j)).length) ++ digits) ∧
      ((decimalDigits (numberAt first names i)).length =
        (decimalDigits (numberAt first names j)).length → cut ≠ later)) := by
  have hnumbers := numberAt_lt first hlt hname hlong
  have hiff := withSuffix_eq_iff name other maxBaseLength hnumbers
  rw [cutNames_getElem? hcounter hname hlong, cutNames_getElem? hcounter hother hlong']
  refine ⟨fun hnumber => by rw [hnumber]; rfl, fun hnumber => ?_⟩
  have hearlier : isLongInteger (numberAt first names i) = false := by
    rw [← Bool.not_eq_true] at hnumber ⊢
    exact fun h => hnumber (isLongInteger_mono (Nat.le_of_lt hnumbers) h)
  rw [hnumber, hearlier]
  refine ⟨_, _, rfl, rfl, hiff, fun hlength heq => ?_⟩
  obtain ⟨digits, hdigits, -⟩ := hiff.mp heq
  have hnil : digits = [] := by
    apply List.eq_nil_of_length_eq_zero
    have hcount := congrArg List.length hdigits
    rw [List.length_append] at hcount
    omega
  rw [hnil, List.nil_append] at hdigits
  exact Nat.ne_of_lt hnumbers (decimalDigits_inj hdigits).symm

end Row

/-- The first of eleven names that are cut ends in a digit that is taken for one of the number
    eleven. -/
theorem cutNames_of_eleven_names :
    let first := String.ofList (List.replicate 252 'a' ++ ['1', 'a', 'a'])
    let other := String.ofList (List.replicate 300 'a')
    let names := first :: List.replicate 10 other
    isLong first = true ∧ isLong other = true ∧ ∃ cut,
      (cutNames names .fresh)[0]? = some (.ok cut) ∧
      (cutNames names .fresh)[10]? = some (.ok cut) := by
  intro first other names
  have hfirst : first.toList = List.replicate 252 'a' ++ ['1', 'a', 'a'] := String.toList_ofList
  have hother : other.toList = List.replicate 300 'a' := String.toList_ofList
  have hlong : isLong first = true := by
    rw [isLong, ← String.length_toList, hfirst, List.length_append, List.length_replicate]
    rfl
  have hlong' : isLong other = true := by
    rw [isLong, ← String.length_toList, hother, List.length_replicate]
    rfl
  have hnumber : numberAt 1 names 10 = 11 := by
    simp [numberAt, names, hlong, hlong']
  have hone : (decimalDigits 1).length = 1 := rfl
  have heleven : (decimalDigits 11).length = 2 := rfl
  refine ⟨hlong, hlong', ?_⟩
  have hcounter : AliasContext.fresh.counter = ((1 : Nat) : Int) := rfl
  have hwritten : isLongInteger (numberAt 1 names 10) = false := by
    rw [hnumber]
    exact isLongInteger_of_lt (by decide) (by decide : 2 ≤ integerDigitLimit) (by decide)
  obtain ⟨cut, later, hcut, hlater, hiff, -⟩ :=
    (cutNames_eq_iff hcounter (by decide : 0 < 10) rfl rfl hlong hlong').2 hwritten
  rw [hnumber, numberAt_zero, hfirst, hother, hone, heleven] at hiff
  have heq : cut = later := by
    refine hiff.mpr ⟨['1'], by decide, ?_⟩
    simp [firstCharacters, maxBaseLength, List.take_append, -List.reduceReplicate]
  exact ⟨cut, hcut, heq ▸ hlater⟩

end ItemDelta
