import ItemDelta.Proofs.Lock.Automatic
import ItemDelta.Proofs.Number.Sum

/-!
# Locks that advance a version

A lock with an automatic version is to write a greater version than the one that it compares with.
It does so for every integer, and for decimals of less than 28 digits. Sums of decimals are rounded,
though, so a long decimal may be followed by itself, and then nothing is written at all, or by a
smaller number.

## Main results

* `differs_decimal_iff` — decimals differ just if their values do.
* `lockExpression_advances` — what a lock writes, and when this is a greater version.
-/

namespace ItemDelta

section Advance

variable {base lead : Value} {path name operator : String} {orphans : Bool} {d r : Decimal}
  {x y : ℚ}

theorem differs_decimal_iff (hd : d.value? = some x) (hr : r.value? = some y) :
    (Value.decimal d).differs (.decimal r) = true ↔ x ≠ y := by
  have hagrees : (Value.decimal d).agrees (.decimal r) = true ↔ x = y := by
    rw [Value.agrees_eq_agreesNumerically rfl, Value.agreesNumerically, Value.toDecimal?,
      Value.toDecimal?, beq_iff_eq, Decimal.compare?_eq_iff hd hr]
  simp [Value.differs, Value.isNumber, ← hagrees]

theorem isNonNan_of_value? (hd : d.value? = some x) : (Value.decimal d).isNonNan = true := by
  cases d with
  | nan negative signaling payload => cases hd
  | infinite negative => rfl
  | finite negative coefficient exponent => rfl

/-- A lock on a decimal assigns the next one if that stands for another number, and else
    nothing. -/
theorem exists_lockExpression_of_next (hpath : IsVersionPath path name [])
    (hoperator : operator ∈ comparisonOperators) (hlead : checkLead lead = .ok ())
    (hget : base.get? [.name name] = some (.decimal d)) (hd : d.value? = some x)
    (hnext : d.next = .ok r) (hr : r.value? = some y) : ∃ expression context,
      lockExpression base path none (.text operator) orphans ⟨lead, 1, []⟩ =
        .ok expression context ∧
      expression.meaning = some
        ⟨if y = x then [] else [.set [([.name name], .decimal r)]],
          some (.compares [.name name] operator (.decimal d))⟩ := by
  have hversion : nextVersion (some (.decimal d)) = .ok (.decimal r) := by
    rw [nextVersion, hnext]
  obtain ⟨expression, context, hrun, hmeaning⟩ := exists_lockExpression_of_number orphans hpath
    hoperator hlead (by simp) hget rfl (isNonNan_of_value? hd) hversion (isNonNan_of_value? hr)
  refine ⟨expression, context, hrun, ?_⟩
  rw [hmeaning]
  by_cases heq : y = x
  · rw [if_pos heq, if_neg fun hdiffers => (differs_decimal_iff hd hr).mp hdiffers heq.symm]
  · rw [if_neg heq, if_pos ((differs_decimal_iff hd hr).mpr (Ne.symm heq))]

/-- In a new context, under any prefix that names can be noted under, a lock with an automatic
    version at a member name assigns the next integer to an integer. To a finite decimal it assigns
    the sum with one, rounded to 28 digits with a half going to the even neighbour, unless that is
    the number itself, when it assigns nothing; a sum of more than a million digits is refused. The
    rounded sum is greater than every number of at most 28 digits before the point. Of the longer
    ones, as far as they are not rounded themselves, only the first negative one is followed by a
    greater number. -/
theorem lockExpression_advances (orphans : Bool) (hpath : IsVersionPath path name [])
    (hoperator : operator ∈ comparisonOperators) (hlead : checkLead lead = .ok ()) :
    (∀ n, base.get? [.name name] = some (.int n) → ∃ expression context,
      lockExpression base path none (.text operator) orphans ⟨lead, 1, []⟩ =
        .ok expression context ∧
      expression.meaning = some ⟨[.set [([.name name], .int (n + 1))]],
        some (.compares [.name name] operator (.int n))⟩) ∧
    ∀ d x, base.get? [.name name] = some (.decimal d) → d.value? = some x →
      (10 ^ (Decimal.sumMaxExponent + 1) ≤ |rounded (x + 1)| →
        lockExpression base path none (.text operator) orphans ⟨lead, 1, []⟩ =
          .error (.decimal .overflow) ⟨lead, 1, []⟩) ∧
      (|rounded (x + 1)| < 10 ^ (Decimal.sumMaxExponent + 1) → ∃ r expression context,
        r.value? = some (rounded (x + 1)) ∧
        lockExpression base path none (.text operator) orphans ⟨lead, 1, []⟩ =
          .ok expression context ∧
        expression.meaning = some
          ⟨if rounded (x + 1) = x then [] else [.set [([.name name], .decimal r)]],
            some (.compares [.name name] operator (.decimal d))⟩) ∧
      (|x| < 10 ^ Decimal.precision → x < rounded (x + 1)) ∧
      (rounded x = x → (x < rounded (x + 1) ↔
        -10 ^ Decimal.precision ≤ x ∧ x < 10 ^ Decimal.precision)) := by
  refine ⟨fun n hget => exists_lockExpression_of_int hpath hoperator hlead (by simp) hget, ?_⟩
  intro d x hget hd
  obtain ⟨hlarge, hsmall⟩ := Decimal.next_of_value hd
  refine ⟨fun hoverflow => ?_, fun hfits => ?_, lt_rounded_add_one, lt_rounded_add_one_iff⟩
  · apply lockExpression_eq_error
    rw [versionStep_automatic hpath.keys (List.cons_ne_nil _ _), hget, nextVersion,
      hlarge hoverflow]
    rfl
  · obtain ⟨r, hnext, hr⟩ := hsmall hfits
    obtain ⟨expression, context, hlock⟩ :=
      exists_lockExpression_of_next hpath hoperator hlead hget hd hnext hr
    exact ⟨r, expression, context, hr, hlock⟩

end Advance

/-- The first number of 29 digits is not counted on, and a number of 30 digits is counted down. -/
theorem lockExpression_of_long_version :
    (∃ expression context,
      lockExpression (.ofNamed [("version", .decimal (.finite false (10 ^ 28) 0))]) "version" none
        (.text "=") false ⟨.null, 1, []⟩ = .ok expression context ∧
      expression.meaning = some ⟨[],
        some (.compares [.name "version"] "=" (.decimal (.finite false (10 ^ 28) 0)))⟩) ∧
    ∃ r expression context, r.value? = some (10 ^ 29) ∧
      lockExpression (.ofNamed [("version", .decimal (.finite false (10 ^ 29 + 4) 0))]) "version"
        none (.text "=") false ⟨.null, 1, []⟩ = .ok expression context ∧
      expression.meaning = some ⟨[.set [([.name "version"], .decimal r)]],
        some (.compares [.name "version"] "=" (.decimal (.finite false (10 ^ 29 + 4) 0)))⟩ := by
  have hpath : IsVersionPath "version" "version" [] :=
    isVersionPath_of_text (by decide) (by decide) (by decide)
  have hoperator : "=" ∈ comparisonOperators := by decide
  have hlead : checkLead .null = .ok () := rfl
  have hget : ∀ v, (Value.ofNamed [("version", v)]).get? [.name "version"] = some v := fun _ => rfl
  have hlarge : ∀ n : Nat, n ≤ 29 → |(10 : ℚ) ^ n| < 10 ^ (Decimal.sumMaxExponent + 1) := by
    intro n hn
    have hmax : (29 : Int) < Decimal.sumMaxExponent + 1 := by decide
    rw [abs_of_pos (by positivity), ← zpow_natCast]
    exact zpow_lt_zpow_right₀ (by norm_num) (by omega)
  constructor
  · have hquantum : quantum (10 ^ 28 + 1) = 1 := by
      apply quantum_eq_of_between <;> norm_num [Decimal.precision]
    have hmultiple : (10 : ℚ) ^ 28 = (10 ^ 27 : Int) * 10 ^ (1 : Int) := by norm_num
    have hrounded : rounded (10 ^ 28 + 1) = 10 ^ 28 := by
      rw [rounded_eq_of_abs_lt (n := 10 ^ 27) hquantum (by norm_num), hmultiple]
    have hvalue : (Decimal.finite false (10 ^ 28) 0).value? = some (10 ^ 28) := by
      norm_num [Decimal.value?, Decimal.signed]
    obtain ⟨r, expression, context, -, hlock⟩ :=
      ((lockExpression_advances false hpath hoperator hlead).2 _ _ (hget _) hvalue).2.1
        (hrounded.symm ▸ hlarge 28 (by decide))
    rw [if_pos hrounded] at hlock
    exact ⟨expression, context, hlock⟩
  · have hquantum : quantum (10 ^ 29 + 4 + 1) = 2 := by
      apply quantum_eq_of_between <;> norm_num [Decimal.precision]
    have hmultiple : (10 : ℚ) ^ 29 = (10 ^ 27 : Int) * 10 ^ (2 : Int) := by norm_num
    have hrounded : rounded (10 ^ 29 + 4 + 1) = 10 ^ 29 := by
      rw [rounded_eq_of_abs_lt (n := 10 ^ 27) hquantum (by norm_num), hmultiple]
    have hvalue : (Decimal.finite false (10 ^ 29 + 4) 0).value? = some (10 ^ 29 + 4) := by
      norm_num [Decimal.value?, Decimal.signed]
    obtain ⟨r, expression, context, hr, hlock⟩ :=
      ((lockExpression_advances false hpath hoperator hlead).2 _ _ (hget _) hvalue).2.1
        (hrounded.symm ▸ hlarge 29 (by decide))
    rw [hrounded] at hr
    rw [hrounded, if_neg (by norm_num)] at hlock
    exact ⟨r, expression, context, hr, hlock⟩

end ItemDelta
