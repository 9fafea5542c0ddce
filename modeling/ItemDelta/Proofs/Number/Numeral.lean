import ItemDelta.Number.Numeral

/-!
# Numerals, read back

An integer is written as its numeral, and scanning takes this numeral off the front of a text that
does not go on with it.

## Main definitions

* `Numeral.ofInt` — the numeral of an integer.
* `EndsNumeral` — what stands behind a numeral does not belong to it.

## Main results

* `exists_decimalDigits_eq_cons` — a written number has no superfluous zeros.
* `Numeral.scan?_integerDigits` — the numeral of an integer is read back.
-/

namespace ItemDelta

variable {n : Nat} {rest : List Char}

theorem decimalDigits_of_lt (h : n < 10) : decimalDigits n = [n.digitChar] :=
  Nat.toDigits_of_lt_base h

/-- The last digit of a number stands behind those of its tenth part. -/
theorem decimalDigits_of_le (h : 10 ≤ n) :
    decimalDigits n = decimalDigits (n / 10) ++ [(n % 10).digitChar] :=
  Nat.toDigits_of_base_le (by decide) h

theorem length_decimalDigits_le_iff {limit : Nat} (h : 0 < limit) :
    (decimalDigits n).length ≤ limit ↔ n < Nat.pow 10 limit :=
  Nat.length_toDigits_le_iff (by decide) h

/-- A written number starts with a digit, which is a zero only if it is the only one. -/
theorem exists_decimalDigits_eq_cons (n : Nat) : ∃ c digits, decimalDigits n = c :: digits ∧
    c.isDigit = true ∧ (c = '0' → digits = []) := by
  induction n using Nat.strongRecOn with
  | ind n ih =>
    by_cases hn : n < 10
    · have hdigit : n.digitChar ∈ decimalDigits n := by simp [decimalDigits_of_lt hn]
      exact ⟨_, _, decimalDigits_of_lt hn, isDigit_of_mem_decimalDigits hdigit, fun _ => rfl⟩
    · have hle : 10 ≤ n := Nat.le_of_not_lt hn
      obtain ⟨c, digits, hcons, hdigit, hzero⟩ := ih (n / 10) (by omega)
      refine ⟨c, digits ++ [(n % 10).digitChar], ?_, hdigit, ?_⟩
      · rw [decimalDigits_of_le hle, hcons, List.cons_append]
      · intro hc
        -- the tenth part would be zero
        have hvalue := digitsValue_decimalDigits (n / 10)
        rw [hcons, hzero hc, hc] at hvalue
        have hpos : 0 < n / 10 := Nat.div_pos hle (by decide)
        rw [← hvalue] at hpos
        exact absurd hpos (by decide)

/-- What stands behind a numeral is no digit, no point and no exponent mark. -/
def EndsNumeral (rest : List Char) : Prop :=
  ∀ c ∈ rest.head?, c.isDigit = false ∧ c ≠ '.' ∧ c ≠ 'e' ∧ c ≠ 'E'

theorem endsNumeral_cons {c : Char}
    (h : c.isDigit = false ∧ c ≠ '.' ∧ c ≠ 'e' ∧ c ≠ 'E') (rest : List Char) :
    EndsNumeral (c :: rest) := by
  intro d hd
  rw [List.head?_cons, Option.mem_some_iff] at hd
  exact hd ▸ h

namespace Numeral

/-- The numeral of an integer: its sign and its digits. -/
def ofInt (n : Int) : Numeral := ⟨n < 0, decimalDigits n.natAbs, none, none⟩

@[simp] theorem toInt_ofInt (n : Int) : (ofInt n).toInt = n := by
  simp only [ofInt, toInt, digitsValue_decimalDigits, decide_eq_true_eq]
  split <;> omega

theorem spanDigits_append {digits : List Char} (hdigits : ∀ c ∈ digits, c.isDigit = true)
    (hrest : EndsNumeral rest) : spanDigits (digits ++ rest) = (digits, rest) := by
  rw [spanDigits, List.takeWhile_append_of_pos hdigits, List.dropWhile_append_of_pos hdigits]
  cases rest with
  | nil => simp
  | cons c rest => simp [(hrest c (by simp)).1]

theorem scanWhole?_decimalDigits (n : Nat) (hrest : EndsNumeral rest) :
    scanWhole? (decimalDigits n ++ rest) = some (decimalDigits n, rest) := by
  obtain ⟨c, digits, hcons, hdigit, hzero⟩ := exists_decimalDigits_eq_cons n
  have hspan := spanDigits_append (fun c => isDigit_of_mem_decimalDigits (n := n)) hrest
  rw [hcons, List.cons_append] at hspan ⊢
  by_cases hc : c = '0'
  · rw [hc, hzero hc]
    rfl
  · rw [scanWhole?, if_pos hdigit, hspan]
    exact hc

/-- Neither a fraction nor an exponent follows. -/
theorem scanFraction_of_endsNumeral (hrest : EndsNumeral rest) :
    scanFraction rest = (none, rest) := by
  cases rest with
  | nil => rfl
  | cons c rest =>
    rw [scanFraction]
    intro _ h
    rw [List.cons.injEq] at h
    exact (hrest c (by simp)).2.1 h.1

theorem scanExponent_of_endsNumeral (hrest : EndsNumeral rest) :
    scanExponent rest = (none, rest) := by
  cases rest with
  | nil => rfl
  | cons c rest =>
    rw [scanExponent]
    exact if_neg (not_or.mpr (hrest c (by simp)).2.2)

theorem scanUnsigned?_decimalDigits (negative : Bool) (n : Nat) (hrest : EndsNumeral rest) :
    scanUnsigned? negative (decimalDigits n ++ rest) =
      some (⟨negative, decimalDigits n, none, none⟩, rest) := by
  simp only [scanUnsigned?, scanWhole?_decimalDigits n hrest, scanFraction_of_endsNumeral hrest,
    scanExponent_of_endsNumeral hrest]

/-- The numeral of an integer is read back. -/
theorem scan?_integerDigits (n : Int) (hrest : EndsNumeral rest) :
    scan? (integerDigits n ++ rest) = some (ofInt n, rest) := by
  cases n with
  | ofNat n =>
    obtain ⟨c, digits, hcons, hdigit, -⟩ := exists_decimalDigits_eq_cons n
    have hscan := scanUnsigned?_decimalDigits false n hrest
    rw [integerDigits, scan?, hscan]
    · rfl
    · intro tail htail
      rw [hcons, List.cons_append, List.cons.injEq] at htail
      rw [htail.1] at hdigit
      cases hdigit
  | negSucc n =>
    rw [integerDigits, List.cons_append, scan?, scanUnsigned?_decimalDigits true (n + 1) hrest,
      ofInt, decide_eq_true (Int.negSucc_lt_zero n)]
    rfl

end Numeral

end ItemDelta
