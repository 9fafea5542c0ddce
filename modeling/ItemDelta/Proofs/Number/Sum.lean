import ItemDelta.Proofs.Number.Rounding

/-!
# Sums of decimals

A decimal plus one is the rounded sum of the numbers, unless its exponent is too large. So a number
of more than `precision` digits may be followed by itself, or even by a smaller number.

## Main results

* `Decimal.value_roundToPrecision` — digits are rounded as numbers are.
* `Decimal.rounded_alignedSum` — what is left out of a sum cannot be seen once it is rounded.
* `Decimal.next_of_value` — a decimal plus one.
* `lt_rounded_add_one`, `lt_rounded_add_one_iff` — when a number is followed by a greater one.
-/

namespace ItemDelta

namespace Decimal

/-! ### Digits that are rounded -/

section Digits

variable {c : Nat} {e : Int}

theorem quantum_scaled (hc : c ≠ 0) (e : Int) :
    quantum (c * 10 ^ e) = max (magnitude c e - precision) sumMinExponent := by
  rw [quantum, abs_of_pos (scaled_pos hc e), magnitude_eq hc]

theorem roundToPrecision_zero (e : Int) : (roundToPrecision 0 e).1 = 0 := by
  have hzero : ∀ denominator, roundHalfEven 0 denominator = 0 := by
    simp [roundHalfEven]
  have hcarry : ¬0 = Nat.pow 10 precision := by decide
  rw [roundToPrecision, hzero]
  dsimp only
  rw [if_neg hcarry]
  split <;> rfl

theorem quotient_scaled (c : Nat) (e : Int) (excess : Nat) :
    (roundHalfEven c (Nat.pow 10 excess) : ℚ) =
      halfEven ((c : ℚ) * 10 ^ e / 10 ^ (e + excess)) := by
  have hpow : ((Nat.pow 10 excess : Nat) : ℚ) = 10 ^ excess := by
    show ((10 ^ excess : Nat) : ℚ) = 10 ^ excess
    push_cast
    rfl
  have hround : ((roundHalfEven c (Nat.pow 10 excess) : Int) : ℚ) =
      halfEven ((c : ℚ) / (Nat.pow 10 excess : Nat)) :=
    congrArg Int.cast (roundHalfEven_eq c (Nat.pow_pos (by decide)))
  rw [hpow, Int.cast_natCast] at hround
  rw [hround, ten_zpow_add, zpow_natCast, mul_comm (c : ℚ),
    mul_div_mul_left _ _ (ten_zpow_pos e).ne']

/-- The digits of a number are rounded as the number is. -/
theorem value_roundToPrecision (c : Nat) (e : Int) :
    ((roundToPrecision c e).1 : ℚ) * 10 ^ (roundToPrecision c e).2 = rounded (c * 10 ^ e) := by
  by_cases hc : c = 0
  · rw [hc, roundToPrecision_zero, Nat.cast_zero, zero_mul, zero_mul, rounded_zero]
  have hquantum := quantum_scaled hc e
  rw [magnitude] at hquantum
  rw [roundToPrecision]
  generalize hexcess : max (digitCount c - precision) (sumMinExponent - e).toNat = excess
  dsimp only
  by_cases hzero : excess = 0
  · have hle : quantum (c * 10 ^ e) ≤ e := by omega
    rw [if_pos hzero]
    exact (rounded_eq_self (n := c) hle rfl).symm
  · have hkept : quantum (c * 10 ^ e) = e + excess := by omega
    have hround : (roundHalfEven c (Nat.pow 10 excess) : ℚ) * 10 ^ (e + excess) =
        rounded (c * 10 ^ e) := by
      rw [rounded, hkept, quotient_scaled c e excess]
    rw [if_neg hzero, ← hround]
    split_ifs with hcarry
    · -- The carry of a number that consists of nines.
      have hpow : ((Nat.pow 10 precision : Nat) : ℚ) = (Nat.pow 10 (precision - 1) : Nat) * 10 := by
        norm_num [precision]
      rw [hcarry, hpow, ten_zpow_add, zpow_one]
      ring
    · rfl

end Digits

/-! ### Sums -/

section Sums

variable {upper lower : Int} {upperExponent lowerExponent : Int}

theorem scaledInt_eq (n : Int) (h : lowerExponent ≤ upperExponent) :
    ((n * Nat.pow 10 (upperExponent - lowerExponent).toNat : Int) : ℚ) * 10 ^ lowerExponent =
      n * 10 ^ upperExponent := by
  rw [Int.cast_mul, Int.cast_natCast, mul_assoc, natPow_mul_ten_zpow h]

/-- A number is below the power of ten of its magnitude. -/
theorem abs_scaled_lt {n e k : Int} (hn : n ≠ 0) (h : magnitude n.natAbs e ≤ k) :
    |(n : ℚ) * 10 ^ e| < 10 ^ k := by
  have hne : n.natAbs ≠ 0 := Int.natAbs_ne_zero.mpr hn
  have habs : |(n : ℚ) * 10 ^ e| = n.natAbs * 10 ^ e := by
    rw [abs_mul, abs_of_pos (ten_zpow_pos e), Nat.cast_natAbs, Int.cast_abs]
  rw [magnitude_eq hne] at h
  rw [habs, lt_ten_zpow_iff (scaled_pos hne e)]
  omega

/-- A number that is written with so many digits that it has more than all that are kept. -/
theorem le_abs_shifted {n : Int} {places : Nat} (hn : n ≠ 0) (hplaces : 0 < places)
    (hlong : precision + 2 ≤ digitCount n.natAbs + places) :
    5 ∣ n * (Nat.pow 10 places : Nat) ∧ 10 ^ precision + 5 ≤ |n * (Nat.pow 10 places : Nat)| := by
  obtain ⟨places, rfl⟩ := Nat.exists_eq_succ_of_ne_zero hplaces.ne'
  constructor
  · apply Dvd.dvd.mul_left
    have hfive : 5 ∣ Nat.pow 10 (places + 1) := Dvd.dvd.mul_left (by decide) (Nat.pow 10 places)
    exact_mod_cast hfive
  · have hne : n.natAbs ≠ 0 := Int.natAbs_ne_zero.mpr hn
    have hdigits := Nat.pow_log_le_self 10 hne
    rw [digitCount_eq hne] at hlong
    have hpow : 10 ^ (precision + 1) ≤ n.natAbs * 10 ^ (places + 1) :=
      calc 10 ^ (precision + 1) ≤ 10 ^ (Nat.log 10 n.natAbs + (places + 1)) :=
            Nat.pow_le_pow_right (by decide) (by omega)
        _ = 10 ^ Nat.log 10 n.natAbs * 10 ^ (places + 1) := Nat.pow_add ..
        _ ≤ n.natAbs * 10 ^ (places + 1) := Nat.mul_le_mul_right _ hdigits
    have hroom : 10 ^ precision + 5 ≤ 10 ^ (precision + 1) := by decide
    rw [abs_mul, Nat.abs_cast, Int.abs_eq_natAbs]
    exact_mod_cast hroom.trans hpow

/-- What is left out of a sum cannot be seen once it is rounded. -/
theorem rounded_alignedSum (h : lowerExponent ≤ upperExponent) :
    rounded ((alignedSum upper upperExponent lower lowerExponent).1 *
        10 ^ (alignedSum upper upperExponent lower lowerExponent).2) =
      rounded (upper * 10 ^ upperExponent + lower * 10 ^ lowerExponent) := by
  rw [alignedSum]
  generalize hkeep : upperExponent +
    min (-1) ((digitCount upper.natAbs : Int) - precision - 2) = keep
  split_ifs with hfar
  · obtain ⟨hlower, hupper, hbelow⟩ := hfar
    have hle : keep ≤ upperExponent := by omega
    have hplaces : 0 < (upperExponent - keep).toNat := by omega
    obtain ⟨hfive, hlarge⟩ := le_abs_shifted hupper hplaces (by omega)
    have hsmall : |(lower : ℚ) * 10 ^ (lowerExponent - keep)| < 10 ^ (0 : Int) := by
      apply abs_scaled_lt hlower
      rw [magnitude]
      omega
    have hunit : |(lower.sign : ℚ)| < 5 := by
      rw [← Int.cast_abs, Int.abs_sign_of_ne_zero hlower]
      norm_num
    have hsign : 0 < (lower.sign : ℚ) * (lower * 10 ^ (lowerExponent - keep)) := by
      rw [← mul_assoc, ← Int.cast_mul, Int.sign_mul_self]
      exact mul_pos (by exact_mod_cast Int.natAbs_pos.mpr hlower) (ten_zpow_pos _)
    have hsum : (upper : ℚ) * 10 ^ upperExponent + lower * 10 ^ lowerExponent =
        ((upper * Nat.pow 10 (upperExponent - keep).toNat : Int) +
          lower * 10 ^ (lowerExponent - keep)) * 10 ^ keep := by
      rw [add_mul, scaledInt_eq upper hle, mul_assoc, ← ten_zpow_add, Int.sub_add_cancel]
    rw [zpow_zero] at hsmall
    rw [hsum, Int.cast_add]
    exact rounded_add_eq hfive hlarge hunit (hsmall.trans (by norm_num)) hsign keep
  · rw [Int.cast_add, add_mul, scaledInt_eq upper h]

end Sums

/-! ### A decimal plus one -/

section Next

variable {d : Decimal} {x : ℚ}

/-- A number is too large for a sum just if its leading digit is too far to the left. -/
theorem overflows_iff (c : Nat) (e : Int) : c ≠ 0 ∧ sumMaxExponent < e + digitCount c - 1 ↔
    (10 : ℚ) ^ (sumMaxExponent + 1) ≤ c * 10 ^ e := by
  by_cases hc : c = 0
  · rw [hc, Nat.cast_zero, zero_mul]
    have hpos := ten_zpow_pos (sumMaxExponent + 1)
    exact iff_of_false (fun h => h.1 rfl) (not_le_of_gt hpos)
  · have hmagnitude := magnitude_eq hc e
    rw [magnitude] at hmagnitude
    rw [ten_zpow_le_iff (scaled_pos hc e)]
    omega

/-- The digits of a sum with its sign, once it is rounded. -/
theorem signed_roundToPrecision (total : Int) (scale : Int) :
    (signed (total < 0) (roundToPrecision total.natAbs scale).1 : ℚ) *
        10 ^ (roundToPrecision total.natAbs scale).2 = rounded (total * 10 ^ scale) := by
  have hvalue := value_roundToPrecision total.natAbs scale
  rw [Nat.cast_natAbs, Int.cast_abs] at hvalue
  by_cases hneg : total < 0
  · have hneg' : (total : ℚ) < 0 := by exact_mod_cast hneg
    rw [abs_of_neg hneg', neg_mul, rounded_neg] at hvalue
    rw [decide_eq_true hneg, signed, if_pos rfl, Int.cast_neg, Int.cast_natCast, neg_mul, hvalue,
      neg_neg]
  · have hpos : (0 : ℚ) ≤ total := by exact_mod_cast not_lt.mp hneg
    rw [abs_of_nonneg hpos] at hvalue
    rw [decide_eq_false hneg, signed, if_neg Bool.false_ne_true, Int.cast_natCast, hvalue]

/-- The sum of a finite decimal and one, exact up to what cannot be seen once it is rounded. -/
def sumWithOne (negative : Bool) (coefficient : Nat) (exponent : Int) : Int × Int :=
  let exponent := if coefficient = 0 then max exponent (-(precision + 1 : Int)) else exponent
  if coefficient = 0 ∧ 0 < exponent then (1, 0)
  else if 0 ≤ exponent then alignedSum (signed negative coefficient) exponent 1 0
  else alignedSum 1 0 (signed negative coefficient) exponent

theorem next_finite (negative : Bool) (coefficient : Nat) (exponent : Int) :
    next (.finite negative coefficient exponent) =
      let (total, scale) := sumWithOne negative coefficient exponent
      let (digits, scale) := roundToPrecision total.natAbs scale
      if digits ≠ 0 ∧ sumMaxExponent < scale + digitCount digits - 1 then .error .overflow
      else .ok (.finite (total < 0) digits scale) := by
  rw [next, sumWithOne, signed]

theorem rounded_sumWithOne (negative : Bool) (coefficient : Nat) (exponent : Int) :
    rounded ((sumWithOne negative coefficient exponent).1 *
        10 ^ (sumWithOne negative coefficient exponent).2) =
      rounded (signed negative coefficient * 10 ^ exponent + 1) := by
  rw [sumWithOne]
  generalize hexponent : (if coefficient = 0 then max exponent (-(precision + 1 : Int))
    else exponent) = e
  have hvalue : (signed negative coefficient : ℚ) * 10 ^ exponent =
      signed negative coefficient * 10 ^ e := by
    rw [← hexponent]
    split_ifs with hzero
    · rw [hzero, signed_zero, Int.cast_zero, zero_mul, zero_mul]
    · rfl
  rw [hvalue]
  split_ifs with hzero hnonneg
  · simp [hzero.1]
  · rw [rounded_alignedSum hnonneg]
    simp
  · rw [rounded_alignedSum (by omega), add_comm]
    simp

/-- A finite decimal plus one is the rounded sum, unless that is too large. -/
theorem next_of_value (h : d.value? = some x) :
    (10 ^ (sumMaxExponent + 1) ≤ |rounded (x + 1)| → d.next = .error .overflow) ∧
      (|rounded (x + 1)| < 10 ^ (sumMaxExponent + 1) →
        ∃ r, d.next = .ok r ∧ r.value? = some (rounded (x + 1))) := by
  cases d <;> cases h
  rename_i negative coefficient exponent
  rw [next_finite, ← rounded_sumWithOne]
  obtain ⟨total, scale⟩ := sumWithOne negative coefficient exponent
  have hvalue := signed_roundToPrecision total scale
  dsimp only at hvalue ⊢
  generalize roundToPrecision total.natAbs scale = sum at hvalue ⊢
  obtain ⟨digits, place⟩ := sum
  have habs : |rounded (total * 10 ^ scale)| = digits * 10 ^ place := by
    rw [← hvalue, abs_mul, abs_signed, abs_of_pos (ten_zpow_pos _)]
  rw [habs]
  constructor
  · intro hlarge
    rw [if_pos ((overflows_iff _ _).mpr hlarge)]
  · intro hsmall
    rw [if_neg fun hlarge => not_le_of_gt hsmall ((overflows_iff _ _).mp hlarge)]
    exact ⟨_, rfl, congrArg some hvalue⟩

end Next

end Decimal

/-! ### Numbers that are followed by a greater one -/

open Decimal

section Follow

variable {q x : ℚ} {n k l : Int}

/-- Numbers with all the digits that are kept at and behind a place have their quantum there. -/
theorem quantum_eq_of_between (hk : 0 ≤ k) (hlow : 10 ^ (precision - 1) * 10 ^ k ≤ q)
    (hhigh : q < 10 ^ precision * 10 ^ k) : quantum q = k := by
  have hq : 0 < q := (mul_pos (by positivity) (ten_zpow_pos k)).trans_le hlow
  rw [← zpow_natCast, ← ten_zpow_add, Nat.cast_sub (by decide)] at hlow
  rw [← zpow_natCast, ← ten_zpow_add] at hhigh
  have hle := (ten_zpow_le_iff hq).mp hlow
  have hlt := (lt_ten_zpow_iff hq).mp hhigh
  have hsmall : sumMinExponent ≤ 0 := by decide
  rw [quantum, abs_of_pos hq]
  omega

/-- One is less than half a quantum once numbers have more than all the digits that are kept. -/
theorem rounded_eq_of_abs_le_one (hpos : 1 ≤ k) (hk : quantum q = k) (h : |q - n * 10 ^ k| ≤ 1) :
    rounded q = n * 10 ^ k := by
  have hten : (10 : ℚ) ^ (1 : Int) ≤ 10 ^ k := zpow_le_zpow_right₀ (by norm_num) hpos
  rw [zpow_one] at hten
  exact rounded_eq_of_abs_lt hk (by linarith)

/-- A number that rounding leaves as it is, although it has more digits than are kept, is a multiple
    of its quantum. -/
theorem exists_eq_of_rounded_eq (h : rounded x = x) (hx : 10 ^ precision ≤ x) :
    ∃ n k : Int, 1 ≤ k ∧ x = n * 10 ^ k ∧ 10 ^ (precision - 1) ≤ n ∧ n < 10 ^ precision := by
  have hpos : 0 < x := (by positivity : (0 : ℚ) < 10 ^ precision).trans_le hx
  obtain ⟨k, hk⟩ : ∃ k, Int.log 10 x = k + (precision - 1 : Nat) :=
    ⟨_, (Int.sub_add_cancel _ _).symm⟩
  have hlog : 1 ≤ k := by
    rw [← zpow_natCast, ten_zpow_le_iff hpos, hk, Nat.cast_sub (by decide)] at hx
    omega
  have hlow := (ten_zpow_le_iff hpos).mpr (le_refl (Int.log 10 x))
  have hhigh := (lt_ten_zpow_iff hpos).mpr (Int.lt_succ (Int.log 10 x))
  rw [hk, add_comm, ten_zpow_add, zpow_natCast] at hlow
  have hsum : k + (precision - 1 : Nat) + 1 = precision + k := by
    rw [Nat.cast_sub (by decide)]
    omega
  rw [hk, hsum, ten_zpow_add, zpow_natCast] at hhigh
  have hx' : x = halfEven (x / 10 ^ k) * 10 ^ k := by
    conv_lhs => rw [← h, rounded, quantum_eq_of_between (by omega) hlow hhigh]
  generalize halfEven (x / 10 ^ k) = n at hx'
  have hu := ten_zpow_pos k
  rw [hx'] at hlow hhigh
  refine ⟨n, k, hlog, hx', ?_, ?_⟩
  · exact_mod_cast le_of_mul_le_mul_right hlow hu
  · exact_mod_cast lt_of_mul_lt_mul_right hhigh hu.le

theorem quantum_nonpos (h : |q| < 10 ^ precision) : quantum q ≤ 0 := by
  have hsmall : sumMinExponent ≤ 0 := by decide
  have hlog : Int.log 10 |q| < precision := by
    by_cases hq : q = 0
    · rw [hq, abs_zero, Int.log_zero_right]
      decide
    · rw [← zpow_natCast] at h
      exact (lt_ten_zpow_iff (abs_pos.mpr hq)).mp h
  rw [quantum]
  omega

/-- A number of less than 28 digits is followed by a greater one. -/
theorem lt_rounded_add_one (h : |x| < 10 ^ precision) : x < rounded (x + 1) := by
  obtain ⟨hlow, hhigh⟩ := abs_lt.mp h
  have hone : (1 : ℚ) ≤ 10 ^ precision := one_le_pow₀ (by norm_num)
  by_cases hcarry : 10 ^ precision ≤ x + 1
  · have hpow : (10 : ℚ) ^ precision = (10 ^ (precision - 1) : Int) * 10 ^ (1 : Int) := by
      norm_num [precision]
    have hquantum : quantum (x + 1) = 1 := by
      apply quantum_eq_of_between (by decide)
      · exact_mod_cast hpow ▸ hcarry
      · rw [zpow_one]
        linarith
    have hrounded : rounded (x + 1) = (10 ^ (precision - 1) : Int) * 10 ^ (1 : Int) := by
      apply rounded_eq_of_abs_le_one le_rfl hquantum
      rw [← hpow, abs_le]
      exact ⟨by linarith, by linarith⟩
    rw [hrounded, ← hpow]
    exact hhigh
  · have hquantum : quantum (x + 1) ≤ 0 :=
      quantum_nonpos (abs_lt.mpr ⟨by linarith, not_le.mp hcarry⟩)
    have hten : (10 : ℚ) ^ quantum (x + 1) ≤ 10 ^ (0 : Int) :=
      zpow_le_zpow_right₀ (by norm_num) hquantum
    have hdistance := (abs_le.mp (abs_rounded_sub_le (x + 1))).1
    rw [zpow_zero] at hten
    linarith

theorem rounded_add_one_eq (h : rounded x = x) (hx : 10 ^ precision ≤ x) : rounded (x + 1) = x := by
  obtain ⟨n, k, hk, hx', hlow, hhigh⟩ := exists_eq_of_rounded_eq h hx
  have hu : (10 : ℚ) ^ (1 : Int) ≤ 10 ^ k := zpow_le_zpow_right₀ (by norm_num) hk
  have hlow' : (10 : ℚ) ^ (precision - 1) ≤ n := by exact_mod_cast hlow
  have hhigh' : (n : ℚ) + 1 ≤ 10 ^ precision := by exact_mod_cast hhigh
  have hle := mul_le_mul_of_nonneg_right hlow' (ten_zpow_pos k).le
  have hle' := mul_le_mul_of_nonneg_right hhigh' (ten_zpow_pos k).le
  rw [zpow_one] at hu
  have hquantum : quantum (x + 1) = k := by
    apply quantum_eq_of_between (by omega)
    · linarith
    · linarith
  rw [hx'] at hquantum ⊢
  apply rounded_eq_of_abs_le_one hk hquantum
  rw [add_sub_cancel_left, abs_one]

theorem rounded_sub_one_eq (h : rounded x = x) (hx : 10 ^ precision < x) : rounded (x - 1) = x := by
  obtain ⟨n, k, hk, hx', hlow, hhigh⟩ := exists_eq_of_rounded_eq h hx.le
  have hu : (10 : ℚ) ^ (1 : Int) ≤ 10 ^ k := zpow_le_zpow_right₀ (by norm_num) hk
  have hten := ten_zpow_pos k
  rw [zpow_one] at hu
  by_cases hpower : n = 10 ^ (precision - 1)
  · -- Below a power of ten there is room for one more digit.
    have hpow : (10 : ℚ) ^ precision = 10 ^ (precision - 1) * 10 := by norm_num [precision]
    have hk' : 2 ≤ k := by
      by_contra hlt
      have hone : k = 1 := by omega
      rw [hx', hpower, hone, hpow] at hx
      push_cast at hx
      simp at hx
    have hunits : (10 : ℚ) ^ k = 10 * 10 ^ (k - 1) := by
      conv_lhs => rw [← Int.sub_add_cancel k 1, ten_zpow_add, zpow_one, mul_comm]
    have hx'' : x = (10 ^ precision : Int) * 10 ^ (k - 1) := by
      rw [hx', hpower, hunits]
      push_cast
      rw [hpow]
      ring
    have hplace : (1 : ℚ) ≤ 10 ^ (precision - 1) * 10 ^ (k - 1) :=
      one_le_mul_of_one_le_of_one_le (one_le_pow₀ (by norm_num))
        (one_le_zpow₀ (by norm_num) (by omega))
    have hvalue : x = 10 * (10 ^ (precision - 1) * 10 ^ (k - 1)) := by
      rw [hx'', Int.cast_pow, Int.cast_ofNat, hpow]
      ring
    have hquantum : quantum (x - 1) = k - 1 := by
      apply quantum_eq_of_between (by omega)
      · linarith
      · rw [hpow, mul_comm _ (10 : ℚ), mul_assoc, ← hvalue]
        linarith
    rw [hx''] at hquantum ⊢
    apply rounded_eq_of_abs_le_one (by omega) hquantum
    rw [sub_sub_cancel_left, abs_neg, abs_one]
  · have hlow' : (10 : ℚ) ^ (precision - 1) + 1 ≤ n := by
      exact_mod_cast lt_of_le_of_ne hlow (Ne.symm hpower)
    have hhigh' : (n : ℚ) ≤ 10 ^ precision := by exact_mod_cast hhigh.le
    have hle := mul_le_mul_of_nonneg_right hlow' hten.le
    have hle' := mul_le_mul_of_nonneg_right hhigh' hten.le
    have hquantum : quantum (x - 1) = k := by
      apply quantum_eq_of_between (by omega)
      · linarith
      · linarith
    rw [hx'] at hquantum ⊢
    apply rounded_eq_of_abs_le_one hk hquantum
    rw [sub_sub_cancel_left, abs_neg, abs_one]

/-- A number of at most 28 digits is followed by a greater one just if it has no zeros behind
    them. -/
theorem lt_rounded_add_one_iff (h : rounded x = x) :
    x < rounded (x + 1) ↔ -10 ^ precision ≤ x ∧ x < 10 ^ precision := by
  constructor
  · intro hlt
    refine ⟨le_of_not_gt fun hlow => ?_, lt_of_not_ge fun hhigh => ?_⟩
    · have hneg : rounded (-x) = -x := by rw [rounded_neg, h]
      have hflip : x + 1 = -(-x - 1) := by ring
      rw [hflip, rounded_neg, rounded_sub_one_eq hneg (by linarith), neg_neg] at hlt
      exact lt_irrefl x hlt
    · rw [rounded_add_one_eq h hhigh] at hlt
      exact lt_irrefl x hlt
  · rintro ⟨hlow, hhigh⟩
    rcases hlow.eq_or_lt with heq | hlow
    · have hquantum : quantum (x + 1) ≤ 0 := by
        apply quantum_nonpos
        rw [← heq, abs_lt]
        have hone : (1 : ℚ) < 10 ^ precision := one_lt_pow₀ (by norm_num) (by decide)
        exact ⟨by linarith, by linarith⟩
      have hwhole : x + 1 = ((-10 ^ precision + 1 : Int) : ℚ) * 10 ^ (0 : Int) := by
        rw [← heq, zpow_zero, mul_one]
        push_cast
        rfl
      rw [rounded_eq_self hquantum hwhole]
      exact lt_add_one x
    · exact lt_rounded_add_one (abs_lt.mpr ⟨hlow, hhigh⟩)

end Follow

end ItemDelta
