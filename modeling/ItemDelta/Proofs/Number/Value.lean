import ItemDelta.Number.Decimal
import Mathlib.Data.Int.Log
import Mathlib.Data.Rat.Floor
import Mathlib.Tactic.NormNum

/-!
# Values of decimals

A finite decimal stands for a rational number. Digits are counted with logarithms, and the
comparison of two decimals is that of the numbers that they stand for.

## Main definitions

* `Decimal.signed` — a coefficient with its sign.
* `Decimal.value?` — the number that a finite decimal stands for.

## Main results

* `Decimal.digitCount_eq`, `Decimal.magnitude_eq` — digits and magnitudes as logarithms.
* `Decimal.compare?_eq_cmp` — finite decimals compare as their values do.
-/

namespace ItemDelta

/-! ### Powers of ten -/

section Powers

theorem ten_zpow_pos (k : Int) : (0 : ℚ) < 10 ^ k := zpow_pos (by norm_num) k

theorem ten_zpow_add (k l : Int) : (10 : ℚ) ^ (k + l) = 10 ^ k * 10 ^ l :=
  zpow_add₀ (by norm_num) k l

theorem ten_zpow_toNat {k : Int} (hk : 0 ≤ k) : (10 : ℚ) ^ k.toNat = 10 ^ k := by
  rw [← zpow_natCast, Int.toNat_of_nonneg hk]

theorem natPow_mul_ten_zpow {k l : Int} (h : l ≤ k) :
    ((Nat.pow 10 (k - l).toNat : Nat) : ℚ) * 10 ^ l = 10 ^ k := by
  show ((10 ^ (k - l).toNat : Nat) : ℚ) * 10 ^ l = 10 ^ k
  rw [Nat.cast_pow, Nat.cast_ofNat, ten_zpow_toNat (by omega), ← ten_zpow_add, Int.sub_add_cancel]

variable {q : ℚ} {k : Int}

theorem ten_zpow_le_iff (hq : 0 < q) : 10 ^ k ≤ q ↔ k ≤ Int.log 10 q := by
  exact_mod_cast Int.zpow_le_iff_le_log (b := 10) (by decide) hq

theorem lt_ten_zpow_iff (hq : 0 < q) : q < 10 ^ k ↔ Int.log 10 q < k := by
  exact_mod_cast Int.lt_zpow_iff_log_lt (b := 10) (by decide) hq

/-- A power of ten moves the leading digit. -/
theorem log_mul_ten_zpow (hq : 0 < q) (k : Int) : Int.log 10 (q * 10 ^ k) = Int.log 10 q + k := by
  have hten := ten_zpow_pos k
  have hscaled : 0 < q * 10 ^ k := mul_pos hq hten
  apply le_antisymm
  · apply Int.lt_add_one_iff.mp
    apply (lt_ten_zpow_iff hscaled).mp
    rw [add_right_comm, ten_zpow_add]
    exact mul_lt_mul_of_pos_right ((lt_ten_zpow_iff hq).mpr (Int.lt_succ _)) hten
  · apply (ten_zpow_le_iff hscaled).mp
    rw [ten_zpow_add]
    exact mul_le_mul_of_nonneg_right ((ten_zpow_le_iff hq).mpr le_rfl) hten.le

end Powers

namespace Decimal

/-- A coefficient with its sign. -/
def signed (negative : Bool) (coefficient : Nat) : Int :=
  if negative then -coefficient else coefficient

@[simp] theorem signed_zero (negative : Bool) : signed negative 0 = 0 := by
  cases negative <;> rfl

theorem abs_signed (negative : Bool) (c : Nat) : |(signed negative c : ℚ)| = c := by
  cases negative <;> simp [signed]

/-- The number that a finite decimal stands for. -/
def value? : Decimal → Option ℚ
  | .finite negative coefficient exponent => some (signed negative coefficient * 10 ^ exponent)
  | _ => none

/-! ### Digits -/

section Digits

variable {c c₁ c₂ : Nat} {e e₁ e₂ : Int}

/-- A nonzero coefficient has one digit more than its logarithm says. -/
theorem digitCount_eq (hc : c ≠ 0) : digitCount c = Nat.log 10 c + 1 := by
  have hlength : ∀ k, 0 < k → (digitCount c ≤ k ↔ c < 10 ^ k) := fun k hk =>
    Nat.length_toDigits_le_iff (by decide) hk
  apply Nat.le_antisymm
  · exact (hlength _ (Nat.succ_pos _)).mpr (Nat.lt_pow_succ_log_self (by decide) c)
  · have hpos : 0 < digitCount c := Nat.length_toDigits_pos
    apply Nat.lt_of_not_le
    intro hle
    by_cases hzero : Nat.log 10 c = 0
    · omega
    · have hlt := (hlength _ (Nat.pos_of_ne_zero hzero)).mp hle
      exact Nat.not_le_of_lt hlt (Nat.pow_log_le_self 10 hc)

theorem scaled_pos (hc : c ≠ 0) (e : Int) : (0 : ℚ) < c * 10 ^ e :=
  mul_pos (Nat.cast_pos.mpr (Nat.pos_of_ne_zero hc)) (ten_zpow_pos e)

/-- The magnitude of a number is above its logarithm. -/
theorem magnitude_eq (hc : c ≠ 0) (e : Int) :
    magnitude c e = Int.log 10 ((c : ℚ) * 10 ^ e) + 1 := by
  rw [magnitude, digitCount_eq hc, log_mul_ten_zpow (Nat.cast_pos.mpr (Nat.pos_of_ne_zero hc)),
    Int.log_natCast]
  omega

/-- A number is smaller than another one if it has the smaller magnitude. -/
theorem lt_of_magnitude_lt (h₁ : c₁ ≠ 0) (h₂ : c₂ ≠ 0) (h : magnitude c₁ e₁ < magnitude c₂ e₂) :
    (c₁ : ℚ) * 10 ^ e₁ < c₂ * 10 ^ e₂ := by
  rw [magnitude_eq h₁, magnitude_eq h₂] at h
  apply lt_of_not_ge
  intro hle
  have hmono := Int.log_mono_right (b := 10) (scaled_pos h₂ e₂) hle
  omega

end Digits

/-! ### Comparison -/

section Comparison

variable {c c₁ c₂ : Nat} {e₁ e₂ : Int}

/-- A number written with a smaller exponent. -/
theorem scaled_eq (c : Nat) (h : e₂ ≤ e₁) :
    ((c * Nat.pow 10 (e₁ - e₂).toNat : Nat) : ℚ) * 10 ^ e₂ = c * 10 ^ e₁ := by
  rw [Nat.cast_mul, mul_assoc, natPow_mul_ten_zpow h]

/-- Numbers with one exponent compare as their coefficients do. -/
theorem cmp_scaled (c₁ c₂ : Nat) (e : Int) :
    cmp ((c₁ : ℚ) * 10 ^ e) (c₂ * 10 ^ e) = compare c₁ c₂ := by
  rw [cmp_mul_pos_right (ten_zpow_pos e), Nat.strictMono_cast.cmp_map_eq, cmp_eq_compare]

theorem compareMagnitude_eq_cmp (c₁ : Nat) (e₁ : Int) (c₂ : Nat) (e₂ : Int) :
    compareMagnitude c₁ e₁ c₂ e₂ = cmp ((c₁ : ℚ) * 10 ^ e₁) (c₂ * 10 ^ e₂) := by
  symm
  rw [compareMagnitude]
  by_cases hzero : c₁ = 0 ∧ c₂ = 0
  · rw [if_pos hzero, hzero.1, hzero.2, Nat.cast_zero, zero_mul, zero_mul, cmp_self_eq_eq]
  rw [if_neg hzero]
  by_cases h₁ : c₁ = 0
  · rw [if_pos h₁, cmp_eq_lt_iff, h₁, Nat.cast_zero, zero_mul]
    exact scaled_pos (fun h₂ => hzero ⟨h₁, h₂⟩) e₂
  rw [if_neg h₁]
  by_cases h₂ : c₂ = 0
  · rw [if_pos h₂, cmp_eq_gt_iff, h₂, Nat.cast_zero, zero_mul]
    exact scaled_pos h₁ e₁
  rw [if_neg h₂]
  by_cases hlt : magnitude c₁ e₁ < magnitude c₂ e₂
  · rw [if_pos hlt, cmp_eq_lt_iff]
    exact lt_of_magnitude_lt h₁ h₂ hlt
  rw [if_neg hlt]
  by_cases hgt : magnitude c₂ e₂ < magnitude c₁ e₁
  · rw [if_pos hgt, cmp_eq_gt_iff]
    exact lt_of_magnitude_lt h₂ h₁ hgt
  rw [if_neg hgt]
  by_cases hle : e₂ ≤ e₁
  · rw [if_pos hle, ← scaled_eq c₁ hle, cmp_scaled]
  · rw [if_neg hle, ← scaled_eq c₂ (Int.le_of_not_le hle), cmp_scaled]

theorem signed_of_negative {negative : Bool} (h : negative = true ∧ c ≠ 0) :
    (signed negative c : ℚ) = -c := by
  simp [signed, h.1]

theorem signed_of_not_negative {negative : Bool} (h : ¬(negative = true ∧ c ≠ 0)) :
    (signed negative c : ℚ) = c := by
  cases negative <;> simp_all [signed]

/-- Finite decimals compare as their values do. -/
theorem compare?_eq_cmp {d₁ d₂ : Decimal} {x y : ℚ} (h₁ : d₁.value? = some x)
    (h₂ : d₂.value? = some y) : d₁.compare? d₂ = some (cmp x y) := by
  cases d₁ <;> cases h₁
  cases d₂ <;> cases h₂
  rename_i n₁ c₁ e₁ n₂ c₂ e₂
  have hanti : StrictAnti (Neg.neg : ℚ → ℚ) := fun a b h => neg_lt_neg h
  have hpos : ∀ c e, (0 : ℚ) ≤ (c : Nat) * 10 ^ (e : Int) := fun c e =>
    mul_nonneg (Nat.cast_nonneg c) (ten_zpow_pos e).le
  rw [compare?]
  by_cases hn₁ : n₁ = true ∧ c₁ ≠ 0
  · rw [signed_of_negative hn₁, neg_mul]
    have hneg := scaled_pos hn₁.2 e₁
    by_cases hn₂ : n₂ = true ∧ c₂ ≠ 0
    · rw [signed_of_negative hn₂, neg_mul, hanti.cmp_map_eq, ← compareMagnitude_eq_cmp]
      simp [hn₁, hn₂]
    · rw [signed_of_not_negative hn₂,
        (cmp_eq_lt_iff _ _).mpr (lt_of_lt_of_le (neg_neg_of_pos hneg) (hpos c₂ e₂))]
      simp [hn₁, hn₂]
  · rw [signed_of_not_negative hn₁]
    by_cases hn₂ : n₂ = true ∧ c₂ ≠ 0
    · have hneg := scaled_pos hn₂.2 e₂
      rw [signed_of_negative hn₂, neg_mul,
        (cmp_eq_gt_iff _ _).mpr (lt_of_lt_of_le (neg_neg_of_pos hneg) (hpos c₁ e₁))]
      simp [hn₁, hn₂]
    · rw [signed_of_not_negative hn₂, ← compareMagnitude_eq_cmp]
      simp [hn₁, hn₂]

/-- Finite decimals are equal just if their values are. -/
theorem compare?_eq_iff {d₁ d₂ : Decimal} {x y : ℚ} (h₁ : d₁.value? = some x)
    (h₂ : d₂.value? = some y) : d₁.compare? d₂ = some .eq ↔ x = y := by
  rw [compare?_eq_cmp h₁ h₂, Option.some_inj, cmp_eq_eq_iff]

/-- The decimal of an integer stands for it. -/
@[simp] theorem value?_ofInt (n : Int) : (ofInt n).value? = some (n : ℚ) := by
  have hsigned : signed (n < 0) n.natAbs = n := by
    rw [signed]
    by_cases h : n < 0
    · rw [decide_eq_true h, if_pos rfl]
      omega
    · rw [decide_eq_false h, if_neg Bool.false_ne_true]
      omega
  rw [ofInt, value?, hsigned, zpow_zero, mul_one]

theorem compare?_ofInt_eq_iff {n m : Int} : (ofInt n).compare? (ofInt m) = some .eq ↔ n = m := by
  rw [compare?_eq_iff (value?_ofInt n) (value?_ofInt m), Int.cast_inj]

/-- Every decimal but NaN is equal to itself. -/
theorem compare?_self {d : Decimal} (h : ∀ negative signaling payload,
    d ≠ .nan negative signaling payload) : d.compare? d = some .eq := by
  cases d with
  | nan negative signaling payload => exact absurd rfl (h negative signaling payload)
  | infinite negative => cases negative <;> rfl
  | finite negative coefficient exponent => exact (compare?_eq_iff rfl rfl).mpr rfl

end Comparison

/-! ### Integers -/

section Integers

variable {negative : Bool} {c : Nat} {e : Int} {n : Int}

theorem signed_mul (negative : Bool) (c k : Nat) :
    signed negative (c * k) = signed negative c * k := by
  cases negative <;> simp [signed]

/-- A number whose digits all lie behind the point is no integer. -/
theorem ne_intCast_of_magnitude_nonpos (hc : c ≠ 0) (h : magnitude c e ≤ 0) (n : Int) :
    (signed negative c : ℚ) * 10 ^ e ≠ n := by
  intro heq
  have habs : |(signed negative c : ℚ) * 10 ^ e| = c * 10 ^ e := by
    rw [abs_mul, abs_signed, abs_of_pos (ten_zpow_pos e)]
  have hpos := scaled_pos hc e
  rw [magnitude_eq hc] at h
  have hone : (c : ℚ) * 10 ^ e < 10 ^ (0 : Int) := (lt_ten_zpow_iff hpos).mpr (by omega)
  rw [← habs, heq, zpow_zero] at hone
  rw [← habs, heq] at hpos
  have hlow : (0 : Int) < |n| := by exact_mod_cast hpos
  have hhigh : |n| < 1 := by exact_mod_cast hone
  omega

theorem natAbs_signed (negative : Bool) (c : Nat) : (signed negative c).natAbs = c := by
  cases negative <;> simp [signed]

/-- A number with digits behind the point is an integer just if these are zeros. -/
theorem eq_intCast_iff_of_neg (he : e ≤ 0) : (signed negative c : ℚ) * 10 ^ e = n ↔
    c % Nat.pow 10 (-e).toNat = 0 ∧ signed negative (c / Nat.pow 10 (-e).toNat) = n := by
  have hunit : ((Nat.pow 10 (-e).toNat : Nat) : ℚ) * 10 ^ e = 1 := by
    rw [← Int.zero_sub, natPow_mul_ten_zpow he, zpow_zero]
  generalize Nat.pow 10 (-e).toNat = unit at hunit ⊢
  have hpos : 0 < unit := by
    apply Nat.pos_of_ne_zero
    rintro rfl
    simp at hunit
  constructor
  · intro heq
    have hscaled : signed negative c = n * unit := by
      have hvalue : (signed negative c : ℚ) = n * unit := by
        rw [← heq, mul_assoc, mul_comm ((10 : ℚ) ^ e), hunit, mul_one]
      exact_mod_cast hvalue
    have hdvd : c = n.natAbs * unit := by
      have habs := congrArg Int.natAbs hscaled
      rwa [natAbs_signed, Int.natAbs_mul, Int.natAbs_natCast] at habs
    have hmod : c % unit = 0 := by rw [hdvd, Nat.mul_mod_left]
    refine ⟨hmod, ?_⟩
    rw [← Nat.div_mul_cancel (Nat.dvd_of_mod_eq_zero hmod), signed_mul] at hscaled
    exact mul_right_cancel₀ (Int.natCast_ne_zero.mpr hpos.ne') hscaled
  · rintro ⟨hmod, rfl⟩
    have hc := Nat.div_mul_cancel (Nat.dvd_of_mod_eq_zero hmod)
    conv_lhs => rw [← hc, signed_mul, Int.cast_mul, Int.cast_natCast, mul_assoc, hunit, mul_one]

/-- The integer equal to a decimal is the one that it stands for. -/
theorem toInt?_eq_some_iff {d : Decimal} : d.toInt? = some n ↔ d.value? = some (n : ℚ) := by
  cases d with
  | infinite negative => simp [toInt?, value?]
  | nan negative signaling payload => simp [toInt?, value?]
  | finite negative c e =>
    have hsigned : ∀ k : Nat, (if negative then -(k : Int) else k) = signed negative k :=
      fun _ => rfl
    simp only [toInt?, value?, hsigned, Option.some.injEq]
    by_cases hc : c = 0
    · rw [if_pos hc, hc, signed_zero, Int.cast_zero, zero_mul, Option.some_inj]
      exact_mod_cast Iff.rfl
    rw [if_neg hc]
    by_cases he : 0 ≤ e
    · have hvalue : (signed negative c : ℚ) * 10 ^ e =
          (signed negative (c * Nat.pow 10 e.toNat) : Int) := by
        have hpow := natPow_mul_ten_zpow he
        rw [Int.sub_zero, zpow_zero, mul_one] at hpow
        rw [signed_mul, Int.cast_mul, Int.cast_natCast, hpow]
      rw [if_pos he, hvalue, Int.cast_inj, Option.some_inj]
    rw [if_neg he, eq_intCast_iff_of_neg (by omega)]
    by_cases hsmall : magnitude c e ≤ 0
    · rw [if_pos hsmall]
      refine iff_of_false (Option.some_ne_none n).symm fun heq => ?_
      exact ne_intCast_of_magnitude_nonpos hc hsmall n ((eq_intCast_iff_of_neg (by omega)).mpr heq)
    rw [if_neg hsmall]
    by_cases hmod : c % Nat.pow 10 (-e).toNat = 0
    · rw [if_pos hmod, Option.some_inj, and_iff_right hmod]
    · rw [if_neg hmod]
      exact iff_of_false (Option.some_ne_none n).symm fun h => hmod h.1

end Integers

end Decimal

end ItemDelta
