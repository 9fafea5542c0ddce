import ItemDelta.Proofs.Number.Value
import Mathlib.Tactic.FieldSimp
import Mathlib.Tactic.Linarith
import Mathlib.Tactic.Ring

/-!
# Rounding

A sum is rounded to `precision` digits, or to fewer where its exponent would be too small, and a
half goes to the even neighbour. The rounding is told on rational numbers, and the digit by digit
one is shown to be the same.

## Main definitions

* `IsNearest` — an integer is the nearest one to a number, the even one of two.
* `halfEven` — this integer.
* `quantum` — the exponent of the last digit that is kept.
* `rounded` — a number cut to the digits that are kept.

## Main results

* `halfEven_eq_iff` — the integer is the only nearest one.
* `Decimal.value_roundToPrecision` — digits are rounded as numbers are.
* `rounded_eq_of_between` — rounding does not see what lies between two neighbouring halves.
-/

namespace ItemDelta

/-! ### Nearest integers -/

/-- No integer is nearer to a number, and it is even if another one is as near. -/
def IsNearest (q : ℚ) (n : Int) : Prop := |q - n| < 1 / 2 ∨ |q - n| = 1 / 2 ∧ Even n

/-- The nearest integer, or the even one of two that are equally near. -/
def halfEven (q : ℚ) : Int :=
  if Int.fract q < 1 / 2 then ⌊q⌋
  else if 1 / 2 < Int.fract q then ⌊q⌋ + 1
  else if Even ⌊q⌋ then ⌊q⌋
  else ⌊q⌋ + 1

section Nearest

variable {q : ℚ} {n m : Int}

theorem IsNearest.distance_le (h : IsNearest q n) : |q - n| ≤ 1 / 2 := by
  rcases h with h | h
  · exact h.le
  · exact h.1.le

theorem IsNearest.neg (h : IsNearest q n) : IsNearest (-q) (-n) := by
  have habs : |-q - ((-n : Int) : ℚ)| = |q - n| := by
    rw [Int.cast_neg, ← neg_sub', abs_neg]
  rw [IsNearest, habs]
  exact h.imp_right fun h => ⟨h.1, h.2.neg⟩

/-- Two nearest integers would be neighbours, and both of them even. -/
theorem IsNearest.unique (hn : IsNearest q n) (hm : IsNearest q m) : n = m := by
  have hdist : |(n : ℚ) - m| ≤ |q - n| + |q - m| := by
    rw [abs_sub_comm q n]
    exact abs_sub_le _ _ _
  have hlt : |n - m| < 2 := by
    have hle := hn.distance_le
    have hle' := hm.distance_le
    have hone : |(n : ℚ) - m| < 2 := by linarith
    exact_mod_cast hone
  by_contra hne
  have hpos : 0 < |n - m| := abs_pos.mpr (sub_ne_zero.mpr hne)
  have hone : |n - m| = 1 := by omega
  have hone' : |(n : ℚ) - m| = 1 := by exact_mod_cast hone
  have hevens : Even n ∧ Even m := by
    have hle := hn.distance_le
    have hle' := hm.distance_le
    rcases hn with hn | ⟨-, hn⟩
    · linarith
    · rcases hm with hm | ⟨-, hm⟩
      · linarith
      · exact ⟨hn, hm⟩
  have heven := hevens.1.sub hevens.2
  rw [← even_abs, hone] at heven
  exact absurd heven (by decide)

theorem isNearest_halfEven (q : ℚ) : IsNearest q (halfEven q) := by
  have hfloor : q - ⌊q⌋ = Int.fract q := Int.self_sub_floor q
  have hnonneg := Int.fract_nonneg q
  have hlt := Int.fract_lt_one q
  have hnext : |q - ((⌊q⌋ + 1 : Int) : ℚ)| = 1 - Int.fract q := by
    rw [Int.cast_add, Int.cast_one, ← sub_sub, hfloor, abs_sub_comm, abs_of_nonneg (by linarith)]
  rw [halfEven]
  split_ifs with hlow hhigh heven
  · left
    rwa [hfloor, abs_of_nonneg hnonneg]
  · left
    rw [hnext]
    linarith
  · right
    refine ⟨?_, heven⟩
    rw [hfloor, abs_of_nonneg hnonneg]
    exact le_antisymm (le_of_not_gt hhigh) (le_of_not_gt hlow)
  · right
    refine ⟨?_, (Int.not_even_iff_odd.mp heven).add_one⟩
    rw [hnext]
    linarith [le_antisymm (le_of_not_gt hhigh) (le_of_not_gt hlow)]

theorem halfEven_eq_iff : halfEven q = n ↔ IsNearest q n := by
  constructor
  · rintro rfl
    exact isNearest_halfEven q
  · exact fun h => (isNearest_halfEven q).unique h

theorem halfEven_eq_of_abs_lt (h : |q - n| < 1 / 2) : halfEven q = n :=
  halfEven_eq_iff.mpr (.inl h)

@[simp] theorem halfEven_intCast (n : Int) : halfEven n = n := by
  apply halfEven_eq_of_abs_lt
  rw [sub_self, abs_zero]
  norm_num

@[simp] theorem halfEven_neg (q : ℚ) : halfEven (-q) = -halfEven q :=
  halfEven_eq_iff.mpr (isNearest_halfEven q).neg

/-- The quotient and the remainder tell which neighbour is nearer. -/
theorem roundHalfEven_eq (numerator : Nat) {denominator : Nat} (hpos : 0 < denominator) :
    (Decimal.roundHalfEven numerator denominator : Int) =
      halfEven ((numerator : ℚ) / denominator) := by
  have hpos' : (0 : ℚ) < denominator := Nat.cast_pos.mpr hpos
  have hfloor : ⌊(numerator : ℚ) / denominator⌋ = (numerator / denominator : Nat) := by
    have hfloor := Rat.floor_intCast_div_natCast numerator denominator
    rwa [Int.cast_natCast, ← Int.natCast_ediv] at hfloor
  have hfract : Int.fract ((numerator : ℚ) / denominator) =
      (numerator % denominator : Nat) / denominator := Int.fract_div_natCast_eq_div_natCast_mod
  have hlow : ((numerator % denominator : Nat) : ℚ) / denominator < 1 / 2 ↔
      2 * (numerator % denominator) < denominator := by
    rw [div_lt_div_iff₀ hpos' two_pos, one_mul, mul_comm]
    exact_mod_cast Iff.rfl
  have hhigh : 1 / 2 < ((numerator % denominator : Nat) : ℚ) / denominator ↔
      denominator < 2 * (numerator % denominator) := by
    rw [div_lt_div_iff₀ two_pos hpos', one_mul, mul_comm]
    exact_mod_cast Iff.rfl
  have heven : Even ((numerator / denominator : Nat) : Int) ↔ numerator / denominator % 2 = 0 := by
    rw [Int.even_coe_nat, Nat.even_iff]
  rw [halfEven, hfloor, hfract, Decimal.roundHalfEven]
  simp only [hlow, hhigh, heven]
  split_ifs <;> rfl

/-- Between two neighbouring integers, all numbers have one nearest integer when they are divided
    by an even number. -/
theorem halfEven_div_eq_of_between {u v : ℚ} {half : Int} (hhalf : 0 < half) (hu : m < u)
    (hu' : u < m + 1) (hv : m < v) (hv' : v < m + 1) :
    halfEven (u / (2 * half)) = halfEven (v / (2 * half)) := by
  have hpos : (0 : ℚ) < 2 * half := by exact_mod_cast Int.mul_pos (by decide) hhalf
  have hbounds := (isNearest_halfEven (u / (2 * half))).distance_le
  generalize halfEven (u / (2 * half)) = n at hbounds ⊢
  rw [abs_le, le_sub_iff_add_le, sub_le_iff_le_add, le_div_iff₀ hpos, div_le_iff₀ hpos] at hbounds
  have hlow : half * (2 * n - 1) < m + 1 := by
    have hlt : (half : ℚ) * (2 * n - 1) < m + 1 := by linarith [hbounds.1]
    exact_mod_cast hlt
  have hhigh : m < half * (2 * n + 1) := by
    have hlt : (m : ℚ) < half * (2 * n + 1) := by linarith [hbounds.2]
    exact_mod_cast hlt
  symm
  apply halfEven_eq_of_abs_lt
  rw [abs_lt, lt_sub_iff_add_lt, sub_lt_iff_lt_add, lt_div_iff₀ hpos, div_lt_iff₀ hpos]
  have hlow' : (half : ℚ) * (2 * n - 1) ≤ m := by exact_mod_cast Int.lt_add_one_iff.mp hlow
  have hhigh' : (m : ℚ) + 1 ≤ half * (2 * n + 1) := by exact_mod_cast hhigh
  constructor
  · linarith
  · linarith

end Nearest

/-! ### Numbers with few digits -/

open Decimal

/-- The exponent of the last digit that is kept of a number. -/
def quantum (q : ℚ) : Int := max (Int.log 10 |q| + 1 - precision) sumMinExponent

/-- A number cut to the digits that are kept, a half going to the even neighbour. -/
def rounded (q : ℚ) : ℚ := halfEven (q / 10 ^ quantum q) * 10 ^ quantum q

section Rounded

variable {q x y : ℚ} {n m k e : Int}

@[simp] theorem quantum_neg (q : ℚ) : quantum (-q) = quantum q := by
  rw [quantum, abs_neg, quantum]

@[simp] theorem rounded_neg (q : ℚ) : rounded (-q) = -rounded q := by
  rw [rounded, quantum_neg, neg_div, halfEven_neg, Int.cast_neg, neg_mul, rounded]

@[simp] theorem rounded_zero : rounded 0 = 0 := by
  have hzero : halfEven 0 = 0 := halfEven_intCast 0
  rw [rounded, zero_div, hzero, Int.cast_zero, zero_mul]

/-- A number is rounded to a multiple of its quantum if this is less than half a quantum away. -/
theorem rounded_eq_of_abs_lt (hk : quantum q = k) (h : |q - n * 10 ^ k| < 10 ^ k / 2) :
    rounded q = n * 10 ^ k := by
  have hten := ten_zpow_pos k
  rw [rounded, hk]
  congr 2
  apply halfEven_eq_of_abs_lt
  have hscaled : q / 10 ^ k - n = (q - n * 10 ^ k) / 10 ^ k := by
    field_simp
  rw [hscaled, abs_div, abs_of_pos hten, div_lt_iff₀ hten]
  linarith

/-- A multiple of a quantum is not rounded. -/
theorem rounded_eq_self (hk : quantum q ≤ e) (hq : q = n * 10 ^ e) : rounded q = q := by
  have hmultiple : q = (n * 10 ^ (e - quantum q).toNat : Int) * 10 ^ quantum q := by
    rw [Int.cast_mul, Int.cast_pow, Int.cast_ofNat, ten_zpow_toNat (by omega), mul_assoc,
      ← ten_zpow_add, Int.sub_add_cancel]
    exact hq
  refine (rounded_eq_of_abs_lt rfl ?_).trans hmultiple.symm
  rw [← hmultiple, sub_self, abs_zero]
  exact half_pos (ten_zpow_pos _)

/-- Rounding moves a number by half a quantum at most. -/
theorem abs_rounded_sub_le (q : ℚ) : |rounded q - q| ≤ 10 ^ quantum q / 2 := by
  have hten := ten_zpow_pos (quantum q)
  have hnearest := (isNearest_halfEven (q / 10 ^ quantum q)).distance_le
  have hscaled : rounded q - q =
      -(q / 10 ^ quantum q - halfEven (q / 10 ^ quantum q)) * 10 ^ quantum q := by
    rw [rounded]
    field_simp
    ring
  rw [hscaled, abs_mul, abs_neg, abs_of_pos hten]
  linarith [mul_le_mul_of_nonneg_right hnearest hten.le]

/-- Powers of ten are no closer than the halves of their units, so none is between neighbouring
    halves, and numbers there have their leading digits at one place. -/
theorem log_le_of_between (hm : 10 ^ precision ≤ 5 * m) (hx : 5 * m * 10 ^ e < x)
    (hx' : x < 5 * (m + 1) * 10 ^ e) (hy : 5 * m * 10 ^ e < y) :
    e + precision ≤ Int.log 10 x ∧ Int.log 10 x ≤ Int.log 10 y := by
  have hten := ten_zpow_pos e
  have hbase : (10 : ℚ) ^ (e + precision) ≤ 5 * m * 10 ^ e := by
    have hcast : (10 : ℚ) ^ precision ≤ 5 * m := by exact_mod_cast hm
    rw [ten_zpow_add, zpow_natCast, mul_comm]
    exact mul_le_mul_of_nonneg_right hcast hten.le
  have hxpos : 0 < x := (ten_zpow_pos _).trans (hbase.trans_lt hx)
  have hypos : 0 < y := (ten_zpow_pos _).trans (hbase.trans_lt hy)
  have hlog : e + precision ≤ Int.log 10 x := (ten_zpow_le_iff hxpos).mp (hbase.trans hx.le)
  refine ⟨hlog, (ten_zpow_le_iff hypos).mp ?_⟩
  have hplace : 0 ≤ Int.log 10 x - e - 1 := by
    have hprecision : 1 ≤ (precision : Int) := by decide
    omega
  have hpower : (10 : ℚ) ^ Int.log 10 x =
      5 * (2 * 10 ^ (Int.log 10 x - e - 1).toNat : Int) * 10 ^ e := by
    have hsum : Int.log 10 x = Int.log 10 x - e - 1 + 1 + e := by omega
    rw [Int.cast_mul, Int.cast_pow, Int.cast_ofNat, Int.cast_ofNat, ten_zpow_toNat hplace]
    conv_lhs => rw [hsum, ten_zpow_add, ten_zpow_add, zpow_one]
    ring
  have hle := (ten_zpow_le_iff hxpos).mpr le_rfl
  rw [hpower] at hle ⊢
  generalize (2 * 10 ^ (Int.log 10 x - e - 1).toNat : Int) = a at hle ⊢
  have hlt : 5 * ((a : ℚ)) < 5 * (m + 1) := lt_of_mul_lt_mul_right (hle.trans_lt hx') hten.le
  have ham : a < m + 1 := by
    have hcast : (a : ℚ) < m + 1 := by linarith
    exact_mod_cast hcast
  have ham' : (a : ℚ) ≤ m := by exact_mod_cast Int.lt_add_one_iff.mp ham
  have hmul : 5 * (a : ℚ) * 10 ^ e ≤ 5 * m * 10 ^ e :=
    mul_le_mul_of_nonneg_right (by linarith) hten.le
  exact hmul.trans hy.le

/-- Rounding does not see what lies between two neighbouring halves, if these are below the digits
    that are kept. -/
theorem rounded_eq_of_between (hm : 10 ^ precision ≤ 5 * m) (hx : 5 * m * 10 ^ e < x)
    (hx' : x < 5 * (m + 1) * 10 ^ e) (hy : 5 * m * 10 ^ e < y) (hy' : y < 5 * (m + 1) * 10 ^ e) :
    rounded x = rounded y := by
  have hfive : (0 : ℚ) < 5 * 10 ^ e := mul_pos (by norm_num) (ten_zpow_pos e)
  have hmpos : (0 : ℚ) < 5 * m := by
    have hpos : 0 < 5 * m := lt_of_lt_of_le (by decide) hm
    exact_mod_cast hpos
  have hpos : 0 < 5 * m * (10 : ℚ) ^ e := mul_pos hmpos (ten_zpow_pos e)
  obtain ⟨hlog, hle⟩ := log_le_of_between hm hx hx' hy
  have hlogs : Int.log 10 x = Int.log 10 y := le_antisymm hle (log_le_of_between hm hy hy' hx).2
  have hquantum : quantum x = quantum y := by
    rw [quantum, quantum, abs_of_pos (hpos.trans hx), abs_of_pos (hpos.trans hy), hlogs]
  have hplace : 0 ≤ quantum y - e - 1 := by
    have hle : Int.log 10 y + 1 - precision ≤ quantum y := by
      rw [quantum, abs_of_pos (hpos.trans hy)]
      exact le_max_left _ _
    omega
  have hunits : (10 : ℚ) ^ quantum y =
      5 * 10 ^ e * (2 * (10 ^ (quantum y - e - 1).toNat : Int)) := by
    have hsum : quantum y = quantum y - e - 1 + 1 + e := by omega
    rw [Int.cast_pow, Int.cast_ofNat, ten_zpow_toNat hplace]
    conv_lhs => rw [hsum, ten_zpow_add, ten_zpow_add, zpow_one]
    ring
  have hinside : ∀ z : ℚ, 5 * m * 10 ^ e < z → z < 5 * (m + 1) * 10 ^ e →
      m < z / (5 * 10 ^ e) ∧ z / (5 * 10 ^ e) < m + 1 := by
    intro z hz hz'
    rw [lt_div_iff₀ hfive, div_lt_iff₀ hfive]
    exact ⟨by linarith, by linarith⟩
  have hhalf : (0 : Int) < 10 ^ (quantum y - e - 1).toNat := by positivity
  rw [rounded, rounded, hquantum, hunits, div_mul_eq_div_div x, div_mul_eq_div_div y,
    halfEven_div_eq_of_between hhalf (hinside x hx hx').1 (hinside x hx hx').2
      (hinside y hy hy').1 (hinside y hy hy').2]

/-- Rounding sees of what is added to a number with more than all the digits that are kept only
    whether it is positive or negative. -/
theorem rounded_add_eq_of_pos {t : Int} {δ ε : ℚ} (hfive : 5 ∣ t) (ht : 10 ^ precision + 5 ≤ t)
    (hδ : |δ| < 5) (hε : |ε| < 5) (hsign : 0 < δ * ε) (e : Int) :
    rounded ((t + δ) * 10 ^ e) = rounded ((t + ε) * 10 ^ e) := by
  obtain ⟨m, rfl⟩ := hfive
  have hten := ten_zpow_pos e
  rw [abs_lt] at hδ hε
  have hbetween : ∀ (n : Int) (η : ℚ), (5 * n : ℚ) < 5 * m + η → 5 * m + η < 5 * (n + 1) →
      5 * (n : ℚ) * 10 ^ e < ((5 * m : Int) + η) * 10 ^ e ∧
        ((5 * m : Int) + η) * 10 ^ e < 5 * ((n : ℚ) + 1) * 10 ^ e := by
    intro n η hlow hhigh
    rw [Int.cast_mul, Int.cast_ofNat]
    exact ⟨mul_lt_mul_of_pos_right hlow hten, mul_lt_mul_of_pos_right hhigh hten⟩
  rcases mul_pos_iff.mp hsign with ⟨hδ', hε'⟩ | ⟨hδ', hε'⟩
  · obtain ⟨hx, hx'⟩ := hbetween m δ (by linarith) (by linarith)
    obtain ⟨hy, hy'⟩ := hbetween m ε (by linarith) (by linarith)
    exact rounded_eq_of_between (by omega) hx hx' hy hy'
  · have hprevious : ((m - 1 : Int) : ℚ) = m - 1 := by push_cast; rfl
    obtain ⟨hx, hx'⟩ := hbetween (m - 1) δ (by linarith) (by linarith)
    obtain ⟨hy, hy'⟩ := hbetween (m - 1) ε (by linarith) (by linarith)
    exact rounded_eq_of_between (by omega) hx hx' hy hy'

theorem rounded_add_eq {t : Int} {δ ε : ℚ} (hfive : 5 ∣ t) (ht : 10 ^ precision + 5 ≤ |t|)
    (hδ : |δ| < 5) (hε : |ε| < 5) (hsign : 0 < δ * ε) (e : Int) :
    rounded ((t + δ) * 10 ^ e) = rounded ((t + ε) * 10 ^ e) := by
  rcases le_or_gt 0 t with hpos | hneg
  · rw [abs_of_nonneg hpos] at ht
    exact rounded_add_eq_of_pos hfive ht hδ hε hsign e
  · rw [abs_of_neg hneg] at ht
    have hflip : ∀ η : ℚ, ((t : ℚ) + η) * 10 ^ e = -(((-t : Int) + -η) * 10 ^ e) := by
      intro η
      push_cast
      ring
    rw [hflip, hflip, rounded_neg, rounded_neg]
    exact congrArg Neg.neg (rounded_add_eq_of_pos (dvd_neg.mpr hfive) ht
      (by rwa [abs_neg]) (by rwa [abs_neg]) (by rwa [neg_mul_neg]) e)

end Rounded

end ItemDelta
