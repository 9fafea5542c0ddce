import Mathlib.Data.List.Nodup
import Mathlib.Data.List.Perm.Subperm
import ItemDelta.Alias.Basic

/-!
# Numbered placeholders

A placeholder that is taken gets the next number of a counter at its end. Numbers whose texts have
one length leave one part of the placeholder in place, so such candidates differ; and of enough
numbers in a row, enough have texts of one length. This is why one of the candidates is free before
too many numbers are drawn.

## Main definitions

* `suffixed` — a placeholder with a number at its end.
* `candidate` — the placeholder that is tried after some draws.

## Main results

* `exists_length_integerText` — of ten times as many numbers in a row, so many have one length.
* `exists_isFree_of_inj` — of more candidates than there are taken ones, one is free.
* `exists_isFree_candidate` — one of the candidates for a placeholder is free.
-/

namespace ItemDelta

/-! ### Texts of numbers -/

theorem length_integerText (n : Int) : (integerText n).length = (integerDigits n).length := by
  rw [integerText, String.length_ofList]

theorem integerDigits_of_nonneg {n : Int} (h : 0 ≤ n) :
    integerDigits n = decimalDigits n.toNat := by
  obtain ⟨k, rfl⟩ := Int.eq_ofNat_of_zero_le h
  rfl

theorem integerDigits_neg {k : Nat} (h : 0 < k) :
    integerDigits (-(k : Int)) = '-' :: decimalDigits k := by
  obtain ⟨k, rfl⟩ := Nat.exists_eq_add_one_of_ne_zero (Nat.ne_of_gt h)
  rfl

theorem minus_notMem_decimalDigits (k : Nat) : '-' ∉ decimalDigits k := by
  intro h
  have hdigit := isDigit_of_mem_decimalDigits h
  exact absurd hdigit (by decide)

theorem decimalDigits_inj {j k : Nat} (h : decimalDigits j = decimalDigits k) : j = k := by
  rw [← digitsValue_decimalDigits j, h, digitsValue_decimalDigits]

theorem integerText_inj {m n : Int} (h : integerText m = integerText n) : m = n := by
  have h : integerDigits m = integerDigits n := String.ofList_injective h
  -- Of two numbers with different signs, only one has a minus in its text.
  cases m with
  | ofNat j =>
    cases n with
    | ofNat k => rw [decimalDigits_inj h]
    | negSucc k =>
      have hminus : '-' ∈ decimalDigits j := by
        rw [show decimalDigits j = '-' :: decimalDigits (k + 1) from h]
        exact List.mem_cons_self
      exact absurd hminus (minus_notMem_decimalDigits j)
  | negSucc j =>
    cases n with
    | ofNat k =>
      have hminus : '-' ∈ decimalDigits k := by
        rw [show decimalDigits k = '-' :: decimalDigits (j + 1) from h.symm]
        exact List.mem_cons_self
      exact absurd hminus (minus_notMem_decimalDigits k)
    | negSucc k =>
      have heq := decimalDigits_inj (List.cons.inj h).2
      rw [Nat.succ.inj heq]

theorem length_decimalDigits {digits n : Nat} (hlow : Nat.pow 10 digits ≤ n ∨ digits = 0)
    (hhigh : n < Nat.pow 10 (digits + 1)) : (decimalDigits n).length = digits + 1 := by
  have hle : (decimalDigits n).length ≤ digits + 1 :=
    (Nat.length_toDigits_le_iff (by decide) (Nat.succ_pos digits)).mpr hhigh
  have hpos : 0 < (decimalDigits n).length := Nat.length_toDigits_pos
  rcases Nat.eq_zero_or_pos digits with rfl | hdigits
  · omega
  · have hlow : Nat.pow 10 digits ≤ n := hlow.resolve_right (Nat.ne_of_gt hdigits)
    have hnot : ¬ (decimalDigits n).length ≤ digits := fun h =>
      Nat.not_lt.mpr hlow ((Nat.length_toDigits_le_iff (by decide) hdigits).mp h)
    omega

theorem exists_length_decimalDigits (first count : Nat) :
    ∃ start length, first ≤ start ∧ start + count ≤ first + 5 * count ∧
      ∀ n, start ≤ n → n < start + count → (decimalDigits n).length = length := by
  -- The power below the last number from which `count` others follow leaves room for them.
  obtain ⟨digits, hlow, hhigh⟩ : ∃ digits, (Nat.pow 10 digits ≤ first + 4 * count ∨ digits = 0) ∧
      first + 4 * count < Nat.pow 10 (digits + 1) := by
    have hlength := (Nat.length_toDigits_le_iff (b := 10) (n := first + 4 * count) (by decide)
      Nat.length_toDigits_pos).mp (Nat.le_refl _)
    refine ⟨(Nat.toDigits 10 (first + 4 * count)).length - 1, ?_, ?_⟩
    · rcases Nat.eq_zero_or_pos ((Nat.toDigits 10 (first + 4 * count)).length - 1) with h | h
      · exact .inr h
      · refine .inl (Nat.not_lt.mp fun hlt => ?_)
        have hle := (Nat.length_toDigits_le_iff (by decide) h).mpr hlt
        omega
    · rw [Nat.sub_add_cancel Nat.length_toDigits_pos]
      exact hlength
  have hten : Nat.pow 10 (digits + 1) = Nat.pow 10 digits * 10 := rfl
  by_cases hfirst : Nat.pow 10 digits ≤ first ∨ digits = 0
  · refine ⟨first, digits + 1, Nat.le_refl first, by omega, fun n hn hlast => ?_⟩
    exact length_decimalDigits (hfirst.imp_left (Nat.le_trans · hn)) (by omega)
  · refine ⟨Nat.pow 10 digits, digits + 1, by omega, by omega, fun n hn hlast => ?_⟩
    exact length_decimalDigits (.inl hn) (by omega)

/-- Of ten times as many integers in a row, `count` in a row have texts of one length. -/
theorem exists_length_integerText (first : Int) (count : Nat) :
    ∃ (start : Int) (length : Nat), first ≤ start ∧ start + count ≤ first + 10 * count ∧
      ∀ n, start ≤ n → n < start + count → (integerText n).length = length := by
  by_cases hneg : first + 5 * count ≤ 0
  · -- All of the first half are negative.
    obtain ⟨start, length, hstart, hend, hlength⟩ :=
      exists_length_decimalDigits (1 - first - 5 * count).toNat count
    refine ⟨1 - start - count, length + 1, by omega, by omega, fun n hn hlast => ?_⟩
    have hpos : 0 < (-n).toNat := by omega
    have heq : n = -((-n).toNat : Int) := by omega
    rw [length_integerText, heq, integerDigits_neg hpos, List.length_cons,
      hlength _ (by omega) (by omega)]
  · obtain ⟨start, length, hstart, hend, hlength⟩ := exists_length_decimalDigits first.toNat count
    refine ⟨start, length, by omega, by omega, fun n hn hlast => ?_⟩
    rw [length_integerText, integerDigits_of_nonneg (by omega), hlength _ (by omega) (by omega)]

/-! ### Candidates -/

/-- A placeholder with a number at its end. -/
def suffixed (base : String) (number : Int) : String :=
  withSuffix base maxNameLength (integerText number)

/-- The placeholder that is tried after so many draws: the base itself, then the base with each of
    the numbers from `counter` on. -/
def candidate (base : String) (counter : Int) : Nat → String
  | 0 => base
  | draws + 1 => suffixed base (counter + draws)

theorem toList_withSuffix (name : String) (limit : Int) (suffix : String) :
    (withSuffix name limit suffix).toList =
      firstCharacters name.toList (limit - suffix.length) ++ suffix.toList := by
  rw [withSuffix, String.toList_append, String.toList_ofList]

/-- Suffixes of one length leave one part of the base, so they make different placeholders. -/
theorem suffixed_inj {base : String} {m n : Int}
    (hlength : (integerText m).length = (integerText n).length)
    (h : suffixed base m = suffixed base n) : m = n := by
  have h := congrArg String.toList h
  rw [suffixed, suffixed, toList_withSuffix, toList_withSuffix, hlength] at h
  exact integerText_inj (String.toList_injective (List.append_cancel_left h))

/-- Of more candidates than there are taken placeholders, all different, one is free. -/
theorem exists_isFree_of_inj {isFree : String → Bool} {taken : List String}
    (htaken : ∀ text, isFree text = false → text ∈ taken) (f : Nat → String)
    (hinj : ∀ i ≤ taken.length, ∀ j ≤ taken.length, f i = f j → i = j) :
    ∃ i ≤ taken.length, isFree (f i) = true := by
  by_contra hall
  let candidates := (List.range (taken.length + 1)).map f
  have hnodup : candidates.Nodup := by
    rw [List.nodup_map_iff_inj_on List.nodup_range]
    intro i hi j hj h
    rw [List.mem_range] at hi hj
    exact hinj i (Nat.le_of_lt_succ hi) j (Nat.le_of_lt_succ hj) h
  have hsubset : candidates ⊆ taken := by
    intro text htext
    obtain ⟨i, hi, rfl⟩ := List.mem_map.mp htext
    rw [List.mem_range] at hi
    apply htaken
    exact Bool.eq_false_iff.mpr fun hfree => hall ⟨i, Nat.le_of_lt_succ hi, hfree⟩
  have hle := (hnodup.subperm hsubset).length_le
  rw [List.length_map, List.length_range] at hle
  omega

/-- As many numbers as may be drawn are enough: so many candidates cannot all be taken. -/
theorem exists_isFree_candidate {isFree : String → Bool} {taken : List String}
    (htaken : ∀ text, isFree text = false → text ∈ taken) (base : String) (counter : Int) :
    ∃ i, 0 < i ∧ i ≤ drawLimit taken.length ∧ isFree (candidate base counter i) = true := by
  obtain ⟨start, length, hstart, hend, hlength⟩ :=
    exists_length_integerText counter (taken.length + 1)
  -- The numbers of one length make more candidates than there are taken ones.
  have hinj : ∀ i ≤ taken.length, ∀ j ≤ taken.length,
      suffixed base (start + (i : Nat)) = suffixed base (start + (j : Nat)) → i = j := by
    intro i hi j hj h
    have heq := suffixed_inj (by rw [hlength _ (by omega) (by omega),
      hlength _ (by omega) (by omega)]) h
    omega
  obtain ⟨i, hi, hfree⟩ := exists_isFree_of_inj htaken _ hinj
  refine ⟨(start - counter).toNat + i + 1, by omega, by rw [drawLimit]; omega, ?_⟩
  have hnumber : counter + (((start - counter).toNat + i : Nat) : Int) = start + (i : Nat) := by
    omega
  rw [candidate, hnumber]
  exact hfree

end ItemDelta
