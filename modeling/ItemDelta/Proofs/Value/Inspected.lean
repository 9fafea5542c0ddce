import ItemDelta.Proofs.Json.Indented
import ItemDelta.Value.Inspected

/-!
# Inspected values stand on one line

Whatever a value holds, there is no line feed in its inspected form: numbers have none in their
texts, and a text shows its own ones as escapes.

## Main results

* `lineFeed_notMem_inspectText` — the inspected form of a text has no line feed.
* `Value.lineFeed_notMem_inspectChars` — nor has that of any value.
-/

namespace ItemDelta

/-! ### Numbers -/

@[simp] theorem lineFeed_notMem_decimalDigits (n : Nat) : '\n' ∉ decimalDigits n := by
  intro h
  have hdigit := isDigit_of_mem_decimalDigits h
  exact absurd hdigit (by decide)

@[simp] theorem lineFeed_notMem_integerDigits (n : Int) : '\n' ∉ integerDigits n := by
  intro h
  have hdigit := Json.isDigit_of_mem_integerDigits h
  exact absurd hdigit (by decide)

namespace Decimal

@[simp] theorem lineFeed_notMem_sign (negative : Bool) : '\n' ∉ sign negative := by
  cases negative <;> decide

theorem lineFeed_notMem_positional {digits : List Char} (h : '\n' ∉ digits) (point : Int) :
    '\n' ∉ positional digits point := by
  have htake : '\n' ∉ digits.take point.toNat := fun hmem => h (List.mem_of_mem_take hmem)
  have hdrop : '\n' ∉ digits.drop point.toNat := fun hmem => h (List.mem_of_mem_drop hmem)
  rw [positional]
  split
  · simp [h]
  · split <;> simp [h, htake, hdrop]

theorem lineFeed_notMem_exponentText (exponent : Int) : '\n' ∉ exponentText exponent := by
  rw [exponentText]
  split <;> simp

/-- The text of a decimal has no line feed. -/
@[simp] theorem lineFeed_notMem_toChars (d : Decimal) : '\n' ∉ d.toChars := by
  cases d with
  | finite negative coefficient exponent =>
    have hpositional := lineFeed_notMem_positional (lineFeed_notMem_decimalDigits coefficient)
    rw [toChars]
    split
    · simp [hpositional]
    · split <;> simp [hpositional, lineFeed_notMem_exponentText]
  | infinite negative => simp [toChars]
  | nan negative signaling payload =>
    rw [toChars]
    cases signaling <;> split <;> simp

end Decimal

namespace Binary64

theorem lineFeed_notMem_exponentText (exponent : Int) : '\n' ∉ exponentText exponent := by
  rw [exponentText]
  split <;> split <;> simp

theorem lineFeed_notMem_layOut {digits : List Char} (h : '\n' ∉ digits) (point : Int) :
    '\n' ∉ layOut digits point := by
  have hpositional := Decimal.lineFeed_notMem_positional h point
  unfold layOut
  split
  · rw [positional]
    split <;> simp [hpositional]
  · split <;> simp_all [lineFeed_notMem_exponentText]

/-- The text of a binary number has no line feed. -/
@[simp] theorem lineFeed_notMem_toChars (x : Binary64) : '\n' ∉ x.toChars := by
  cases x with
  | nan => decide
  | infinite negative => simp [toChars]
  | finite negative mantissa exponent =>
    rw [toChars]
    split
    · simp
    · have hdigits : '\n' ∉ dropTrailingZeros (decimalDigits (shortest mantissa exponent).1) := by
        intro h
        rw [dropTrailingZeros, List.mem_reverse] at h
        have hmem := (List.dropWhile_suffix _).subset h
        exact lineFeed_notMem_decimalDigits _ (List.mem_reverse.mp hmem)
      rw [List.mem_append, not_or]
      exact ⟨Decimal.lineFeed_notMem_sign negative, lineFeed_notMem_layOut hdigits _⟩

end Binary64

/-! ### Texts -/

theorem lineFeed_notMem_hexDigits (width n : Nat) : '\n' ∉ hexDigits width n := by
  have hdigit : ∀ k < 16, k.digitChar ≠ '\n' := by decide
  have hdigits : '\n' ∉ Nat.toDigits 16 n := by
    induction n using Nat.strongRecOn with
    | ind n ih =>
      by_cases hn : n < 16
      · rw [Nat.toDigits_of_lt_base hn, List.mem_singleton]
        exact (hdigit n hn).symm
      · have hle : 16 ≤ n := Nat.le_of_not_lt hn
        rw [Nat.toDigits_of_base_le (by decide) hle, List.mem_append, List.mem_singleton, not_or]
        exact ⟨ih (n / 16) (by omega), (hdigit _ (Nat.mod_lt n (by decide))).symm⟩
  rw [hexDigits, List.mem_append, not_or]
  exact ⟨fun h => absurd (List.eq_of_mem_replicate h) (by decide), hdigits⟩

theorem lineFeed_notMem_inspectCharacter {mark : Char} (h : mark ≠ '\n') (c : Char) :
    '\n' ∉ inspectCharacter mark c := by
  rw [inspectCharacter]
  split
  · rename_i hmark
    have hc : c ≠ '\n' := by
      rintro rfl
      exact hmark.elim (fun heq => h heq.symm) (by decide)
    simp [hc.symm]
  · split
    · decide
    · split
      · decide
      · rename_i hfeed
        split
        · decide
        · split
          · simp [Ne.symm hfeed]
          · split
            · simp [lineFeed_notMem_hexDigits]
            · split <;> simp [lineFeed_notMem_hexDigits]

/-- The inspected form of a text has no line feed. -/
theorem lineFeed_notMem_inspectText (text : List Char) : '\n' ∉ inspectChars text := by
  have hmark : quoteOf text ≠ '\n' := by
    rw [quoteOf]
    split <;> decide
  have hcharacters : '\n' ∉ text.flatMap (inspectCharacter (quoteOf text)) := by
    rw [List.mem_flatMap]
    rintro ⟨c, -, hc⟩
    exact lineFeed_notMem_inspectCharacter hmark c hc
  simp [inspectChars, hcharacters, hmark.symm]

@[simp] theorem Key.lineFeed_notMem_inspectChars (key : Key) : '\n' ∉ key.inspectChars := by
  cases key with
  | name text => exact lineFeed_notMem_inspectText text.toList
  | index position => exact lineFeed_notMem_decimalDigits position

/-! ### Values -/

namespace Value

theorem lineFeed_notMem_commaJoined {items : List (List Char)} (h : ∀ item ∈ items, '\n' ∉ item) :
    '\n' ∉ commaJoined items := by
  induction items using commaJoined.induct with
  | case1 => exact List.not_mem_nil
  | case2 item => exact h item List.mem_cons_self
  | case3 item items hitems ih =>
    have hrest := ih fun other hother => h other (List.mem_cons_of_mem _ hother)
    rw [commaJoined]
    · simp [h item List.mem_cons_self, hrest]
    · exact hitems

section Equations

variable (d : Decimal) (items elements : List Value) (members : Members) (v : Value)

theorem inspectChars_decimal :
    inspectChars (.decimal d) = "Decimal('".toList ++ d.toChars ++ "')".toList := rfl

theorem inspectChars_list :
    inspectChars (.list items) = '[' :: commaJoined (inspectItems items) ++ [']'] := rfl

theorem inspectChars_map :
    inspectChars (.map members) = '\x7b' :: commaJoined (inspectMembers members) ++ ['\x7d'] := rfl

theorem inspectChars_set_cons : inspectChars (.set (v :: elements)) =
    '\x7b' :: commaJoined (inspectItems (v :: elements)) ++ ['\x7d'] := rfl

end Equations

mutual

/-- The inspected form of a value has no line feed. -/
theorem lineFeed_notMem_inspectChars : ∀ v : Value, '\n' ∉ v.inspectChars
  | .null => by decide
  | .bool true => by decide
  | .bool false => by decide
  | .int n => lineFeed_notMem_integerDigits n
  | .float x => Binary64.lineFeed_notMem_toChars x
  | .decimal d => by
    rw [inspectChars_decimal]
    simp only [List.mem_append, not_or]
    exact ⟨⟨by decide, d.lineFeed_notMem_toChars⟩, by decide⟩
  | .text s => lineFeed_notMem_inspectText s.toList
  | .list items => by
    have hitems := lineFeed_notMem_commaJoined (lineFeed_notMem_inspectItems items)
    simp [inspectChars_list, hitems]
  | .map members => by
    have hmembers := lineFeed_notMem_commaJoined (lineFeed_notMem_inspectMembers members)
    simp [inspectChars_map, hmembers]
  | .set [] => by decide
  | .set (v :: elements) => by
    have hitems := lineFeed_notMem_commaJoined (lineFeed_notMem_inspectItems (v :: elements))
    simp [inspectChars_set_cons, hitems]

theorem lineFeed_notMem_inspectItems : ∀ vs : List Value, ∀ item ∈ inspectItems vs, '\n' ∉ item
  | [] => by simp [inspectItems]
  | v :: vs => by
    rw [inspectItems, List.forall_mem_cons]
    exact ⟨lineFeed_notMem_inspectChars v, lineFeed_notMem_inspectItems vs⟩

theorem lineFeed_notMem_inspectMembers :
    ∀ members : List (Key × Value), ∀ item ∈ inspectMembers members, '\n' ∉ item
  | [] => by simp [inspectMembers]
  | (key, v) :: members => by
    rw [inspectMembers, List.forall_mem_cons]
    refine ⟨?_, lineFeed_notMem_inspectMembers members⟩
    simp [lineFeed_notMem_inspectChars v]

end

end Value

end ItemDelta
