import ItemDelta.Text.Quoted

/-!
# Quoted texts, read back

A literal is scanned as the 16-bit units of its text, and these make up the text again. In the ASCII
form a character beyond the Basic Multilingual Plane stands as two units.

## Main definitions

* `units` — the 16-bit units of a character.

## Main results

* `hexUnit?_hexDigits` — a unit is read back from its four digits.
* `ofUnits_flatMap_units` — the units of a text make up the text.
* `scanQuoted?_quote`, `scanQuoted?_quoteAscii` — a literal is read back, in both forms.
* `isAscii_of_mem_quoteAscii` — the ASCII form holds nothing else.
-/

namespace ItemDelta

/-! ### Hexadecimal digits -/

section Hexadecimal

variable {width n : Nat}

/-- Padding puts zeros in front of a number, where they are its leading digits. -/
theorem hexDigits_succ (hwidth : 0 < width) (n : Nat) :
    hexDigits (width + 1) n = hexDigits width (n / 16) ++ [(n % 16).digitChar] := by
  obtain ⟨width, rfl⟩ := Nat.exists_eq_succ_of_ne_zero (Nat.ne_of_gt hwidth)
  by_cases hn : n < 16
  · rw [hexDigits, hexDigits, Nat.div_eq_of_lt hn, Nat.mod_eq_of_lt hn, Nat.toDigits_of_lt_base hn]
    show List.replicate (width + 1) '0' ++ _ = (List.replicate width '0' ++ ['0']) ++ _
    rw [List.replicate_succ']
  · rw [hexDigits, hexDigits, Nat.toDigits_of_base_le (by decide) (Nat.le_of_not_lt hn),
      List.length_append, List.length_singleton, Nat.add_sub_add_right, List.append_assoc]

theorem hexDigits_one (hn : n < 16) : hexDigits 1 n = [n.digitChar] := by
  rw [hexDigits, Nat.toDigits_of_lt_base hn]
  rfl

/-- A unit has four digits, which tell it. -/
theorem hexUnit?_hexDigits (hn : n < 0x10000) : ∃ a b c d, hexDigits 4 n = [a, b, c, d] ∧
    hexUnit? a b c d = some n ∧ ∀ x ∈ [a, b, c, d], x ≠ '"' ∧ x ≠ '\\' ∧ x.toNat < 128 := by
  have hdigit : ∀ k < 16, hexDigit? k.digitChar = some k ∧ k.digitChar ≠ '"' ∧
      k.digitChar ≠ '\\' ∧ k.digitChar.toNat < 128 := by decide
  have hfirst : n / 16 / 16 / 16 < 16 := by omega
  have hlow : ∀ k, k % 16 < 16 := fun k => Nat.mod_lt k (by decide)
  refine ⟨(n / 16 / 16 / 16).digitChar, (n / 16 / 16 % 16).digitChar, (n / 16 % 16).digitChar,
    (n % 16).digitChar, ?_, ?_, ?_⟩
  · rw [hexDigits_succ (by decide), hexDigits_succ (by decide), hexDigits_succ (by decide),
      hexDigits_one hfirst]
    rfl
  · simp only [hexUnit?, (hdigit _ hfirst).1, (hdigit _ (hlow _)).1, Option.some.injEq]
    omega
  · simp only [List.forall_mem_cons, List.not_mem_nil, false_imp_iff, implies_true, and_true]
    exact ⟨(hdigit _ hfirst).2, (hdigit _ (hlow _)).2, (hdigit _ (hlow _)).2,
      (hdigit _ (hlow _)).2⟩

end Hexadecimal

/-! ### Units -/

/-- The 16-bit units of a character: itself, or the two halves of a surrogate pair. -/
def units (c : Char) : List Nat :=
  if c.toNat < 0x10000 then [c.toNat]
  else [0xd800 + (c.toNat - 0x10000) / 0x400, 0xdc00 + (c.toNat - 0x10000) % 0x400]

section Units

variable {c : Char}

theorem toNat_lt (c : Char) : c.toNat < 0x110000 := by
  have hvalid := c.valid
  simp only [UInt32.isValidChar, Nat.isValidChar] at hvalid
  simp only [Char.toNat]
  omega

theorem not_isSurrogate (c : Char) :
    isHighSurrogate c.toNat = false ∧ isLowSurrogate c.toNat = false := by
  have hvalid := c.valid
  simp only [UInt32.isValidChar, Nat.isValidChar] at hvalid
  simp only [isHighSurrogate, isLowSurrogate, Char.toNat, Bool.and_eq_false_iff,
    decide_eq_false_iff_not]
  omega

theorem unitCharacter_toNat (c : Char) : unitCharacter c.toNat = c := by
  simp [unitCharacter, not_isSurrogate c]

/-- The character of one unit does not make a pair with what follows it. -/
theorem ofUnits_toNat_cons (c : Char) (rest : List Nat) :
    ofUnits (c.toNat :: rest) = c :: ofUnits rest := by
  cases rest with
  | nil => simp [ofUnits, unitCharacter_toNat]
  | cons unit rest =>
    rw [ofUnits, (not_isSurrogate c).1, Bool.false_and, if_neg Bool.false_ne_true,
      unitCharacter_toNat]

/-- The two halves of a character beyond the Basic Multilingual Plane make a pair. -/
theorem ofUnits_pair_cons (hc : ¬c.toNat < 0x10000) (rest : List Nat) :
    ofUnits ((0xd800 + (c.toNat - 0x10000) / 0x400) ::
      (0xdc00 + (c.toNat - 0x10000) % 0x400) :: rest) = c :: ofUnits rest := by
  have hmax := toNat_lt c
  have hhigh : isHighSurrogate (0xd800 + (c.toNat - 0x10000) / 0x400) = true := by
    simp only [isHighSurrogate, Bool.and_eq_true, decide_eq_true_eq]
    omega
  have hlow : isLowSurrogate (0xdc00 + (c.toNat - 0x10000) % 0x400) = true := by
    simp only [isLowSurrogate, Bool.and_eq_true, decide_eq_true_eq]
    omega
  have hcode : 0x10000 + (0xd800 + (c.toNat - 0x10000) / 0x400 - 0xd800) * 0x400 +
      (0xdc00 + (c.toNat - 0x10000) % 0x400 - 0xdc00) = c.toNat := by
    omega
  rw [ofUnits, hhigh, hlow, Bool.and_self, if_pos rfl, pairCharacter, hcode, Char.ofNat_toNat]

/-- The units of a text make up the text. -/
theorem ofUnits_flatMap_units (text : List Char) : ofUnits (text.flatMap units) = text := by
  induction text with
  | nil => rfl
  | cons c text ih =>
    rw [List.flatMap_cons, units]
    split
    · rw [List.singleton_append, ofUnits_toNat_cons, ih]
    · rename_i hc
      rw [List.cons_append, List.singleton_append, ofUnits_pair_cons hc, ih]

/-- The units of a text without surrogates are the code points of its characters. -/
theorem ofUnits_map_toNat (text : List Char) : ofUnits (text.map Char.toNat) = text := by
  induction text with
  | nil => rfl
  | cons c text ih => rw [List.map_cons, ofUnits_toNat_cons, ih]

end Units

/-! ### Literals -/

section Literals

variable {n : Nat}

/-- A character stands inside a literal as a backslash and a letter, as the escape of its unit, or
    as it is. -/
theorem escapeControl_cases (c : Char) :
    (∃ d, escapeControl c = ['\\', d] ∧ letterEscape? d = some c ∧ d ≠ 'u' ∧ d ≠ '\n' ∧
        d.toNat < 128) ∨
      (c.toNat < 0x20 ∧ escapeControl c = unitEscape c.toNat) ∨
      (escapeControl c = [c] ∧ ¬c.toNat < 0x20 ∧ c ≠ '"' ∧ c ≠ '\\') := by
  by_cases hshort : c = '"' ∨ c = '\\' ∨ c = '\n' ∨ c = '\r' ∨ c = '\t' ∨ c = '\x0c' ∨ c = '\x08'
  · left
    rcases hshort with rfl | rfl | rfl | rfl | rfl | rfl | rfl <;>
      exact ⟨_, rfl, by decide, by decide, by decide, by decide⟩
  · right
    simp only [not_or] at hshort
    obtain ⟨hquote, hslash, hn, hr, ht, hf, hb⟩ := hshort
    simp only [escapeControl, hquote, hslash, hn, hr, ht, hf, hb, if_false]
    by_cases hlow : c.toNat < 0x20
    · exact .inl ⟨hlow, if_pos hlow⟩
    · exact .inr ⟨if_neg hlow, hlow, hquote, hslash⟩

theorem scanUnits?_unitEscape (hn : n < 0x10000) (rest : List Char) :
    scanUnits? (unitEscape n ++ rest) =
      (scanUnits? rest).map fun (units, after) => (n :: units, after) := by
  obtain ⟨a, b, c, d, hdigits, hunit, -⟩ := hexUnit?_hexDigits hn
  simp only [unitEscape, hdigits, List.cons_append, List.nil_append, scanUnits?, hunit]

theorem scanUnits?_escapeControl (c : Char) (rest : List Char) :
    scanUnits? (escapeControl c ++ rest) =
      (scanUnits? rest).map fun (units, after) => (c.toNat :: units, after) := by
  rcases escapeControl_cases c with ⟨d, he, hd, hu, -⟩ | ⟨hlow, he⟩ | ⟨he, hlow, hquote, hslash⟩
  · simp only [he, List.cons_append, List.nil_append]
    rw [scanUnits?, hd]
    intro _ _ _ _ _ h _
    exact hu h
  · rw [he]
    exact scanUnits?_unitEscape (Nat.lt_trans hlow (by decide)) rest
  · have hkept : ¬(c.toNat < 0x20 ∨ c = '\\') := not_or.mpr ⟨hlow, hslash⟩
    simp only [he, List.cons_append, List.nil_append]
    rw [scanUnits?, if_neg hkept]
    · exact hquote
    · intro _ _ _ _ _ h _
      exact hslash h
    · intro _ _ h _
      exact hslash h

theorem scanUnits?_escapeAscii (c : Char) (rest : List Char) :
    scanUnits? (escapeAscii c ++ rest) =
      (scanUnits? rest).map fun (found, after) => (units c ++ found, after) := by
  by_cases hplane : c.toNat < 0x10000
  · rw [units, if_pos hplane]
    by_cases hlow : c.toNat < 0x7f
    · rw [escapeAscii, if_pos hlow]
      exact scanUnits?_escapeControl c rest
    · rw [escapeAscii, if_neg hlow, if_pos hplane]
      exact scanUnits?_unitEscape hplane rest
  · have hmax := toNat_lt c
    have hhigh : 0xd800 + (c.toNat - 0x10000) / 0x400 < 0x10000 := by omega
    have hlow : 0xdc00 + (c.toNat - 0x10000) % 0x400 < 0x10000 := by omega
    rw [escapeAscii, if_neg (by omega), if_neg hplane, units, if_neg hplane, List.append_assoc,
      scanUnits?_unitEscape hhigh, scanUnits?_unitEscape hlow, Option.map_map]
    rfl

/-- A literal whose characters are scanned as units one by one is scanned as the units of all. -/
theorem scanUnits?_flatMap {escape : Char → List Char} (found : Char → List Nat)
    (hstep : ∀ c rest, scanUnits? (escape c ++ rest) =
      (scanUnits? rest).map fun (units, after) => (found c ++ units, after))
    (text rest : List Char) :
    scanUnits? (text.flatMap escape ++ '"' :: rest) = some (text.flatMap found, rest) := by
  induction text with
  | nil => rfl
  | cons c text ih =>
    rw [List.flatMap_cons, List.append_assoc, hstep, ih]
    rfl

/-- A literal is read back. -/
theorem scanQuoted?_quote (text rest : List Char) :
    scanQuoted? (text.flatMap escapeControl ++ '"' :: rest) = some (text, rest) := by
  have hscan := scanUnits?_flatMap (fun c => [c.toNat]) scanUnits?_escapeControl text rest
  rw [scanQuoted?, hscan, Option.map_some, ← List.map_eq_flatMap]
  exact congrArg (fun found => some (found, rest)) (ofUnits_map_toNat text)

/-- A literal in ASCII is read back. -/
theorem scanQuoted?_quoteAscii (text rest : List Char) :
    scanQuoted? (text.flatMap escapeAscii ++ '"' :: rest) = some (text, rest) := by
  rw [scanQuoted?, scanUnits?_flatMap units scanUnits?_escapeAscii, Option.map_some]
  exact congrArg (fun found => some (found, rest)) (ofUnits_flatMap_units text)

end Literals

/-! ### ASCII -/

/-- A character of seven bits. -/
def IsAscii (c : Char) : Prop := c.toNat < 128

instance (c : Char) : Decidable (IsAscii c) := inferInstanceAs (Decidable (c.toNat < 128))

section Ascii

variable {n : Nat} {c x : Char} {text : List Char}

/-- Whether a text is ASCII can be computed. -/
theorem isAscii_of_all (h : (text.all fun c => IsAscii c) = true) (hx : x ∈ text) : IsAscii x :=
  of_decide_eq_true (List.all_eq_true.mp h x hx)

theorem isAscii_of_mem_unitEscape (hn : n < 0x10000) (hx : x ∈ unitEscape n) : IsAscii x := by
  obtain ⟨a, b, c, d, hdigits, -, hascii⟩ := hexUnit?_hexDigits hn
  rw [unitEscape, hdigits, List.mem_cons, List.mem_cons] at hx
  rcases hx with rfl | rfl | hx
  · decide
  · decide
  · exact (hascii x hx).2.2

theorem isAscii_of_mem_escapeControl (hc : c.toNat < 0x7f) (hx : x ∈ escapeControl c) :
    IsAscii x := by
  rcases escapeControl_cases c with ⟨d, he, -, -, -, hd⟩ | ⟨hlow, he⟩ | ⟨he, -⟩
  · rw [he, List.mem_cons, List.mem_singleton] at hx
    rcases hx with rfl | rfl
    · decide
    · exact hd
  · exact isAscii_of_mem_unitEscape (Nat.lt_trans hlow (by decide)) (he ▸ hx)
  · rw [he, List.mem_singleton] at hx
    rw [hx]
    exact Nat.lt_trans hc (by decide)

theorem isAscii_of_mem_escapeAscii (hx : x ∈ escapeAscii c) : IsAscii x := by
  rw [escapeAscii] at hx
  by_cases hlow : c.toNat < 0x7f
  · rw [if_pos hlow] at hx
    exact isAscii_of_mem_escapeControl hlow hx
  · rw [if_neg hlow] at hx
    by_cases hplane : c.toNat < 0x10000
    · rw [if_pos hplane] at hx
      exact isAscii_of_mem_unitEscape hplane hx
    · have hmax := toNat_lt c
      rw [if_neg hplane, List.mem_append] at hx
      rcases hx with hx | hx
      · exact isAscii_of_mem_unitEscape (by omega) hx
      · exact isAscii_of_mem_unitEscape (by omega) hx

/-- A literal in ASCII form holds nothing else. -/
theorem isAscii_of_mem_quoteAscii (hx : x ∈ quoteAscii text) : IsAscii x := by
  rw [quoteAscii, List.cons_append, List.mem_cons, List.mem_append, List.mem_flatMap,
    List.mem_singleton] at hx
  rcases hx with rfl | ⟨c, -, hx⟩ | rfl
  · decide
  · exact isAscii_of_mem_escapeAscii hx
  · decide

end Ascii

end ItemDelta
