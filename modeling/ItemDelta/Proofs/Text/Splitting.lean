import ItemDelta.Text.Words

/-!
# Where words end

The words of a text are its letters and numbers in their order. They divide wherever something else
stands in between, and between two neighbours just where the second one starts a new word. No other
list of words keeps these rules.

## Main definitions

* `wordCharacters` — the characters of a text that words are made of.
* `StartsWord` — where the second of two neighbours starts a new word.
* `DividesAt` — some words end where the first part of their characters does.
* `IsSplitting` — the rules for the words of a text.

## Main results

* `dividesAt_splitWords_of_removed` — the words divide where something else stands in between.
* `dividesAt_splitWords_iff` — between two neighbours, they divide just where a new word starts.
* `eq_of_dividesAt_iff` — words that are not empty are told by where they divide.
* `isSplitting_iff_eq_splitWords` — the words of a text are the only ones that keep the rules.
-/

namespace ItemDelta

/-- The characters that words are made of: letters and numbers, and no underscore. -/
def isWordCharacter (c : Char) : Bool := isAlphanumeric c && c != '_'

/-- The characters of a text that words are made of. -/
def wordCharacters (text : List Char) : List Char := text.filter isWordCharacter

/-- Of two neighbours, the second one starts a new word: digits begin or end there, or a capital
    stands behind what is neither a capital nor a digit, or behind a capital and in front of a
    small letter. -/
def StartsWord (previous current : Char) (next : Option Char) : Prop :=
  isDigitCharacter previous ≠ isDigitCharacter current ∨
    (isUpperCase previous = false ∧ isDigitCharacter previous = false ∧
      isUpperCase current = true) ∨
    (isUpperCase previous = true ∧ isUpperCase current = true ∧
      ∃ c, next = some c ∧ isLowerCase c = true)

/-- Some words end where the first part of their characters does. -/
def DividesAt (words : List (List Char)) (before after : List Char) : Prop :=
  ∃ left right, words = left ++ right ∧ left.flatten = before ∧ right.flatten = after

/-- The rules for the words of a text: they are not empty, nothing is lost but what is no letter and
    no number, no word goes on behind such a thing, and between two neighbours the words divide just
    where the second one starts a new word. -/
structure IsSplitting (text : List Char) (words : List (List Char)) : Prop where
  ne_nil : ∀ word ∈ words, word ≠ []
  flatten_eq : words.flatten = wordCharacters text
  divides_of_removed : ∀ before c after, text = before ++ c :: after →
    isWordCharacter c = false → DividesAt words (wordCharacters before) (wordCharacters after)
  divides_iff : ∀ before previous current after, text = before ++ previous :: current :: after →
    isWordCharacter previous = true → isWordCharacter current = true →
    (DividesAt words (wordCharacters (before ++ [previous])) (wordCharacters (current :: after)) ↔
      StartsWord previous current (after.head?.filter isWordCharacter))

/-! ### The characters of words -/

theorem isWordCharacter_eq_isAlphanumeric : isWordCharacter = isAlphanumeric := by
  have hunderscore : isAlphanumeric '_' = false := by decide
  funext c
  by_cases hc : c = '_'
  · rw [hc, isWordCharacter, hunderscore]
    rfl
  · simp [isWordCharacter, hc]

theorem isWordBoundary_iff {previous current : Char} {next : Option Char} :
    isWordBoundary previous current next = true ↔ StartsWord previous current next := by
  simp [isWordBoundary, StartsWord, Option.any_eq_true, and_assoc, or_assoc]

@[simp] theorem wordCharacters_nil : wordCharacters [] = [] := rfl

@[simp] theorem wordCharacters_append (before after : List Char) :
    wordCharacters (before ++ after) = wordCharacters before ++ wordCharacters after :=
  List.filter_append ..

theorem wordCharacters_eq_append_iff {text before after : List Char} :
    wordCharacters text = before ++ after ↔
      ∃ front back, text = front ++ back ∧ wordCharacters front = before ∧
        wordCharacters back = after :=
  List.filter_eq_append_iff

theorem wordCharacters_cons_of_pos {c : Char} (h : isWordCharacter c = true) (text : List Char) :
    wordCharacters (c :: text) = c :: wordCharacters text :=
  List.filter_cons_of_pos h

theorem wordCharacters_cons_of_neg {c : Char} (h : isWordCharacter c = false) (text : List Char) :
    wordCharacters (c :: text) = wordCharacters text :=
  List.filter_cons_of_neg (by simp [h])

/-! ### Divided lists of words -/

section DividesAt

variable {words others : List (List Char)} {word before after : List Char} {c : Char}

theorem dividesAt_nil (words : List (List Char)) : DividesAt words [] words.flatten :=
  ⟨[], words, rfl, rfl, rfl⟩

theorem dividesAt_flatten (words : List (List Char)) : DividesAt words words.flatten [] :=
  ⟨words, [], (List.append_nil words).symm, rfl, rfl⟩

/-- Words divide in front of all of them, or behind the first one where the others divide. -/
theorem dividesAt_cons_iff : DividesAt (word :: words) before after ↔
    (before = [] ∧ after = (word :: words).flatten) ∨
      ∃ rest, before = word ++ rest ∧ DividesAt words rest after := by
  constructor
  · rintro ⟨left, right, hwords, rfl, rfl⟩
    cases left with
    | nil => exact .inl ⟨rfl, by rw [hwords]; rfl⟩
    | cons first left =>
      rw [List.cons_append, List.cons.injEq] at hwords
      exact .inr ⟨left.flatten, by rw [hwords.1]; rfl, left, right, hwords.2, rfl, rfl⟩
  · rintro (⟨rfl, rfl⟩ | ⟨rest, rfl, left, right, rfl, rfl, rfl⟩)
    · exact dividesAt_nil (word :: words)
    · exact ⟨word :: left, right, rfl, rfl, rfl⟩

theorem dividesAt_cons_append (hword : word ≠ []) :
    DividesAt (word :: words) (word ++ before) after ↔ DividesAt words before after := by
  simp [dividesAt_cons_iff, hword]

/-- A first word with one more character in front divides from the others where it did. -/
theorem dividesAt_cons_cons (hbefore : before ≠ []) :
    DividesAt ((c :: word) :: words) (c :: before) after ↔
      DividesAt (word :: words) before after := by
  simp [dividesAt_cons_iff, hbefore]

/-- A word that goes on does not end behind its first character. -/
theorem not_dividesAt_cons_cons (hword : word ≠ []) :
    ¬DividesAt ((c :: word) :: words) [c] after := by
  simp [dividesAt_cons_iff, hword]

theorem prefix_of_dividesAt (hbefore : before ≠ []) (h : DividesAt (word :: words) before after) :
    word <+: before := by
  rcases dividesAt_cons_iff.mp h with ⟨hnil, -⟩ | ⟨rest, rfl, -⟩
  · exact absurd hnil hbefore
  · exact List.prefix_append word rest

/-- Words that are not empty are told by their characters and by where they divide. -/
theorem eq_of_dividesAt_iff (hwords : ∀ word ∈ words, word ≠ [])
    (hothers : ∀ word ∈ others, word ≠ []) (hflatten : words.flatten = others.flatten)
    (h : ∀ before after, before ++ after = words.flatten →
      (DividesAt words before after ↔ DividesAt others before after)) : words = others := by
  induction words generalizing others with
  | nil =>
    cases others with
    | nil => rfl
    | cons other others =>
      exact absurd (List.append_eq_nil_iff.mp hflatten.symm).1 (hothers other List.mem_cons_self)
  | cons word words ih =>
    cases others with
    | nil => exact absurd (List.append_eq_nil_iff.mp hflatten).1 (hwords word List.mem_cons_self)
    | cons other others =>
      rw [List.forall_mem_cons] at hwords hothers
      -- Both lists divide behind either first word, so each of the two starts with the other.
      have hfirst : DividesAt (word :: words) word words.flatten :=
        ⟨[word], words, rfl, List.append_nil word, rfl⟩
      have hother : DividesAt (other :: others) other others.flatten :=
        ⟨[other], others, rfl, List.append_nil other, rfl⟩
      rw [h word words.flatten rfl] at hfirst
      rw [← h other others.flatten hflatten.symm] at hother
      obtain rfl : other = word := (prefix_of_dividesAt hwords.1 hfirst).eq_of_length_le
        (prefix_of_dividesAt hothers.1 hother).length_le
      rw [List.flatten_cons, List.flatten_cons, List.append_cancel_left_eq] at hflatten
      have hrest : ∀ before after, before ++ after = words.flatten →
          (DividesAt words before after ↔ DividesAt others before after) := by
        intro before after happend
        have hdivides := h (other ++ before) after
          (by rw [List.append_assoc, happend, List.flatten_cons])
        rwa [dividesAt_cons_append hwords.1, dividesAt_cons_append hwords.1] at hdivides
      rw [ih hwords.2 hothers.2 hflatten hrest]

end DividesAt

/-! ### The words of a text -/

/-- Whether the word of a character goes on with the text behind it. -/
def goesOn (c : Char) : List Char → Bool
  | [] => false
  | d :: after => isWordCharacter d && !isWordBoundary c d (after.head?.filter isWordCharacter)

theorem splitWords_cons_of_removed {c : Char} (h : isWordCharacter c = false)
    (text : List Char) : splitWords (c :: text) = splitWords text := by
  rw [isWordCharacter_eq_isAlphanumeric] at h
  cases text <;> simp [splitWords, h]

/-- A word that does not go on ends behind its first character. -/
theorem splitWords_cons_of_not_goesOn {c : Char} {text : List Char}
    (hc : isWordCharacter c = true) (h : goesOn c text = false) :
    splitWords (c :: text) = [c] :: splitWords text := by
  cases text with
  | nil =>
    rw [isWordCharacter_eq_isAlphanumeric] at hc
    simp [splitWords, hc]
  | cons d after =>
    rw [goesOn, isWordCharacter_eq_isAlphanumeric] at h
    rw [isWordCharacter_eq_isAlphanumeric] at hc
    rw [splitWords, if_pos hc]
    simp only [h, Bool.false_eq_true, if_false]

theorem splitWords_cons_of_goesOn {c : Char} {text : List Char}
    (hc : isWordCharacter c = true) (h : goesOn c text = true) :
    splitWords (c :: text) = joinFirst c (splitWords text) := by
  cases text with
  | nil => cases h
  | cons d after =>
    rw [goesOn, isWordCharacter_eq_isAlphanumeric] at h
    rw [isWordCharacter_eq_isAlphanumeric] at hc
    rw [splitWords, if_pos hc]
    simp only [h, if_true]

/-- A text that starts with a letter or a number starts with a word. -/
theorem exists_splitWords_eq_cons {c : Char} (hc : isWordCharacter c = true)
    (text : List Char) : ∃ word words, splitWords (c :: text) = (c :: word) :: words := by
  cases h : goesOn c text with
  | false => exact ⟨[], splitWords text, splitWords_cons_of_not_goesOn hc h⟩
  | true =>
    rw [splitWords_cons_of_goesOn hc h]
    cases splitWords text with
    | nil => exact ⟨[], [], rfl⟩
    | cons word words => exact ⟨word, words, rfl⟩

theorem isWordCharacter_of_goesOn {c d : Char} {after : List Char}
    (h : goesOn c (d :: after) = true) : isWordCharacter d = true := by
  rw [goesOn, Bool.and_eq_true] at h
  exact h.1

/-- A word that goes on is the word behind its first character, with that character in front. -/
theorem exists_splitWords_of_goesOn {c : Char} {text : List Char}
    (hc : isWordCharacter c = true) (h : goesOn c text = true) :
    ∃ d after word words, text = d :: after ∧ splitWords text = (d :: word) :: words ∧
      splitWords (c :: text) = (c :: d :: word) :: words := by
  cases text with
  | nil => cases h
  | cons d after =>
    obtain ⟨word, words, hwords⟩ := exists_splitWords_eq_cons (isWordCharacter_of_goesOn h) after
    refine ⟨d, after, word, words, rfl, hwords, ?_⟩
    rw [splitWords_cons_of_goesOn hc h, hwords]
    rfl

/-- Induction along a text and its words: the first character is removed, is a word of its own, or
    goes on with the first word behind it. -/
@[elab_as_elim]
theorem splitWords_induction {motive : List Char → List (List Char) → Prop}
    (nil : motive [] [])
    (removed : ∀ c text, isWordCharacter c = false → motive text (splitWords text) →
      motive (c :: text) (splitWords text))
    (ends : ∀ c text, isWordCharacter c = true → goesOn c text = false →
      motive text (splitWords text) → motive (c :: text) ([c] :: splitWords text))
    (goes : ∀ c d after word words, isWordCharacter c = true → goesOn c (d :: after) = true →
      motive (d :: after) ((d :: word) :: words) →
      motive (c :: d :: after) ((c :: d :: word) :: words)) (text : List Char) :
    motive text (splitWords text) := by
  induction text with
  | nil => exact nil
  | cons c text ih =>
    cases hc : isWordCharacter c with
    | false =>
      rw [splitWords_cons_of_removed hc]
      exact removed c text hc ih
    | true =>
      cases h : goesOn c text with
      | false =>
        rw [splitWords_cons_of_not_goesOn hc h]
        exact ends c text hc h ih
      | true =>
        obtain ⟨d, after, word, words, rfl, hwords, hjoined⟩ := exists_splitWords_of_goesOn hc h
        rw [hjoined]
        rw [hwords] at ih
        exact goes c d after word words hc h ih

theorem ne_nil_of_mem_splitWords (text : List Char) : ∀ word ∈ splitWords text, word ≠ [] := by
  induction text using splitWords_induction with
  | nil => simp
  | removed c text hc ih => exact ih
  | ends c text hc h ih => exact List.forall_mem_cons.mpr ⟨List.cons_ne_nil c [], ih⟩
  | goes c d after word words hc h ih =>
    exact List.forall_mem_cons.mpr ⟨List.cons_ne_nil c _, (List.forall_mem_cons.mp ih).2⟩

theorem flatten_splitWords (text : List Char) :
    (splitWords text).flatten = wordCharacters text := by
  induction text using splitWords_induction with
  | nil => rfl
  | removed c text hc ih => rw [wordCharacters_cons_of_neg hc, ih]
  | ends c text hc h ih =>
    rw [wordCharacters_cons_of_pos hc, List.flatten_cons, ih]
    rfl
  | goes c d after word words hc h ih =>
    rw [wordCharacters_cons_of_pos hc, ← ih]
    rfl

/-- A letter or a number in front of a text leaves its words divided as they are, but for the place
    in front of the first one, which may go on with it. -/
theorem dividesAt_splitWords_cons {c : Char} {text before after : List Char}
    (hc : isWordCharacter c = true) (h : goesOn c text = true → before ≠ []) :
    DividesAt (splitWords (c :: text)) (c :: before) after ↔
      DividesAt (splitWords text) before after := by
  cases hgoes : goesOn c text with
  | false =>
    rw [splitWords_cons_of_not_goesOn hc hgoes]
    exact dividesAt_cons_append (List.cons_ne_nil c [])
  | true =>
    obtain ⟨d, rest, word, words, -, hwords, hjoined⟩ := exists_splitWords_of_goesOn hc hgoes
    rw [hjoined, hwords]
    exact dividesAt_cons_cons (h hgoes)

theorem dividesAt_splitWords_of_removed (before after : List Char) {c : Char}
    (hc : isWordCharacter c = false) :
    DividesAt (splitWords (before ++ c :: after)) (wordCharacters before)
      (wordCharacters after) := by
  induction before with
  | nil =>
    rw [List.nil_append, splitWords_cons_of_removed hc, ← flatten_splitWords after]
    exact dividesAt_nil (splitWords after)
  | cons b before ih =>
    rw [List.cons_append]
    cases hb : isWordCharacter b with
    | false =>
      rw [splitWords_cons_of_removed hb, wordCharacters_cons_of_neg hb]
      exact ih
    | true =>
      rw [wordCharacters_cons_of_pos hb, dividesAt_splitWords_cons hb]
      · exact ih
      · intro hgoes
        cases before with
        | nil => rw [isWordCharacter_of_goesOn hgoes] at hc; cases hc
        | cons d before =>
          rw [wordCharacters_cons_of_pos (isWordCharacter_of_goesOn hgoes)]
          exact List.cons_ne_nil d _

/-- The word of a character ends in front of a neighbour just where a new word starts. -/
theorem goesOn_eq_false_iff {previous current : Char} {after : List Char}
    (hcurrent : isWordCharacter current = true) : goesOn previous (current :: after) = false ↔
      StartsWord previous current (after.head?.filter isWordCharacter) := by
  rw [← isWordBoundary_iff, goesOn, hcurrent, Bool.true_and, Bool.not_eq_false']

theorem dividesAt_splitWords_iff (before after : List Char) {previous current : Char}
    (hprevious : isWordCharacter previous = true) (hcurrent : isWordCharacter current = true) :
    DividesAt (splitWords (before ++ previous :: current :: after))
        (wordCharacters (before ++ [previous])) (wordCharacters (current :: after)) ↔
      StartsWord previous current (after.head?.filter isWordCharacter) := by
  induction before with
  | nil =>
    rw [List.nil_append, List.nil_append, wordCharacters_cons_of_pos hprevious, wordCharacters_nil,
      ← goesOn_eq_false_iff hcurrent]
    cases hgoes : goesOn previous (current :: after) with
    | false =>
      refine iff_of_true ?_ rfl
      rw [splitWords_cons_of_not_goesOn hprevious hgoes, ← flatten_splitWords]
      exact ⟨[[previous]], _, rfl, rfl, rfl⟩
    | true =>
      obtain ⟨d, rest, word, words, -, -, hjoined⟩ := exists_splitWords_of_goesOn hprevious hgoes
      rw [hjoined]
      exact iff_of_false (not_dividesAt_cons_cons (List.cons_ne_nil d word)) (by decide)
  | cons b before ih =>
    rw [List.cons_append, List.cons_append]
    cases hb : isWordCharacter b with
    | false =>
      rw [splitWords_cons_of_removed hb, wordCharacters_cons_of_neg hb]
      exact ih
    | true =>
      rw [wordCharacters_cons_of_pos hb, dividesAt_splitWords_cons hb]
      · exact ih
      · intro _
        rw [wordCharacters_append, wordCharacters_cons_of_pos hprevious]
        exact List.append_ne_nil_of_right_ne_nil _ (List.cons_ne_nil previous _)

theorem isDigitCharacter_eq_of_goesOn {c d : Char} {after : List Char}
    (h : goesOn c (d :: after) = true) : isDigitCharacter c = isDigitCharacter d := by
  refine Decidable.not_not.mp fun hne => ?_
  rw [(goesOn_eq_false_iff (isWordCharacter_of_goesOn h)).mpr (.inl hne)] at h
  cases h

/-- Digits stand in words of their own. -/
theorem allDigits_or_digitFree_of_mem_splitWords (text : List Char) :
    ∀ word ∈ splitWords text, (∀ c ∈ word, isDigitCharacter c = true) ∨
      ∀ c ∈ word, isDigitCharacter c = false := by
  induction text using splitWords_induction with
  | nil => simp
  | removed c text hc ih => exact ih
  | ends c text hc h ih =>
    refine List.forall_mem_cons.mpr ⟨?_, ih⟩
    cases hdigit : isDigitCharacter c <;> simp [hdigit]
  | goes c d after word words hc h ih =>
    rw [List.forall_mem_cons] at ih
    refine List.forall_mem_cons.mpr ⟨ih.1.imp (fun hword => ?_) (fun hword => ?_), ih.2⟩ <;>
    · refine List.forall_mem_cons.mpr ⟨?_, hword⟩
      rw [isDigitCharacter_eq_of_goesOn h]
      exact hword d List.mem_cons_self

theorem isSplitting_splitWords (text : List Char) : IsSplitting text (splitWords text) where
  ne_nil := ne_nil_of_mem_splitWords text
  flatten_eq := flatten_splitWords text
  divides_of_removed := by
    rintro before c after rfl hc
    exact dividesAt_splitWords_of_removed before after hc
  divides_iff := by
    rintro before previous current after rfl hprevious hcurrent
    exact dividesAt_splitWords_iff before after hprevious hcurrent

/-- The rules leave nowhere open whether words divide: two lists of words that keep them divide at
    the same places. -/
theorem IsSplitting.dividesAt {text : List Char} {words others : List (List Char)}
    (h : IsSplitting text words) (hothers : IsSplitting text others) {before after : List Char}
    (happend : before ++ after = wordCharacters text) (hdivides : DividesAt words before after) :
    DividesAt others before after := by
  obtain ⟨front, back, rfl, rfl, rfl⟩ := wordCharacters_eq_append_iff.mp happend.symm
  have hflatten := hothers.flatten_eq
  rcases List.eq_nil_or_concat front with rfl | ⟨front, previous, hfront⟩
  · exact hflatten ▸ dividesAt_nil others
  rw [List.concat_eq_append] at hfront
  subst hfront
  cases back with
  | nil =>
    rw [List.append_nil] at hflatten
    exact hflatten ▸ dividesAt_flatten others
  | cons current after =>
    have htext : front ++ [previous] ++ current :: after = front ++ previous :: current :: after :=
      List.append_assoc front [previous] _
    cases hprevious : isWordCharacter previous with
    | false =>
      have hkept : wordCharacters (front ++ [previous]) = wordCharacters front := by
        rw [wordCharacters_append, wordCharacters_cons_of_neg hprevious, wordCharacters_nil,
          List.append_nil]
      exact hkept ▸ hothers.divides_of_removed front previous _ htext hprevious
    | true =>
      cases hcurrent : isWordCharacter current with
      | false =>
        exact wordCharacters_cons_of_neg hcurrent after ▸
          hothers.divides_of_removed (front ++ [previous]) current after rfl hcurrent
      | true =>
        have hiff := h.divides_iff front previous current after htext hprevious hcurrent
        exact (hothers.divides_iff front previous current after htext hprevious hcurrent).mpr
          (hiff.mp hdivides)

theorem IsSplitting.unique {text : List Char} {words others : List (List Char)}
    (h : IsSplitting text words) (hothers : IsSplitting text others) : words = others := by
  refine eq_of_dividesAt_iff h.ne_nil hothers.ne_nil (h.flatten_eq.trans hothers.flatten_eq.symm)
    fun before after happend => ?_
  rw [h.flatten_eq] at happend
  exact ⟨h.dividesAt hothers happend, hothers.dividesAt h happend⟩

/-- The words of a text are the only ones that keep the rules, and each of them is made of digits
    alone or of no digits. -/
theorem isSplitting_iff_eq_splitWords (text : List Char) (words : List (List Char)) :
    (IsSplitting text words ↔ words = splitWords text) ∧
      ∀ word ∈ splitWords text, (∀ c ∈ word, isDigitCharacter c = true) ∨
        ∀ c ∈ word, isDigitCharacter c = false := by
  refine ⟨⟨fun h => h.unique (isSplitting_splitWords text), ?_⟩,
    allDigits_or_digitFree_of_mem_splitWords text⟩
  rintro rfl
  exact isSplitting_splitWords text

example : splitWords "HTMLParser_v2".toList =
    ["HTML".toList, "Parser".toList, "v".toList, "2".toList] := by decide

end ItemDelta
