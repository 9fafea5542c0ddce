import ItemDelta.Proofs.Text.Splitting

/-!
# The characters of words

Placeholders are made of the words of names, in changed case. Whatever characters a name has, the
characters of its words are plain: no sign that an expression gives a meaning to, no blank and no
end of a line is among them. Case mappings lead out of the letters, since some letters are mapped
to a letter and a mark, but not out of the plain characters.

## Main definitions

* `isPlain` — the characters that words in any case are made of.

## Main results

* `isPlain_of_isAlphanumeric` — letters and numbers are plain.
* `isPlain_upperCased`, `isPlain_lowerCased` — so are they in another case.
* `isPlain_camelCase` — the characters of a camel-cased name are plain.
-/

namespace ItemDelta

namespace CodeTable

/-- The code points of plain characters. Of ASCII these are the letters and digits; of the others,
    no controls and no separators of lines and paragraphs. -/
def plain : List (Nat × Nat) := [
    (48, 57), (65, 90), (97, 122), (160, 8231), (8234, 55295), (57344, 1114111)]

/-- Whether all code points from the first to the last lie in one range of a table. -/
def covers (table : List (Nat × Nat)) (first last : Nat) : Bool :=
  table.any fun range => decide (range.1 ≤ first) && decide (last ≤ range.2)

theorem covers_of_covers {table : List (Nat × Nat)} {first last code : Nat}
    (h : covers table first last = true) (hfirst : first ≤ code) (hlast : code ≤ last) :
    covers table code code = true := by
  rw [covers, List.any_eq_true] at h ⊢
  obtain ⟨range, hrange, h⟩ := h
  rw [Bool.and_eq_true, decide_eq_true_eq, decide_eq_true_eq] at h
  refine ⟨range, hrange, ?_⟩
  rw [Bool.and_eq_true, decide_eq_true_eq, decide_eq_true_eq]
  omega

theorem exists_of_inRanges {table : List (Nat × Nat)} {code : Nat}
    (h : inRanges table code = true) : ∃ range ∈ table, range.1 ≤ code ∧ code ≤ range.2 := by
  induction table with
  | nil => cases h
  | cons range rest ih =>
    rw [inRanges] at h
    split at h
    · cases h
    · split at h
      · exact ⟨range, List.mem_cons_self, by omega, by omega⟩
      · obtain ⟨other, hother, h⟩ := ih h
        exact ⟨other, List.mem_cons_of_mem _ hother, h⟩

theorem exists_of_shift? {runs : List (Nat × Nat × Nat × Int)} {code image : Nat}
    (h : shift? runs code = some image) :
    ∃ run ∈ runs, run.1 ≤ code ∧ code ≤ run.2.1 ∧ image = (code + run.2.2.2).toNat := by
  induction runs with
  | nil => cases h
  | cons run rest ih =>
    obtain ⟨first, last, stride, distance⟩ := run
    rw [shift?] at h
    split at h
    · cases h
    · split at h
      · rename_i hfirst hrun
        injection h with h
        exact ⟨_, List.mem_cons_self, Nat.le_of_not_lt hfirst, hrun.1, h.symm⟩
      · obtain ⟨other, hother, h⟩ := ih h
        exact ⟨other, List.mem_cons_of_mem _ hother, h⟩

/-- No case mapping leads to a code point that is not plain. -/
def mapsToPlain (sequences : List (Nat × List Nat)) (runs : List (Nat × Nat × Nat × Int)) : Bool :=
  sequences.all (fun mapping => mapping.2.all fun code => covers plain code code) &&
    runs.all fun run =>
      covers plain (run.1 + run.2.2.2).toNat (run.2.1 + run.2.2.2).toNat

theorem mapsToPlain_toUpper : mapsToPlain toUpperSequence toUpper = true := by decide +kernel

theorem mapsToPlain_toLower : mapsToPlain toLowerSequence toLower = true := by decide +kernel

theorem covers_alphanumeric :
    alphanumeric.all (fun range => covers plain range.1 range.2) = true := by decide +kernel

end CodeTable

open CodeTable

/-- The characters that words are made of, in any case: of ASCII the letters and digits, and of
    the others all but the ends of lines. -/
def isPlain (c : Char) : Bool := covers plain c.toNat c.toNat

/-- A code point that is plain is that of a plain character. -/
theorem isPlain_ofNat {code : Nat} (h : covers plain code code = true) :
    isPlain (Char.ofNat code) = true := by
  have hvalid : code.isValidChar := by
    rw [covers, List.any_eq_true] at h
    obtain ⟨range, hrange, h⟩ := h
    rw [Bool.and_eq_true, decide_eq_true_eq, decide_eq_true_eq] at h
    have hranges : ∀ range ∈ plain, range.2 < 0xD800 ∨ 0xDFFF < range.1 ∧ range.2 < 0x110000 := by
      decide
    have hrange := hranges range hrange
    rw [Nat.isValidChar]
    omega
  have hcode : (Char.ofNat code).toNat = code := by
    rw [Char.ofNat, dif_pos hvalid]
    rfl
  rw [isPlain, hcode]
  exact h

theorem isPlain_of_isAlphanumeric {c : Char} (h : isAlphanumeric c = true) : isPlain c = true := by
  obtain ⟨range, hrange, hfirst, hlast⟩ := exists_of_inRanges h
  have hcovers := List.all_eq_true.mp covers_alphanumeric range hrange
  exact covers_of_covers hcovers hfirst hlast

theorem isPlain_of_isDigit {c : Char} (h : c.isDigit = true) : isPlain c = true := by
  have hrange : 48 ≤ c.toNat ∧ c.toNat ≤ 57 := by
    simpa [Char.isDigit, UInt32.le_iff_toNat_le] using h
  have hcovers : covers plain 48 57 = true := by decide
  exact covers_of_covers hcovers hrange.1 hrange.2

/-! ### Changes of case -/

theorem isPlain_mapCase {sequences : List (Nat × List Nat)}
    {runs : List (Nat × Nat × Nat × Int)} (hplain : mapsToPlain sequences runs = true)
    {c d : Char} (hc : isPlain c = true) (hd : d ∈ mapCase sequences runs c) :
    isPlain d = true := by
  rw [mapsToPlain, Bool.and_eq_true, List.all_eq_true, List.all_eq_true] at hplain
  obtain ⟨hsequences, hruns⟩ := hplain
  rw [mapCase] at hd
  split at hd
  · rename_i codes hlookup
    obtain ⟨code, hcode, rfl⟩ := List.mem_map.mp hd
    obtain ⟨before, after, happend, -⟩ := List.lookup_eq_some_iff.mp hlookup
    have hmem : (c.toNat, codes) ∈ sequences := by
      rw [happend]
      exact List.mem_append_right _ List.mem_cons_self
    exact isPlain_ofNat (List.all_eq_true.mp (hsequences _ hmem) code hcode)
  · split at hd
    · rename_i image hshift
      obtain ⟨run, hrun, hfirst, hlast, rfl⟩ := exists_of_shift? hshift
      rw [List.mem_singleton.mp hd]
      exact isPlain_ofNat (covers_of_covers (hruns run hrun) (by omega) (by omega))
    · rw [List.mem_singleton.mp hd]
      exact hc

theorem isPlain_upperCased {text : List Char} (h : ∀ c ∈ text, isPlain c = true) :
    ∀ c ∈ upperCased text, isPlain c = true := by
  intro d hd
  obtain ⟨c, hc, hd⟩ := List.mem_flatMap.mp hd
  exact isPlain_mapCase mapsToPlain_toUpper (h c hc) hd

theorem isPlain_lowerSigma (before after : List Char) :
    isPlain (lowerSigma before after) = true := by
  rw [lowerSigma]
  split
  · decide
  · decide

theorem isPlain_lowerCasedAfter {before text : List Char} (h : ∀ c ∈ text, isPlain c = true) :
    ∀ c ∈ lowerCasedAfter before text, isPlain c = true := by
  induction text generalizing before with
  | nil => simp [lowerCasedAfter]
  | cons c rest ih =>
    intro d hd
    rw [lowerCasedAfter, List.mem_append] at hd
    rcases hd with hd | hd
    · split at hd
      · rw [List.mem_singleton.mp hd]
        exact isPlain_lowerSigma before rest
      · exact isPlain_mapCase mapsToPlain_toLower (h c List.mem_cons_self) hd
    · exact ih (fun e he => h e (List.mem_cons_of_mem _ he)) d hd

theorem isPlain_lowerCased {text : List Char} (h : ∀ c ∈ text, isPlain c = true) :
    ∀ c ∈ lowerCased text, isPlain c = true :=
  isPlain_lowerCasedAfter h

/-! ### Words -/

/-- Words are made of letters and numbers. -/
theorem isAlphanumeric_of_mem_splitWords {text word : List Char} {c : Char}
    (hword : word ∈ splitWords text) (hc : c ∈ word) : isAlphanumeric c = true := by
  have hmem : c ∈ wordCharacters text := by
    rw [← flatten_splitWords]
    exact List.mem_flatten_of_mem hword hc
  rw [← isWordCharacter_eq_isAlphanumeric]
  exact (List.mem_filter.mp hmem).2

theorem isPlain_capitalised {word : List Char} (h : ∀ c ∈ word, isPlain c = true) :
    ∀ c ∈ capitalised word, isPlain c = true := by
  intro d hd
  rw [capitalised, List.mem_append] at hd
  rcases hd with hd | hd
  · exact isPlain_upperCased (fun c hc => h c (List.mem_of_mem_take hc)) d hd
  · exact isPlain_lowerCased (fun c hc => h c (List.mem_of_mem_drop hc)) d hd

theorem isPlain_joinWords {words : List (List Char)}
    (h : ∀ word ∈ words, ∀ c ∈ word, isPlain c = true) :
    ∀ c ∈ joinWords words, isPlain c = true := by
  cases words with
  | nil => simp [joinWords]
  | cons word words =>
    intro d hd
    rw [joinWords, List.mem_append, List.mem_flatMap] at hd
    rcases hd with hd | ⟨other, hother, hd⟩
    · exact isPlain_lowerCased (h word List.mem_cons_self) d hd
    · exact isPlain_capitalised (h other (List.mem_cons_of_mem _ hother)) d hd

theorem isPlain_camelCase (parts : List (List Char)) :
    ∀ c ∈ camelCase parts, isPlain c = true := by
  refine isPlain_joinWords fun word hword c hc => ?_
  obtain ⟨part, -, hword⟩ := List.mem_flatMap.mp hword
  exact isPlain_of_isAlphanumeric (isAlphanumeric_of_mem_splitWords hword hc)

end ItemDelta
