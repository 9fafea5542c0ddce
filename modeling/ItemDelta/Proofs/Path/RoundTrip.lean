import ItemDelta.Path.Parser
import ItemDelta.Proofs.Text.Quoted

/-!
# Reading printed paths

A printed path can be read back, and gives the keys that it was printed for, if every key of it is
legible: a name that ends in an overlooked line feed is not, nor is a position with more digits
than can be read. A printed path with an illegible key cannot be read at all.

## Main definitions

* `Key.isLegible` — the keys whose printed steps can be read back.
* `Key.segment` — the segment that such a step is read as.
* `Key.EndsInFeed` — the names that are not legible.
* `properPrefixes` — the strict beginnings of a list of keys.
* `Apart` — neither of two lists of keys is a beginning of the other one.

## Main results

* `afterLiteral?_quote` — a literal ends where it was closed.
* `scanSegment_step` — the step of a legible key is read back as the segment of that key.
* `pathKeys_pathText` — a printed path is read back as the keys that it was printed for.
* `isLegible_of_parsePath_pathText` — only paths of legible keys can be read.
* `pathText_inj` — different lists of legible keys have different paths.
* `ancestorPaths_pathText` — the ancestors of a path are those of its keys.
-/

namespace ItemDelta

/-! ### Quoted texts -/

theorem afterLiteral?_cons {c : Char} (hquote : c ≠ '"') (hslash : c ≠ '\\') (rest : List Char) :
    afterLiteral? (c :: rest) = afterLiteral? rest := by
  rw [afterLiteral?]
  · exact hquote
  · intro h _
    exact hslash h
  · intro _ _ h _
    exact hslash h

theorem afterLiteral?_escapeControl (c : Char) (rest : List Char) :
    afterLiteral? (escapeControl c ++ rest) = afterLiteral? rest := by
  rcases escapeControl_cases c with ⟨d, he, -, -, hn, -⟩ | ⟨hlow, he⟩ | ⟨he, -, hquote, hslash⟩
  · simp only [he, List.cons_append, List.nil_append]
    rw [afterLiteral?, if_neg hn]
  · obtain ⟨x, y, z, w, hdigits, -, hne⟩ := hexUnit?_hexDigits (Nat.lt_trans hlow (by decide))
    simp only [List.mem_cons, List.not_mem_nil, or_false, forall_eq_or_imp, forall_eq] at hne
    obtain ⟨hx, hy, hz, hw⟩ := hne
    simp only [he, unitEscape, hdigits, List.cons_append, List.nil_append]
    rw [afterLiteral?, if_neg (by decide), afterLiteral?_cons hx.1 hx.2.1,
      afterLiteral?_cons hy.1 hy.2.1, afterLiteral?_cons hz.1 hz.2.1,
      afterLiteral?_cons hw.1 hw.2.1]
  · rw [he]
    exact afterLiteral?_cons hquote hslash rest

theorem afterLiteral?_quote (text rest : List Char) :
    afterLiteral? (text.flatMap escapeControl ++ '"' :: rest) = some rest := by
  induction text with
  | nil => rfl
  | cons c text ih =>
    rw [List.flatMap_cons, List.append_assoc, afterLiteral?_escapeControl, ih]

/-! ### Steps -/

/-- Whether the printed step of a key can be read back: no line feed is overlooked at the end of a
    name, and a position does not have more digits than can be read. -/
def Key.isLegible : Key → Bool
  | .name text => isIdentifier text.toList || !isPlainName text.toList
  | .index position => decide ((decimalDigits position).length ≤ integerDigitLimit)

/-- The segment that the printed step of a legible key is read as. -/
def Key.segment : Key → Segment
  | .name text => if isIdentifier text.toList then .name text else .quoted text
  | .index position => .index position

@[simp] theorem Key.key_segment (key : Key) : key.segment.key = key := by
  cases key with
  | name text => by_cases h : isIdentifier text.toList <;> simp [segment, h, Segment.key]
  | index position => rfl

/-- What stands behind a name does not go on with it. -/
def EndsName (rest : List Char) : Prop := ∀ c ∈ rest.head?, isIdentifierPart c = false

theorem takeWhile_append_of_endsName {name rest : List Char}
    (hname : ∀ c ∈ name, isIdentifierPart c = true) (hrest : EndsName rest) :
    (name ++ rest).takeWhile isIdentifierPart = name := by
  rw [List.takeWhile_append_of_pos hname]
  cases rest with
  | nil => simp
  | cons c rest => simp [hrest c (by simp)]

theorem dropWhile_append_of_endsName {name rest : List Char}
    (hname : ∀ c ∈ name, isIdentifierPart c = true) (hrest : EndsName rest) :
    (name ++ rest).dropWhile isIdentifierPart = rest := by
  rw [List.dropWhile_append_of_pos hname]
  cases rest with
  | nil => simp
  | cons c rest => simp [hrest c (by simp)]

theorem scanPlainName_identifier {name rest : List Char} (hname : isIdentifier name = true)
    (hrest : EndsName rest) :
    scanPlainName (name ++ rest) = .ok (.name (String.ofList name), rest) := by
  cases name with
  | nil => simp [isIdentifier] at hname
  | cons c name =>
    simp only [isIdentifier, Bool.and_eq_true, List.all_eq_true] at hname
    simp only [List.cons_append, scanPlainName, hname.1, if_true,
      takeWhile_append_of_endsName hname.2 hrest, dropWhile_append_of_endsName hname.2 hrest]

theorem scanQuotedName_quote (name rest : List Char) :
    scanQuotedName (name.flatMap escapeControl ++ '"' :: ']' :: rest) =
      .ok (.quoted (String.ofList name), rest) := by
  simp only [scanQuotedName, afterLiteral?_quote, scanQuoted?_quote]

theorem decimalDigit?_of_isDigit {c : Char} (h : c.isDigit = true) :
    decimalDigit? c = some (c.toNat - '0'.toNat) := by
  have hc : 48 ≤ c.toNat ∧ c.toNat ≤ 57 := by
    simpa [Char.isDigit, UInt32.le_iff_toNat_le] using h
  have hoffset : CodeTable.offset? CodeTable.decimalDigits c.toNat = some (c.toNat - 48) := by
    rw [CodeTable.decimalDigits, CodeTable.offset?, if_neg (by omega), if_pos (by omega)]
  rw [decimalDigit?, hoffset, Option.map_some, Nat.mod_eq_of_lt (by omega)]
  rfl

theorem positionValue_decimalDigits (position : Nat) :
    positionValue (decimalDigits position) = position := by
  have hfold : ∀ (digits : List Char) (value : Nat), (∀ c ∈ digits, c.isDigit = true) →
      digits.foldl (fun value c => 10 * value + (decimalDigit? c).getD 0) value =
        Nat.ofDigitChars 10 digits value := by
    intro digits
    induction digits with
    | nil => intros; rfl
    | cons c digits ih =>
      intro value hdigits
      rw [List.foldl_cons, Nat.ofDigitChars_cons, ih _ fun d hd => hdigits d (by simp [hd]),
        decimalDigit?_of_isDigit (hdigits c (by simp))]
      rfl
  rw [positionValue, hfold _ _ fun c hc => isDigit_of_mem_decimalDigits hc]
  exact digitsValue_decimalDigits position

theorem scanPosition_decimalDigits (position : Nat) (rest : List Char) :
    scanPosition (decimalDigits position ++ ']' :: rest) =
      if integerDigitLimit < (decimalDigits position).length then
        .error (.digits (decimalDigits position).length)
      else .ok (.index position, rest) := by
  have hdigits : ∀ c ∈ decimalDigits position, (decimalDigit? c).isSome = true := by
    intro c hc
    rw [decimalDigit?_of_isDigit (isDigit_of_mem_decimalDigits hc)]
    rfl
  have htake : (decimalDigits position ++ ']' :: rest).takeWhile
      (fun c => (decimalDigit? c).isSome) = decimalDigits position := by
    rw [List.takeWhile_append_of_pos hdigits, List.takeWhile_cons_of_neg (by decide),
      List.append_nil]
  have hdrop : (decimalDigits position ++ ']' :: rest).dropWhile
      (fun c => (decimalDigit? c).isSome) = ']' :: rest := by
    rw [List.dropWhile_append_of_pos hdigits, List.dropWhile_cons_of_neg (by decide)]
  obtain ⟨c, digits, hcons⟩ : ∃ c digits, decimalDigits position = c :: digits :=
    List.exists_cons_of_ne_nil (List.ne_nil_of_length_pos Nat.length_toDigits_pos)
  have hvalue := positionValue_decimalDigits position
  rw [scanPosition, htake, hdrop]
  rw [hcons] at hvalue ⊢
  simp only [hvalue]

/-- The step to a list element is scanned as a position, since digits stand behind its bracket. -/
theorem scanSegment_indexStep (position : Nat) (rest : List Char) :
    scanSegment (indexStep position ++ rest) =
      scanPosition (decimalDigits position ++ ']' :: rest) := by
  obtain ⟨c, digits, hcons⟩ : ∃ c digits, decimalDigits position = c :: digits :=
    List.exists_cons_of_ne_nil (List.ne_nil_of_length_pos Nat.length_toDigits_pos)
  have hdigit : c.isDigit = true := isDigit_of_mem_decimalDigits (hcons ▸ List.mem_cons_self)
  simp only [indexStep, hcons, List.cons_append, List.append_assoc, List.nil_append]
  rw [scanSegment]
  intro _ h
  rw [List.cons.injEq] at h
  rw [h.1] at hdigit
  exact absurd hdigit (by decide)

/-- The step of a legible key is read back as its segment. -/
theorem scanSegment_step {key : Key} {rest : List Char} (hkey : key.isLegible = true)
    (hrest : EndsName rest) : scanSegment (key.step ++ rest) = .ok (key.segment, rest) := by
  cases key with
  | name text =>
    by_cases hplain : isIdentifier text.toList
    · simp only [Key.step, memberStep, isPlainName, hplain, Bool.true_or, if_true,
        List.cons_append, scanSegment, Key.segment]
      simpa using scanPlainName_identifier hplain hrest
    · simp only [Key.isLegible, hplain, Bool.false_or, Bool.not_eq_true'] at hkey
      simp only [Key.step, memberStep, hkey, Key.segment, hplain, if_false, Bool.false_eq_true,
        quote, List.cons_append, List.append_assoc, List.nil_append, scanSegment]
      simpa using scanQuotedName_quote text.toList rest
  | index position =>
    simp only [Key.isLegible, decide_eq_true_eq] at hkey
    rw [Key.step, scanSegment_indexStep, scanPosition_decimalDigits, if_neg (by omega)]
    rfl

/-- A step starts with a point or a bracket. -/
theorem head?_step (key : Key) : key.step.head? = some '.' ∨ key.step.head? = some '[' := by
  cases key with
  | name text =>
    simp only [Key.step, memberStep]
    split
    · exact .inl rfl
    · exact .inr rfl
  | index position => exact .inr rfl

/-- What starts with a point or a bracket does not go on with the name before it. -/
theorem endsName_steps (keys : List Key) : EndsName (keys.flatMap Key.step) := by
  intro c hc
  cases keys with
  | nil => simp at hc
  | cons key keys =>
    rcases head?_step key with h | h <;>
    · simp only [List.flatMap_cons, List.head?_append, h, Option.some_or, Option.mem_def,
        Option.some.injEq] at hc
      subst hc
      decide

/-- A name that is an identifier with a line feed behind it. -/
def Key.EndsInFeed (key : Key) : Prop :=
  ∃ identifier, isIdentifier identifier = true ∧
    key = .name (String.ofList (identifier ++ ['\n']))

theorem isIdentifier_append_feed (identifier : List Char) :
    isIdentifier (identifier ++ ['\n']) = false := by
  cases identifier with
  | nil => rfl
  | cons c rest => simp [isIdentifier, isIdentifierPart]

/-- Only names with an overlooked line feed cannot be read back. -/
theorem isLegible_name_eq_false_iff {text : String} :
    (Key.name text).isLegible = false ↔ (Key.name text).EndsInFeed := by
  simp only [Key.isLegible, isPlainName, Bool.or_eq_false_iff, Bool.not_eq_false',
    Bool.or_eq_true, Bool.and_eq_true, beq_iff_eq]
  constructor
  · rintro ⟨hnot, hplain⟩
    obtain ⟨hlast, hidentifier⟩ := hplain.resolve_left (by simp [hnot])
    obtain ⟨identifier, htext⟩ := List.getLast?_eq_some_iff.mp hlast
    rw [htext, List.dropLast_concat] at hidentifier
    refine ⟨identifier, hidentifier, ?_⟩
    rw [← htext, String.ofList_toList]
  · rintro ⟨identifier, hidentifier, heq⟩
    rw [Key.name.inj heq, String.toList_ofList]
    exact ⟨isIdentifier_append_feed identifier, .inr (by simp [hidentifier])⟩

/-- Of the step of a name with an overlooked line feed, the identifier is read and the line feed is
    left. -/
theorem scanSegment_step_of_feed {identifier : List Char} (h : isIdentifier identifier = true)
    (rest : List Char) :
    scanSegment (Key.step (.name (String.ofList (identifier ++ ['\n']))) ++ rest) =
      .ok (.name (String.ofList identifier), '\n' :: rest) := by
  have hplain : isPlainName (identifier ++ ['\n']) = true := by simp [isPlainName, h]
  have hends : EndsName ('\n' :: rest) := by
    intro c hc
    simp only [List.head?_cons, Option.mem_def, Option.some.injEq] at hc
    subst hc
    decide
  simp only [Key.step, memberStep, String.toList_ofList, hplain, if_true, List.cons_append,
    List.append_assoc, List.nil_append, scanSegment]
  exact scanPlainName_identifier h hends

/-! ### Whole paths -/

/-- What is read behind a segment does not depend on the segment. -/
theorem parseSegments_of_scanSegment {path : String} {text rest : List Char} {segment : Segment}
    (h : scanSegment text = .ok (segment, rest)) :
    parseSegments path text = (parseSegments path rest).map (segment :: ·) := by
  cases text with
  | nil => simp [scanSegment] at h
  | cons c text =>
    rw [parseSegments]
    split
    · rename_i hscan
      rw [h, Except.ok.injEq, Prod.mk.injEq] at hscan
      rw [hscan.1, hscan.2]
    all_goals
      rename_i hscan
      rw [h] at hscan
      cases hscan

theorem exists_error_of_scanSegment {path : String} {text : List Char} {fault : SegmentFault}
    (htext : text ≠ []) (h : scanSegment text = .error fault) :
    ∃ error, parseSegments path text = .error error := by
  cases text with
  | nil => exact absurd rfl htext
  | cons c text =>
    rw [parseSegments]
    split
    · rename_i hscan
      rw [h] at hscan
      cases hscan
    all_goals exact ⟨_, rfl⟩

theorem parseSegments_steps (path : String) {keys : List Key}
    (h : ∀ key ∈ keys, key.isLegible = true) :
    parseSegments path (keys.flatMap Key.step) = .ok (keys.map Key.segment) := by
  induction keys with
  | nil => rw [List.flatMap_nil, parseSegments]; rfl
  | cons key keys ih =>
    have hscan := scanSegment_step (h key (by simp)) (endsName_steps keys)
    rw [List.flatMap_cons, parseSegments_of_scanSegment hscan, ih fun k hk => h k (by simp [hk])]
    rfl

theorem exists_error_of_not_isLegible (path : String) {key : Key} (h : key.isLegible = false)
    (rest : List Char) : ∃ error, parseSegments path (key.step ++ rest) = .error error := by
  cases key with
  | name text =>
    obtain ⟨identifier, hidentifier, heq⟩ := isLegible_name_eq_false_iff.mp h
    rw [heq, parseSegments_of_scanSegment (scanSegment_step_of_feed hidentifier rest)]
    obtain ⟨error, herror⟩ : ∃ error, parseSegments path ('\n' :: rest) = .error error :=
      exists_error_of_scanSegment (List.cons_ne_nil _ _) rfl
    exact ⟨error, by rw [herror]; rfl⟩
  | index position =>
    simp only [Key.isLegible, decide_eq_false_iff_not, Nat.not_le] at h
    have hscan := scanSegment_indexStep position rest
    rw [scanPosition_decimalDigits, if_pos h] at hscan
    exact exists_error_of_scanSegment (by simp [Key.step, indexStep]) hscan

theorem isLegible_of_parseSegments {path : String} {keys : List Key} {segments : List Segment}
    (h : parseSegments path (keys.flatMap Key.step) = .ok segments) :
    ∀ key ∈ keys, key.isLegible = true := by
  induction keys generalizing segments with
  | nil => simp
  | cons key keys ih =>
    have hkey : key.isLegible = true := by
      cases hlegible : key.isLegible with
      | true => rfl
      | false =>
        obtain ⟨error, herror⟩ := exists_error_of_not_isLegible path hlegible
          (keys.flatMap Key.step)
        rw [List.flatMap_cons, herror] at h
        cases h
    have hscan := scanSegment_step hkey (endsName_steps keys)
    rw [List.flatMap_cons, parseSegments_of_scanSegment hscan] at h
    cases hrest : parseSegments path (keys.flatMap Key.step) with
    | error error => rw [hrest] at h; cases h
    | ok rest =>
      intro k hk
      rcases List.mem_cons.mp hk with rfl | hk
      · exact hkey
      · exact ih hrest k hk

theorem parsePath_pathText {keys : List Key} (h : ∀ key ∈ keys, key.isLegible = true) :
    parsePath (pathText keys) = .ok (keys.map Key.segment) := by
  simp only [parsePath, pathText, String.toList_ofList, pathChars, if_true]
  exact parseSegments_steps _ h

/-- A printed path is read back as the keys that it was printed for. -/
theorem pathKeys_pathText {keys : List Key} (h : ∀ key ∈ keys, key.isLegible = true) :
    pathKeys (pathText keys) = .ok keys := by
  have hkeys : (keys.map Key.segment).map Segment.key = keys := by
    rw [List.map_map]
    exact List.map_id'' Key.key_segment keys
  rw [pathKeys, parsePath_pathText h]
  exact congrArg Except.ok hkeys

/-- Only the paths of legible keys can be read. -/
theorem isLegible_of_parsePath_pathText {keys : List Key} {segments : List Segment}
    (h : parsePath (pathText keys) = .ok segments) : ∀ key ∈ keys, key.isLegible = true := by
  simp only [parsePath, pathText, String.toList_ofList, pathChars, if_true] at h
  exact isLegible_of_parseSegments h

/-- What is read from the path of some keys are these keys. -/
theorem eq_of_pathKeys_pathText {keys others : List Key}
    (h : pathKeys (pathText keys) = .ok others) : others = keys := by
  have hlegible : ∀ key ∈ keys, key.isLegible = true := by
    rw [pathKeys] at h
    cases hsegments : parsePath (pathText keys) with
    | error fault =>
      rw [hsegments] at h
      cases h
    | ok segments => exact isLegible_of_parsePath_pathText hsegments
  rw [pathKeys_pathText hlegible, Except.ok.injEq] at h
  exact h.symm

/-- Different lists of legible keys have different paths. -/
theorem pathText_inj {keys others : List Key} (hkeys : ∀ key ∈ keys, key.isLegible = true)
    (hothers : ∀ key ∈ others, key.isLegible = true) :
    pathText keys = pathText others ↔ keys = others := by
  refine ⟨fun h => ?_, congrArg pathText⟩
  have hread := pathKeys_pathText hkeys
  rw [h, pathKeys_pathText hothers, Except.ok.injEq] at hread
  exact hread.symm

theorem pathText_append_singleton (keys : List Key) (key : Key) :
    pathText (keys ++ [key]) = pathText keys ++ String.ofList key.step := by
  simp only [pathText, pathChars, List.flatMap_append, List.flatMap_cons, List.flatMap_nil,
    List.append_nil, ← String.ofList_append, List.cons_append]

/-! ### Ancestors -/

/-- The strict beginnings of a list of keys but the empty one, from the shortest on. -/
def properPrefixes (keys : List Key) : List (List Key) :=
  (List.range' 1 (keys.length - 1)).map fun n => keys.take n

theorem mem_properPrefixes {keys others : List Key} :
    keys ∈ properPrefixes others ↔ keys ≠ [] ∧ keys <+: others ∧ keys ≠ others := by
  simp only [properPrefixes, List.mem_map, List.mem_range'_1]
  constructor
  · rintro ⟨n, hn, rfl⟩
    have hlength : (others.take n).length = n := List.length_take_of_le (by omega)
    refine ⟨?_, List.take_prefix n others, ?_⟩
    · intro h
      rw [h, List.length_nil] at hlength
      omega
    · intro h
      rw [h] at hlength
      omega
  · rintro ⟨hne, ⟨rest, rfl⟩, hneq⟩
    have hkeys : 0 < keys.length := List.length_pos_iff.mpr hne
    have hrest : 0 < rest.length := List.length_pos_iff.mpr (by rintro rfl; simp at hneq)
    exact ⟨keys.length, by rw [List.length_append]; omega, List.take_left⟩

/-- The ancestors of a printed path are the paths of the strict beginnings of its keys. -/
theorem ancestorPaths_pathText {keys : List Key} (h : ∀ key ∈ keys, key.isLegible = true) :
    ancestorPaths (pathText keys) = .ok ((properPrefixes keys).map pathText) := by
  rw [ancestorPaths, pathKeys_pathText h, properPrefixes, List.map_map]
  rfl

/-! ### Places above and apart -/

theorem eq_nil_of_prefix_singleton {key : Key} {before : List Key} (h : before <+: [key])
    (hne : before ≠ [key]) : before = [] := by
  rcases List.prefix_cons_iff.mp h with hnil | ⟨rest, rfl, hrest⟩
  · exact hnil
  · rw [List.prefix_nil.mp hrest] at hne
    exact absurd rfl hne

/-- Neither of two lists of keys is a beginning of the other one. -/
def Apart (keys others : List Key) : Prop := ¬keys <+: others ∧ ¬others <+: keys

theorem Apart.symm {keys others : List Key} (h : Apart keys others) : Apart others keys :=
  ⟨h.2, h.1⟩

theorem Apart.ne_nil {keys others : List Key} (h : Apart keys others) : others ≠ [] :=
  fun hnil => h.2 (hnil ▸ List.nil_prefix)

theorem apart_cons_iff {key : Key} {keys others : List Key} :
    Apart (key :: keys) (key :: others) ↔ Apart keys others := by
  simp [Apart, List.cons_prefix_cons]

end ItemDelta
