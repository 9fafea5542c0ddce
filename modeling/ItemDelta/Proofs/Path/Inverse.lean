import ItemDelta.Proofs.Number.Numeral
import ItemDelta.Proofs.Path.RoundTrip

/-!
# Paths and keys

No two lists of keys have the same path, and what is read from the path of some keys are these keys.
The path can be read just if no name in it is an identifier with a line feed behind it: the printed
form overlooks the line feed and leaves such a name without quotes, where the reader stops at the
end of the identifier.

## Main definitions

* `Key.isIndex` — whether a key is a position.
* `ReadsBack` — what becomes of a list of keys that is printed and read.

## Main results

* `step_append_inj` — a step is told from what stands behind it.
* `pathText_injective` — different lists of keys have different paths.
* `isLegible_of_parsePath` — all positions that are read can be read again.
* `injective_and_readsBack` — paths and keys are inverse, but for overlooked line feeds.
-/

namespace ItemDelta

/-! ### Different keys -/

/-- What is printed behind a step is nothing, or starts with a point or a bracket. -/
def StartsStep (text : List Char) : Prop := ∀ c ∈ text.head?, c = '.' ∨ c = '['

theorem startsStep_steps (keys : List Key) : StartsStep (keys.flatMap Key.step) := by
  intro c hc
  cases keys with
  | nil => cases hc
  | cons key keys =>
    rcases head?_step key with h | h <;>
    · rw [List.flatMap_cons, List.head?_append, h, Option.some_or, Option.mem_def,
        Option.some.injEq] at hc
      simp [← hc]

theorem StartsStep.endsName {text : List Char} (h : StartsStep text) : EndsName text := by
  intro c hc
  rcases h c hc with rfl | rfl <;> decide

theorem decimalDigits_append_inj {position other : Nat} {rest tail : List Char}
    (h : decimalDigits position ++ ']' :: rest = decimalDigits other ++ ']' :: tail) :
    position = other ∧ rest = tail := by
  have htake : ∀ (n : Nat) (text : List Char),
      (decimalDigits n ++ ']' :: text).takeWhile Char.isDigit = decimalDigits n := by
    intro n text
    rw [List.takeWhile_append_of_pos fun c hc => isDigit_of_mem_decimalDigits hc,
      List.takeWhile_cons_of_neg (by decide), List.append_nil]
  have hdigits : decimalDigits position = decimalDigits other := by
    rw [← htake position rest, h, htake]
  refine ⟨?_, ?_⟩
  · rw [← digitsValue_decimalDigits position, hdigits, digitsValue_decimalDigits]
  · rw [hdigits] at h
    exact (List.cons.inj (List.append_cancel_left h)).2

/-- A name is never printed like a position, since no digit stands behind its bracket. -/
theorem nameStep_append_ne_indexStep_append (name : String) (position : Nat)
    (rest tail : List Char) :
    (Key.name name).step ++ rest ≠ (Key.index position).step ++ tail := by
  obtain ⟨c, digits, hcons⟩ : ∃ c digits, decimalDigits position = c :: digits :=
    List.exists_cons_of_ne_nil (List.ne_nil_of_length_pos Nat.length_toDigits_pos)
  have hdigit : c.isDigit = true := isDigit_of_mem_decimalDigits (hcons ▸ List.mem_cons_self)
  intro h
  simp only [Key.step, memberStep, indexStep, hcons, quote] at h
  split at h
  · cases h
  · simp only [List.cons_append, List.cons.injEq] at h
    rw [← h.2.1] at hdigit
    cases hdigit

/-- What the step of a name is scanned as: either the name, or an identifier without the line feed
    behind it, which no step starts with. -/
theorem scanSegment_nameStep (name : String) {rest : List Char} (hrest : StartsStep rest) :
    scanSegment ((Key.name name).step ++ rest) = .ok ((Key.name name).segment, rest) ∨
      ∃ identifier, name = String.ofList (identifier ++ ['\n']) ∧
        scanSegment ((Key.name name).step ++ rest) =
          .ok (.name (String.ofList identifier), '\n' :: rest) := by
  cases hlegible : (Key.name name).isLegible with
  | true => exact .inl (scanSegment_step hlegible hrest.endsName)
  | false =>
    obtain ⟨identifier, hidentifier, heq⟩ := isLegible_name_eq_false_iff.mp hlegible
    refine .inr ⟨identifier, Key.name.inj heq, ?_⟩
    rw [heq]
    exact scanSegment_step_of_feed hidentifier rest

theorem StartsStep.ne_feed {text rest : List Char} (h : StartsStep text) : text ≠ '\n' :: rest := by
  rintro rfl
  rcases h '\n' rfl with heq | heq <;> cases heq

/-- A step is told from what stands behind it. -/
theorem step_append_inj {key other : Key} {rest tail : List Char} (hrest : StartsStep rest)
    (htail : StartsStep tail) (h : key.step ++ rest = other.step ++ tail) :
    key = other ∧ rest = tail := by
  cases key with
  | index position =>
    cases other with
    | index j =>
      simp only [Key.step, indexStep, List.cons_append, List.append_assoc, List.nil_append,
        List.cons.injEq, true_and] at h
      obtain ⟨rfl, rfl⟩ := decimalDigits_append_inj h
      exact ⟨rfl, rfl⟩
    | name text => exact absurd h.symm (nameStep_append_ne_indexStep_append text position tail rest)
  | name text =>
    cases other with
    | index position => exact absurd h (nameStep_append_ne_indexStep_append text position rest tail)
    | name other =>
      -- Both names are scanned from one text, so either both line feeds are overlooked or none is.
      rcases scanSegment_nameStep text hrest with hscan | ⟨identifier, rfl, hscan⟩ <;>
        rcases scanSegment_nameStep other htail with hother | ⟨identifier', rfl, hother⟩ <;>
        rw [← h, hscan, Except.ok.injEq, Prod.mk.injEq] at hother
      · refine ⟨?_, hother.2⟩
        rw [← Key.key_segment (.name text), hother.1, Key.key_segment]
      · exact absurd hother.2 hrest.ne_feed
      · exact absurd hother.2.symm htail.ne_feed
      · refine ⟨?_, (List.cons.inj hother.2).2⟩
        rw [String.ofList_injective (Segment.name.inj hother.1)]

/-- Different lists of keys have different paths. -/
theorem pathText_injective : Function.Injective pathText := by
  intro keys others h
  have hsteps : keys.flatMap Key.step = others.flatMap Key.step :=
    (List.cons.inj (String.ofList_injective h)).2
  clear h
  have hnil : ∀ (key : Key) (rest : List Char), [] ≠ key.step ++ rest := by
    intro key rest heq
    have hhead := congrArg List.head? heq
    rw [List.head?_append] at hhead
    rcases head?_step key with hstep | hstep <;> simp [hstep] at hhead
  induction keys generalizing others with
  | nil =>
    cases others with
    | nil => rfl
    | cons other others => exact absurd hsteps (hnil other _)
  | cons key keys ih =>
    cases others with
    | nil => exact absurd hsteps.symm (hnil key _)
    | cons other others =>
      obtain ⟨rfl, hrest⟩ := step_append_inj (startsStep_steps keys) (startsStep_steps others)
        hsteps
      rw [ih hrest]

/-! ### Keys that were read -/

/-- The positions that can be read are those that are not too long. -/
theorem isLegible_index_iff {position : Nat} :
    (Key.index position).isLegible = true ↔ position < firstLongInteger := by
  have h : (decimalDigits position).length ≤ integerDigitLimit ↔
      position < Nat.pow 10 integerDigitLimit := length_decimalDigits_le_iff (by decide)
  rw [Key.isLegible, decide_eq_true_eq]
  unfold firstLongInteger
  exact h

theorem decimalDigit?_getD_lt (c : Char) : (decimalDigit? c).getD 0 < 10 := by
  rw [decimalDigit?]
  cases CodeTable.offset? CodeTable.decimalDigits c.toNat with
  | none => decide
  | some offset => exact Nat.mod_lt offset (by decide)

theorem positionValue_lt (digits : List Char) :
    positionValue digits < Nat.pow 10 digits.length := by
  -- The digits read so far are fewer than the power of their number.
  have hfold : ∀ (digits : List Char) (value bound : Nat), value < bound →
      digits.foldl (fun value c => 10 * value + (decimalDigit? c).getD 0) value <
        bound * Nat.pow 10 digits.length := by
    intro digits
    induction digits with
    | nil =>
      intro value bound h
      show value < bound * 1
      omega
    | cons c digits ih =>
      intro value bound h
      have hdigit := decimalDigit?_getD_lt c
      have hstep := ih (10 * value + (decimalDigit? c).getD 0) (bound * 10) (by omega)
      have hpow : Nat.pow 10 (c :: digits).length = 10 * Nat.pow 10 digits.length :=
        Nat.pow_succ'
      rw [hpow, ← Nat.mul_assoc]
      exact hstep
  have h := hfold digits 0 1 (by decide)
  rwa [Nat.one_mul] at h

theorem positionValue_lt_of_length_le {digits : List Char} {limit : Nat}
    (h : digits.length ≤ limit) : positionValue digits < Nat.pow 10 limit :=
  Nat.lt_of_lt_of_le (positionValue_lt digits) (Nat.pow_le_pow_right (by decide) h)

theorem isLegible_of_scanSegment {text rest : List Char} {position : Nat}
    (h : scanSegment text = .ok (.index position, rest)) :
    (Key.index position).isLegible = true := by
  unfold scanSegment at h
  split at h
  · unfold scanPlainName at h
    split at h
    · cases h
    · split at h <;> cases h
  · unfold scanQuotedName at h
    split at h
    · split at h <;> cases h
    · cases h
  · unfold scanPosition at h
    dsimp only at h
    split at h
    · split at h <;> cases h
      rename_i hlimit _
      rw [isLegible_index_iff]
      unfold firstLongInteger
      exact positionValue_lt_of_length_le (Nat.le_of_not_lt hlimit)
    · cases h
  · cases h

/-- All positions that are read can be read again. -/
theorem isLegible_of_parseSegments_index {path : String} {text : List Char}
    {segments : List Segment} (h : parseSegments path text = .ok segments) :
    ∀ position, .index position ∈ segments → (Key.index position).isLegible = true := by
  induction hlength : text.length using Nat.strongRecOn generalizing text segments with
  | _ length ih =>
    cases text with
    | nil =>
      rw [parseSegments, Except.ok.injEq] at h
      simp [← h]
    | cons c text =>
      cases hscan : scanSegment (c :: text) with
      | error fault =>
        obtain ⟨error, herror⟩ : ∃ error, parseSegments path (c :: text) = .error error :=
          exists_error_of_scanSegment (List.cons_ne_nil c text) hscan
        rw [herror] at h
        cases h
      | ok result =>
        obtain ⟨segment, rest⟩ := result
        rw [parseSegments_of_scanSegment hscan] at h
        cases hrest : parseSegments path rest with
        | error error =>
          rw [hrest] at h
          cases h
        | ok others =>
          rw [hrest, Except.map, Except.ok.injEq] at h
          intro position hposition
          rw [← h] at hposition
          rcases List.mem_cons.mp hposition with rfl | hposition
          · exact isLegible_of_scanSegment hscan
          · exact ih rest.length (hlength ▸ length_lt_of_scanSegment hscan) hrest rfl position
              hposition

theorem isLegible_of_parsePath {path : String} {segments : List Segment}
    (h : parsePath path = .ok segments) :
    ∀ position, .index position ∈ segments → (Key.index position).isLegible = true := by
  rw [parsePath] at h
  split at h
  · split at h
    · exact isLegible_of_parseSegments_index h
    · cases h
  · cases h

/-! ### Printing and reading -/

/-- Whether a key is a position. -/
def Key.isIndex : Key → Bool
  | .name _ => false
  | .index _ => true

/-- The path of some keys can be read just if no line feed is overlooked in it, and then it is read
    as these keys, with positions where there are positions. -/
structure ReadsBack (keys : List Key) : Prop where
  readable_iff : (∃ segments, parsePath (pathText keys) = .ok segments) ↔
    ∀ key ∈ keys, ¬key.EndsInFeed
  keys_eq : ∀ segments, parsePath (pathText keys) = .ok segments →
    segments.map Segment.key = keys ∧ segments.map Segment.isIndex = keys.map Key.isIndex

theorem Key.isIndex_segment (key : Key) : key.segment.isIndex = key.isIndex := by
  cases key with
  | index position => rfl
  | name text =>
    rw [segment]
    split <;> rfl

/-- Of keys whose positions can be written, only names with an overlooked line feed cannot be read
    back. -/
theorem forall_isLegible_iff {keys : List Key}
    (h : ∀ position, .index position ∈ keys → (Key.index position).isLegible = true) :
    (∀ key ∈ keys, key.isLegible = true) ↔ ∀ key ∈ keys, ¬key.EndsInFeed := by
  refine forall_congr' fun key => forall_congr' fun hkey => ?_
  cases key with
  | name text => rw [← isLegible_name_eq_false_iff, Bool.not_eq_false]
  | index position =>
    refine ⟨fun _ => ?_, fun _ => h position hkey⟩
    rintro ⟨identifier, -, heq⟩
    cases heq

/-- A position that was read from a path can be written. -/
theorem isLegible_of_pathKeys {path : String} {keys : List Key} (h : pathKeys path = .ok keys) :
    ∀ position, .index position ∈ keys → (Key.index position).isLegible = true := by
  intro position hposition
  rw [pathKeys] at h
  cases hsegments : parsePath path with
  | error error =>
    rw [hsegments] at h
    cases h
  | ok segments =>
    rw [hsegments, Except.map, Except.ok.injEq] at h
    rw [← h] at hposition
    obtain ⟨segment, hsegment, hkey⟩ := List.mem_map.mp hposition
    cases segment <;> cases hkey
    exact isLegible_of_parsePath hsegments position hsegment

theorem readsBack {keys : List Key}
    (h : ∀ position, .index position ∈ keys → (Key.index position).isLegible = true) :
    ReadsBack keys := by
  constructor
  · rw [← forall_isLegible_iff h]
    constructor
    · rintro ⟨segments, hsegments⟩
      exact isLegible_of_parsePath_pathText hsegments
    · exact fun hkeys => ⟨_, parsePath_pathText hkeys⟩
  · intro segments hsegments
    have hkeys := parsePath_pathText (isLegible_of_parsePath_pathText hsegments)
    rw [hsegments, Except.ok.injEq] at hkeys
    rw [hkeys, List.map_map, List.map_map]
    exact ⟨List.map_id'' Key.key_segment keys,
      List.map_congr_left fun key _ => Key.isIndex_segment key⟩

/-- Paths and keys are inverse, but for overlooked line feeds: no two lists of keys have one path,
    and keys are read back from their path, be they given or read from any other path. -/
theorem injective_and_readsBack (path : String) (keys others : List Key) :
    (pathText keys = pathText others → keys = others) ∧
      ((∀ position, .index position ∈ keys → position < firstLongInteger) → ReadsBack keys) ∧
      (pathKeys path = .ok keys → ReadsBack keys) := by
  refine ⟨fun h => pathText_injective h, fun h => ?_, fun h => ?_⟩
  · exact readsBack fun position hposition => isLegible_index_iff.mpr (h position hposition)
  · exact readsBack (isLegible_of_pathKeys h)

/-- The name `a` with a line feed can be read from a path, but not from the one that is printed for
    it; names that hold a quote, a backslash or nothing can, and positions too. -/
theorem readsBack_of_feed :
    pathKeys "$[\"a\\n\"]" = .ok [.name "a\n"] ∧
      (¬∃ segments, parsePath (pathText [.name "a\n"]) = .ok segments) ∧
      ∃ segments, parsePath (pathText [.name "\"\\\n", .index 10, .name ""]) = .ok segments := by
  have hread : pathKeys "$[\"a\\n\"]" = .ok [.name "a\n"] := by
    have hkeys : (pathKeys "$[\"a\\n\"]").toOption = some [.name "a\n"] := by decide +kernel
    cases hpath : pathKeys "$[\"a\\n\"]" with
    | error error => rw [hpath] at hkeys; cases hkeys
    | ok keys => rw [hpath] at hkeys; rw [Option.some.inj hkeys]
  refine ⟨hread, ?_, ?_⟩
  · rw [((injective_and_readsBack _ _ []).2.2 hread).readable_iff]
    exact fun h => h _ List.mem_cons_self ⟨['a'], rfl, rfl⟩
  · refine ((injective_and_readsBack "" _ []).2.1 ?_).readable_iff.mpr ?_
    · intro position hposition
      have hten : position = 10 := by simpa using hposition
      exact isLegible_index_iff.mp (by rw [hten]; decide)
    · have hlegible : ∀ key ∈ [Key.name "\"\\\n", .index 10, .name ""], key.isLegible = true := by
        decide
      exact (forall_isLegible_iff fun position hposition => hlegible _ hposition).mp hlegible

end ItemDelta
