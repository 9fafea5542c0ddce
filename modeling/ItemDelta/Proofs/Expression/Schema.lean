import ItemDelta.Proofs.Alias.Entries
import ItemDelta.Proofs.Expression.Decoding
import ItemDelta.Proofs.Expression.Tokens
import ItemDelta.Proofs.Value.Document
import ItemDelta.Text.Blank

/-!
# The published form of expressions

A schema says which arguments an expression can be passed on as, and what each of them has to be:
the update is one line that starts with a keyword, if there is anything in it, and each placeholder
is a sigil with some characters behind it, none of which ends it. An expression whose texts and
registries are in shape conforms to it.

## Main definitions

* `isUpdateText`, `isIdentifierOf`, `isStoredName` — the texts that the schema asks for.
* `argumentSchema` — what each of the arguments has to be.
* `Value.conforms` — a map of arguments has those that are asked for, and no others.

## Main results

* `isIdentifierOf_of_isPlaceholder` — placeholders are what the schema asks for.
* `Builder.Spells.isUpdateText` — so is the update that a builder has written down.
* `Builder.conforms_finish` — the expression of a builder conforms to the schema.
-/

namespace ItemDelta

/-! ### The schema -/

/-- Whether no line ends in a text. -/
def isOneLine (text : List Char) : Bool := text.all fun c => !isLineEnd c

/-- Whether a text is empty, or one line that starts with the keyword of a clause. -/
def isUpdateText (text : String) : Bool :=
  (text.isEmpty || startsClause text.toList) && isOneLine text.toList

/-- Whether a text is a sigil with 1 to 254 characters behind it, none of which ends a line or a
    token. -/
def isIdentifierOf (sigil : Char) (text : String) : Bool :=
  match text.toList with
  | [] => false
  | c :: rest =>
    c == sigil && !rest.isEmpty && decide (rest.length ≤ 254) && isOneLine rest &&
      rest.all fun c => !isDelimiter c

/-- Whether a text has 1 to 255 characters. -/
def isStoredName (text : String) : Bool := !text.isEmpty && decide (text.length ≤ 255)

namespace Value

/-- Whether a value is a text that passes a test. -/
def isTextOf (test : String → Bool) : Value → Bool
  | .text s => test s
  | _ => false

/-- Whether a value is a map with some members, whose names and values pass tests. -/
def isRegistryOf (key : String → Bool) (entry : Value → Bool) : Value → Bool
  | .map members => !members.isEmpty && members.all fun member =>
      match member.1 with
      | .name name => key name && entry member.2
      | .index _ => false
  | _ => false

end Value

/-- What each of the arguments has to be. -/
def argumentSchema : List (String × (Value → Bool)) := [
  ("UpdateExpression", Value.isTextOf isUpdateText),
  ("ConditionExpression", Value.isTextOf fun text => !text.isEmpty),
  ("ExpressionAttributeNames",
    Value.isRegistryOf (isIdentifierOf nameSigil) (Value.isTextOf isStoredName)),
  ("ExpressionAttributeValues", Value.isRegistryOf (isIdentifierOf valueSigil) fun _ => true)]

/-- Whether a value is a map of arguments: an update and maybe others, each of which is as it has to
    be, and nothing else. -/
def Value.conforms : Value → Bool
  | .map members =>
    Members.contains members (.name "UpdateExpression") && members.all fun member =>
      match member.1 with
      | .name name => (argumentSchema.lookup name).any fun test => test member.2
      | .index _ => false
  | _ => false

/-! ### Lines -/

theorem isLineEnd_of_isPlain {c : Char} (h : isPlain c = true) : isLineEnd c = false := by
  -- No range of one table meets one of the other.
  have hapart : ∀ range ∈ CodeTable.lineEnds, ∀ plain ∈ CodeTable.plain,
      range.2 < plain.1 ∨ plain.2 < range.1 := by decide
  refine Bool.eq_false_iff.mpr fun hend => ?_
  obtain ⟨range, hrange, hfirst, hlast⟩ := CodeTable.exists_of_inRanges hend
  rw [isPlain, CodeTable.covers, List.any_eq_true] at h
  obtain ⟨plain, hplain, h⟩ := h
  rw [Bool.and_eq_true, decide_eq_true_eq, decide_eq_true_eq] at h
  have hranges := hapart range hrange plain hplain
  omega

section Lines

variable {text other : List Char}

theorem isOneLine_iff : isOneLine text = true ↔ ∀ c ∈ text, isLineEnd c = false := by
  simp [isOneLine]

theorem isOneLine_append (h : isOneLine text = true) (h' : isOneLine other = true) :
    isOneLine (text ++ other) = true := by
  rw [isOneLine, List.all_append, Bool.and_eq_true]
  exact ⟨h, h'⟩

theorem isOneLine_intercalate {separator : List Char} {texts : List (List Char)}
    (hseparator : isOneLine separator = true) (h : ∀ text ∈ texts, isOneLine text = true) :
    isOneLine (separator.intercalate texts) = true := by
  rw [isOneLine_iff]
  intro c hc
  rcases mem_of_mem_intercalate hc with hc | ⟨text, htext, hc⟩
  · exact isOneLine_iff.mp hseparator c hc
  · exact isOneLine_iff.mp (h text htext) c hc

end Lines

theorem IsBase.isOneLine {text : List Char} (h : IsBase text) : isOneLine text = true :=
  isOneLine_iff.mpr fun c hc => isLineEnd_of_isPlain (h.plain c hc)

theorem isIdentifierOf_of_isPlaceholder {sigil : Char} {text : String}
    (h : IsPlaceholder sigil text) : isIdentifierOf sigil text = true := by
  obtain ⟨rest, hrest, hbase⟩ := h
  have hlength : rest.length ≤ 254 := hbase.length_le
  have hdelimiters : (rest.all fun c => !isDelimiter c) = true := by
    rw [List.all_eq_true]
    intro c hc
    rw [isDelimiter_of_isPlain (hbase.plain c hc)]
    rfl
  have hfilled : rest.isEmpty = false := List.isEmpty_eq_false_iff.mpr hbase.ne_nil
  rw [isIdentifierOf, hrest]
  simp [hfilled, hlength, hbase.isOneLine, hdelimiters]

/-! ### Updates and conditions -/

section Texts

variable {names : Registry String} {values : Registry Value} {path text : String}
  {keys : List Key}

theorem IsPlaceholder.isOneLine {sigil : Char} (hsigil : IsSigil sigil)
    (h : IsPlaceholder sigil text) : isOneLine text.toList = true := by
  obtain ⟨rest, hrest, hbase⟩ := h
  have hfirst : isLineEnd sigil = false := by
    rcases hsigil with rfl | rfl <;> decide
  rw [hrest, ItemDelta.isOneLine, List.all_cons, hfirst]
  exact hbase.isOneLine

theorem SpellsPath.isOneLine (h : SpellsPath names path keys) :
    isOneLine path.toList = true := by
  rw [isOneLine_iff]
  intro c hc
  rcases h.chars hc with hchar | rfl
  · simp only [isPathCharacter, Bool.or_eq_true, decide_eq_true_eq] at hchar
    rcases hchar with ((hplain | rfl) | rfl) | rfl
    · exact isLineEnd_of_isPlain hplain
    all_goals decide
  · decide

end Texts

section Clauses

variable {keyword : String} {items : List String}

theorem isOneLine_clause (hkeyword : keyword ∈ clauseKeywords)
    (h : ∀ item ∈ items, isOneLine item.toList = true) :
    ∀ text ∈ (clause keyword items).map String.toList,
      isOneLine text = true ∧ startsClause text = true := by
  have hkeywords : ∀ keyword ∈ clauseKeywords, isOneLine keyword.toList = true := by decide
  intro text htext
  by_cases hne : items = []
  · rw [hne] at htext
    cases htext
  · rw [map_toList_clause hne, List.mem_singleton] at htext
    rw [htext]
    refine ⟨?_, startsClause_keyword hkeyword _⟩
    have hitems : ∀ text ∈ items.map String.toList, isOneLine text = true := by
      intro text htext
      obtain ⟨item, hitem, rfl⟩ := List.mem_map.mp htext
      exact h item hitem
    have hblank : isOneLine [' '] = true := by decide
    exact isOneLine_append (hkeywords keyword hkeyword)
      (isOneLine_append hblank (isOneLine_intercalate (by decide) hitems))

end Clauses

/-- The update that a builder has written down is what the schema asks for. -/
theorem Builder.Spells.isUpdateText {b : Builder} {request : Request} (h : b.Spells request) :
    isUpdateText b.clauses.text = true := by
  have hset : ∀ item ∈ b.clauses.set.map AliasedNode.assignment, isOneLine item.toList = true := by
    rw [List.forall_mem_map]
    refine forall_of_forall₂ h.set fun item target hspells => ?_
    rw [toList_assignment]
    have hequals : isOneLine [' ', '=', ' '] = true := by decide
    exact isOneLine_append hspells.1.isOneLine
      (isOneLine_append hequals (hspells.2.2.1.isOneLine isSigil_value))
  have hremove : ∀ item ∈ b.clauses.remove, isOneLine item.toList = true :=
    forall_of_forall₂ h.remove fun item keys hspells => hspells.1.isOneLine
  have hdelete : ∀ item ∈ b.clauses.delete.map AliasedNode.deletion,
      isOneLine item.toList = true := by
    rw [List.forall_mem_map]
    refine forall_of_forall₂ h.delete fun item target hspells => ?_
    rw [toList_deletion]
    have hblank : isOneLine [' '] = true := by decide
    exact isOneLine_append hspells.1.isOneLine
      (isOneLine_append hblank (hspells.2.2.1.isOneLine isSigil_value))
  have htexts : ∀ text ∈ b.clauses.texts.map String.toList,
      isOneLine text = true ∧ startsClause text = true := by
    rw [Clauses.texts, List.map_append, List.map_append]
    intro text htext
    rw [List.mem_append, List.mem_append] at htext
    rcases htext with (htext | htext) | htext
    · exact isOneLine_clause (by decide) hset text htext
    · exact isOneLine_clause (by decide) hremove text htext
    · exact isOneLine_clause (by decide) hdelete text htext
  rw [ItemDelta.isUpdateText, Clauses.text, String.toList_intercalate, Bool.and_eq_true,
    Bool.or_eq_true]
  refine ⟨?_, isOneLine_intercalate (by decide) fun text htext => (htexts text htext).1⟩
  by_cases hne : b.clauses.texts = []
  · rw [hne]
    exact .inl rfl
  · refine .inr (startsClause_intercalate ?_ fun text htext => (htexts text htext).2)
    exact fun hnil => hne (List.map_eq_nil_iff.mp hnil)

theorem Condition.text_ne_empty (condition : Condition) : condition.text.isEmpty = false := by
  have hne : condition.text.toList ≠ [] := by
    cases condition with
    | absent path => rw [toList_absent]; simp
    | compares path operator value => rw [toList_compares]; simp
  refine Bool.eq_false_iff.mpr fun hempty => hne ?_
  rw [String.isEmpty_iff.mp hempty]
  rfl

/-! ### Expressions -/

/-- Named arguments conform to the schema if an update is among them and each of them is as it has
    to be. -/
theorem conforms_ofNamed {arguments : List (String × Value)}
    (hupdate : "UpdateExpression" ∈ arguments.map Prod.fst)
    (h : ∀ argument ∈ arguments,
      ((argumentSchema.lookup argument.1).any fun test => test argument.2) = true) :
    (Value.ofNamed arguments).conforms = true := by
  rw [Value.ofNamed, Value.conforms, Bool.and_eq_true, List.all_map]
  constructor
  · obtain ⟨argument, hargument, hname⟩ := List.mem_map.mp hupdate
    rw [Members.contains_iff, Members.keys, List.map_map]
    exact List.mem_map.mpr ⟨argument, hargument, congrArg Key.name hname⟩
  · exact List.all_eq_true.mpr h

theorem isRegistryOf_ofNamed {key : String → Bool} {entry : Value → Bool}
    {entries : Registry Value} (hne : entries ≠ [])
    (h : ∀ member ∈ entries, key member.1 = true ∧ entry member.2 = true) :
    (Value.ofNamed entries).isRegistryOf key entry = true := by
  rw [Value.ofNamed, Value.isRegistryOf, Bool.and_eq_true, List.all_map, List.isEmpty_map]
  refine ⟨by simpa using hne, List.all_eq_true.mpr fun member hmember => ?_⟩
  exact Bool.and_eq_true_iff.mpr (h member hmember)

/-- An expression with an update as asked for, a condition that is not empty, and placeholders and
    names as asked for conforms to the schema. -/
theorem Expression.conforms_toValue {expression : Expression}
    (hupdate : isUpdateText expression.update = true)
    (hcondition : ∀ text ∈ expression.condition, text.isEmpty = false)
    (hnames : ∀ entry ∈ expression.names,
      isIdentifierOf nameSigil entry.1 = true ∧ isStoredName entry.2 = true)
    (hvalues : ∀ entry ∈ expression.values, isIdentifierOf valueSigil entry.1 = true) :
    expression.toValue.conforms = true := by
  rw [toValue]
  refine conforms_ofNamed (by simp) fun argument hargument => ?_
  rw [List.mem_append, List.cons_append, List.mem_cons, List.mem_append] at hargument
  dsimp only at hargument
  rcases hargument with (rfl | hargument | hargument) | hargument
  · exact hupdate
  · split at hargument
    · cases hargument
    · rename_i hne
      rw [List.mem_singleton.mp hargument]
      refine isRegistryOf_ofNamed (fun hnil => hne (List.isEmpty_iff.mpr hnil)) ?_
      exact List.forall_mem_map.mpr hnames
  · split at hargument
    · cases hargument
    · rename_i hne
      rw [List.mem_singleton.mp hargument]
      change (Value.ofNamed expression.values).isRegistryOf (isIdentifierOf valueSigil)
        (fun _ => true) = true
      refine isRegistryOf_ofNamed (fun hnil => hne (List.isEmpty_iff.mpr hnil)) ?_
      exact fun entry hentry => ⟨hvalues entry hentry, rfl⟩
  · rw [Option.mem_toList, Option.map_eq_some_iff] at hargument
    obtain ⟨text, htext, rfl⟩ := hargument
    change (!text.isEmpty) = true
    rw [hcondition text htext]
    rfl

/-- The expression of a builder conforms to the schema, if no name in its registry is empty. -/
theorem Builder.conforms_finish {b : Builder} {request : Request} (hspells : b.Spells request)
    (hshaped : b.aliasing.IsShaped) (hlimit : b.aliasing.context.counter < counterLimit)
    (hfilled : ∀ entry ∈ b.aliasing.names, entry.2 ≠ "") :
    b.finish.toValue.conforms = true := by
  refine Expression.conforms_toValue hspells.isUpdateText ?_ ?_ ?_
  · intro text htext
    obtain ⟨condition, -, rfl⟩ := Option.map_eq_some_iff.mp htext
    exact condition.text_ne_empty
  · intro entry hentry
    obtain ⟨hplaceholder, hlength⟩ := hshaped.names hlimit entry hentry
    refine ⟨isIdentifierOf_of_isPlaceholder hplaceholder, ?_⟩
    have hempty : entry.2.isEmpty = false :=
      Bool.eq_false_iff.mpr fun h => hfilled entry hentry (String.isEmpty_iff.mp h)
    rw [isStoredName, hempty]
    exact decide_eq_true hlength
  · exact fun entry hentry =>
      isIdentifierOf_of_isPlaceholder (hshaped.values hlimit entry hentry)

end ItemDelta
