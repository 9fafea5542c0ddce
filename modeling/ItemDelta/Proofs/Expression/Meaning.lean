import Mathlib.Data.List.Forall2
import ItemDelta.Expression.Builder
import ItemDelta.Proofs.Alias.Registration
import ItemDelta.Report.Expression

/-!
# The meaning of update expressions

An update expression is read as the store reads it: its text is split into clauses, items and
words, and each placeholder stands for what the registries say. A text that does not have the
form of an expression, or has a placeholder that is not registered, has no meaning.

## Main definitions

* `UpdateClause`, `Demand`, `Meaning` — what an expression asks of the store.
* `readPath` — the keys that an aliased path stands for.
* `readUpdate`, `readCondition` — the clauses of an update, and its condition.
* `Expression.meaning` — both.

## Main results

* `readPath_of_spells` — the parts that spell out a list of keys are read as these.
* `splitClauses_text_of_spells` — an update splits into the clauses that it was joined from.
* `readUpdate_of_spells` — items that spell out their keys and values are read as these.
-/

namespace ItemDelta

/-! ### Reading -/

/-- A clause of an update: assignments of values to paths, removals of what stands at paths, or
    deletions of elements from the sets at paths. -/
inductive UpdateClause where
  | set (items : List (List Key × Value))
  | remove (items : List (List Key))
  | delete (items : List (List Key × Value))
deriving DecidableEq

/-- What a condition demands of the stored item: that nothing stands at a path, or that what
    stands there compares as stated with a value. -/
inductive Demand where
  | absent (keys : List Key)
  | compares (keys : List Key) (operator : String) (value : Value)
deriving DecidableEq

/-- What an expression asks of the store: the clauses of its update in their order, and its
    condition. -/
structure Meaning where
  update : List UpdateClause
  condition : Option Demand
deriving DecidableEq

/-- What a placeholder with a sigil stands for. -/
def readPlaceholder {α : Type} (sigil : Char) (registry : Registry α) (text : List Char) :
    Option α :=
  if text.head? = some sigil then registry.get? (String.ofList text) else none

/-- The position in a subscript, the opening bracket already read. -/
def readSubscript (text : List Char) : Option Key :=
  if text.getLast? = some ']' ∧ text.dropLast ≠ [] ∧ text.dropLast.all Char.isDigit = true then
    some (.index (digitsValue text.dropLast))
  else none

/-- What stands in front of the subscripts of a part: a placeholder or, if there are subscripts,
    nothing. -/
def readFront (names : Registry String) (front : List Char) (subscripts : List (List Char)) :
    Option (List Key) :=
  if front ≠ [] then (readPlaceholder nameSigil names front).map fun name => [.name name]
  else if subscripts = [] then none
  else some []

/-- The keys of a part of a path that is already split in front of its subscripts. -/
def readPieces (names : Registry String) : List (List Char) → Option (List Key)
  | [] => none
  | front :: subscripts => do
    return (← readFront names front subscripts) ++ (← subscripts.mapM readSubscript)

/-- The keys of a part of a path. -/
def readPart (names : Registry String) (part : List Char) : Option (List Key) :=
  readPieces names (part.splitOn '[')

/-- The keys of a path, whose parts have points between them. -/
def readPath (names : Registry String) (path : List Char) : Option (List Key) :=
  ((path.splitOn '.').mapM (readPart names)).map List.flatten

/-- The path and the value of an assignment. -/
def readAssignment (names : Registry String) (values : Registry Value) (item : List Char) :
    Option (List Key × Value) :=
  match item.splitOn ' ' with
  | [path, ['='], value] => do
    return (← readPath names path, ← readPlaceholder valueSigil values value)
  | _ => none

/-- The path and the value of a deletion. -/
def readDeletion (names : Registry String) (values : Registry Value) (item : List Char) :
    Option (List Key × Value) :=
  match item.splitOn ' ' with
  | [path, value] => do
    return (← readPath names path, ← readPlaceholder valueSigil values value)
  | _ => none

/-- The items of a clause, which have commas and blanks between them. -/
def splitItems : List Char → List (List Char)
  | [] => [[]]
  | ',' :: ' ' :: rest => [] :: splitItems rest
  | c :: rest => (splitItems rest).modifyHead (c :: ·)

/-- A clause, which is a keyword and items with a blank between them. -/
def readClause (names : Registry String) (values : Registry Value) (text : List Char) :
    Option UpdateClause :=
  let keyword := String.ofList (text.takeWhile (· ≠ ' '))
  let items := splitItems ((text.dropWhile (· ≠ ' ')).drop 1)
  if keyword = "SET" then (items.mapM (readAssignment names values)).map .set
  else if keyword = "REMOVE" then (items.mapM (readPath names)).map .remove
  else if keyword = "DELETE" then (items.mapM (readDeletion names values)).map .delete
  else none

/-- The clauses of an update. -/
def readUpdate (names : Registry String) (values : Registry Value) (text : String) :
    Option (List UpdateClause) :=
  (splitClauses text.toList).mapM (readClause names values)

/-- The demand of a condition. -/
def readCondition (names : Registry String) (values : Registry Value) (text : String) :
    Option Demand :=
  match text.toList.splitOn ' ' with
  | [function, argument] =>
    if function = "attribute_not_exists".toList ∧ argument.head? = some '(' ∧
        argument.getLast? = some ')' then
      (readPath names (argument.drop 1).dropLast).map .absent
    else none
  | [path, operator, value] => do
    return .compares (← readPath names path) (String.ofList operator)
      (← readPlaceholder valueSigil values value)
  | _ => none

/-- What an expression asks of the store. -/
def Expression.meaning (expression : Expression) : Option Meaning := do
  let update ← readUpdate expression.names expression.values expression.update
  match expression.condition with
  | none => return ⟨update, none⟩
  | some text => return ⟨update, some (← readCondition expression.names expression.values text)⟩

/-! ### Paths -/

/-- The characters of aliased paths, apart from the points between their parts. -/
def isPathCharacter (c : Char) : Bool := isPlain c || c = nameSigil || c = '[' || c = ']'

/-- A text starts with a placeholder of a name or with a subscript. -/
def StartsPath (text : List Char) : Prop :=
  text.head? = some nameSigil ∨ text.head? = some '['

theorem StartsPath.append {text : List Char} (h : StartsPath text) (rest : List Char) :
    StartsPath (text ++ rest) := by
  cases text with
  | nil => exact h.elim (fun h => by cases h) (fun h => by cases h)
  | cons c text => exact h

theorem isPathCharacter_of_mem_indexStep {position : Nat} {c : Char} (h : c ∈ indexStep position) :
    isPathCharacter c = true := by
  rw [indexStep, List.mem_append, List.mem_cons, List.mem_singleton] at h
  rcases h with (rfl | h) | rfl
  · decide
  · rw [isPathCharacter, isPlain_of_isDigit (isDigit_of_mem_decimalDigits h)]
    rfl
  · decide

theorem readSubscript_decimalDigits (position : Nat) :
    readSubscript (decimalDigits position ++ [']']) = some (.index position) := by
  have hne : decimalDigits position ≠ [] := Nat.toDigits_ne_nil
  have hdigits : (decimalDigits position).all Char.isDigit = true :=
    List.all_eq_true.mpr fun c hc => isDigit_of_mem_decimalDigits hc
  rw [readSubscript, List.getLast?_concat, List.dropLast_concat, if_pos ⟨rfl, hne, hdigits⟩,
    digitsValue_decimalDigits]

theorem splitOn_indexStep (part : List Char) (position : Nat) :
    (part ++ indexStep position).splitOn '[' =
      part.splitOn '[' ++ [decimalDigits position ++ [']']] := by
  have hbracket : '[' ∉ decimalDigits position ++ [']'] := by
    intro h
    rcases List.mem_append.mp h with h | h
    · exact absurd (isDigit_of_mem_decimalDigits h) (by decide)
    · exact absurd h (by decide)
  rw [indexStep, List.cons_append, List.splitOn_append_cons_self,
    List.splitOn_eq_singleton hbracket]

theorem readPieces_append {names : Registry String} {pieces : List (List Char)} {keys : List Key}
    {subscript : List Char} {key : Key} (h : readPieces names pieces = some keys)
    (hkey : readSubscript subscript = some key) :
    readPieces names (pieces ++ [subscript]) = some (keys ++ [key]) := by
  cases pieces with
  | nil => cases h
  | cons front subscripts =>
    rw [readPieces] at h
    simp only [Option.bind_eq_bind, Option.bind_eq_some_iff, Option.pure_def,
      Option.some.injEq] at h
    obtain ⟨name, hname, positions, hpositions, rfl⟩ := h
    -- Whether nothing may stand in front depends on whether there are subscripts already.
    have hname' : readFront names front (subscripts ++ [subscript]) = some name := by
      rw [readFront] at hname ⊢
      by_cases hfront : front ≠ []
      · rw [if_pos hfront] at hname ⊢
        exact hname
      · rw [if_neg hfront] at hname ⊢
        split at hname
        · cases hname
        · rw [if_neg (by simp), hname]
    rw [List.cons_append, readPieces, hname']
    simp [hpositions, hkey]

theorem readPart_append_indexStep {names : Registry String} {part : List Char} {keys : List Key}
    (h : readPart names part = some keys) (position : Nat) :
    readPart names (part ++ indexStep position) = some (keys ++ [.index position]) := by
  rw [readPart, splitOn_indexStep]
  exact readPieces_append h (readSubscript_decimalDigits position)

theorem readPart_indexStep (names : Registry String) (position : Nat) :
    readPart names (indexStep position) = some [.index position] := by
  have hsplit := splitOn_indexStep [] position
  rw [List.nil_append] at hsplit
  rw [readPart, hsplit]
  simp [readPieces, readFront, readSubscript_decimalDigits]

theorem readPlaceholder_of_isPlaceholder {α : Type} {sigil : Char} {registry : Registry α}
    {text : String} (h : IsPlaceholder sigil text) :
    readPlaceholder sigil registry text.toList = registry.get? text := by
  obtain ⟨rest, hrest, -⟩ := h
  rw [readPlaceholder, String.ofList_toList, hrest, List.head?_cons, if_pos rfl]

theorem IsPlaceholder.notMem {sigil c : Char} {text : String} (h : IsPlaceholder sigil text)
    (hsigil : c ≠ sigil) (hplain : isPlain c = false) : c ∉ text.toList := by
  obtain ⟨rest, hrest, hbase⟩ := h
  rw [hrest]
  intro hc
  rcases List.mem_cons.mp hc with hc | hc
  · exact hsigil hc
  · rw [hbase.plain c hc] at hplain
    cases hplain

theorem IsPlaceholder.ne_nil {sigil : Char} {text : String} (h : IsPlaceholder sigil text) :
    text.toList ≠ [] := by
  obtain ⟨rest, hrest, -⟩ := h
  rw [hrest]
  exact List.cons_ne_nil _ _

theorem readPart_placeholder {names : Registry String} {placeholder name : String}
    (h : IsPlaceholder nameSigil placeholder) (hget : names.get? placeholder = some name) :
    readPart names placeholder.toList = some [.name name] := by
  have hbracket : '[' ∉ placeholder.toList := h.notMem (by decide) (by decide)
  rw [readPart, List.splitOn_eq_singleton hbracket, readPieces, readFront,
    if_pos h.ne_nil, readPlaceholder_of_isPlaceholder h, hget]
  rfl

theorem addSubscript_append (subscript : String) (parts : List String) (part : String) :
    addSubscript subscript (parts ++ [part]) = parts ++ [part ++ subscript] := by
  induction parts with
  | nil => rfl
  | cons first parts ih =>
    cases parts with
    | nil => rfl
    | cons second parts => exact congrArg (first :: ·) ih

/-- A part of a path: a text that starts with a placeholder or a subscript, with nothing else
    behind it but subscripts. -/
structure IsPathPart (part : String) : Prop where
  start : StartsPath part.toList
  chars : ∀ c ∈ part.toList, isPathCharacter c = true

theorem isPathPart_placeholder {placeholder : String} (h : IsPlaceholder nameSigil placeholder) :
    IsPathPart placeholder := by
  obtain ⟨rest, hrest, hbase⟩ := h
  refine ⟨.inl (by rw [hrest]; rfl), fun c hc => ?_⟩
  rw [hrest, List.mem_cons] at hc
  rcases hc with rfl | hc
  · decide
  · rw [isPathCharacter, hbase.plain c hc]
    rfl

theorem isPathPart_indexStep (position : Nat) :
    IsPathPart (String.ofList (indexStep position)) := by
  refine ⟨.inr ?_, fun c hc => ?_⟩
  · rw [String.toList_ofList]
    rfl
  · rw [String.toList_ofList] at hc
    exact isPathCharacter_of_mem_indexStep hc

theorem IsPathPart.append {part : String} (h : IsPathPart part) (position : Nat) :
    IsPathPart (part ++ String.ofList (indexStep position)) := by
  constructor
  · rw [String.toList_append]
    exact h.start.append _
  · intro c hc
    rw [String.toList_append, String.toList_ofList, List.mem_append] at hc
    rcases hc with hc | hc
    · exact h.chars c hc
    · exact isPathCharacter_of_mem_indexStep hc

theorem isPathPart_of_mem_addSubscript {parts : List String} (position : Nat)
    (h : ∀ part ∈ parts, IsPathPart part) :
    ∀ part ∈ addSubscript (String.ofList (indexStep position)) parts, IsPathPart part := by
  intro part hpart
  rcases List.eq_nil_or_concat parts with rfl | ⟨before, last, rfl⟩
  · rw [addSubscript, List.mem_singleton] at hpart
    rw [hpart]
    exact isPathPart_indexStep position
  · rw [List.concat_eq_append] at h hpart
    rw [addSubscript_append] at hpart
    rcases List.mem_append.mp hpart with hpart | hpart
    · exact h part (List.mem_append_left _ hpart)
    · rw [List.mem_singleton.mp hpart]
      exact (h last (List.mem_append_right _ (List.mem_singleton_self last))).append position

/-- A subscript is a part of its own at the start, and lengthens the last part elsewhere. -/
theorem exists_groups_addSubscript {names : Registry String} {parts : List String}
    {groups : List (List Key)} (position : Nat)
    (h : (parts.mapM fun part => readPart names part.toList) = some groups) :
    ∃ others, ((addSubscript (String.ofList (indexStep position)) parts).mapM fun part =>
        readPart names part.toList) = some others ∧
      others.flatten = groups.flatten ++ [.index position] := by
  rcases List.eq_nil_or_concat parts with rfl | ⟨before, last, rfl⟩
  · rw [List.mapM_nil] at h
    cases Option.some.inj h
    refine ⟨[[.index position]], ?_, rfl⟩
    simp [addSubscript, String.toList_ofList, readPart_indexStep]
  · rw [List.concat_eq_append, List.mapM_append] at h
    simp only [List.mapM_cons, List.mapM_nil, Option.bind_eq_bind, Option.bind_eq_some_iff,
      Option.pure_def, Option.some.injEq] at h
    obtain ⟨first, hfirst, _, ⟨group, hgroup, _, rfl, rfl⟩, rfl⟩ := h
    have hlast := readPart_append_indexStep hgroup position
    refine ⟨first ++ [group ++ [.index position]], ?_, by simp⟩
    rw [List.concat_eq_append, addSubscript_append]
    simp [List.mapM_append, hfirst, String.toList_append, String.toList_ofList, hlast]

/-- The parts that spell out a list of keys are read as these, part by part. -/
theorem Spells.readPart {names : Registry String} {parts : List String} {keys : List Key}
    (h : Spells names parts keys) :
    (∀ part ∈ parts, IsPathPart part) ∧
      ∃ groups, (parts.mapM fun part => readPart names part.toList) = some groups ∧
        groups.flatten = keys := by
  induction h with
  | nil => exact ⟨by simp, [], rfl, rfl⟩
  | @name parts keys placeholder name _ hshape hget ih =>
    obtain ⟨hparts, groups, hgroups, rfl⟩ := ih
    refine ⟨fun part hpart => ?_, groups ++ [[.name name]], ?_, by simp⟩
    · rcases List.mem_append.mp hpart with hpart | hpart
      · exact hparts part hpart
      · rw [List.mem_singleton.mp hpart]
        exact isPathPart_placeholder hshape
    · simp [List.mapM_append, hgroups, readPart_placeholder hshape hget]
  | index position _ ih =>
    obtain ⟨hparts, groups, hgroups, rfl⟩ := ih
    exact ⟨isPathPart_of_mem_addSubscript position hparts,
      exists_groups_addSubscript position hgroups⟩

/-- A path that spells out a list of keys is read as these. -/
theorem readPath_of_spells {names : Registry String} {path : String} {keys : List Key}
    (h : SpellsPath names path keys) (hne : keys ≠ []) :
    readPath names path.toList = some keys := by
  obtain ⟨parts, hparts, rfl⟩ := h
  obtain ⟨hshape, groups, hgroups, rfl⟩ := hparts.readPart
  have hnil : parts.map String.toList ≠ [] := by
    rintro hnil
    rw [List.map_eq_nil_iff] at hnil
    subst hnil
    rw [List.mapM_nil] at hgroups
    exact hne (by rw [← Option.some.inj hgroups]; rfl)
  have hpoint : ∀ part ∈ parts.map String.toList, '.' ∉ part := by
    intro part hpart hmem
    obtain ⟨text, htext, rfl⟩ := List.mem_map.mp hpart
    exact absurd ((hshape text htext).chars _ hmem) (by decide)
  have hmapM : (parts.map String.toList).mapM (readPart names) = some groups := by
    rw [List.mapM_map]
    exact hgroups
  rw [readPath, String.toList_intercalate, show ".".toList = ['.'] from rfl,
    List.splitOn_intercalate '.' hpoint hnil, hmapM]
  rfl

theorem mem_of_mem_intercalate {α : Type} {separator : List α} {pieces : List (List α)} {c : α}
    (h : c ∈ separator.intercalate pieces) : c ∈ separator ∨ ∃ piece ∈ pieces, c ∈ piece := by
  induction pieces with
  | nil => cases h
  | cons piece pieces ih =>
    rcases List.eq_nil_or_concat pieces with rfl | ⟨before, last, hpieces⟩
    · rw [List.intercalate_singleton] at h
      exact .inr ⟨piece, List.mem_cons_self, h⟩
    · rw [List.intercalate_cons_of_ne_nil (by rw [hpieces]; simp), List.mem_append,
        List.mem_append] at h
      rcases h with (h | h) | h
      · exact .inr ⟨piece, List.mem_cons_self, h⟩
      · exact .inl h
      · refine (ih h).imp_right ?_
        rintro ⟨other, hother, hc⟩
        exact ⟨other, List.mem_cons_of_mem _ hother, hc⟩

/-- A path that spells out keys starts with a placeholder or a subscript. -/
theorem SpellsPath.start {names : Registry String} {path : String} {keys : List Key}
    (h : SpellsPath names path keys) (hne : keys ≠ []) : StartsPath path.toList := by
  obtain ⟨parts, hparts, rfl⟩ := h
  obtain ⟨hshape, groups, hgroups, rfl⟩ := hparts.readPart
  rw [String.toList_intercalate]
  cases parts with
  | nil =>
    rw [List.mapM_nil] at hgroups
    exact absurd (by rw [← Option.some.inj hgroups]; rfl) hne
  | cons part parts =>
    have hstart := (hshape part List.mem_cons_self).start
    rcases List.eq_nil_or_concat parts with rfl | ⟨before, last, rfl⟩
    · rwa [List.map_cons, List.map_nil, List.intercalate_singleton]
    · rw [List.map_cons, List.intercalate_cons_of_ne_nil (by simp), List.append_assoc]
      exact hstart.append _

theorem SpellsPath.chars {names : Registry String} {path : String} {keys : List Key} {c : Char}
    (h : SpellsPath names path keys) (hc : c ∈ path.toList) :
    isPathCharacter c = true ∨ c = '.' := by
  obtain ⟨parts, hparts, rfl⟩ := h
  obtain ⟨hshape, -⟩ := hparts.readPart
  rw [String.toList_intercalate] at hc
  rcases mem_of_mem_intercalate hc with hc | ⟨text, htext, hc⟩
  · exact .inr (List.mem_singleton.mp hc)
  · obtain ⟨part, hpart, rfl⟩ := List.mem_map.mp htext
    exact .inl ((hshape part hpart).chars c hc)

theorem SpellsPath.notMem {names : Registry String} {path : String} {keys : List Key} {c : Char}
    (h : SpellsPath names path keys) (hpath : isPathCharacter c = false) (hpoint : c ≠ '.') :
    c ∉ path.toList := by
  intro hc
  rcases h.chars hc with hchar | hchar
  · rw [hpath] at hchar
    cases hchar
  · exact hpoint hchar

/-! ### Clauses -/

/-- The letters that keywords start with. -/
def startsKeyword (c : Char) : Bool := ['S', 'R', 'D'].contains c

/-- Whether no clause starts behind a blank of a text, nor behind its end: after each blank
    another character follows, which no keyword starts with. -/
def isUnbroken : List Char → Bool
  | [] => true
  | c :: rest =>
    (c != ' ' || rest.head?.any fun d => !startsKeyword d) && isUnbroken rest

theorem isUnbroken_append {word rest : List Char} (hword : ' ' ∉ word)
    (hrest : isUnbroken rest = true) : isUnbroken (word ++ rest) = true := by
  induction word with
  | nil => exact hrest
  | cons c word ih =>
    rw [List.mem_cons, not_or] at hword
    rw [List.cons_append, isUnbroken, bne_iff_ne.mpr (Ne.symm hword.1), ih hword.2]
    rfl

theorem isUnbroken_blank {rest : List Char} (hrest : isUnbroken rest = true)
    (hhead : (rest.head?.any fun d => !startsKeyword d) = true) :
    isUnbroken (' ' :: rest) = true := by
  rw [isUnbroken, hhead, hrest]
  rfl

/-- A text that starts a clause starts with the first letter of a keyword. -/
theorem startsClause_eq_false {text : List Char}
    (hhead : (text.head?.any fun d => !startsKeyword d) = true) :
    startsClause text = false := by
  have hkeywords : ∀ keyword ∈ clauseKeywords,
      (keyword.toList.head?.any startsKeyword) = true := by decide
  rw [startsClause, List.any_eq_false]
  intro keyword hkeyword hfront
  have hfirst := hkeywords keyword hkeyword
  rw [List.isPrefixOf_iff_prefix] at hfront
  obtain ⟨rest, hrest⟩ := hfront
  cases hletters : keyword.toList with
  | nil =>
    rw [hletters] at hfirst
    cases hfirst
  | cons letter letters =>
    rw [hletters, List.head?_cons, Option.any_some] at hfirst
    rw [← hrest, hletters, List.cons_append, List.cons_append, List.head?_cons, Option.any_some,
      hfirst] at hhead
    cases hhead

theorem startsClause_append {text : List Char} (h : startsClause text = true) (rest : List Char) :
    startsClause (text ++ rest) = true := by
  rw [startsClause, List.any_eq_true] at h ⊢
  obtain ⟨keyword, hkeyword, hfront⟩ := h
  rw [List.isPrefixOf_iff_prefix] at hfront
  exact ⟨keyword, hkeyword, List.isPrefixOf_iff_prefix.mpr
    (hfront.trans (List.prefix_append text rest))⟩

theorem clausePieces_ne_nil (text : List Char) : clausePieces text ≠ [] := by
  cases text with
  | nil => simp [clausePieces]
  | cons c rest =>
    rw [clausePieces]
    split
    · simp
    · split
      · simp
      · simp

theorem clausePieces_append {text : List Char} (h : isUnbroken text = true) (rest : List Char) :
    clausePieces (text ++ rest) = (clausePieces rest).modifyHead (text ++ ·) := by
  induction text with
  | nil =>
    rw [List.nil_append]
    cases clausePieces rest with
    | nil => rfl
    | cons piece pieces => rfl
  | cons c text ih =>
    rw [isUnbroken, Bool.and_eq_true, Bool.or_eq_true, bne_iff_ne] at h
    -- A blank inside the text has a character of the text behind it, so no clause starts there.
    have hno : ¬ (c = ' ' ∧ startsClause (text ++ rest) = true) := by
      rintro ⟨hc, hstarts⟩
      have hhead := h.1.resolve_left (not_not_intro hc)
      cases text with
      | nil => cases hhead
      | cons d text =>
        have hfalse : startsClause (d :: (text ++ rest)) = false := startsClause_eq_false hhead
        rw [List.cons_append, hfalse] at hstarts
        cases hstarts
    rw [List.cons_append, clausePieces, if_neg hno, ih h.2]
    cases hpieces : clausePieces rest with
    | nil => exact absurd hpieces (clausePieces_ne_nil rest)
    | cons piece pieces => rfl

theorem startsClause_intercalate {separator : List Char} {texts : List (List Char)}
    (hne : texts ≠ []) (h : ∀ text ∈ texts, startsClause text = true) :
    startsClause (separator.intercalate texts) = true := by
  obtain ⟨text, rest, rfl⟩ := List.exists_cons_of_ne_nil hne
  have htext := h text List.mem_cons_self
  cases rest with
  | nil => rwa [List.intercalate_singleton]
  | cons next rest =>
    rw [List.intercalate_cons_cons, List.append_assoc]
    exact startsClause_append htext _

/-- A text of unbroken clauses with blanks between them falls into these clauses. -/
theorem clausePieces_intercalate {texts : List (List Char)} (hne : texts ≠ [])
    (h : ∀ text ∈ texts, isUnbroken text = true ∧ startsClause text = true) :
    clausePieces ([' '].intercalate texts) = texts := by
  induction texts with
  | nil => exact absurd rfl hne
  | cons text texts ih =>
    have htext := (h text List.mem_cons_self).1
    have hrest := fun other hother => h other (List.mem_cons_of_mem text hother)
    cases texts with
    | nil =>
      have hpieces := clausePieces_append htext []
      rw [List.append_nil] at hpieces
      rw [List.intercalate_singleton, hpieces]
      simp [clausePieces]
    | cons next texts =>
      have hstarts : startsClause ([' '].intercalate (next :: texts)) = true :=
        startsClause_intercalate (List.cons_ne_nil _ _) fun text htext => (hrest text htext).2
      rw [List.intercalate_cons_cons, List.append_assoc, clausePieces_append htext,
        List.singleton_append, clausePieces, if_pos ⟨rfl, hstarts⟩, ih (by simp) hrest]
      simp

theorem splitClauses_intercalate {texts : List (List Char)}
    (h : ∀ text ∈ texts, isUnbroken text = true ∧ startsClause text = true) :
    splitClauses ([' '].intercalate texts) = texts := by
  rw [splitClauses]
  by_cases hne : texts = []
  · rw [hne]
    rfl
  · rw [clausePieces_intercalate hne h, List.filter_eq_self]
    intro text htext
    cases text with
    | nil => cases (h [] htext).2
    | cons c rest => rfl

theorem splitItems_append {item : List Char} (h : ',' ∉ item) (rest : List Char) :
    splitItems (item ++ rest) = (splitItems rest).modifyHead (item ++ ·) := by
  induction item with
  | nil =>
    rw [List.nil_append]
    cases splitItems rest with
    | nil => rfl
    | cons first items => rfl
  | cons c item ih =>
    rw [List.mem_cons, not_or] at h
    rw [List.cons_append, splitItems, ih h.2, List.modifyHead_modifyHead]
    · rfl
    · rintro - rfl
      exact absurd rfl h.1

theorem splitItems_intercalate {items : List (List Char)} (hne : items ≠ [])
    (h : ∀ item ∈ items, ',' ∉ item) : splitItems ([',', ' '].intercalate items) = items := by
  induction items with
  | nil => exact absurd rfl hne
  | cons item items ih =>
    have hitem := h item List.mem_cons_self
    cases items with
    | nil =>
      have hsplit := splitItems_append hitem []
      rw [List.append_nil] at hsplit
      rw [List.intercalate_singleton, hsplit]
      simp [splitItems]
    | cons next items =>
      have hrest := ih (by simp) fun other hother => h other (List.mem_cons_of_mem item hother)
      rw [List.intercalate_cons_cons, List.append_assoc, splitItems_append hitem, List.cons_append,
        List.singleton_append, splitItems, hrest]
      simp

/-! ### Items -/

/-- An item of a clause: it has no comma, starts with a path, and no clause starts in it. -/
structure IsItem (item : String) : Prop where
  start : StartsPath item.toList
  comma : ',' ∉ item.toList
  unbroken : ∀ rest, isUnbroken rest = true → isUnbroken (item.toList ++ rest) = true

section Items

variable {names : Registry String} {values : Registry Value} {path text : String}
  {keys : List Key} {value : Value}

theorem isItem_path (h : SpellsPath names path keys) (hne : keys ≠ []) : IsItem path :=
  ⟨h.start hne, h.notMem (by decide) (by decide),
    fun _ hrest => isUnbroken_append (h.notMem (by decide) (by decide)) hrest⟩

theorem toList_assignment (item : AliasedNode) :
    item.assignment.toList = item.path.toList ++ ' ' :: '=' :: ' ' :: item.value.toList := by
  rw [AliasedNode.assignment, String.toList_append, String.toList_append, List.append_assoc]
  rfl

theorem toList_deletion (item : AliasedNode) :
    item.deletion.toList = item.path.toList ++ ' ' :: item.value.toList := by
  rw [AliasedNode.deletion, String.toList_append, String.toList_append, List.append_assoc]
  rfl

theorem isUnbroken_value (hvalue : IsPlaceholder valueSigil text) {rest : List Char}
    (hrest : isUnbroken rest = true) : isUnbroken (' ' :: (text.toList ++ rest)) = true := by
  refine isUnbroken_blank (isUnbroken_append (hvalue.notMem (by decide) (by decide)) hrest) ?_
  obtain ⟨plain, hplain, -⟩ := hvalue
  rw [hplain]
  rfl

theorem isItem_append {tail : List Char} (hpath : SpellsPath names path keys) (hne : keys ≠ [])
    (htext : text.toList = path.toList ++ tail) (hcomma : ',' ∉ tail)
    (hunbroken : ∀ rest, isUnbroken rest = true → isUnbroken (tail ++ rest) = true) :
    IsItem text := by
  have hitem := isItem_path hpath hne
  constructor
  · rw [htext]
    exact hitem.start.append _
  · rw [htext, List.mem_append, not_or]
    exact ⟨hitem.comma, hcomma⟩
  · intro rest hrest
    rw [htext, List.append_assoc]
    exact hitem.unbroken _ (hunbroken rest hrest)

theorem isItem_assignment {item : AliasedNode} (hpath : SpellsPath names item.path keys)
    (hne : keys ≠ []) (hvalue : IsPlaceholder valueSigil item.value) :
    IsItem item.assignment := by
  have hcomma : ',' ∉ item.value.toList := hvalue.notMem (by decide) (by decide)
  refine isItem_append hpath hne (toList_assignment item) (by simp [hcomma]) fun rest hrest => ?_
  have hequals : isUnbroken (['='] ++ ' ' :: (item.value.toList ++ rest)) = true :=
    isUnbroken_append (by decide) (isUnbroken_value hvalue hrest)
  exact isUnbroken_blank hequals rfl

theorem isItem_deletion {item : AliasedNode} (hpath : SpellsPath names item.path keys)
    (hne : keys ≠ []) (hvalue : IsPlaceholder valueSigil item.value) :
    IsItem item.deletion := by
  have hcomma : ',' ∉ item.value.toList := hvalue.notMem (by decide) (by decide)
  exact isItem_append hpath hne (toList_deletion item) (by simp [hcomma])
    fun rest hrest => isUnbroken_value hvalue hrest

theorem readAssignment_of_spells {item : AliasedNode} (hpath : SpellsPath names item.path keys)
    (hne : keys ≠ []) (hvalue : SpellsValue values item.value value) :
    readAssignment names values item.assignment.toList = some (keys, value) := by
  have hblank : ' ' ∉ item.path.toList := hpath.notMem (by decide) (by decide)
  have hblank' : ' ' ∉ item.value.toList := hvalue.1.notMem (by decide) (by decide)
  have hequals : ('=' :: ' ' :: item.value.toList).splitOn ' ' = [['='], item.value.toList] := by
    rw [← List.splitOn_eq_singleton hblank']
    exact List.splitOn_append_cons_self_of_not_mem (by decide : ' ' ∉ ['=']) _
  have hsplit : (item.path.toList ++ ' ' :: '=' :: ' ' :: item.value.toList).splitOn ' ' =
      [item.path.toList, ['='], item.value.toList] := by
    rw [List.splitOn_append_cons_self_of_not_mem hblank, hequals]
  rw [readAssignment, toList_assignment, hsplit]
  simp [readPath_of_spells hpath hne, readPlaceholder_of_isPlaceholder hvalue.1, hvalue.2]

theorem readDeletion_of_spells {item : AliasedNode} (hpath : SpellsPath names item.path keys)
    (hne : keys ≠ []) (hvalue : SpellsValue values item.value value) :
    readDeletion names values item.deletion.toList = some (keys, value) := by
  have hblank : ' ' ∉ item.path.toList := hpath.notMem (by decide) (by decide)
  have hblank' : ' ' ∉ item.value.toList := hvalue.1.notMem (by decide) (by decide)
  have hsplit : (item.path.toList ++ ' ' :: item.value.toList).splitOn ' ' =
      [item.path.toList, item.value.toList] := by
    rw [List.splitOn_append_cons_self_of_not_mem hblank, List.splitOn_eq_singleton hblank']
  rw [readDeletion, toList_deletion, hsplit]
  simp [readPath_of_spells hpath hne, readPlaceholder_of_isPlaceholder hvalue.1, hvalue.2]

end Items

/-! ### Conditions -/

theorem readCondition_absent {names : Registry String} {values : Registry Value} {path : String}
    {keys : List Key} (hpath : SpellsPath names path keys) (hne : keys ≠ []) :
    readCondition names values (Condition.absent path).text = some (.absent keys) := by
  have hblank : ' ' ∉ path.toList := hpath.notMem (by decide) (by decide)
  have hfunction : "attribute_not_exists (".toList =
      "attribute_not_exists".toList ++ [' ', '('] := by decide
  have htext : (Condition.absent path).text.toList =
      "attribute_not_exists".toList ++ ' ' :: ('(' :: path.toList ++ [')']) := by
    change ("attribute_not_exists (" ++ path ++ ")").toList = _
    rw [String.toList_append, String.toList_append, hfunction, List.append_assoc,
      List.append_assoc]
    rfl
  have hargument : ' ' ∉ '(' :: path.toList ++ [')'] := by simp [hblank]
  have hlast : ('(' :: path.toList ++ [')']).getLast? = some ')' := List.getLast?_concat
  have hinner : (('(' :: path.toList ++ [')']).drop 1).dropLast = path.toList :=
    List.dropLast_concat
  have hname : ' ' ∉ "attribute_not_exists".toList := by decide
  rw [readCondition, htext, List.splitOn_append_cons_self_of_not_mem hname,
    List.splitOn_eq_singleton hargument]
  dsimp only
  rw [if_pos ⟨rfl, rfl, hlast⟩, hinner, readPath_of_spells hpath hne]
  rfl

theorem readCondition_compares {names : Registry String} {values : Registry Value}
    {path operator text : String} {keys : List Key} {value : Value}
    (hpath : SpellsPath names path keys) (hne : keys ≠ []) (hoperator : ' ' ∉ operator.toList)
    (hvalue : SpellsValue values text value) :
    readCondition names values (Condition.compares path operator text).text =
      some (.compares keys operator value) := by
  have hblank : ' ' ∉ path.toList := hpath.notMem (by decide) (by decide)
  have hblank' : ' ' ∉ text.toList := hvalue.1.notMem (by decide) (by decide)
  have htext : (Condition.compares path operator text).text.toList =
      path.toList ++ ' ' :: (operator.toList ++ ' ' :: text.toList) := by
    change (path ++ " " ++ operator ++ " " ++ text).toList = _
    simp [String.toList_append]
  rw [readCondition, htext, List.splitOn_append_cons_self_of_not_mem hblank,
    List.splitOn_append_cons_self_of_not_mem hoperator, List.splitOn_eq_singleton hblank']
  simp [readPath_of_spells hpath hne, readPlaceholder_of_isPlaceholder hvalue.1, hvalue.2]

/-! ### Updates -/

section Clause

variable {keyword : String} {items : List String}

theorem map_toList_clause (hne : items ≠ []) :
    (clause keyword items).map String.toList =
      [keyword.toList ++ ' ' :: [',', ' '].intercalate (items.map String.toList)] := by
  rw [clause, if_neg (by simpa using hne), List.map_singleton, String.toList_append,
    String.toList_append, String.toList_intercalate, List.append_assoc]
  rfl

theorem IsItem.startsNoClause {item : String} (h : IsItem item) (rest : List Char) :
    ((item.toList ++ rest).head?.any fun d => !startsKeyword d) = true := by
  rcases h.start.append rest with hstart | hstart
  · rw [hstart]
    rfl
  · rw [hstart]
    rfl

theorem isUnbroken_items (hne : items ≠ []) (h : ∀ item ∈ items, IsItem item) :
    isUnbroken (' ' :: [',', ' '].intercalate (items.map String.toList)) = true := by
  induction items with
  | nil => exact absurd rfl hne
  | cons item items ih =>
    have hitem := h item List.mem_cons_self
    cases items with
    | nil =>
      rw [List.map_singleton, List.intercalate_singleton, ← List.append_nil item.toList]
      exact isUnbroken_blank (hitem.unbroken [] rfl) (hitem.startsNoClause [])
    | cons next items =>
      have hrest := ih (by simp) fun other hother => h other (List.mem_cons_of_mem item hother)
      have hcomma : isUnbroken ([','] ++ ' ' ::
          [',', ' '].intercalate ((next :: items).map String.toList)) = true :=
        isUnbroken_append (by decide) hrest
      rw [List.map_cons, List.map_cons, List.intercalate_cons_cons, List.append_assoc]
      exact isUnbroken_blank (hitem.unbroken _ hcomma) (hitem.startsNoClause _)

theorem blank_notMem_keyword (hkeyword : keyword ∈ clauseKeywords) : ' ' ∉ keyword.toList := by
  have hkeywords : ∀ keyword ∈ clauseKeywords, ' ' ∉ keyword.toList := by decide
  exact hkeywords keyword hkeyword

theorem startsClause_keyword (hkeyword : keyword ∈ clauseKeywords) (rest : List Char) :
    startsClause (keyword.toList ++ ' ' :: rest) = true := by
  rw [startsClause, List.any_eq_true]
  refine ⟨keyword, hkeyword, List.isPrefixOf_iff_prefix.mpr ?_⟩
  exact List.prefix_append_right_inj keyword.toList |>.mpr
    (List.cons_prefix_cons.mpr ⟨rfl, List.nil_prefix⟩)

theorem isUnbroken_clause (hkeyword : keyword ∈ clauseKeywords) (h : ∀ item ∈ items, IsItem item) :
    ∀ text ∈ (clause keyword items).map String.toList,
      isUnbroken text = true ∧ startsClause text = true := by
  intro text htext
  by_cases hne : items = []
  · rw [hne] at htext
    cases htext
  · rw [map_toList_clause hne, List.mem_singleton] at htext
    rw [htext]
    exact ⟨isUnbroken_append (blank_notMem_keyword hkeyword) (isUnbroken_items hne h),
      startsClause_keyword hkeyword _⟩

theorem takeWhile_keyword {rest : List Char} (hblank : ' ' ∉ keyword.toList) :
    String.ofList ((keyword.toList ++ ' ' :: rest).takeWhile (· ≠ ' ')) = keyword := by
  rw [List.takeWhile_append_of_pos]
  · rw [List.takeWhile_cons_of_neg (by decide), List.append_nil, String.ofList_toList]
  · intro c hc
    exact decide_eq_true fun heq => hblank (heq ▸ hc)

theorem dropWhile_keyword {rest : List Char} (hblank : ' ' ∉ keyword.toList) :
    ((keyword.toList ++ ' ' :: rest).dropWhile (· ≠ ' ')).drop 1 = rest := by
  rw [List.dropWhile_append_of_pos]
  · rw [List.dropWhile_cons_of_neg (by decide)]
    rfl
  · intro c hc
    exact decide_eq_true fun heq => hblank (heq ▸ hc)

end Clause

section Update

variable (names : Registry String) (values : Registry Value)

theorem readClause_set (rest : List Char) :
    readClause names values ("SET".toList ++ ' ' :: rest) =
      ((splitItems rest).mapM (readAssignment names values)).map .set := by
  have hblank : ' ' ∉ "SET".toList := by decide
  rw [readClause, takeWhile_keyword hblank, dropWhile_keyword hblank, if_pos rfl]

theorem readClause_remove (rest : List Char) :
    readClause names values ("REMOVE".toList ++ ' ' :: rest) =
      ((splitItems rest).mapM (readPath names)).map .remove := by
  have hblank : ' ' ∉ "REMOVE".toList := by decide
  rw [readClause, takeWhile_keyword hblank, dropWhile_keyword hblank, if_neg (by decide),
    if_pos rfl]

theorem readClause_delete (rest : List Char) :
    readClause names values ("DELETE".toList ++ ' ' :: rest) =
      ((splitItems rest).mapM (readDeletion names values)).map .delete := by
  have hblank : ' ' ∉ "DELETE".toList := by decide
  rw [readClause, takeWhile_keyword hblank, dropWhile_keyword hblank, if_neg (by decide),
    if_neg (by decide), if_pos rfl]

variable {names values}

/-- A clause without items is left out. -/
def UpdateClause.ofItems {α : Type} (make : List α → UpdateClause) (items : List α) :
    List UpdateClause :=
  if items.isEmpty then [] else [make items]

theorem mapM_eq_some {α β : Type} {f : α → Option β} {xs : List α} {ys : List β}
    (h : List.Forall₂ (fun x y => f x = some y) xs ys) : xs.mapM f = some ys := by
  induction h with
  | nil => rfl
  | cons hxy _ ih => simp [hxy, ih]

/-- What holds of each text that spells something out. -/
theorem forall_of_forall₂ {α β : Type} {related : α → β → Prop} {p : α → Prop} {xs : List α}
    {ys : List β} (h : List.Forall₂ related xs ys) (hp : ∀ x y, related x y → p x) :
    ∀ x ∈ xs, p x := by
  have hboth : List.Forall₂ (fun x y => p x ∧ related x y) xs ys :=
    h.imp fun x y hxy => ⟨hp x y hxy, hxy⟩
  exact ((List.forall₂_and_left xs ys).mp hboth).1

/-- A clause is read item by item. -/
theorem readClause_clause {α β : Type} {keyword : String} {items : List β} (written : β → String)
    {read : List Char → Option α} {make : List α → UpdateClause} {found : List α}
    (hread : ∀ rest, readClause names values (keyword.toList ++ ' ' :: rest) =
      ((splitItems rest).mapM read).map make)
    (h : List.Forall₂ (fun item meant => IsItem (written item) ∧
      read (written item).toList = some meant) items found) :
    ((clause keyword (items.map written)).map String.toList).mapM (readClause names values) =
      some (UpdateClause.ofItems make found) := by
  obtain ⟨hshape, hitems⟩ := (List.forall₂_and_left items found).mp h
  cases hitems with
  | nil => rfl
  | @cons item meant items found hitem hitems =>
    have hcomma : ∀ text ∈ ((item :: items).map written).map String.toList, ',' ∉ text := by
      intro text htext
      rw [List.map_map, List.mem_map] at htext
      obtain ⟨other, hother, rfl⟩ := htext
      exact (hshape other hother).comma
    have hmapM : (((item :: items).map written).map String.toList).mapM read =
        some (meant :: found) := by
      rw [List.map_map, List.mapM_map]
      exact mapM_eq_some (.cons hitem hitems)
    rw [map_toList_clause (by simp), List.mapM_cons, hread,
      splitItems_intercalate (by simp) hcomma, hmapM]
    rfl

/-- Aliased paths spell out lists of keys, none of them that of the root. -/
def SpellPaths (names : Registry String) (paths : List String) (meant : List (List Key)) : Prop :=
  List.Forall₂ (fun path keys => SpellsPath names path keys ∧ keys ≠ []) paths meant

/-- Aliased nodes spell out paths, none of them that of the root, and values. -/
def SpellNodes (names : Registry String) (values : Registry Value) (nodes : List AliasedNode)
    (meant : List (List Key × Value)) : Prop :=
  List.Forall₂ (fun node target => SpellsPath names node.path target.1 ∧ target.1 ≠ [] ∧
    SpellsValue values node.value target.2) nodes meant

/-- An update whose items spell out paths and values falls apart only between its clauses. -/
theorem splitClauses_text_of_spells {clauses : Clauses} {sets deletes : List (List Key × Value)}
    {removes : List (List Key)} (hset : SpellNodes names values clauses.set sets)
    (hremove : SpellPaths names clauses.remove removes)
    (hdelete : SpellNodes names values clauses.delete deletes) :
    splitClauses clauses.text.toList = clauses.texts.map String.toList := by
  have hassigned : ∀ node ∈ clauses.set, IsItem node.assignment :=
    forall_of_forall₂ hset fun node target h => isItem_assignment h.1 h.2.1 h.2.2.1
  have hremoved : ∀ path ∈ clauses.remove, IsItem path :=
    forall_of_forall₂ hremove fun path keys h => isItem_path h.1 h.2
  have hdeleted : ∀ node ∈ clauses.delete, IsItem node.deletion :=
    forall_of_forall₂ hdelete fun node target h => isItem_deletion h.1 h.2.1 h.2.2.1
  have hunbroken : ∀ text ∈ clauses.texts.map String.toList,
      isUnbroken text = true ∧ startsClause text = true := by
    intro text htext
    rw [Clauses.texts, List.map_append, List.map_append, List.mem_append, List.mem_append] at htext
    rcases htext with (htext | htext) | htext
    · exact isUnbroken_clause (by decide) (List.forall_mem_map.mpr hassigned) text htext
    · exact isUnbroken_clause (by decide) hremoved text htext
    · exact isUnbroken_clause (by decide) (List.forall_mem_map.mpr hdeleted) text htext
  rw [Clauses.text, String.toList_intercalate, show " ".toList = [' '] from rfl,
    splitClauses_intercalate hunbroken]

/-- An update whose items spell out paths and values is read as the clauses of these, those
    without items left out. -/
theorem readUpdate_of_spells {clauses : Clauses} {sets deletes : List (List Key × Value)}
    {removes : List (List Key)} (hset : SpellNodes names values clauses.set sets)
    (hremove : SpellPaths names clauses.remove removes)
    (hdelete : SpellNodes names values clauses.delete deletes) :
    readUpdate names values clauses.text =
      some (UpdateClause.ofItems .set sets ++ UpdateClause.ofItems .remove removes ++
        UpdateClause.ofItems .delete deletes) := by
  have hsets : List.Forall₂ (fun item meant => IsItem item.assignment ∧
      readAssignment names values item.assignment.toList = some meant) clauses.set sets :=
    hset.imp fun item target h =>
      ⟨isItem_assignment h.1 h.2.1 h.2.2.1, readAssignment_of_spells h.1 h.2.1 h.2.2⟩
  have hremoves : List.Forall₂ (fun item meant => IsItem item ∧
      readPath names item.toList = some meant) clauses.remove removes :=
    hremove.imp fun item keys h => ⟨isItem_path h.1 h.2, readPath_of_spells h.1 h.2⟩
  have hdeletes : List.Forall₂ (fun item meant => IsItem item.deletion ∧
      readDeletion names values item.deletion.toList = some meant) clauses.delete deletes :=
    hdelete.imp fun item target h =>
      ⟨isItem_deletion h.1 h.2.1 h.2.2.1, readDeletion_of_spells h.1 h.2.1 h.2.2⟩
  rw [readUpdate, splitClauses_text_of_spells hset hremove hdelete, Clauses.texts, List.map_append,
    List.map_append, List.mapM_append, List.mapM_append,
    readClause_clause AliasedNode.assignment (readClause_set names values) hsets,
    readClause_clause AliasedNode.deletion (readClause_delete names values) hdeletes]
  have hremove' := readClause_clause id (readClause_remove names values) hremoves
  rw [List.map_id] at hremove'
  rw [hremove']
  rfl

end Update

end ItemDelta
