import ItemDelta.Expression.Lock
import ItemDelta.Proofs.Alias.Issue
import ItemDelta.Proofs.Expression.Meaning
import Mathlib.Data.List.TakeWhile

/-!
# The tokens of an expression

A token is a sigil and all that follows it up to the next delimiter, so of two placeholders of
which one begins like the other, only the one that stands in a text is a token of it. All that an
expression puts between placeholders starts with a delimiter, and there is no sigil in it. So the
tokens of an expression are the placeholders that it is written with.

## Main definitions

* `isDelimiter` — the characters at which a token ends.
* `tokens` — the tokens of a text that have a sigil.
* `Expression.tokens` — those of an update and its condition.
* `Builder.texts` — the texts that a builder has written down, apart from what stands between them.

## Main results

* `tokens_append`, `tokens_intercalate` — a text is read piece by piece.
* `tokens_placeholder` — a placeholder is one token.
* `tokens_aliasedText` — the tokens of an aliased path are those of its placeholders.
* `Builder.tokens_finish` — the tokens of an expression are those of the texts written down.
-/

namespace ItemDelta

/-! ### Tokens -/

/-- The characters at which a token ends. -/
def isDelimiter (c : Char) : Bool :=
  [' ', ',', '.', '[', ']', '(', ')', '=', '<', '>', nameSigil, valueSigil].contains c

/-- What has a sigil in a text, each up to the next delimiter. -/
def tokens (sigil : Char) : List Char → List String
  | [] => []
  | c :: rest =>
    if c = sigil then String.ofList (c :: rest.takeWhile (!isDelimiter ·)) :: tokens sigil rest
    else tokens sigil rest

/-- A sigil is that of names or that of values. -/
def IsSigil (sigil : Char) : Prop := sigil = nameSigil ∨ sigil = valueSigil

instance (sigil : Char) : Decidable (IsSigil sigil) := inferInstanceAs (Decidable (_ ∨ _))

theorem isSigil_name : IsSigil nameSigil := .inl rfl

theorem isSigil_value : IsSigil valueSigil := .inr rfl

theorem IsSigil.notMem {sigil : Char} (h : IsSigil sigil) {text : List Char}
    (hname : nameSigil ∉ text) (hvalue : valueSigil ∉ text) : sigil ∉ text := by
  rcases h with rfl | rfl
  · exact hname
  · exact hvalue

section Texts

variable {sigil : Char} {text rest : List Char}

theorem takeWhile_append_delimiter (h : rest.head?.all isDelimiter = true) :
    (text ++ rest).takeWhile (!isDelimiter ·) = text.takeWhile (!isDelimiter ·) := by
  induction text with
  | nil =>
    cases rest with
    | nil => rfl
    | cons c rest =>
      rw [List.head?_cons, Option.all_some] at h
      rw [List.nil_append, List.takeWhile_cons, h]
      rfl
  | cons d text ih => rw [List.cons_append, List.takeWhile_cons, List.takeWhile_cons, ih]

/-- What starts with a delimiter is read apart from what is in front of it. -/
theorem tokens_append (h : rest.head?.all isDelimiter = true) :
    tokens sigil (text ++ rest) = tokens sigil text ++ tokens sigil rest := by
  induction text with
  | nil => rfl
  | cons c text ih =>
    rw [List.cons_append, tokens, tokens, takeWhile_append_delimiter h, ih]
    split <;> rfl

/-- What has no sigil is passed over. -/
theorem tokens_append_of_notMem (h : sigil ∉ text) :
    tokens sigil (text ++ rest) = tokens sigil rest := by
  induction text with
  | nil => rfl
  | cons c text ih =>
    rw [List.mem_cons, not_or] at h
    rw [List.cons_append, tokens, if_neg (Ne.symm h.1), ih h.2]

theorem tokens_of_notMem (h : sigil ∉ text) : tokens sigil text = [] := by
  have happend : tokens sigil (text ++ []) = tokens sigil [] := tokens_append_of_notMem h
  rwa [List.append_nil] at happend

/-- What stands between two texts, if it starts with a delimiter and has no sigil, is passed
    over. -/
theorem tokens_append_separator {separator : List Char}
    (hstart : separator.head?.any isDelimiter = true) (hseparator : sigil ∉ separator) :
    tokens sigil (text ++ (separator ++ rest)) = tokens sigil text ++ tokens sigil rest := by
  rw [tokens_append, tokens_append_of_notMem hseparator]
  cases separator with
  | nil => cases hstart
  | cons c separator => exact hstart

theorem tokens_intercalate {separator : List Char}
    (hstart : separator.head?.any isDelimiter = true) (hseparator : sigil ∉ separator)
    (texts : List (List Char)) :
    tokens sigil (separator.intercalate texts) = texts.flatMap (tokens sigil) := by
  induction texts with
  | nil => rfl
  | cons text texts ih =>
    rcases List.eq_nil_or_concat texts with rfl | ⟨before, last, htexts⟩
    · rw [List.intercalate_singleton, List.flatMap_singleton]
    · rw [List.intercalate_cons_of_ne_nil (by rw [htexts]; simp), List.append_assoc,
        tokens_append_separator hstart hseparator, ih, List.flatMap_cons]

end Texts

/-! ### Placeholders -/

/-- Plain characters are no delimiters. -/
theorem isDelimiter_of_isPlain {c : Char} (h : isPlain c = true) : isDelimiter c = false := by
  have hdelimiters : [' ', ',', '.', '[', ']', '(', ')', '=', '<', '>', nameSigil,
      valueSigil].all (fun d => !isPlain d) = true := by decide
  refine Bool.eq_false_iff.mpr fun hc => ?_
  have hplain := List.all_eq_true.mp hdelimiters c (List.contains_iff_mem.mp hc)
  rw [h] at hplain
  cases hplain

theorem isPlain_of_isSigil {sigil : Char} (h : IsSigil sigil) : isPlain sigil = false := by
  rcases h with rfl | rfl
  · decide
  · decide

section Placeholders

variable {sigil other : Char} {text : String}

/-- A placeholder is one token. -/
theorem tokens_placeholder (hsigil : IsSigil sigil) (h : IsPlaceholder sigil text) :
    tokens sigil text.toList = [text] := by
  obtain ⟨plain, hplain, hbase⟩ := h
  have hall : plain.takeWhile (!isDelimiter ·) = plain := by
    refine List.takeWhile_eq_self_iff.mpr fun c hc => ?_
    rw [isDelimiter_of_isPlain (hbase.plain c hc)]
    rfl
  have hnone : sigil ∉ plain := by
    intro hmem
    have hsigil := isPlain_of_isSigil hsigil
    rw [hbase.plain sigil hmem] at hsigil
    cases hsigil
  rw [hplain, tokens, if_pos rfl, hall, tokens_of_notMem hnone, ← hplain, String.ofList_toList]

/-- A placeholder of the other kind is none. -/
theorem tokens_other_placeholder (hother : IsSigil other) (hne : other ≠ sigil)
    (h : IsPlaceholder sigil text) : tokens other text.toList = [] :=
  tokens_of_notMem (h.notMem hne (isPlain_of_isSigil hother))

/-! ### Aliased paths -/

theorem isSigil_notMem_indexStep (hsigil : IsSigil sigil) (position : Nat) :
    sigil ∉ indexStep position := by
  intro h
  rw [indexStep, List.mem_append, List.mem_cons, List.mem_singleton] at h
  rcases h with (rfl | h) | rfl
  · exact absurd hsigil (by decide)
  · have hplain := isPlain_of_isSigil hsigil
    rw [isPlain_of_isDigit (isDigit_of_mem_decimalDigits h)] at hplain
    cases hplain
  · exact absurd hsigil (by decide)

/-- The tokens of several texts. -/
def tokensOf (sigil : Char) (texts : List String) : List String :=
  texts.flatMap fun text => tokens sigil text.toList

theorem tokensOf_append (sigil : Char) (texts others : List String) :
    tokensOf sigil (texts ++ others) = tokensOf sigil texts ++ tokensOf sigil others :=
  List.flatMap_append

theorem tokensOf_addSubscript (hsigil : IsSigil sigil) (position : Nat) (parts : List String) :
    tokensOf sigil (addSubscript (String.ofList (indexStep position)) parts) =
      tokensOf sigil parts := by
  have hsubscript : tokens sigil (indexStep position) = [] :=
    tokens_of_notMem (isSigil_notMem_indexStep hsigil position)
  rcases List.eq_nil_or_concat parts with rfl | ⟨before, last, rfl⟩
  · rw [addSubscript, tokensOf, List.flatMap_singleton, String.toList_ofList, hsubscript]
    rfl
  · rw [List.concat_eq_append, addSubscript_append, tokensOf_append, tokensOf_append]
    refine congrArg (tokensOf sigil before ++ ·) ?_
    rw [tokensOf, tokensOf, List.flatMap_singleton, List.flatMap_singleton, String.toList_append,
      String.toList_ofList, tokens_append, hsubscript, List.append_nil]
    have hbracket : isDelimiter '[' = true := by decide
    exact hbracket

theorem tokensOf_aliasedParts (hsigil : IsSigil sigil) {keys : List Key}
    {placeholders : List String} (hlength : placeholders.length = (namesOf keys).length)
    (parts : List String) :
    tokensOf sigil (aliasedParts parts keys placeholders) =
      tokensOf sigil parts ++ tokensOf sigil placeholders := by
  induction keys generalizing parts placeholders with
  | nil =>
    rw [List.eq_nil_of_length_eq_zero hlength, aliasedParts]
    exact (List.append_nil _).symm
  | cons key keys ih =>
    cases key with
    | index position =>
      rw [aliasedParts, ih hlength, tokensOf_addSubscript hsigil]
    | name name =>
      cases placeholders with
      | nil => cases hlength
      | cons placeholder placeholders =>
        rw [aliasedParts, ih (Nat.succ.inj hlength), tokensOf_append, List.append_assoc,
          ← tokensOf_append, List.singleton_append]

/-- The tokens of an aliased path are those of its placeholders. -/
theorem tokens_aliasedText (hsigil : IsSigil sigil) {keys : List Key} {placeholders : List String}
    (hlength : placeholders.length = (namesOf keys).length) :
    tokens sigil (aliasedText keys placeholders).toList = tokensOf sigil placeholders := by
  have hpoint : sigil ∉ ".".toList := hsigil.notMem (by decide) (by decide)
  rw [aliasedText, String.toList_intercalate, tokens_intercalate (by decide) hpoint,
    List.flatMap_map]
  exact tokensOf_aliasedParts hsigil hlength []

end Placeholders

/-! ### Expressions -/

/-- The path and the value of a node. -/
def AliasedNode.texts (node : AliasedNode) : List String := [node.path, node.value]

/-- The path of a condition and the value that it compares with. -/
def Condition.texts : Condition → List String
  | .absent path => [path]
  | .compares path _ value => [path, value]

/-- A condition compares in one of the ways there are. -/
def Condition.IsKnown : Condition → Prop
  | .absent _ => True
  | .compares _ operator _ => operator ∈ comparisonOperators

namespace Clauses

/-- The paths and values in the clauses. -/
def items (clauses : Clauses) : List String :=
  clauses.set.flatMap AliasedNode.texts ++ clauses.remove ++
    clauses.delete.flatMap AliasedNode.texts

end Clauses

/-- The paths and values that a builder has written down. -/
def Builder.texts (b : Builder) : List String :=
  b.clauses.items ++ b.condition.toList.flatMap Condition.texts

/-- The tokens of an expression that have a sigil: those of its update and of its condition. -/
def Expression.tokens (expression : Expression) (sigil : Char) : List String :=
  ItemDelta.tokens sigil expression.update.toList ++
    tokensOf sigil expression.condition.toList

section Expressions

variable {sigil : Char}

theorem tokens_assignment (hsigil : IsSigil sigil) (node : AliasedNode) :
    tokens sigil node.assignment.toList = tokensOf sigil node.texts := by
  have hequals : sigil ∉ [' ', '=', ' '] := hsigil.notMem (by decide) (by decide)
  rw [toList_assignment]
  change tokens sigil (node.path.toList ++ ([' ', '=', ' '] ++ node.value.toList)) = _
  rw [tokens_append_separator (by decide) hequals]
  simp [tokensOf, AliasedNode.texts]

theorem tokens_deletion (hsigil : IsSigil sigil) (node : AliasedNode) :
    tokens sigil node.deletion.toList = tokensOf sigil node.texts := by
  have hblank : sigil ∉ [' '] := hsigil.notMem (by decide) (by decide)
  rw [toList_deletion]
  change tokens sigil (node.path.toList ++ ([' '] ++ node.value.toList)) = _
  rw [tokens_append_separator (by decide) hblank]
  simp [tokensOf, AliasedNode.texts]

theorem toList_absent (path : String) :
    (Condition.absent path).text.toList =
      "attribute_not_exists (".toList ++ (path.toList ++ [')']) := by
  change ("attribute_not_exists (" ++ path ++ ")").toList = _
  rw [String.toList_append, String.toList_append, List.append_assoc]
  rfl

theorem toList_compares (path operator value : String) :
    (Condition.compares path operator value).text.toList =
      path.toList ++ ([' '] ++ (operator.toList ++ ([' '] ++ value.toList))) := by
  change (path ++ " " ++ operator ++ " " ++ value).toList = _
  simp [String.toList_append]

theorem tokens_condition (hsigil : IsSigil sigil) {condition : Condition}
    (hknown : condition.IsKnown) :
    tokens sigil condition.text.toList = tokensOf sigil condition.texts := by
  cases condition with
  | absent path =>
    have hfunction : sigil ∉ "attribute_not_exists (".toList :=
      hsigil.notMem (by decide +kernel) (by decide +kernel)
    have hclosing : sigil ∉ [')'] := hsigil.notMem (by decide) (by decide)
    rw [toList_absent, tokens_append_of_notMem hfunction, tokens_append (by decide),
      tokens_of_notMem hclosing]
    simp [tokensOf, Condition.texts]
  | compares path operator value =>
    have hoperators : ∀ known ∈ comparisonOperators, nameSigil ∉ known.toList ∧
        valueSigil ∉ known.toList := by decide +kernel
    obtain ⟨hname, hvalue⟩ := hoperators operator hknown
    have hblank : sigil ∉ [' '] := hsigil.notMem (by decide) (by decide)
    rw [toList_compares, tokens_append_separator (by decide) hblank,
      tokens_append_separator (by decide) hblank,
      tokens_of_notMem (hsigil.notMem hname hvalue)]
    simp [tokensOf, Condition.texts]

/-- A clause has the tokens of its items. -/
theorem tokensOf_clause (hsigil : IsSigil sigil) {keyword : String}
    (hkeyword : keyword ∈ clauseKeywords) (items : List String) :
    tokensOf sigil (clause keyword items) = tokensOf sigil items := by
  have hkeywords : ∀ known ∈ clauseKeywords, nameSigil ∉ known.toList ++ [' '] ∧
      valueSigil ∉ known.toList ++ [' '] := by decide +kernel
  obtain ⟨hname, hvalue⟩ := hkeywords keyword hkeyword
  have hcomma : sigil ∉ [',', ' '] := hsigil.notMem (by decide) (by decide)
  rcases List.eq_nil_or_concat items with rfl | ⟨before, last, hitems⟩
  · rfl
  · have hne : items ≠ [] := by rw [hitems]; simp
    rw [tokensOf, ← List.flatMap_map String.toList (tokens sigil), map_toList_clause hne,
      List.flatMap_singleton, List.append_cons,
      tokens_append_of_notMem (hsigil.notMem hname hvalue),
      tokens_intercalate (by decide) hcomma, List.flatMap_map]
    rfl

theorem tokensOf_map (texts : List AliasedNode) (text : AliasedNode → String)
    (h : ∀ node, tokens sigil (text node).toList = tokensOf sigil node.texts) :
    tokensOf sigil (texts.map text) = tokensOf sigil (texts.flatMap AliasedNode.texts) := by
  rw [tokensOf, tokensOf, List.flatMap_map, List.flatMap_assoc]
  exact congrArg (List.flatMap · texts) (funext h)

theorem tokens_text (hsigil : IsSigil sigil) (clauses : Clauses) :
    tokens sigil clauses.text.toList = tokensOf sigil clauses.items := by
  have hblank : sigil ∉ " ".toList := hsigil.notMem (by decide) (by decide)
  rw [Clauses.text, String.toList_intercalate, tokens_intercalate (by decide) hblank,
    List.flatMap_map]
  change tokensOf sigil clauses.texts = _
  rw [Clauses.texts, tokensOf_append, tokensOf_append, tokensOf_clause hsigil (by decide),
    tokensOf_clause hsigil (by decide), tokensOf_clause hsigil (by decide), Clauses.items,
    tokensOf_append, tokensOf_append, tokensOf_map _ _ (tokens_assignment hsigil),
    tokensOf_map _ _ (tokens_deletion hsigil)]

/-- The tokens of an expression are those of the paths and values that it was made from. -/
theorem Builder.tokens_finish (hsigil : IsSigil sigil) (b : Builder)
    (hknown : ∀ condition ∈ b.condition, condition.IsKnown) :
    b.finish.tokens sigil = tokensOf sigil b.texts := by
  rw [Expression.tokens, Builder.texts, tokensOf_append]
  refine congrArg₂ (· ++ ·) (tokens_text hsigil b.clauses) ?_
  rw [Builder.finish]
  cases hcondition : b.condition with
  | none => rfl
  | some condition =>
    change tokensOf sigil [condition.text] = tokensOf sigil ([condition].flatMap Condition.texts)
    rw [List.flatMap_singleton, ← tokens_condition hsigil (hknown condition hcondition), tokensOf,
      List.flatMap_singleton]

end Expressions

end ItemDelta
