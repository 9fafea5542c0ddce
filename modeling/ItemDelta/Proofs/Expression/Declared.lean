import ItemDelta.Proofs.Expression.Steps
import ItemDelta.Proofs.Expression.Tokens

/-!
# Declared placeholders

The store refuses a placeholder that is used and not declared, and one that is declared and not
used. A compilation registers just what it writes down: each name on a path, which may have its
placeholder already, and each value, which has a new one. So the tokens of an expression are the
placeholders in its registries, those of values once each.

## Main definitions

* `AliasState.Declares` — from one state to another, just the tokens of some texts are registered.

## Main results

* `declares_aliasPath`, `declares_aliasNode` — one path, and one node.
* `writes_addPartition`, `writes_require` — the clauses and the condition of an expression.
* `Compilation.tokens_run` — the tokens of an expression are what its registries declare.
-/

namespace ItemDelta

/-! ### The placeholders in a registry -/

namespace Registry

variable {α : Type} {registry : Registry α} {placeholder other : String} {meaning : α}

theorem mem_keys_insert :
    other ∈ (registry.insert placeholder meaning).map Prod.fst ↔
      other = placeholder ∨ other ∈ registry.map Prod.fst := by
  induction registry with
  | nil => simp [insert]
  | cons entry rest ih =>
    obtain ⟨p, m⟩ := entry
    rw [insert]
    by_cases hp : p = placeholder
    · subst hp
      simp
    · rw [if_neg hp, List.map_cons, List.mem_cons, ih, List.map_cons, List.mem_cons]
      exact or_left_comm

theorem keys_insert_of_get?_eq_none (h : registry.get? placeholder = none) :
    (registry.insert placeholder meaning).map Prod.fst =
      registry.map Prod.fst ++ [placeholder] := by
  induction registry with
  | nil => rfl
  | cons entry rest ih =>
    obtain ⟨p, m⟩ := entry
    rw [get?_cons] at h
    by_cases hp : placeholder = p
    · rw [if_pos hp] at h
      cases h
    · rw [if_neg hp] at h
      rw [insert, if_neg (Ne.symm hp), List.map_cons, ih h]
      rfl

theorem notMem_of_get?_eq_none (h : registry.get? placeholder = none) :
    placeholder ∉ registry.map Prod.fst := by
  induction registry with
  | nil => exact List.not_mem_nil
  | cons entry rest ih =>
    rw [get?_cons] at h
    by_cases hp : placeholder = entry.1
    · rw [if_pos hp] at h
      cases h
    · rw [if_neg hp] at h
      rw [List.map_cons, List.mem_cons, not_or]
      exact ⟨hp, ih h⟩

end Registry

/-! ### What is issued -/

namespace AliasState

variable {s t u : AliasState} {lead : Value}

theorem mem_keys_issue {names : List String} {placeholder : String} :
    placeholder ∈ (s.issue lead names).2.names.map Prod.fst ↔
      placeholder ∈ s.names.map Prod.fst ∨
        placeholder ∈ (s.issue lead names).1.map NotedAlias.placeholder := by
  induction names generalizing s with
  | nil => simp [issue]
  | cons name names ih =>
    rcases s.issue_cons_cases lead name names with
      ⟨t, -, hnames, -, hissue⟩ | ⟨-, -, issued, t, hrun, hissue⟩
    · rw [hissue, hnames]
      simp
    · rw [hissue]
      dsimp only
      rw [ih, (registries_of_registerName hrun).1, Registry.mem_keys_insert, List.map_cons,
        List.mem_cons, or_assoc, or_left_comm]

theorem isPlaceholder_of_mem_issue {names : List String} {noted : NotedAlias}
    (hsound : s.context.IsSound)
    (hlimit : (s.issue lead names).2.context.counter < counterLimit)
    (h : noted ∈ (s.issue lead names).1) : IsPlaceholder nameSigil noted.placeholder := by
  induction names generalizing s with
  | nil => cases h
  | cons name names ih =>
    rcases s.issue_cons_cases lead name names with
      ⟨t, -, -, -, hissue⟩ | ⟨-, -, placeholder, t, hrun, hissue⟩
    · rw [hissue] at h
      cases h
    · rw [hissue] at hlimit h
      obtain ⟨hgrows, -, hshape⟩ := (s.leads_registerName lead name).ok placeholder t hrun
      rcases List.mem_cons.mp h with rfl | h
      · have hcounter := (registrations_issue t lead names).grows.counter
        exact hshape hsound (Int.lt_of_le_of_lt hcounter hlimit)
      · exact ih (hgrows.sound hsound) hlimit h

/-! ### What is declared -/

/-- Just the tokens of some texts are registered: those of names, which may have been registered
    before, and each of values once, behind those before it. This is so as long as the counter
    leaves room for suffixes. -/
structure Declares (s t : AliasState) (texts : List String) : Prop where
  grows : s.Grows t
  names : s.context.IsSound → t.context.counter < counterLimit → ∀ placeholder,
    placeholder ∈ t.names.map Prod.fst ↔
      placeholder ∈ s.names.map Prod.fst ∨ placeholder ∈ tokensOf nameSigil texts
  values : s.context.IsSound → t.context.counter < counterLimit →
    t.values.map Prod.fst = s.values.map Prod.fst ++ tokensOf valueSigil texts
  nodup : (s.values.map Prod.fst).Nodup → (t.values.map Prod.fst).Nodup

theorem Declares.refl (s : AliasState) : s.Declares s [] where
  grows := Std.Refl.refl s
  names _ _ placeholder := by simp [tokensOf]
  values _ _ := (List.append_nil _).symm
  nodup h := h

theorem Declares.trans {texts others : List String} (h : s.Declares t texts)
    (h' : t.Declares u others) : s.Declares u (texts ++ others) where
  grows := h.grows.trans h'.grows
  names hsound hlimit placeholder := by
    rw [h'.names (h.grows.sound hsound) hlimit,
      h.names hsound (Int.lt_of_le_of_lt h'.grows.counter hlimit), tokensOf_append,
      List.mem_append, or_assoc]
  values hsound hlimit := by
    rw [h'.values (h.grows.sound hsound) hlimit,
      h.values hsound (Int.lt_of_le_of_lt h'.grows.counter hlimit), tokensOf_append,
      List.append_assoc]
  nodup hnodup := h'.nodup (h.nodup hnodup)

end AliasState

/-! ### Aliased paths -/

theorem tokensOf_placeholders {sigil : Char} (hsigil : IsSigil sigil) {placeholders : List String}
    (h : ∀ placeholder ∈ placeholders, IsPlaceholder sigil placeholder) :
    tokensOf sigil placeholders = placeholders := by
  induction placeholders with
  | nil => rfl
  | cons placeholder placeholders ih =>
    rw [tokensOf, List.flatMap_cons, tokens_placeholder hsigil (h _ List.mem_cons_self)]
    exact congrArg (placeholder :: ·) (ih fun other hother => h other (.tail _ hother))

theorem tokensOf_other_placeholders {sigil other : Char} (hother : IsSigil other)
    (hne : other ≠ sigil) {placeholders : List String}
    (h : ∀ placeholder ∈ placeholders, IsPlaceholder sigil placeholder) :
    tokensOf other placeholders = [] :=
  List.flatMap_eq_nil_iff.mpr fun placeholder hplaceholder =>
    tokens_other_placeholder hother hne (h placeholder hplaceholder)

section Paths

variable {s t : AliasState} {lead : Value} {path text : String} {keys : List Key}

/-- The text of a path declares what is issued along the path. -/
theorem declares_issueAlong (hkeys : pathKeys path = .ok keys)
    (hnames : (s.issueAlong lead path).1.map NotedAlias.name = namesOf keys)
    (htext : text = aliasedText keys ((s.issueAlong lead path).1.map NotedAlias.placeholder)) :
    s.Declares (s.issueAlong lead path).2 [text] := by
  have hlength : ((s.issueAlong lead path).1.map NotedAlias.placeholder).length =
      (namesOf keys).length := by
    rw [← hnames, List.length_map, List.length_map]
  have htokens : ∀ {sigil}, IsSigil sigil → tokensOf sigil [text] =
      tokensOf sigil ((s.issueAlong lead path).1.map NotedAlias.placeholder) := by
    intro sigil hsigil
    rw [tokensOf, List.flatMap_singleton, htext, tokens_aliasedText hsigil hlength]
  have hissue : s.issueAlong lead path =
      s.issue (effectiveLead lead s.context) (namesOf keys) := by
    rw [AliasState.issueAlong, hkeys]
  have hshape : s.context.IsSound → (s.issueAlong lead path).2.context.counter < counterLimit →
      ∀ placeholder ∈ (s.issueAlong lead path).1.map NotedAlias.placeholder,
        IsPlaceholder nameSigil placeholder := by
    rw [hissue]
    intro hsound hlimit placeholder hplaceholder
    obtain ⟨noted, hnoted, rfl⟩ := List.mem_map.mp hplaceholder
    exact AliasState.isPlaceholder_of_mem_issue hsound hlimit hnoted
  constructor
  · exact (s.registrations_issueAlong lead path).grows
  · intro hsound hlimit placeholder
    rw [htokens isSigil_name, tokensOf_placeholders isSigil_name (hshape hsound hlimit), hissue]
    exact AliasState.mem_keys_issue
  · intro hsound hlimit
    rw [htokens isSigil_value, tokensOf_other_placeholders isSigil_value (by decide)
      (hshape hsound hlimit), List.append_nil, s.values_issueAlong]
  · rw [s.values_issueAlong]
    exact id

theorem declares_aliasPath (h : aliasPath lead path s = .ok text t) : s.Declares t [text] := by
  obtain ⟨keys, hkeys, hnames, htext⟩ := exists_keys_of_aliasPath h
  rw [← stateAfter_eq h, stateAfter_aliasPath]
  exact declares_issueAlong hkeys hnames htext

theorem declares_registerValue {parts : List (Option String)} {value : Value}
    (h : AliasState.registerValue parts value s = .ok text t) : s.Declares t [text] := by
  obtain ⟨hgrows, hnew, -, hshape⟩ := (s.leads_registerValue parts value).ok text t h
  obtain ⟨hnames, hvalues⟩ := AliasState.registries_of_registerValue h
  have hkeys : (s.values.insert text value).map Prod.fst = s.values.map Prod.fst ++ [text] :=
    Registry.keys_insert_of_get?_eq_none hnew
  refine ⟨hgrows, fun hsound hlimit other => ?_, fun hsound hlimit => ?_, fun hnodup => ?_⟩
  · rw [tokensOf, List.flatMap_singleton, tokens_other_placeholder isSigil_name (by decide)
      (hshape hsound hlimit), hnames]
    simp
  · rw [tokensOf, List.flatMap_singleton, tokens_placeholder isSigil_value (hshape hsound hlimit),
      hvalues, hkeys]
  · rw [hvalues, hkeys]
    refine List.nodup_append.mpr ⟨hnodup, List.nodup_singleton _, ?_⟩
    rintro other hother _ hsingle rfl
    rw [List.mem_singleton.mp hsingle] at hother
    exact Registry.notMem_of_get?_eq_none hnew hother

theorem declares_aliasNode {node : Node} {texts : String × String}
    (h : aliasNode lead node s = .ok texts t) : s.Declares t [texts.1, texts.2] := by
  obtain ⟨keys, parts, hkeys, hnames, htext, hvalue⟩ := exists_keys_of_aliasNode h
  exact (declares_issueAlong hkeys hnames htext).trans (declares_registerValue hvalue)

end Paths

/-! ### Builders -/

open Builder

section Builders

variable {α : Type} {b c : Builder} {lead : Value}

/-- An action on a builder writes nothing down, and declares the texts in its result. -/
def DeclaresAs (texts : α → List String) (action : Building α) : Prop :=
  ∀ b result c, action b = .ok result c →
    c = { b with aliasing := c.aliasing } ∧ b.aliasing.Declares c.aliasing (texts result)

theorem declaresAs_aliasedPath (path : String) (lead : Value) :
    DeclaresAs (fun text => [text]) (aliasedPath path lead) := by
  intro b text c h
  rw [aliasedPath_eq] at h
  obtain ⟨haliased, hc⟩ := eq_ok_of_registering h
  exact ⟨hc, declares_aliasPath haliased⟩

theorem declaresAs_aliased (node : Node) (lead : Value) :
    DeclaresAs AliasedNode.texts (aliased node lead) := by
  intro b item c h
  rw [aliased_eq] at h
  obtain ⟨texts, d, hrun, hitem⟩ := exists_ok_of_bind h
  cases hitem
  obtain ⟨haliased, hc⟩ := eq_ok_of_registering hrun
  exact ⟨hc, declares_aliasNode haliased⟩

/-- Several actions one after the other declare the texts in all their results. -/
theorem declaresAs_mapM {β : Type} {make : α → Building β} {texts : β → List String}
    (h : ∀ x, DeclaresAs texts (make x)) (xs : List α) :
    DeclaresAs (fun results => results.flatMap texts) (xs.mapM make) := by
  induction xs with
  | nil =>
    intro b results c hrun
    cases hrun
    exact ⟨rfl, .refl _⟩
  | cons x xs ih =>
    intro b results c hrun
    rw [List.mapM_cons] at hrun
    obtain ⟨first, d, hfirst, hrest⟩ := exists_ok_of_bind hrun
    obtain ⟨rest, e, hmapM, hpure⟩ := exists_ok_of_bind hrest
    cases hpure
    obtain ⟨hd, hdeclares⟩ := h x b first d hfirst
    obtain ⟨hc, hdeclares'⟩ := ih d rest _ hmapM
    refine ⟨?_, hdeclares.trans hdeclares'⟩
    rw [hc, hd]

/-- From one builder to another, some texts are written down, all of which are declared. -/
def Writes (b c : Builder) (texts : List String) : Prop :=
  c.texts.Perm (b.texts ++ texts) ∧ b.aliasing.Declares c.aliasing texts

theorem Writes.trans {d : Builder} {texts others : List String} (h : Writes b c texts)
    (h' : Writes c d others) : Writes b d (texts ++ others) := by
  refine ⟨?_, h.2.trans h'.2⟩
  rw [← List.append_assoc]
  exact h'.1.trans (h.1.append_right others)

/-- What an action declares is written down by a change that adds just its texts, as long as there
    is no other condition that the change would replace. -/
theorem writes_modify {action : Building α} {texts : α → List String} {result : Unit}
    (h : DeclaresAs texts action) (change : α → Builder → Builder)
    (haliasing : ∀ item d, (change item d).aliasing = d.aliasing)
    (htexts : ∀ item d, d.condition = b.condition →
      (change item d).texts.Perm (d.texts ++ texts item))
    (hrun : (action >>= fun item => modify (change item)) b = .ok result c) :
    ∃ item d, Writes b c (texts item) ∧ d.condition = b.condition ∧ c = change item d := by
  obtain ⟨item, d, haction, hmodify⟩ := exists_ok_of_bind hrun
  -- The action declares all of the texts, and the change only writes them down.
  obtain ⟨hd, hdeclares⟩ := h b item d haction
  have hc : c = change item d := by
    cases hmodify
    rfl
  have hcondition : d.condition = b.condition := by rw [hd]
  have hbefore : d.texts = b.texts := by
    rw [hd]
    rfl
  refine ⟨item, d, ⟨?_, ?_⟩, hcondition, hc⟩
  · rw [hc, ← hbefore]
    exact htexts item d hcondition
  · rw [hc, haliasing]
    exact hdeclares

theorem writes_set {nodes : List Node} {result : Unit} (h : set nodes b = .ok result c) :
    ∃ texts, Writes b c texts ∧ c.condition = b.condition := by
  obtain ⟨items, d, hwrites, hcondition, rfl⟩ := writes_modify
    (declaresAs_mapM (declaresAs_aliased · .null) nodes) (fun items builder =>
      { builder with clauses := { builder.clauses with set := builder.clauses.set ++ items } })
    (fun _ _ => rfl) (fun items d _ => List.perm_iff_count.mpr fun text => by
      simp only [texts, Clauses.items, List.flatMap_append, List.count_append]
      omega) h
  exact ⟨_, hwrites, hcondition⟩

theorem writes_remove {nodes : List Node} {result : Unit} (h : remove nodes b = .ok result c) :
    ∃ texts, Writes b c texts ∧ c.condition = b.condition := by
  obtain ⟨items, d, hwrites, hcondition, rfl⟩ := writes_modify
    (declaresAs_mapM (fun node : Node => declaresAs_aliasedPath node.path .null) nodes)
    (fun items builder =>
      { builder with
        clauses := { builder.clauses with remove := builder.clauses.remove ++ items } })
    (fun _ _ => rfl) (fun items d _ => List.perm_iff_count.mpr fun text => by
      simp only [texts, Clauses.items, List.flatMap_singleton', List.count_append]
      omega) h
  exact ⟨_, hwrites, hcondition⟩

theorem writes_delete {nodes : List Node} {result : Unit} (h : delete nodes b = .ok result c) :
    ∃ texts, Writes b c texts ∧ c.condition = b.condition := by
  obtain ⟨items, d, hwrites, hcondition, rfl⟩ := writes_modify
    (declaresAs_mapM (declaresAs_aliased · .null) nodes) (fun items builder =>
      { builder with
        clauses := { builder.clauses with delete := builder.clauses.delete ++ items } })
    (fun _ _ => rfl) (fun items d _ => List.perm_iff_count.mpr fun text => by
      simp only [texts, Clauses.items, List.flatMap_append, List.count_append]
      omega) h
  exact ⟨_, hwrites, hcondition⟩

/-- All that the clauses of an expression are written with is declared. -/
theorem writes_addPartition {nodes : Partition} {result : Unit}
    (h : addPartition nodes b = .ok result c) :
    ∃ texts, Writes b c texts ∧ c.condition = b.condition := by
  obtain ⟨_, d, hset, h⟩ := exists_ok_of_bind h
  obtain ⟨_, e, hremove, hdelete⟩ := exists_ok_of_bind h
  obtain ⟨_, hwrites, hd⟩ := writes_set hset
  obtain ⟨_, hwrites', he⟩ := writes_remove hremove
  obtain ⟨_, hwrites'', hc⟩ := writes_delete hdelete
  exact ⟨_, (hwrites.trans hwrites').trans hwrites'', hc.trans (he.trans hd)⟩

/-- So is all that its condition is written with, if it is the only one. -/
theorem writes_require {path operator : String} {expected : Option Value} {result : Unit}
    (h : require path expected operator lead b = .ok result c) (hnone : b.condition = none)
    (hoperator : operator ∈ comparisonOperators) :
    (∃ texts, Writes b c texts) ∧ ∀ condition ∈ c.condition, condition.IsKnown := by
  cases expected with
  | none =>
    obtain ⟨item, d, hwrites, -, rfl⟩ := writes_modify (declaresAs_aliasedPath path lead)
      (fun item builder => { builder with condition := some (.absent item) }) (fun _ _ => rfl)
      (fun item d hd => by simp [texts, hd, hnone, Condition.texts]) h
    refine ⟨⟨_, hwrites⟩, ?_⟩
    rintro condition ⟨⟩
    trivial
  | some value =>
    obtain ⟨item, d, hwrites, -, rfl⟩ := writes_modify (declaresAs_aliased ⟨path, value⟩ lead)
      (fun item builder =>
        { builder with condition := some (.compares item.path operator item.value) })
      (fun _ _ => rfl)
      (fun item d hd => by simp [texts, hd, hnone, Condition.texts, AliasedNode.texts]) h
    refine ⟨⟨_, hwrites⟩, ?_⟩
    rintro condition ⟨⟩
    exact hoperator

end Builders

/-! ### Compilations -/

section Compiling

variable {context after : AliasContext} {expression : Expression}

/-- What a compilation writes down, all in all. -/
theorem Compilation.exists_writes {compilation : Compilation}
    (hrun : compilation.run context = .ok expression after) :
    ∃ lead b texts, Writes (Builder.start context lead) b texts ∧
      (∀ condition ∈ b.condition, condition.IsKnown) ∧ expression = b.finish ∧
      after = b.aliasing.context := by
  have hversioned : ∀ {base modified : Value} {check : VersionCheck} {orphans : Bool},
      versionedExpression base modified check orphans context = .ok expression after →
      ∃ lead b texts, Writes (Builder.start context lead) b texts ∧
        (∀ condition ∈ b.condition, condition.IsKnown) ∧ expression = b.finish ∧
        after = b.aliasing.context := by
    intro base modified check orphans h
    obtain ⟨nodes, b, operator, expected, c, hoperator, -, hadd, hrequire, hexpression, hafter⟩ :=
      exists_builder_of_versionedExpression h
    obtain ⟨_, hwrites, hcondition⟩ := writes_addPartition hadd
    obtain ⟨⟨_, hwrites'⟩, hknown⟩ := writes_require hrequire hcondition hoperator
    exact ⟨_, c, _, hwrites.trans hwrites', hknown, hexpression, hafter⟩
  cases compilation with
  | update base modified orphans supportSets =>
    obtain ⟨nodes, b, -, hadd, hexpression, hafter⟩ := exists_builder_of_updateExpression hrun
    obtain ⟨_, hwrites, hcondition⟩ := writes_addPartition hadd
    refine ⟨_, b, _, hwrites, fun condition hmem => ?_, hexpression, hafter⟩
    rw [hcondition] at hmem
    cases hmem
  | versioned base modified check orphans => exact hversioned hrun
  | lock base path new condition orphans =>
    obtain ⟨_, _, _, -, -, -, h⟩ := exists_versionedExpression_of_lockExpression hrun
    exact hversioned h

/-- Neither registry is in the result if there is nothing in it. -/
theorem Expression.child?_toValue (expression : Expression) :
    (expression.toValue.child? (.name "ExpressionAttributeNames") = none ↔
      expression.names = []) ∧
    (expression.toValue.child? (.name "ExpressionAttributeValues") = none ↔
      expression.values = []) := by
  obtain ⟨update, names, values, condition⟩ := expression
  cases names <;> cases values <;> cases condition <;>
    simp [toValue, Value.ofNamed, Value.child?, Members.get?]

/-- The tokens of an expression are what its registries declare: those with the sigil of names are
    the placeholders of names, and those with the sigil of values are the placeholders of values,
    each of which occurs once. A registry is left out of the result if nothing is declared in it,
    and only then. -/
theorem Compilation.tokens_run {compilation : Compilation} (hcontext : context.IsReachable)
    (hrun : compilation.run context = .ok expression after)
    (hlimit : after.counter < counterLimit) :
    (∀ token, token ∈ expression.tokens nameSigil ↔ token ∈ expression.names.map Prod.fst) ∧
    (expression.tokens valueSigil).Perm (expression.values.map Prod.fst) ∧
    (expression.tokens valueSigil).Nodup ∧
    (expression.toValue.child? (.name "ExpressionAttributeNames") = none ↔
      expression.names = []) ∧
    (expression.toValue.child? (.name "ExpressionAttributeValues") = none ↔
      expression.values = []) := by
  have hmaps := expression.child?_toValue
  obtain ⟨lead, b, texts, ⟨hperm, hdeclares⟩, hknown, rfl, rfl⟩ :=
    Compilation.exists_writes hrun
  -- The texts stand in the expression in another order than they were written down in.
  have htokens : ∀ {sigil}, IsSigil sigil →
      (b.finish.tokens sigil).Perm (tokensOf sigil texts) := by
    intro sigil hsigil
    rw [b.tokens_finish hsigil hknown]
    exact hperm.flatMap_right _
  have hvalues : b.finish.values.map Prod.fst = tokensOf valueSigil texts :=
    hdeclares.values hcontext.isSound hlimit
  refine ⟨fun token => ?_, ?_, ?_, hmaps⟩
  · rw [(htokens isSigil_name).mem_iff]
    exact ((hdeclares.names hcontext.isSound hlimit token).trans
      (or_iff_right List.not_mem_nil)).symm
  · rw [hvalues]
    exact htokens isSigil_value
  · rw [(htokens isSigil_value).nodup_iff, ← hvalues]
    exact hdeclares.nodup List.nodup_nil

/-- Placeholders that begin alike, in a context that has noted one of them for another name, and a
    version that is not in the documents. -/
theorem tokens_run_of_like_placeholders :
    ∃ expression after,
      (Compilation.versioned (.ofNamed [("A1", .int 0)]) (.ofNamed [("A", .int 2)])
        ⟨"a", .text "<", some (.int 3), true⟩ false).run
          (stateAfter (updateExpression .emptyMap (.ofNamed [("a", .int 1)]) false false)
            ⟨.text "", 1, []⟩) = .ok expression after ∧
      (∀ token, token ∈ expression.tokens nameSigil ↔ token ∈ ["#a", "#a1", "#a2"]) ∧
      (expression.tokens valueSigil).Perm [":a", ":a3"] := by
  have hdeclared : ((outcome? (Compilation.versioned (.ofNamed [("A1", .int 0)])
      (.ofNamed [("A", .int 2)]) ⟨"a", .text "<", some (.int 3), true⟩ false).run
        (stateAfter (updateExpression .emptyMap (.ofNamed [("a", .int 1)]) false false)
          ⟨.text "", 1, []⟩)).map fun r =>
        (r.1.names.map Prod.fst, r.1.values.map Prod.fst, r.2.counter)) =
      some (["#a", "#a1", "#a2"], [":a", ":a3"], 4) := by
    decide +kernel
  obtain ⟨⟨expression, after⟩, hrun, hresult⟩ := Option.map_eq_some_iff.mp hdeclared
  obtain ⟨hnames, hrest⟩ := Prod.mk.inj hresult
  obtain ⟨hvalues, hcounter⟩ := Prod.mk.inj hrest
  have hrun := eq_ok_of_outcome? hrun
  have hlimit : after.counter < counterLimit := by
    rw [hcounter]
    decide
  obtain ⟨hname, hvalue, -⟩ := Compilation.tokens_run
    (.updated .emptyMap (.ofNamed [("a", .int 1)]) false false (.fresh (.text "") 1)) hrun hlimit
  rw [hnames] at hname
  rw [hvalues] at hvalue
  exact ⟨expression, after, hrun, hname, hvalue⟩

end Compiling

end ItemDelta
